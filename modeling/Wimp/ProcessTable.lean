import Wimp.Utility.HashTable

/-!
# The process table

A process table maps the names of other processes to the data of their
connections.  The records are owned by the table and handed out by pointer;
the model stores them by value, and a writer puts the changed record back.
-/

namespace Wimp.ProcessTable

open Wimp.Lib.ByteRegion
open Wimp.Utility.HashTable

/-- `WIMP_PROCESS_TABLE_MAX_LENGTH`. -/
abbrev wimpProcessTableMaxLength : Nat := 128

instance : NeZero wimpProcessTableMaxLength :=
  ⟨nofun⟩

/-- `WimpRelation`. -/
inductive WimpRelation where
  | unknown
  | child
  | parent
  | independent
deriving DecidableEq, Repr

/-- A connection socket; sockets are told apart by their numbers. -/
abbrev PSocket := Nat

/-- `WimpProcessData`. -/
structure WimpProcessData where
  processDomain : Bytes
  processPort : Int
  processConnection : PSocket
  processActive : Bool := false
  processRelation : WimpRelation
deriving DecidableEq, Repr

/--
`WimpProcessTable`.  Every entry is a heap block of its own, so that the count
of the entries never reaches the end of a `size_t`.
-/
structure WimpProcessTable where
  hashTable : HashString wimpProcessTableMaxLength WimpProcessData
  tableLength : Nat
deriving DecidableEq, Repr

/-- `wimp_create_process_table`. -/
def wimpCreateProcessTable : WimpProcessTable :=
  { hashTable := hashStringCreate _ _, tableLength := 0 }

/--
`wimp_process_table_add`, with its success flag; `granted` tells whether the
allocations succeed.
-/
def wimpProcessTableAdd (table : WimpProcessTable)
    (processName : Bytes) (processData : WimpProcessData)
    (granted : Bool) : WimpProcessTable × Bool :=
  if (hashStringFind table.hashTable processName).isSome then
    (table, false)
  else if granted then
    ({ hashTable :=
        (hashStringAdd table.hashTable processName
          { processData with processActive := false } true).1
       tableLength := table.tableLength + 1 }, true)
  else
    (table, false)

/--
`wimp_process_table_remove`, with its success flag; `none` is the access
through a `NULL` pointer in the removal loop of the hash table.
-/
def wimpProcessTableRemove (table : WimpProcessTable)
    (processName : Bytes) : Option (WimpProcessTable × Bool) :=
  if (hashStringFind table.hashTable processName).isSome then
    (hashStringRemove table.hashTable processName).map
      fun (hashTable, status) =>
        ({ hashTable, tableLength := table.tableLength - 1 },
          status = 0)
  else
    some (table, false)

/-- `wimp_process_table_get`; a missing name is the `NULL` pointer. -/
def wimpProcessTableGet (table : WimpProcessTable)
    (processName : Option Bytes) : Option WimpProcessData := do
  let processName ← processName
  let val ← hashStringFind table.hashTable processName
  return val.value

/--
A writer changes a record through the pointer which `wimp_process_table_get`
returned.
-/
def WimpProcessTable.modify (table : WimpProcessTable)
    (processName : Bytes) (change : WimpProcessData → WimpProcessData) :
    WimpProcessTable :=
  { table with
    hashTable := hashStringModify table.hashTable processName change }

/-- A change reaches the record of its name, and no other. -/
theorem wimpProcessTableGet_modify
    (table : WimpProcessTable) (processName name : Bytes)
    (change : WimpProcessData → WimpProcessData) :
    wimpProcessTableGet (table.modify processName change) (some name) =
      (wimpProcessTableGet table (some name)).map fun processData =>
        if name = processName then change processData else processData := by
  simp only [wimpProcessTableGet, WimpProcessTable.modify,
    hashStringFind_modify, Option.bind_eq_bind, Option.bind_some]
  cases hashStringFind table.hashTable name with
  | none => rfl
  | some entry =>
      simp only [Option.map_some, Option.bind_some, Option.pure_def]
      split <;> rfl

/-- `wimp_process_table_length`. -/
def wimpProcessTableLength (table : WimpProcessTable) : Nat :=
  table.tableLength

end Wimp.ProcessTable
