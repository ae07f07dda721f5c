import Mathlib.Data.Fintype.Basic
import Wimp.Utility.HashTable
import Wimp.Utility.SimpleArena

/-!
# The shared data table

The processes of a program share a table of slots, each with a name and a
counter of the processes which use its segment.  A process keeps the handles
of the segments it uses in a cache of its own, one entry for each slot, and
finds the slot of a name through a local hash table.

The calls which take the table lock are single steps of the process which
makes them.  A process that crashes inside such a call never gives the lock
back.
-/

namespace Wimp.Data.Table

open Wimp.Lib.ByteRegion
open Wimp.Utility.HashTable
open Wimp.Utility.SimpleArena

/-- `WIMP_MAX_SHARED_SLOTS`. -/
abbrev wimpMaxSharedSlots : Nat := 64

instance : NeZero wimpMaxSharedSlots :=
  ⟨nofun⟩

/-- `WIMP_SHARED_SLOT_MAX_NAME_BYTES`. -/
def wimpSharedSlotMaxNameBytes : Nat := 64

/-- `WimpDataSlot`. -/
structure WimpDataSlot where
  shareCounter : Int := 0
  size : Nat := 0
  dataArena : SArena := {}
  name : Bytes := List.replicate wimpSharedSlotMaxNameBytes 0
deriving DecidableEq, Repr

/-- The slots of the table. -/
abbrev DataTable := Vector WimpDataSlot wimpMaxSharedSlots

/-- The index of a slot. -/
abbrev SlotIndex := Fin wimpMaxSharedSlots

/-- An index of a slot is always in range. -/
instance {Value : Type} :
    GetElem (Vector Value wimpMaxSharedSlots) SlotIndex Value
      fun _ _ => True where
  getElem values index _ := values.get index

section Slots

variable {Value : Type} (values : Vector Value wimpMaxSharedSlots)
variable (index : SlotIndex) (value : Value)

/-- One entry is replaced. -/
def put : Vector Value wimpMaxSharedSlots :=
  values.set index value

@[simp]
theorem getElem_put_self : (put values index value)[index] = value :=
  Vector.getElem_set_self index.isLt

variable {index} in
theorem getElem_put_of_ne {other : SlotIndex} (different : other ≠ index) :
    (put values index value)[other] = values[other] :=
  Vector.getElem_set_ne index.isLt other.isLt
    fun equal => different (Fin.ext equal.symm)

@[simp]
theorem put_put (last : Value) :
    put (put values index value) index last = put values index last :=
  Vector.set_set ..

/-- An entry is replaced by itself. -/
@[simp]
theorem put_getElem_self : put values index values[index] = values :=
  Vector.set_getElem_self index.isLt

@[simp]
theorem getElem_replicate :
    (Vector.replicate wimpMaxSharedSlots value)[index] = value :=
  Vector.getElem_replicate index.isLt

end Slots

/-- A handle of a shared segment; handles are told apart by their numbers. -/
abbrev PShm := Nat

/-- The thread-local state of a process. -/
structure Process where
  dataTableCacheMap : HashString wimpMaxSharedSlots SlotIndex :=
    hashStringCreate _ _
  dataTableCache : Vector (Option PShm) wimpMaxSharedSlots :=
    Vector.replicate _ none
  isTableLinked : Bool := false
  dead : Bool := false
deriving DecidableEq, Repr

/-! ## Names in the memory of the table -/

namespace WimpDataSlot

/-- The offset of the name in a slot. -/
def nameOffset : Nat := 48

/-- The size of a slot. -/
def bytes : Nat := nameOffset + wimpSharedSlotMaxNameBytes

/-- A slot as it lies in memory, with zero padding behind the counter. -/
def encode (slot : WimpDataSlot) : Bytes :=
  toLE 4 (toSizeT slot.shareCounter) ++ toLE 4 0 ++ toLE 8 slot.size ++
    toLE 8 slot.dataArena.arenaSize ++
    toLE 8 slot.dataArena.arenaCapacity ++
    toLE 8 slot.dataArena.arenaPointer ++ toLE 8 slot.dataArena.data ++
    slot.name

/-- The unsigned word of a field. -/
def field (memory : Bytes) (offset width : Nat) : Nat :=
  ofLE ((memory.drop offset).take width)

/-- The slot which lies at the start of a piece of memory. -/
def decode (memory : Bytes) : WimpDataSlot :=
  { shareCounter := toInt32 (field memory 0 4)
    size := field memory 8 8
    dataArena :=
      { arenaSize := field memory 16 8
        arenaCapacity := field memory 24 8
        arenaPointer := field memory 32 8
        data := field memory 40 8 }
    name := (memory.drop nameOffset).take wimpSharedSlotMaxNameBytes }

end WimpDataSlot

/-- The memory of the table from a slot on. -/
def memoryFrom (table : DataTable) (index : Nat) : Bytes :=
  (table.toList.drop index).flatMap WimpDataSlot.encode

/--
`memcpy` of a string to the name of a slot.  A string which is longer than
the name runs on over the following slots, and is undefined when it leaves
the table.
-/
def copyName (table : DataTable) (index : SlotIndex) (text : CString) :
    Option DataTable :=
  let source := terminated text
  let slot := table[index]
  if source.length ≤ wimpSharedSlotMaxNameBytes then
    some
      (put table index
        { slot with name := source ++ slot.name.drop source.length })
  else
    (splice (memoryFrom table index) WimpDataSlot.nameOffset source).map
      fun memory =>
        Vector.ofFn fun other : SlotIndex =>
          if other < index then table[other]
          else
            .decode (memory.drop ((other - index) * WimpDataSlot.bytes))

/--
`strcmp` of the name of a slot, undefined when the comparison leaves the
table.
-/
def nameIs (table : DataTable) (index : SlotIndex) (name : CString) :
    Option Bool :=
  strcmpEq (table[index].name ++ memoryFrom table (index + 1))
    (terminated name)

/-! ## Searching the table -/

/-- The first free slot. -/
def findFree (table : DataTable) : Option SlotIndex :=
  (List.finRange wimpMaxSharedSlots).find? fun index =>
    table[index].shareCounter = 0

/-- The loop which looks for the slot of a name. -/
def searchLoop (table : DataTable) (name : CString) :
    List SlotIndex → Option (Option SlotIndex)
  | [] => some none
  | index :: rest => do
      if table[index].shareCounter ≠ 0 then
        let found ← nameIs table index name
        if found then return some index
      searchLoop table name rest

/-- The slot in use under a name; the outer `none` is a crash. -/
def findName (table : DataTable) (name : CString) :
    Option (Option SlotIndex) :=
  searchLoop table name (List.finRange wimpMaxSharedSlots)

/-! ## The calls -/

/-- How a call ends. -/
inductive Ending where
  | success
  | fail
  | crash
deriving DecidableEq, Repr

/-- The table and the caller behind a call. -/
structure Outcome where
  table : DataTable
  process : Process
  ending : Ending
deriving DecidableEq, Repr

/-- The caller crashed inside the call. -/
def Outcome.crashed (outcome : Outcome) : Bool :=
  outcome.ending == .crash

/-- What the shared memory calls return: a handle with its size, an error. -/
structure ShmResult where
  shm : Option (PShm × Nat)
  err : Bool
deriving DecidableEq, Repr

/-- `p_shm_get_size`; a null handle has size zero. -/
def ShmResult.size (result : ShmResult) : Nat :=
  (result.shm.map Prod.snd).getD 0

/-- The handle put into the cache. -/
def ShmResult.handle (result : ShmResult) : Option PShm :=
  result.shm.map Prod.fst

/-- `HashString_add` of an index, given whether its entry is granted. -/
def Process.cacheName (process : Process) (name : CString)
    (index : SlotIndex) (granted : Bool) : Process :=
  { process with
    dataTableCacheMap :=
      (hashStringAdd process.dataTableCacheMap name.val index granted).1 }

/--
`wimp_data_reserve`, given what `wimp_create_fresh_shm` returns.  The slot is
named before the segment is there.
-/
def wimpDataReserve (reservedName : CString) (size : Nat)
    (fresh : ShmResult) (granted : Bool) (table : DataTable)
    (process : Process) : Outcome :=
  match findFree table with
  | none => ⟨table, process, .fail⟩
  | some index =>
      match copyName table index reservedName with
      | none => ⟨table, process, .crash⟩
      | some table =>
          if fresh.err ∨ fresh.size < size then
            ⟨table, process, .fail⟩
          else
            let slot := table[index]
            let process :=
              { process with
                dataTableCache :=
                  put process.dataTableCache index fresh.handle }
            ⟨put table index
                { slot with
                  dataArena := (sarenaInit slot.dataArena 0 size).1
                  shareCounter := addInt32 slot.shareCounter 1
                  size },
              process.cacheName reservedName index granted, .success⟩

/-- `wimp_data_link_to_data`, given what `p_shm_new` returns. -/
def wimpDataLinkToData (name : CString) (opened : ShmResult)
    (granted : Bool) (table : DataTable) (process : Process) : Outcome :=
  match findName table name with
  | none => ⟨table, process, .crash⟩
  | some none => ⟨table, process, .fail⟩
  | some (some index) =>
      if process.dataTableCache[index].isSome then
        ⟨table, process, .fail⟩
      else
        let slot := table[index]
        let process :=
          { process with
            dataTableCache :=
              put process.dataTableCache index opened.handle }
        ⟨put table index
            { slot with shareCounter := addInt32 slot.shareCounter 1 },
          process.cacheName name index granted, .success⟩

/-- The end of a slot which nobody uses any more. -/
def clearSlot (slot : WimpDataSlot) : WimpDataSlot :=
  { shareCounter := 0
    size := 0
    dataArena := (sarenaInit slot.dataArena 0 0).1
    name := List.replicate wimpSharedSlotMaxNameBytes 0 }

/--
`wimp_data_unlink_from_data`.  The counter goes down whether or not the caller
is linked, and the caller crashes when its hash table does.
-/
def wimpDataUnlinkFromData (name : CString) (table : DataTable)
    (process : Process) : Outcome :=
  match findName table name with
  | none => ⟨table, process, .crash⟩
  | some none => ⟨table, process, .success⟩
  | some (some index) =>
      let slot :=
        { table[index] with
          shareCounter := addInt32 table[index].shareCounter (-1) }
      let process :=
        { process with
          dataTableCache := put process.dataTableCache index none }
      match hashStringRemove process.dataTableCacheMap name.val with
      | none => ⟨put table index slot, process, .crash⟩
      | some (dataTableCacheMap, _) =>
          ⟨put table index
              (if slot.shareCounter ≤ 0 then clearSlot slot else slot),
            { process with dataTableCacheMap }, .success⟩

/--
`wimp_data_unlink_from_process`: the caller drops its handles and the entries
of its hash table, and the shared table is not looked at.
-/
def wimpDataUnlinkFromProcess (process : Process) : Process :=
  if process.isTableLinked then
    { process with
      dataTableCache := Vector.replicate _ none
      dataTableCacheMap := hashStringCreate _ _
      isTableLinked := false }
  else
    process

/-- A successful `wimp_data_link_to_process`. -/
def wimpDataLinkToProcess (process : Process) : Process :=
  if process.isTableLinked then process
  else
    { process with
      dataTableCache := Vector.replicate _ none
      dataTableCacheMap := hashStringCreate _ _
      isTableLinked := true }

/-! ## The processes as a transition system -/

/-- The table, the processes, and whether its lock was lost in a crash. -/
structure Config (count : Nat) where
  table : DataTable := Vector.replicate _ {}
  processes : Fin count → Process := fun _ => {}
  lost : Bool := false

/-- The calls of the processes. -/
inductive Action (count : Nat) where
  | linkToProcess (caller : Fin count)
  | reserve (caller : Fin count) (reservedName : CString) (size : Nat)
      (fresh : ShmResult) (granted : Bool)
  | linkToData (caller : Fin count) (name : CString) (opened : ShmResult)
      (granted : Bool)
  | unlinkFromData (caller : Fin count) (name : CString)
  | unlinkFromProcess (caller : Fin count)
deriving DecidableEq, Repr

variable {count : Nat}

/-- The next state of one process. -/
def Config.setProcess (config : Config count) (caller : Fin count)
    (process : Process) : Config count :=
  { config with
    processes := Function.update config.processes caller process }

/--
A call which works on the table under its lock.  A process which has no table
dies of the null pointer, and nobody gets the lock which a crash has lost.
-/
def Config.call (config : Config count) (caller : Fin count)
    (operation : DataTable → Process → Outcome) : Option (Config count) :=
  let process := config.processes caller
  if process.isTableLinked then
    if config.lost then none
    else
      let outcome := operation config.table process
      some
        ({ config with
            table := outcome.table
            lost := outcome.crashed }.setProcess caller
          { outcome.process with dead := outcome.crashed })
  else
    some (config.setProcess caller { process with dead := true })

/-- The process which makes a call. -/
def Action.caller : Action count → Fin count
  | .linkToProcess caller => caller
  | .reserve caller _ _ _ _ => caller
  | .linkToData caller _ _ _ => caller
  | .unlinkFromData caller _ => caller
  | .unlinkFromProcess caller => caller

/-- One call of one process; a dead process makes none. -/
def step (config : Config count) (action : Action count) :
    Option (Config count) :=
  if (config.processes action.caller).dead then none
  else
    match action with
    | .linkToProcess caller =>
        some
          (config.setProcess caller
            (wimpDataLinkToProcess (config.processes caller)))
    | .reserve caller reservedName size fresh granted =>
        config.call caller
          (wimpDataReserve reservedName size fresh granted)
    | .linkToData caller name opened granted =>
        config.call caller (wimpDataLinkToData name opened granted)
    | .unlinkFromData caller name =>
        config.call caller (wimpDataUnlinkFromData name)
    | .unlinkFromProcess caller =>
        some
          (config.setProcess caller
            (wimpDataUnlinkFromProcess (config.processes caller)))

end Wimp.Data.Table
