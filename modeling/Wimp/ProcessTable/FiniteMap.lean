import Wimp.ProcessTable
import Wimp.Lib.Runs
import Mathlib.Data.Finmap

/-!
# The process table as a finite map

The interface of the process table is that of a finite map from names to
process data.  The map below answers every sequence of calls; the process
table gives the same answers until a removal names the second entry of its
chain, where it reads through a `NULL` pointer.
-/

namespace Wimp.ProcessTable.FiniteMap

open Wimp.Lib.ByteRegion
open Wimp.Lib.Runs
open Wimp.Utility.HashTable

/-! ## Calls and results -/

/-- A call of the process table interface. -/
inductive Call where
  | add (processName : CString) (processData : WimpProcessData)
  | remove (processName : CString)
  | get (processName : Option CString)
  | length
deriving DecidableEq, Repr

/-- The result of a call. -/
inductive Result where
  | status (success : Bool)
  | data (processData : Option WimpProcessData)
  | length (count : Nat)
deriving DecidableEq, Repr

/--
One call on the table, whose allocations succeed; `none` is the access through
a `NULL` pointer.
-/
def serve (table : WimpProcessTable) :
    Call → Option (WimpProcessTable × Result)
  | .add processName processData =>
      let (next, success) :=
        wimpProcessTableAdd table processName.val processData true
      some (next, .status success)
  | .remove processName =>
      (wimpProcessTableRemove table processName.val).map
        fun (next, success) => (next, .status success)
  | .get processName =>
      some
        (table,
          .data (wimpProcessTableGet table (processName.map Subtype.val)))
  | .length => some (table, .length (wimpProcessTableLength table))

/-- The results of a sequence of calls, when every call completes. -/
def serveAll : WimpProcessTable → List Call → Option (List Result)
  | _, [] => some []
  | table, call :: calls =>
      (serve table call).bind fun (next, result) =>
        (serveAll next calls).map (result :: ·)

/-- The table which a call leaves. -/
def step (table : WimpProcessTable) (call : Call) :
    Option WimpProcessTable :=
  (serve table call).map Prod.fst

/-! ## The finite map -/

/-- The purpose of the table: a finite map from names to process data. -/
abbrev ProcessMap := Finmap fun _ : Bytes => WimpProcessData

/--
The answer of the finite map.  A new process is not active before its
connection is accepted.
-/
def answer (processes : ProcessMap) : Call → ProcessMap × Result
  | .add processName processData =>
      if processName.val ∈ processes then
        (processes, .status false)
      else
        (processes.insert processName.val
          { processData with processActive := false }, .status true)
  | .remove processName =>
      (processes.erase processName.val,
        .status (processName.val ∈ processes))
  | .get none => (processes, .data none)
  | .get (some processName) =>
      (processes, .data (processes.lookup processName.val))
  | .length => (processes, .length processes.keys.card)

/-- The answers of the finite map to a sequence of calls. -/
def answerAll : ProcessMap → List Call → List Result
  | _, [] => []
  | processes, call :: calls =>
      (answer processes call).2 :: answerAll (answer processes call).1 calls

/-! ## The representation -/

/-- The table holds exactly the entries of the map. -/
structure Represents (table : WimpProcessTable)
    (processes : ProcessMap) : Prop where
  wellFormed : WellFormed table.hashTable
  lookup :
    ∀ name,
      (hashStringFind table.hashTable name).map HashStringEntry.value =
        processes.lookup name
  length : table.tableLength = processes.keys.card

theorem represents_create : Represents wimpCreateProcessTable ∅ := by
  refine ⟨wellFormed_create, ?_, rfl⟩
  intro name
  simp [wimpCreateProcessTable]

/-- A name is found where the map has it. -/
theorem Represents.isSome_find
    {table : WimpProcessTable} {processes : ProcessMap}
    (represents : Represents table processes) (name : Bytes) :
    (hashStringFind table.hashTable name).isSome ↔ name ∈ processes := by
  rw [← Finmap.lookup_isSome, ← represents.lookup name,
    Option.isSome_map]

/-- A removal must not name the second entry of its chain. -/
def Allowed (table : WimpProcessTable) : Call → Prop
  | .remove processName => ¬ IsSecond table.hashTable processName.val
  | _ => True

instance (table : WimpProcessTable) :
    ∀ call, Decidable (Allowed table call)
  | .add _ _ => inferInstanceAs (Decidable True)
  | .remove processName =>
      inferInstanceAs
        (Decidable (¬ IsSecond table.hashTable processName.val))
  | .get _ => inferInstanceAs (Decidable True)
  | .length => inferInstanceAs (Decidable True)

/-- The second entry of a chain is found under its key. -/
theorem isSome_find_of_isSecond
    {hash : HashString size Value} [NeZero size] {key : Bytes}
    (second : IsSecond hash key) :
    (hashStringFind hash key).isSome := by
  rcases Option.map_eq_some_iff.mp second with ⟨entry, at_one, same⟩
  apply (isSome_hashStringFind hash key).mpr
  exact List.mem_map.mpr ⟨entry, List.mem_of_getElem? at_one, same⟩

/-! ## One call -/

theorem serve_add
    {table : WimpProcessTable} {processes : ProcessMap}
    (represents : Represents table processes)
    (processName : CString) (processData : WimpProcessData) :
    ∃ next,
      serve table (.add processName processData) =
          some (next, (answer processes (.add processName processData)).2) ∧
        Represents next
          (answer processes (.add processName processData)).1 := by
  have found := represents.isSome_find processName.val
  by_cases present : processName.val ∈ processes
  · refine ⟨table, ?_, ?_⟩
    · simp [serve, answer, wimpProcessTableAdd, found.mpr present, present]
    · simpa [answer, present] using represents
  · have absent : hashStringFind table.hashTable processName.val = none := by
      rw [← Option.not_isSome_iff_eq_none, found]
      exact present
    refine
      ⟨{ hashTable :=
            (hashStringAdd table.hashTable processName.val
              { processData with processActive := false } true).1
         tableLength := table.tableLength + 1 }, ?_, ?_⟩
    · simp [serve, wimpProcessTableAdd, absent, answer, present]
    · simp only [answer, if_neg present]
      constructor
      case wellFormed =>
        exact wellFormed_add represents.wellFormed _ _ _
      case lookup =>
        intro name
        rcases eq_or_ne name processName.val with rfl | different
        · simp [hashStringFind_add_self absent]
        · rw [hashStringFind_add_of_ne _ different,
            Finmap.lookup_insert_of_ne _ different]
          exact represents.lookup name
      case length =>
        have keys :
            (processes.insert processName.val
              { processData with processActive := false }).keys =
              insert processName.val processes.keys := by
          ext name
          simp [Finmap.mem_keys]
        rw [keys, Finset.card_insert_of_notMem
          (by simpa [Finmap.mem_keys] using present), represents.length]

theorem serve_remove
    {table : WimpProcessTable} {processes : ProcessMap}
    (represents : Represents table processes)
    {processName : CString}
    (allowed : Allowed table (.remove processName)) :
    ∃ next,
      serve table (.remove processName) =
          some (next, (answer processes (.remove processName)).2) ∧
        Represents next (answer processes (.remove processName)).1 := by
  have found := represents.isSome_find processName.val
  by_cases present : processName.val ∈ processes
  · have removed :
        hashStringRemove table.hashTable processName.val =
          some (withoutKey table.hashTable processName.val, 0) := by
      rw [hashStringRemove_eq represents.wellFormed (found.mpr present)]
      exact if_neg allowed
    refine
      ⟨{ hashTable := withoutKey table.hashTable processName.val
         tableLength := table.tableLength - 1 }, ?_, ?_⟩
    · simp [serve, wimpProcessTableRemove, found.mpr present, removed,
        answer, present]
    · simp only [answer]
      constructor
      case wellFormed =>
        exact wellFormed_withoutKey represents.wellFormed _
      case lookup =>
        intro name
        rcases eq_or_ne name processName.val with rfl | different
        · simp
        · rw [hashStringFind_withoutKey_of_ne _ different,
            Finmap.lookup_erase_ne different]
          exact represents.lookup name
      case length =>
        rw [Finmap.keys_erase, Finset.card_erase_of_mem
          (Finmap.mem_keys.mpr present), ← represents.length]
  · have absent : (hashStringFind table.hashTable processName.val).isSome =
        false := by
      simpa using fun some => present (found.mp some)
    have unchanged : processes.erase processName.val = processes := by
      apply Finmap.ext_lookup
      intro name
      rcases eq_or_ne name processName.val with rfl | different
      · rw [Finmap.lookup_erase]
        exact (Finmap.lookup_eq_none.mpr present).symm
      · rw [Finmap.lookup_erase_ne different]
    refine ⟨table, ?_, ?_⟩
    · simp [serve, wimpProcessTableRemove, absent, answer, present]
    · simpa [answer, unchanged] using represents

/-- An allowed call is answered like the call on the map. -/
theorem serve_of_allowed
    {table : WimpProcessTable} {processes : ProcessMap} {call : Call}
    (represents : Represents table processes)
    (allowed : Allowed table call) :
    ∃ next,
      serve table call = some (next, (answer processes call).2) ∧
        Represents next (answer processes call).1 := by
  cases call with
  | add processName processData =>
      exact serve_add represents processName processData
  | remove processName => exact serve_remove represents allowed
  | get processName =>
      refine ⟨table, ?_, ?_⟩
      · cases processName with
        | none => rfl
        | some processName =>
            have read :
                wimpProcessTableGet table (some processName.val) =
                  processes.lookup processName.val := by
              rw [← represents.lookup processName.val]
              simp only [wimpProcessTableGet, Option.bind_eq_bind,
                Option.bind_some]
              cases hashStringFind table.hashTable processName.val <;> rfl
            simp only [serve, Option.map_some, read, answer]
      · cases processName <;> exact represents
  | length =>
      refine ⟨table, ?_, represents⟩
      simp only [serve, wimpProcessTableLength, answer, represents.length]

/-- Any other call reads through a `NULL` pointer. -/
theorem serve_of_not_allowed
    {table : WimpProcessTable} {processes : ProcessMap} {call : Call}
    (represents : Represents table processes)
    (refused : ¬ Allowed table call) :
    serve table call = none := by
  cases call with
  | remove processName =>
      have second : IsSecond table.hashTable processName.val :=
        Decidable.not_not.mp refused
      have present := isSome_find_of_isSecond second
      simp only [serve, wimpProcessTableRemove, if_pos present,
        hashStringRemove_eq represents.wellFormed present, if_pos second]
      rfl
  | add processName processData => exact absurd trivial refused
  | get processName => exact absurd trivial refused
  | length => exact absurd trivial refused

/-! ## Sequences of calls -/

/-- The table and the map part where a call is not allowed. -/
theorem serveAll_eq_iff
    {table : WimpProcessTable} {processes : ProcessMap}
    (represents : Represents table processes) (calls : List Call) :
    serveAll table calls = some (answerAll processes calls) ↔
      Along step Allowed table calls := by
  induction calls generalizing table processes with
  | nil => simp [serveAll, answerAll, Along]
  | cons call calls induction =>
      by_cases allowed : Allowed table call
      · rcases serve_of_allowed represents allowed with
          ⟨next, served, represents⟩
        have stepped : step table call = some next := by
          rw [step, served, Option.map_some]
        simp only [serveAll, served, Option.bind_some, answerAll, Along,
          allowed, stepped, true_and, Option.some.injEq, forall_eq',
          ← induction represents]
        cases serveAll next calls <;> simp
      · have crashed := serve_of_not_allowed represents allowed
        simp [serveAll, crashed, Along, allowed]

/--
Every call of a sequence completes and every result agrees with the finite map
exactly when no removal names the second entry of its chain.
-/
theorem refinesMap_iff
    (calls : List Call) :
    serveAll wimpCreateProcessTable calls = some (answerAll ∅ calls) ↔
      Along step Allowed wimpCreateProcessTable calls :=
  serveAll_eq_iff represents_create calls

/-- The data of an independent process without a connection. -/
private def plainData : WimpProcessData :=
  { processDomain := []
    processPort := 0
    processConnection := 0
    processRelation := .independent }

/--
The names `a` and `cv` share a chain; the removal of the older of the two
reads through a `NULL` pointer.
-/
theorem not_refinesMap_second :
    serveAll wimpCreateProcessTable
        [.add (.ofBytes [97]) plainData,
          .add (.ofBytes [99, 118]) plainData,
          .remove (.ofBytes [97])] ≠
      some
        (answerAll ∅
          [.add (.ofBytes [97]) plainData,
            .add (.ofBytes [99, 118]) plainData,
            .remove (.ofBytes [97])]) := by
  have crashed :
      serveAll wimpCreateProcessTable
        [.add (.ofBytes [97]) plainData,
          .add (.ofBytes [99, 118]) plainData,
          .remove (.ofBytes [97])] = none := by
    decide +kernel
  rw [crashed]
  nofun

end Wimp.ProcessTable.FiniteMap
