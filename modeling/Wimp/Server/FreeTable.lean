import Wimp.Server.Free
import Mathlib.Data.List.Count

/-!
# Releasing the process table

The last act of a server is to free its process table.  The data behind the
entries is released by a loop of its own, in front of the loop which destroys
the entries of all buckets.  The first loop follows the links of the first
entry which is found, and so never leaves its bucket.
-/

namespace Wimp.Server.FreeTable

open Wimp.Lib.ByteRegion
open Wimp.Lib.Runs
open Wimp.ProcessTable
open Wimp.Server.Free
open Wimp.Utility.HashTable

/-! ## The calls -/

/-- What the release of a table frees. -/
inductive Release where
  /-- `wimp_process_data_free` on the data of an entry. -/
  | data (entry : HashStringEntry WimpProcessData)
  /-- The entry itself with its key. -/
  | entry (entry : HashStringEntry WimpProcessData)
deriving DecidableEq, Repr

/-- The loop of `wimp_process_table_free`, from an entry on. -/
def dataLoop : EntryPointer WimpProcessData → List Release
  | [] => []
  | entry :: next => .data entry :: dataLoop next

/-- The inner loop of `HashString_destroy`. -/
def destroyChain : EntryPointer WimpProcessData → List Release
  | [] => []
  | delEntry :: nextEntry => .entry delEntry :: destroyChain nextEntry

/-- `HashString_destroy`. -/
def hashStringDestroy {size : Nat} (hash : HashString size WimpProcessData) :
    List Release :=
  hash.table.toList.flatMap destroyChain

/-- `wimp_process_table_free`, with everything it frees in order. -/
def wimpProcessTableFree (table : WimpProcessTable) : List Release :=
  let freed :=
    if 0 < table.tableLength then
      dataLoop (hashStringFirstEntry table.hashTable []).1
    else []
  freed ++ hashStringDestroy table.hashTable

/--
The data of every entry is freed exactly once, and nothing of it after any
entry is destroyed.
-/
structure ReleasedOnce (table : WimpProcessTable) : Prop where
  once :
    ∀ entry ∈ entries table.hashTable,
      (wimpProcessTableFree table).count (.data entry) = 1
  before :
    (wimpProcessTableFree table).Pairwise fun first second =>
      ∀ destroyed freed, first = .entry destroyed → second ≠ .data freed

/-! ## What is freed -/

theorem dataLoop_eq (entry : EntryPointer WimpProcessData) :
    dataLoop entry = entry.map .data := by
  induction entry with
  | nil => rfl
  | cons entry next induction => rw [dataLoop, induction, List.map_cons]

theorem destroyChain_eq (delEntry : EntryPointer WimpProcessData) :
    destroyChain delEntry = delEntry.map .entry := by
  induction delEntry with
  | nil => rfl
  | cons delEntry nextEntry induction =>
      rw [destroyChain, induction, List.map_cons]

/-- Every entry is destroyed, bucket by bucket. -/
theorem hashStringDestroy_eq
    {size : Nat} (hash : HashString size WimpProcessData) :
    hashStringDestroy hash = (entries hash).map .entry := by
  rw [hashStringDestroy, entries, List.map_flatten, List.flatMap]
  congr 1
  exact List.map_congr_left fun chain _ => destroyChain_eq chain

/-- The data of an entry is freed as often as the loop meets the entry. -/
theorem count_data
    {table : WimpProcessTable} (nonempty : 0 < table.tableLength)
    (entry : HashStringEntry WimpProcessData) :
    (wimpProcessTableFree table).count (.data entry) =
      (hashStringFirstEntry table.hashTable []).1.count entry := by
  have injective : Function.Injective Release.data := by
    intro first second same
    exact Release.data.inj same
  have none :
      Release.data entry ∉
        (entries table.hashTable).map Release.entry := by
    intro member
    rcases List.mem_map.mp member with ⟨other, -, same⟩
    cases same
  rw [wimpProcessTableFree, if_pos nonempty, List.count_append,
    hashStringDestroy_eq, List.count_eq_zero.mpr none, dataLoop_eq,
    List.count_map_of_injective _ _ injective, Nat.add_zero]

/-- Data is freed in front of all entries. -/
theorem data_before_entries (table : WimpProcessTable) :
    (wimpProcessTableFree table).Pairwise fun first second =>
      ∀ destroyed freed, first = .entry destroyed → second ≠ .data freed := by
  rw [wimpProcessTableFree, List.pairwise_append, dataLoop_eq,
    hashStringDestroy_eq]
  refine ⟨?_, ?_, ?_⟩
  · apply List.pairwise_of_forall_mem_list
    intro first member second _ destroyed freed same
    subst same
    split at member
    · rcases List.mem_map.mp member with ⟨other, -, same⟩
      cases same
    · cases member
  · apply List.pairwise_of_forall_mem_list
    intro first _ second member destroyed freed _ same
    subst same
    rcases List.mem_map.mp member with ⟨other, -, same⟩
    cases same
  · intro first member second _ destroyed freed same
    subst same
    split at member
    · rcases List.mem_map.mp member with ⟨other, -, same⟩
      cases same
    · cases member

/-! ## Tables built by additions -/

/-- The names of the table and its length after a run of additions. -/
theorem names_of_built
    {table next : WimpProcessTable}
    {processes : List (CString × WimpProcessData)}
    (built : run addStep table processes = some next) :
    next.tableLength = table.tableLength + processes.length ∧
      ∀ name,
        (hashStringFind next.hashTable name).isSome ↔
          (hashStringFind table.hashTable name).isSome ∨
            ∃ process ∈ processes, process.1.val = name := by
  induction processes generalizing table with
  | nil =>
      rw [run_nil] at built
      cases built
      simp
  | cons process rest induction =>
      rw [run_cons, Option.bind_eq_some_iff] at built
      rcases built with ⟨middle, added, built⟩
      rcases addStep_eq_some added with ⟨absent, rfl⟩
      rcases induction built with ⟨length, names⟩
      constructor
      · rw [length, List.length_cons]
        show table.tableLength + 1 + rest.length = _
        omega
      · intro name
        rw [names name]
        rcases eq_or_ne name process.1.val with rfl | different
        · simp [hashStringFind_add_self absent]
        · rw [hashStringFind_add_of_ne _ different]
          simp [different.symm]

/-- The entries of a table which was built carry the names it was built of. -/
theorem exists_entry_iff
    {table : WimpProcessTable}
    {processes : List (CString × WimpProcessData)}
    (built : run addStep wimpCreateProcessTable processes = some table)
    (name : Bytes) :
    (∃ entry ∈ entries table.hashTable, entry.key = name) ↔
      ∃ process ∈ processes, process.1.val = name := by
  have named : Named table :=
    run_invariant named_of_addStep named_create built
  have names := (names_of_built built).2 name
  rw [wimpCreateProcessTable, hashStringFind_create] at names
  simp only [Option.isSome_none, Bool.false_eq_true, false_or] at names
  rw [← names]
  constructor
  · rintro ⟨entry, member, rfl⟩
    rw [(mem_entries_iff_find named.wellFormed).mp member]
    rfl
  · intro found
    rcases Option.isSome_iff_exists.mp found with ⟨entry, found⟩
    have same := key_of_hashStringFind found
    subst same
    exact ⟨entry, (mem_entries_iff_find named.wellFormed).mpr found, rfl⟩

/-! ## The release -/

/--
The data of every entry of a table is freed exactly once exactly when all
names of the table fall into one bucket.
-/
theorem releasedOnce_iff
    {table : WimpProcessTable}
    {processes : List (CString × WimpProcessData)}
    (built : run addStep wimpCreateProcessTable processes = some table) :
    ReleasedOnce table ↔
      ∀ first ∈ processes, ∀ second ∈ processes,
        hashStringHash wimpProcessTableMaxLength first.1.val =
          hashStringHash wimpProcessTableMaxLength second.1.val := by
  have wellFormed : WellFormed table.hashTable :=
    (run_invariant named_of_addStep named_create built).wellFormed
  have length := (names_of_built built).1
  have nonempty :
      ∀ process ∈ processes, 0 < table.tableLength := by
    intro process member
    have some := List.length_pos_of_mem member
    omega
  constructor
  · intro released first inFirst second inSecond
    -- every entry is met by the loop, which stays in one bucket
    have met :
        ∀ process ∈ processes, ∃ entry,
          entry.key = process.1.val ∧
            entry ∈ (hashStringFirstEntry table.hashTable []).1 := by
      intro process member
      rcases (exists_entry_iff built process.1.val).mpr
        ⟨process, member, rfl⟩ with ⟨entry, inside, same⟩
      refine ⟨entry, same, ?_⟩
      have once := released.once entry inside
      rw [count_data (nonempty process member)] at once
      apply List.count_pos_iff.mp
      omega
    rcases met first inFirst with ⟨left, leftKey, inLeft⟩
    rcases met second inSecond with ⟨right, rightKey, inRight⟩
    rcases hashStringFirstEntry_spec table.hashTable with
      ⟨none, -⟩ | ⟨bucket, found, -⟩
    · rw [none] at inLeft
      cases inLeft
    · rw [found] at inLeft inRight
      rw [← leftKey, ← rightKey,
        wellFormed.placed bucket left inLeft,
        wellFormed.placed bucket right inRight]
  · intro together
    refine ⟨?_, data_before_entries table⟩
    intro entry inside
    rcases (exists_entry_iff built entry.key).mp ⟨entry, inside, rfl⟩ with
      ⟨process, member, same⟩
    rw [count_data (nonempty process member)]
    rcases hashStringFirstEntry_spec table.hashTable with
      ⟨-, none⟩ | ⟨bucket, found, some⟩
    · rw [none] at inside
      cases inside
    · rw [found]
      rcases List.exists_mem_of_ne_nil _ some with ⟨other, inBucket⟩
      have otherInside : other ∈ entries table.hashTable :=
        mem_entries.mpr ⟨bucket, inBucket⟩
      rcases (exists_entry_iff built other.key).mp
        ⟨other, otherInside, rfl⟩ with ⟨process', member', same'⟩
      have sameBucket := together process member process' member'
      rw [same, same', wellFormed.placed bucket other inBucket]
        at sameBucket
      apply List.count_eq_one_of_mem
      · exact (wellFormed.distinct bucket).of_map _
      · rcases mem_entries.mp inside with ⟨home, inHome⟩
        have placed := wellFormed.placed home entry inHome
        rw [sameBucket] at placed
        rw [placed]
        exact inHome

/-- The data of an independent process without a connection. -/
private def unconnectedData : WimpProcessData :=
  { processDomain := []
    processPort := 0
    processConnection := 0
    processRelation := .independent }

/-- The names `a` and `cv` share a bucket. -/
theorem releasedOnce_together :
    ∃ table,
      run addStep wimpCreateProcessTable
          [(.ofBytes [97], unconnectedData),
            (.ofBytes [99, 118], unconnectedData)] = some table ∧
        ReleasedOnce table := by
  have success :
      (run addStep wimpCreateProcessTable
        [(.ofBytes [97], unconnectedData),
          (.ofBytes [99, 118], unconnectedData)]).isSome := by
    decide +kernel
  rcases Option.isSome_iff_exists.mp success with ⟨table, built⟩
  exact ⟨table, built, (releasedOnce_iff built).mpr (by decide +kernel)⟩

/-- Of `a` and `b`, the data of one is never freed. -/
theorem not_releasedOnce_apart :
    ∃ table,
      run addStep wimpCreateProcessTable
          [(.ofBytes [97], unconnectedData),
            (.ofBytes [98], unconnectedData)] = some table ∧
        ¬ ReleasedOnce table := by
  have missed :
      (run addStep wimpCreateProcessTable
        [(.ofBytes [97], unconnectedData),
          (.ofBytes [98], unconnectedData)]).map
          (fun table : WimpProcessTable =>
            decide
              (∃ entry ∈ entries table.hashTable,
                (wimpProcessTableFree table).count (.data entry) ≠ 1)) =
        some true := by
    decide +kernel
  rcases Option.map_eq_some_iff.mp missed with ⟨table, built, found⟩
  rcases of_decide_eq_true found with ⟨entry, member, twice⟩
  exact ⟨table, built, fun released => twice (released.once entry member)⟩

end Wimp.Server.FreeTable
