import Wimp.Utility.HashTable
import Mathlib.Data.List.Nodup

/-!
# Walking the string hash table

`HASH_STRING_ITER` keeps an entry pointer and a bucket index.  A pointer to an
entry is the rest of its chain, which starts with that entry; the empty rest
is `NULL`.

Both helper functions advance the index once more after the bucket in which
they find an entry.  The index is therefore one ahead of its entry, and the
guard of the loop, which compares it with the size of the table, already fails
for the entries of the last bucket.
-/

namespace Wimp.Utility.HashTable


variable {size : Nat} {Value : Type}

/-- A pointer to an entry: the entry and what follows it in its chain. -/
abbrev EntryPointer (Value : Type) := List (HashStringEntry Value)

/--
The loop shared by `HashString_firstEntry` and `HashString_nextEntry`, for at
most the given number of buckets.
-/
def bucketLoop (hash : HashString size Value) :
    Nat → EntryPointer Value → Nat → EntryPointer Value × Nat
  | 0, entry, i => (entry, i)
  | buckets + 1, entry, i =>
      if within : i < size then
        if entry = [] then bucketLoop hash buckets hash.table[i] (i + 1)
        else (entry, i)
      else (entry, i)

/-- `HashString_firstEntry`. -/
def hashStringFirstEntry (hash : HashString size Value)
    (entry : EntryPointer Value) : EntryPointer Value × Nat :=
  bucketLoop hash size entry 0

/-- `HashString_nextEntry`. -/
def hashStringNextEntry (hash : HashString size Value)
    (entry : EntryPointer Value) (i : Nat) : EntryPointer Value × Nat :=
  match entry with
  | [] => ([], size)
  | _ :: next =>
      if next = [] then bucketLoop hash size next i
      else (next, i)

/--
The loop of `HASH_STRING_ITER` from a pointer and an index on: the entries for
which its body runs, when the loop ends within the given number of rounds.
-/
def hashStringLoop (hash : HashString size Value) :
    Nat → EntryPointer Value → Nat →
      Option (List (HashStringEntry Value))
  | 0, _, _ => none
  | rounds + 1, entry, i =>
      match entry with
      | [] => some []
      | current :: _ =>
          if i < size then
            let (following, i) := hashStringNextEntry hash entry i
            (hashStringLoop hash rounds following i).map (current :: ·)
          else some []

/-- All entries of the table, bucket by bucket. -/
def entries (hash : HashString size Value) :
    List (HashStringEntry Value) :=
  hash.table.toList.flatten

/--
The entries visited by `HASH_STRING_ITER`.  No walk has more rounds than there
are entries.
-/
def hashStringIter (hash : HashString size Value) :
    Option (List (HashStringEntry Value)) :=
  let (entry, i) := hashStringFirstEntry hash []
  hashStringLoop hash ((entries hash).length + 1) entry i

/-! ## What a walk visits -/

/-- The entries of all buckets but the last. -/
def visited (hash : HashString size Value) :
    List (HashStringEntry Value) :=
  (hash.table.toList.take (size - 1)).flatten

/-- The entries of the last bucket. -/
def unvisited (hash : HashString size Value) :
    List (HashStringEntry Value) :=
  (hash.table.toList.drop (size - 1)).flatten

theorem visited_append_unvisited (hash : HashString size Value) :
    visited hash ++ unvisited hash = entries hash := by
  rw [visited, unvisited, ← List.flatten_append, List.take_append_drop,
    entries]

theorem mem_entries_of_visited
    {hash : HashString size Value} {entry : HashStringEntry Value}
    (member : entry ∈ visited hash) :
    entry ∈ entries hash := by
  rw [← visited_append_unvisited]
  exact List.mem_append_left _ member

/-- The entries which a walk has still to visit. -/
def remaining (hash : HashString size Value) (entry : EntryPointer Value)
    (i : Nat) : List (HashStringEntry Value) :=
  if i < size then
    entry ++ ((hash.table.toList.take (size - 1)).drop i).flatten
  else []

theorem remaining_of_lt
    (hash : HashString size Value) (entry : EntryPointer Value)
    {i : Nat} (within : i < size) :
    remaining hash entry i =
      entry ++ ((hash.table.toList.take (size - 1)).drop i).flatten :=
  if_pos within

theorem remaining_of_le
    (hash : HashString size Value) (entry : EntryPointer Value)
    {i : Nat} (beyond : size ≤ i) :
    remaining hash entry i = [] :=
  if_neg (Nat.not_lt.mpr beyond)

/-- A bucket which is entered is removed from what is still to come. -/
theorem remaining_bucket
    (hash : HashString size Value) {i : Nat} (within : i < size) :
    remaining hash hash.table[i] (i + 1) = remaining hash [] i := by
  rw [remaining_of_lt hash [] within, List.nil_append]
  by_cases inside : i + 1 < size
  · have split :
        (hash.table.toList.take (size - 1)).drop i =
          hash.table[i] ::
            (hash.table.toList.take (size - 1)).drop (i + 1) := by
      rw [List.drop_eq_getElem_cons (by simp; omega)]
      simp
    rw [remaining_of_lt hash _ inside, split, List.flatten_cons]
  · have atLast : i = size - 1 := by omega
    rw [remaining_of_le hash _ (by omega), List.drop_of_length_le
      (by simp; omega), List.flatten_nil]

/-- The loop over the buckets skips nothing. -/
theorem remaining_bucketLoop
    (hash : HashString size Value) (buckets : Nat)
    (entry : EntryPointer Value) (i : Nat) :
    remaining hash (bucketLoop hash buckets entry i).1
        (bucketLoop hash buckets entry i).2 =
      remaining hash entry i := by
  induction buckets generalizing entry i with
  | zero => rfl
  | succ buckets induction =>
      rw [bucketLoop]
      split
      · rename_i within
        split
        · rename_i null
          rw [null, induction]
          exact remaining_bucket hash within
        · rfl
      · rfl

/-- The loop over the buckets ends at an entry or at the end of the table. -/
theorem bucketLoop_stops
    (hash : HashString size Value) {buckets : Nat}
    (entry : EntryPointer Value) {i : Nat}
    (enough : size ≤ i + buckets)
    (null : (bucketLoop hash buckets entry i).1 = []) :
    size ≤ (bucketLoop hash buckets entry i).2 := by
  induction buckets generalizing entry i with
  | zero => exact enough
  | succ buckets induction =>
      rw [bucketLoop] at null ⊢
      split at null
      · rename_i within
        rw [dif_pos within]
        split at null
        · rename_i empty
          rw [if_pos empty]
          exact induction _ (by omega) null
        · exact absurd null ‹_›
      · rename_i beyond
        rw [dif_neg beyond]
        exact Nat.not_lt.mp beyond

/-- The next entry is the next of the entries still to come. -/
theorem remaining_nextEntry
    (hash : HashString size Value)
    (current : HashStringEntry Value) (next : EntryPointer Value)
    {i : Nat} (within : i < size) :
    remaining hash (current :: next) i =
      current ::
        remaining hash (hashStringNextEntry hash (current :: next) i).1
          (hashStringNextEntry hash (current :: next) i).2 := by
  rw [remaining_of_lt hash _ within, List.cons_append,
    ← remaining_of_lt hash next within]
  congr 1
  simp only [hashStringNextEntry]
  split
  · exact (remaining_bucketLoop hash size next i).symm
  · rfl

theorem nextEntry_stops
    (hash : HashString size Value)
    (current : HashStringEntry Value) (next : EntryPointer Value)
    (i : Nat)
    (null : (hashStringNextEntry hash (current :: next) i).1 = []) :
    size ≤ (hashStringNextEntry hash (current :: next) i).2 := by
  simp only [hashStringNextEntry] at null ⊢
  split at null
  · rename_i empty
    rw [if_pos empty]
    exact bucketLoop_stops hash next (by omega) null
  · exact absurd null ‹_›

/-- The loop visits what it has still to visit, and ends. -/
theorem hashStringLoop_eq
    (hash : HashString size Value) {rounds : Nat}
    {entry : EntryPointer Value} {i : Nat}
    (stops : entry = [] → size ≤ i)
    (enough : (remaining hash entry i).length < rounds) :
    hashStringLoop hash rounds entry i = some (remaining hash entry i) := by
  induction rounds generalizing entry i with
  | zero => cases enough
  | succ rounds induction =>
      rcases entry with _ | ⟨current, next⟩
      · rw [remaining_of_le hash _ (stops rfl)]
        rfl
      · by_cases within : i < size
        · have split := remaining_nextEntry hash current next within
          rw [split, List.length_cons] at enough
          have rest :=
            induction (nextEntry_stops hash current next i)
              (Nat.lt_of_succ_lt_succ enough)
          simp only [hashStringLoop, if_pos within]
          rw [rest, split]
          rfl
        · rw [remaining_of_le hash _ (Nat.not_lt.mp within)]
          simp only [hashStringLoop, if_neg within]

/-- The whole walk visits every bucket but the last. -/
theorem hashStringIter_eq
    (hash : HashString size Value) :
    hashStringIter hash = some (visited hash) := by
  have first :
      remaining hash (hashStringFirstEntry hash []).1
          (hashStringFirstEntry hash []).2 =
        visited hash := by
    rw [hashStringFirstEntry, remaining_bucketLoop, remaining]
    split
    · rfl
    · rename_i empty
      have none : size = 0 := by omega
      subst none
      simp [visited]
  have fewer : (visited hash).length ≤ (entries hash).length := by
    rw [← visited_append_unvisited, List.length_append]
    omega
  have stops :
      (hashStringFirstEntry hash []).1 = [] →
        size ≤ (hashStringFirstEntry hash []).2 :=
    bucketLoop_stops hash [] (by omega)
  show
    hashStringLoop hash ((entries hash).length + 1)
        (hashStringFirstEntry hash []).1 (hashStringFirstEntry hash []).2 =
      some (visited hash)
  rw [hashStringLoop_eq hash stops, first]
  rw [first]
  omega

/-! ## The first entry -/

/-- An entry which is found ends the loop over the buckets. -/
theorem bucketLoop_of_ne
    (hash : HashString size Value) (buckets : Nat)
    {entry : EntryPointer Value} (found : entry ≠ []) (i : Nat) :
    (bucketLoop hash buckets entry i).1 = entry := by
  cases buckets with
  | zero => rfl
  | succ buckets =>
      rw [bucketLoop]
      split_ifs <;> rfl

/-- The loop over the buckets ends at a chain, or all of them are empty. -/
theorem bucketLoop_spec
    (hash : HashString size Value) (buckets i : Nat) :
    ((bucketLoop hash buckets [] i).1 = [] ∧
        ∀ bucket : Fin size, i ≤ bucket → bucket < i + buckets →
          hash.table.get bucket = []) ∨
      ∃ bucket : Fin size,
        (bucketLoop hash buckets [] i).1 = hash.table.get bucket ∧
          hash.table.get bucket ≠ [] := by
  induction buckets generalizing i with
  | zero =>
      left
      refine ⟨rfl, ?_⟩
      intro bucket above below
      omega
  | succ buckets induction =>
      rw [bucketLoop]
      split
      · rename_i within
        rw [if_pos rfl]
        by_cases empty : hash.table[i] = []
        · rw [empty]
          rcases induction (i + 1) with ⟨none, others⟩ | found
          · left
            refine ⟨none, ?_⟩
            intro bucket above below
            rcases Nat.eq_or_lt_of_le above with here | later
            · show hash.table[bucket] = []
              simp only [Fin.getElem_fin, ← here]
              exact empty
            · exact others bucket later (by omega)
          · exact Or.inr found
        · right
          refine ⟨⟨i, within⟩, ?_, empty⟩
          exact bucketLoop_of_ne hash buckets empty (i + 1)
      · rename_i beyond
        left
        refine ⟨rfl, ?_⟩
        intro bucket above _
        have below := bucket.isLt
        omega

/-! ## Entries and their buckets -/

theorem mem_visited
    {hash : HashString size Value} {entry : HashStringEntry Value} :
    entry ∈ visited hash ↔
      ∃ bucket : Fin size,
        (bucket : Nat) < size - 1 ∧ entry ∈ hash.table.get bucket := by
  rw [visited, List.mem_flatten]
  constructor
  · rintro ⟨chain, taken, member⟩
    rcases List.mem_take_iff_getElem.mp taken with ⟨i, within, same⟩
    have below : i < size := by
      simp only [Vector.length_toList] at within
      omega
    refine ⟨⟨i, below⟩, ?_, ?_⟩
    · simp only [Vector.length_toList] at within
      show i < size - 1
      omega
    · rw [← same] at member
      show entry ∈ hash.table[i]
      simpa using member
  · rintro ⟨bucket, early, member⟩
    refine ⟨hash.table[bucket], ?_, member⟩
    apply List.mem_take_iff_getElem.mpr
    refine ⟨bucket, ?_, ?_⟩
    · simp only [Vector.length_toList]
      omega
    · simp

theorem mem_entries
    {hash : HashString size Value} {entry : HashStringEntry Value} :
    entry ∈ entries hash ↔
      ∃ bucket : Fin size, entry ∈ hash.table.get bucket := by
  rw [entries, List.mem_flatten]
  constructor
  · rintro ⟨chain, member, inside⟩
    rcases List.getElem_of_mem member with ⟨i, within, same⟩
    have below : i < size := by simpa using within
    refine ⟨⟨i, below⟩, ?_⟩
    rw [← same] at inside
    show entry ∈ hash.table[i]
    simpa using inside
  · rintro ⟨bucket, inside⟩
    exact ⟨hash.table[bucket], by simp, inside⟩

/-- The first entry starts a chain, unless the table is empty. -/
theorem hashStringFirstEntry_spec
    (hash : HashString size Value) :
    (hashStringFirstEntry hash []).1 = [] ∧ entries hash = [] ∨
      ∃ bucket : Fin size,
        (hashStringFirstEntry hash []).1 = hash.table.get bucket ∧
          hash.table.get bucket ≠ [] := by
  rcases bucketLoop_spec hash size 0 with ⟨none, empty⟩ | found
  · left
    refine ⟨none, ?_⟩
    rw [List.eq_nil_iff_forall_not_mem]
    intro entry member
    rcases mem_entries.mp member with ⟨bucket, inside⟩
    rw [empty bucket (Nat.zero_le _) (by omega)] at inside
    cases inside
  · exact Or.inr found

/-- Where no key is repeated, an entry is found under its own key. -/
theorem find_eq_some_of_mem
    {chain : List (HashStringEntry Value)}
    (distinct : (chain.map HashStringEntry.key).Nodup)
    {entry : HashStringEntry Value} (member : entry ∈ chain) :
    (chain.find? fun other => other.key = entry.key) = some entry := by
  induction chain with
  | nil => cases member
  | cons first rest induction =>
      rw [List.map_cons, List.nodup_cons] at distinct
      rcases List.mem_cons.mp member with rfl | below
      · simp
      · have different : first.key ≠ entry.key := fun same =>
          distinct.1 (List.mem_map.mpr ⟨entry, below, same.symm⟩)
        rw [List.find?_cons_of_neg (by simpa using different)]
        exact induction distinct.2 below

/-- The entries of a table in order are those found under their keys. -/
theorem mem_entries_iff_find
    [NeZero size] {hash : HashString size Value}
    (wellFormed : WellFormed hash) {entry : HashStringEntry Value} :
    entry ∈ entries hash ↔ hashStringFind hash entry.key = some entry := by
  constructor
  · intro member
    rcases mem_entries.mp member with ⟨bucket, inside⟩
    have placed := wellFormed.placed bucket entry inside
    have here : entry ∈ chain hash entry.key := by
      subst placed
      exact inside
    exact find_eq_some_of_mem (chain_distinct wellFormed entry.key) here
  · intro found
    exact mem_entries.mpr
      ⟨hashStringHash size entry.key, List.mem_of_find?_eq_some found⟩

/-- In a table in order, a walk misses the keys of the last bucket. -/
theorem mem_visited_iff
    [NeZero size] {hash : HashString size Value}
    (wellFormed : WellFormed hash) {entry : HashStringEntry Value}
    (member : entry ∈ entries hash) :
    entry ∈ visited hash ↔
      (hashStringHash size entry.key : Nat) ≠ size - 1 := by
  rcases mem_entries.mp member with ⟨bucket, inside⟩
  have placed := wellFormed.placed bucket entry inside
  rw [mem_visited]
  constructor
  · rintro ⟨other, early, inside⟩
    have placed := wellFormed.placed other entry inside
    rw [placed]
    omega
  · intro early
    refine ⟨bucket, ?_, inside⟩
    rw [placed] at early
    omega

/-- No key is repeated in a table in order. -/
theorem nodup_keys_entries
    [NeZero size] {hash : HashString size Value}
    (wellFormed : WellFormed hash) :
    ((entries hash).map HashStringEntry.key).Nodup := by
  rw [entries, List.map_flatten, List.nodup_flatten]
  constructor
  · intro keys member
    rcases List.mem_map.mp member with ⟨chain, stored, rfl⟩
    rcases List.getElem_of_mem stored with ⟨i, within, rfl⟩
    have below : i < size := by simpa using within
    simpa using wellFormed.distinct ⟨i, below⟩
  · rw [List.pairwise_map]
    apply List.pairwise_iff_getElem.mpr
    intro i j before within earlier key left right
    rcases List.mem_map.mp left with ⟨first, inFirst, rfl⟩
    rcases List.mem_map.mp right with ⟨second, inSecond, same⟩
    have below : j < size := by simpa using within
    -- The key names its bucket, so that it cannot be in two of them.
    have inI := wellFormed.placed ⟨i, by omega⟩ first
      (by simpa using inFirst)
    have inJ := wellFormed.placed ⟨j, below⟩ second
      (by simpa using inSecond)
    rw [same, inI] at inJ
    have equal : i = j := congrArg Fin.val inJ
    omega

end Wimp.Utility.HashTable
