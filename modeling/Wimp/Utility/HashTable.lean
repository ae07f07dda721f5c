import Wimp.Lib.ByteRegion

/-!
# The string hash table

`HashString` is an array of chains.  A key goes to the chain selected by its
FNV-1a hash; a chain is searched from its front, and a new entry becomes the
front of its chain.  The model keeps the chains, so that the search order and
the removal loop of the source can be compared line by line.

The removal loop steps to the next entry twice before it looks at a key.  It
never looks at the second entry of a chain and leaves a chain of two or more
entries through a `NULL` pointer unless it meets the key from the third entry
on.
-/

namespace Wimp.Utility.HashTable

open Wimp.Lib.ByteRegion

/-- `HashStringEntry`; the chain itself is the list of its entries. -/
structure HashStringEntry (Value : Type) where
  key : Bytes
  value : Value
deriving DecidableEq, Repr

/-- `HashString`. -/
structure HashString (size : Nat) (Value : Type) where
  table : Vector (List (HashStringEntry Value)) size
deriving DecidableEq, Repr

/-- `HashString_create`. -/
def hashStringCreate (size : Nat) (Value : Type) : HashString size Value :=
  { table := Vector.replicate size [] }

/-- `FNV_OFFSET_BASIS`. -/
def fnvOffsetBasis : UInt32 := 0x811C9DC5

/-- `FNV_PRIME`. -/
def fnvPrime : UInt32 := 0x01000193

/-- The FNV-1a hash of a string. -/
def fnvHash (key : Bytes) : UInt32 :=
  key.foldl
    (fun hashValue byte => (hashValue ^^^ byte.toUInt32) * fnvPrime)
    fnvOffsetBasis

variable {size : Nat} [NeZero size] {Value : Type}

/-- `HashString_hash`, for a table of the given size. -/
def hashStringHash (size : Nat) [NeZero size] (key : Bytes) : Fin size :=
  ⟨(fnvHash key).toNat % size, Nat.mod_lt _ (NeZero.pos size)⟩

/-- The chain of a key. -/
def chain (hash : HashString size Value) (key : Bytes) :
    List (HashStringEntry Value) :=
  hash.table[hashStringHash size key]

/-- `HashString_find`. -/
def hashStringFind (hash : HashString size Value) (key : Bytes) :
    Option (HashStringEntry Value) :=
  (chain hash key).find? fun entry => entry.key = key

/--
`HashString_add`, returning the table and the status; `granted` tells whether
the allocations of the entry succeed.
-/
def hashStringAdd (hash : HashString size Value) (key : Bytes)
    (value : Value) (granted : Bool) : HashString size Value × Int :=
  if (hashStringFind hash key).isSome then
    (hash, 1)
  else if granted then
    ({ table :=
        hash.table.set (hashStringHash size key)
          ({ key, value } :: chain hash key) }, 0)
  else
    (hash, 2)

/--
The loop of `HashString_remove`, entered in front of the third entry;
`none` is the access through the `NULL` pointer at the end of the chain.
-/
def removeLoop (key : Bytes) :
    List (HashStringEntry Value) → Option (List (HashStringEntry Value))
  | [] => none
  | currEntry :: rest =>
      if currEntry.key = key then
        some rest
      else
        (removeLoop key rest).map (currEntry :: ·)

/-- `HashString_remove` on one chain. -/
def removeChain (key : Bytes) :
    List (HashStringEntry Value) →
      Option (List (HashStringEntry Value) × Int)
  | [] => some ([], 1)
  | first :: rest =>
      if first.key = key then
        some (rest, 0)
      else
        match rest with
        | [] => some ([first], 1)
        | second :: rest =>
            (removeLoop key rest).map fun rest =>
              (first :: second :: rest, 0)

/-- `HashString_remove`. -/
def hashStringRemove (hash : HashString size Value) (key : Bytes) :
    Option (HashString size Value × Int) :=
  (removeChain key (chain hash key)).map fun (entries, status) =>
    ({ table := hash.table.set (hashStringHash size key) entries }, status)

/-- The value behind the entry of a key in a chain is changed in place. -/
def modifyChain (key : Bytes) (change : Value → Value) :
    List (HashStringEntry Value) → List (HashStringEntry Value)
  | [] => []
  | entry :: rest =>
      if entry.key = key then
        { entry with value := change entry.value } :: rest
      else entry :: modifyChain key change rest

/-- A writer changes the value behind a key through the pointer it got. -/
def hashStringModify (hash : HashString size Value) (key : Bytes)
    (change : Value → Value) : HashString size Value :=
  { table :=
      hash.table.set (hashStringHash size key)
        (modifyChain key change (chain hash key)) }

/-! ## Searching -/

theorem key_of_hashStringFind
    {hash : HashString size Value} {key : Bytes}
    {entry : HashStringEntry Value}
    (found : hashStringFind hash key = some entry) :
    entry.key = key := by
  simpa using List.find?_some found

/-- A new entry is found under its key. -/
theorem hashStringFind_add_self
    {hash : HashString size Value} {key : Bytes}
    (absent : hashStringFind hash key = none) (value : Value) :
    hashStringFind (hashStringAdd hash key value true).1 key =
      some { key, value } := by
  rw [hashStringAdd, absent]
  simp [hashStringFind, chain]

/-- A new entry hides no other key. -/
theorem hashStringFind_add_of_ne
    (hash : HashString size Value) {key other : Bytes}
    (different : other ≠ key) (value : Value) (granted : Bool) :
    hashStringFind (hashStringAdd hash key value granted).1 other =
      hashStringFind hash other := by
  unfold hashStringAdd
  split_ifs
  · rfl
  · rcases eq_or_ne (hashStringHash size other) (hashStringHash size key)
      with same | apart
    · simp [hashStringFind, chain, same, different.symm]
    · have positions :
          (hashStringHash size key : Nat) ≠ hashStringHash size other :=
        fun equal => apart (Fin.ext equal.symm)
      simp [hashStringFind, chain, Vector.getElem_set_ne, positions]
  · rfl

@[simp]
theorem hashStringFind_create (key : Bytes) :
    hashStringFind (hashStringCreate size Value) key = none := by
  simp [hashStringFind, chain, hashStringCreate]

theorem find_modifyChain
    (key other : Bytes) (change : Value → Value)
    (entries : List (HashStringEntry Value)) :
    ((modifyChain key change entries).find? fun entry =>
        entry.key = other) =
      (entries.find? fun entry => entry.key = other).map fun entry =>
        if other = key then { entry with value := change entry.value }
        else entry := by
  induction entries with
  | nil => rfl
  | cons entry rest induction =>
      by_cases here : entry.key = key
      · subst here
        rw [modifyChain, if_pos rfl]
        rcases eq_or_ne entry.key other with rfl | different
        · simp
        · simp [different, different.symm]
      · rw [modifyChain, if_neg here]
        rcases eq_or_ne entry.key other with rfl | different
        · simp [here]
        · rw [List.find?_cons_of_neg (by simpa using different),
            List.find?_cons_of_neg (by simpa using different), induction]

/-- A change in place is found under its key, and under no other. -/
theorem hashStringFind_modify
    (hash : HashString size Value) (key other : Bytes)
    (change : Value → Value) :
    hashStringFind (hashStringModify hash key change) other =
      (hashStringFind hash other).map fun entry =>
        if other = key then { entry with value := change entry.value }
        else entry := by
  rcases eq_or_ne (hashStringHash size other) (hashStringHash size key)
    with same | apart
  · simp only [hashStringFind, chain, hashStringModify, same,
      Fin.getElem_fin, Vector.getElem_set_self]
    exact find_modifyChain key other change _
  · have different : other ≠ key := fun equal => apart (by rw [equal])
    have positions :
        (hashStringHash size key : Nat) ≠ hashStringHash size other :=
      fun equal => apart (Fin.ext equal.symm)
    simp [hashStringFind, chain, hashStringModify, Vector.getElem_set_ne,
      positions, different]

/-! ## Tables in order -/

/-- Every entry is in the chain of its key, and no chain repeats a key. -/
structure WellFormed (hash : HashString size Value) : Prop where
  placed :
    ∀ bucket : Fin size, ∀ entry ∈ hash.table[bucket],
      hashStringHash size entry.key = bucket
  distinct :
    ∀ bucket : Fin size,
      (hash.table[bucket].map HashStringEntry.key).Nodup

theorem wellFormed_create : WellFormed (hashStringCreate size Value) := by
  constructor <;> simp [hashStringCreate]

/-- A chain is replaced by another one in order. -/
theorem WellFormed.set
    {hash : HashString size Value} (wellFormed : WellFormed hash)
    (bucket : Fin size) {entries : List (HashStringEntry Value)}
    (placed :
      ∀ entry ∈ entries, hashStringHash size entry.key = bucket)
    (distinct : (entries.map HashStringEntry.key).Nodup) :
    WellFormed
      ({ table := hash.table.set bucket entries } :
        HashString size Value) := by
  have each (other : Fin size) :
      (hash.table.set bucket entries)[other] =
        if other = bucket then entries else hash.table[other] := by
    by_cases same : other = bucket
    · subst same
      simp
    · have positions : (bucket : Nat) ≠ other :=
        fun equal => same (Fin.ext equal.symm)
      simp [same, Vector.getElem_set_ne, positions]
  constructor
  case placed =>
    intro other entry member
    rw [each] at member
    split at member
    · rename_i same
      rw [same]
      exact placed entry member
    · exact wellFormed.placed other entry member
  case distinct =>
    intro other
    rw [each]
    split
    · exact distinct
    · exact wellFormed.distinct other

/-- A key which is not found is not in its chain. -/
theorem key_ne_of_not_found
    {hash : HashString size Value} {key : Bytes}
    (absent : hashStringFind hash key = none) :
    ∀ entry ∈ chain hash key, entry.key ≠ key := by
  intro entry member
  simpa using List.find?_eq_none.mp absent entry member

theorem wellFormed_add
    {hash : HashString size Value} (wellFormed : WellFormed hash)
    (key : Bytes) (value : Value) (granted : Bool) :
    WellFormed (hashStringAdd hash key value granted).1 := by
  unfold hashStringAdd
  split
  · exact wellFormed
  · rename_i absent
    split
    · apply wellFormed.set
      · intro entry member
        rcases List.mem_cons.mp member with rfl | old
        · rfl
        · exact wellFormed.placed _ entry old
      · rw [List.map_cons, List.nodup_cons]
        refine ⟨?_, wellFormed.distinct _⟩
        rintro member
        rcases List.mem_map.mp member with ⟨entry, old, same⟩
        exact key_ne_of_not_found (by simpa using absent) entry old same
    · exact wellFormed

/-! ## Removing -/

/-- The key is that of the second entry of its chain. -/
def IsSecond (hash : HashString size Value) (key : Bytes) : Prop :=
  ((chain hash key)[1]?).map HashStringEntry.key = some key

instance (hash : HashString size Value) (key : Bytes) :
    Decidable (IsSecond hash key) :=
  inferInstanceAs (Decidable (_ = _))

/-- Filtering a key out changes nothing where the key is absent. -/
theorem filter_ne_of_not_mem
    {key : Bytes} {entries : List (HashStringEntry Value)}
    (absent : key ∉ entries.map HashStringEntry.key) :
    (entries.filter fun entry => entry.key ≠ key) = entries := by
  apply List.filter_eq_self.mpr
  intro entry member
  have different : entry.key ≠ key := fun same =>
    absent (List.mem_map.mpr ⟨entry, member, same⟩)
  exact decide_eq_true different

/-- The loop takes its key out, wherever it finds it. -/
theorem removeLoop_eq
    {key : Bytes} {entries : List (HashStringEntry Value)}
    (distinct : (entries.map HashStringEntry.key).Nodup) :
    removeLoop key entries =
      if key ∈ entries.map HashStringEntry.key then
        some (entries.filter fun entry => entry.key ≠ key)
      else none := by
  induction entries with
  | nil => rfl
  | cons entry rest induction =>
      rw [List.map_cons, List.nodup_cons] at distinct
      rw [removeLoop, induction distinct.2]
      by_cases same : entry.key = key
      · subst same
        rw [List.filter_cons_of_neg (by simp),
          filter_ne_of_not_mem distinct.1]
        simp
      · have flipped : key ≠ entry.key := fun equal => same equal.symm
        rw [List.filter_cons_of_pos (by simpa using same)]
        simp only [if_neg same, List.map_cons, List.mem_cons, flipped,
          false_or]
        split <;> rfl

/-- A chain loses its key, unless the key is the second one. -/
theorem removeChain_eq
    {key : Bytes} {entries : List (HashStringEntry Value)}
    (distinct : (entries.map HashStringEntry.key).Nodup)
    (present : key ∈ entries.map HashStringEntry.key) :
    removeChain key entries =
      if (entries[1]?).map HashStringEntry.key = some key then none
      else
        some (entries.filter fun entry => entry.key ≠ key, 0) := by
  rcases entries with _ | ⟨first, rest⟩
  · cases present
  rw [List.map_cons, List.nodup_cons] at distinct
  by_cases same : first.key = key
  · subst same
    have notSecond :
        ((first :: rest)[1]?).map HashStringEntry.key ≠
          some first.key := by
      rintro second
      rcases rest with _ | ⟨next, rest⟩
      · cases second
      · apply distinct.1
        have same : next.key = first.key := by simpa using second
        rw [← same]
        exact List.mem_cons_self
    rw [if_neg notSecond, List.filter_cons_of_neg (by simp),
      filter_ne_of_not_mem distinct.1]
    simp [removeChain]
  · have below : key ∈ rest.map HashStringEntry.key := by
      rcases List.mem_cons.mp present with here | below
      · exact absurd here.symm same
      · exact below
    rcases rest with _ | ⟨second, rest⟩
    · cases below
    rw [List.map_cons, List.nodup_cons] at distinct
    rw [List.filter_cons_of_pos (by simpa using same)]
    simp only [removeChain, if_neg same, removeLoop_eq distinct.2.2]
    by_cases here : second.key = key
    · subst here
      rw [if_neg distinct.2.1]
      simp
    · have deeper : key ∈ rest.map HashStringEntry.key := by
        rcases List.mem_cons.mp below with at_second | deeper
        · exact absurd at_second.symm here
        · exact deeper
      rw [if_pos deeper, List.filter_cons_of_pos (by simpa using here)]
      simp [here]

/-- The table whose chain of a key has lost that key. -/
def withoutKey (hash : HashString size Value) (key : Bytes) :
    HashString size Value :=
  { table :=
      hash.table.set (hashStringHash size key)
        ((chain hash key).filter fun entry => entry.key ≠ key) }

theorem chain_distinct
    {hash : HashString size Value} (wellFormed : WellFormed hash)
    (key : Bytes) :
    ((chain hash key).map HashStringEntry.key).Nodup :=
  wellFormed.distinct (hashStringHash size key)

/-- A key is found where one of the entries of its chain carries it. -/
theorem isSome_hashStringFind
    (hash : HashString size Value) (key : Bytes) :
    (hashStringFind hash key).isSome ↔
      key ∈ (chain hash key).map HashStringEntry.key := by
  simp [hashStringFind, List.find?_isSome]

/-- Only the chain of the second entry cannot lose its key. -/
theorem hashStringRemove_eq
    {hash : HashString size Value} (wellFormed : WellFormed hash)
    {key : Bytes} (present : (hashStringFind hash key).isSome) :
    hashStringRemove hash key =
      if IsSecond hash key then none
      else some (withoutKey hash key, 0) := by
  have member := (isSome_hashStringFind hash key).mp present
  rw [hashStringRemove,
    removeChain_eq (chain_distinct wellFormed key) member]
  by_cases second : IsSecond hash key
  · rw [if_pos second, if_pos (show _ = _ from second)]
    rfl
  · rw [if_neg second, if_neg (show ¬ _ = _ from second)]
    rfl

/--
A removal comes to its end: the key is not that of a second entry, and one
which is absent is looked for in a chain of one entry at most.
-/
def Removable (hash : HashString size Value) (key : Bytes) : Prop :=
  ¬ IsSecond hash key ∧
    ((hashStringFind hash key).isSome ∨ (chain hash key).length ≤ 1)

instance (hash : HashString size Value) (key : Bytes) :
    Decidable (Removable hash key) :=
  inferInstanceAs (Decidable (¬ _ ∧ (_ = _ ∨ _ ≤ _)))

/-- A removed key is gone. -/
@[simp]
theorem hashStringFind_withoutKey_self
    (hash : HashString size Value) (key : Bytes) :
    hashStringFind (withoutKey hash key) key = none := by
  simp [hashStringFind, chain, withoutKey]

/-- A removal hides no other key. -/
theorem hashStringFind_withoutKey_of_ne
    (hash : HashString size Value) {key other : Bytes}
    (different : other ≠ key) :
    hashStringFind (withoutKey hash key) other =
      hashStringFind hash other := by
  rcases eq_or_ne (hashStringHash size other) (hashStringHash size key)
    with same | apart
  · simp only [withoutKey, hashStringFind, chain, same, Fin.getElem_fin,
      Vector.getElem_set_self, List.find?_filter]
    congr 1
    funext entry
    rcases eq_or_ne entry.key other with here | elsewhere
    · simp [here, different]
    · simp [elsewhere]
  · have positions :
        (hashStringHash size key : Nat) ≠ hashStringHash size other :=
      fun equal => apart (Fin.ext equal.symm)
    simp [withoutKey, hashStringFind, chain, Vector.getElem_set_ne,
      positions]

theorem wellFormed_withoutKey
    {hash : HashString size Value} (wellFormed : WellFormed hash)
    (key : Bytes) :
    WellFormed (withoutKey hash key) := by
  apply wellFormed.set
  · intro entry member
    exact wellFormed.placed _ entry (List.mem_of_mem_filter member)
  · exact (chain_distinct wellFormed key).sublist
      (List.filter_sublist.map _)

/-- The loop does not find an absent key. -/
theorem removeLoop_of_absent
    {key : Bytes} {entries : List (HashStringEntry Value)}
    (absent : ∀ entry ∈ entries, entry.key ≠ key) :
    removeLoop key entries = none := by
  induction entries with
  | nil => rfl
  | cons entry rest induction =>
      have rest := induction fun other member =>
        absent other (List.mem_cons_of_mem _ member)
      rw [removeLoop, if_neg (absent entry (List.mem_cons_self ..)), rest]
      rfl

/-- A removal which ends leaves a chain without an absent key as it is. -/
theorem removeChain_of_absent
    {key : Bytes} {entries after : List (HashStringEntry Value)}
    {status : Int} (absent : ∀ entry ∈ entries, entry.key ≠ key)
    (removed : removeChain key entries = some (after, status)) :
    after = entries := by
  rcases entries with _ | ⟨first, rest⟩
  · cases removed
    rfl
  have different := absent first (List.mem_cons_self ..)
  rcases rest with _ | ⟨second, rest⟩
  · simp only [removeChain, if_neg different] at removed
    cases removed
    rfl
  · have missing : removeLoop key rest = none :=
      removeLoop_of_absent fun other member =>
        absent other
          (List.mem_cons_of_mem _ (List.mem_cons_of_mem _ member))
    simp [removeChain, different, missing] at removed

/-- Where the key is absent, only the short chains are searched to an end. -/
theorem isSome_removeChain_of_absent
    {key : Bytes} {entries : List (HashStringEntry Value)}
    (absent : ∀ entry ∈ entries, entry.key ≠ key) :
    (removeChain key entries).isSome ↔ entries.length ≤ 1 := by
  rcases entries with _ | ⟨first, rest⟩
  · simp [removeChain]
  have different := absent first (List.mem_cons_self ..)
  rcases rest with _ | ⟨second, rest⟩
  · simp [removeChain, different]
  · have missing : removeLoop key rest = none :=
      removeLoop_of_absent fun other member =>
        absent other
          (List.mem_cons_of_mem _ (List.mem_cons_of_mem _ member))
    simp [removeChain, different, missing]

/-- A removal comes to its end exactly when the key is removable. -/
theorem isSome_hashStringRemove_iff
    {hash : HashString size Value} (wellFormed : WellFormed hash)
    (key : Bytes) :
    (hashStringRemove hash key).isSome ↔ Removable hash key := by
  by_cases present : (hashStringFind hash key).isSome
  · rw [hashStringRemove_eq wellFormed present]
    by_cases second : IsSecond hash key
    · simp [Removable, second]
    · simp [Removable, second, present]
  · have absent := key_ne_of_not_found (by simpa using present)
    have first : ¬ IsSecond hash key := by
      intro second
      rcases Option.map_eq_some_iff.mp second with ⟨entry, listed, same⟩
      exact absent entry (List.mem_of_getElem? listed) same
    rw [hashStringRemove, Option.isSome_map,
      isSome_removeChain_of_absent absent]
    simp [Removable, first, present]

/-- A removal which ends has lost its key, and no other. -/
theorem hashStringRemove_spec
    {hash after : HashString size Value} {key : Bytes} {status : Int}
    (wellFormed : WellFormed hash)
    (removed : hashStringRemove hash key = some (after, status)) :
    WellFormed after ∧ hashStringFind after key = none ∧
      ∀ other, other ≠ key →
        hashStringFind after other = hashStringFind hash other := by
  cases found : hashStringFind hash key with
  | some entry =>
      rw [hashStringRemove_eq wellFormed (by rw [found]; rfl)] at removed
      split at removed
      · cases removed
      · cases removed
        exact
          ⟨wellFormed_withoutKey wellFormed key,
            hashStringFind_withoutKey_self hash key,
            fun other => hashStringFind_withoutKey_of_ne hash⟩
  | none =>
      rcases Option.map_eq_some_iff.mp removed with
        ⟨⟨entries, code⟩, chained, result⟩
      have same := removeChain_of_absent (key_ne_of_not_found found) chained
      cases result
      subst same
      have unchanged :
          ({ table :=
              hash.table.set (hashStringHash size key) (chain hash key) } :
            HashString size Value) = hash := by
        rcases hash with ⟨table⟩
        simp [chain]
      rw [unchanged]
      exact ⟨wellFormed, found, fun _ _ => rfl⟩

end Wimp.Utility.HashTable
