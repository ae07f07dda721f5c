import Wimp.Data.RefCount

/-!
# Names in the data table

A slot in use has a name, and a process finds the slot of a name through its
local hash table.  As long as no reservation repeats the name of a slot in
use, names tell the slots apart, and the local tables point to the slots of
their names.

A process is linked to a slot when it keeps a handle of its segment or an
entry of its name.  The counter of a slot never falls below the number of the
processes which are linked to it, so that a slot stays in use as long as
somebody is.
-/

namespace Wimp.Data.Registry

open Wimp.Lib.ByteRegion
open Wimp.Utility.HashTable
open Wimp.Utility.SimpleArena
open Wimp.Data.Table
open Wimp.Data.RefCount (Holds)

variable {count : Nat}

/-! ## Slots and their names -/

/-- The slot is in use. -/
def Used (slot : WimpDataSlot) : Prop :=
  slot.shareCounter ≠ 0

instance (slot : WimpDataSlot) : Decidable (Used slot) :=
  inferInstanceAs (Decidable (¬ _ = _))

/-- The slot has a name, terminated inside its field. -/
def Named (slot : WimpDataSlot) (name : CString) : Prop :=
  terminated name.val <+: slot.name

instance (slot : WimpDataSlot) (name : CString) :
    Decidable (Named slot name) :=
  inferInstanceAs (Decidable (_ <+: _))

theorem named_unique
    {slot : WimpDataSlot} {first second : CString}
    (namedFirst : Named slot first) (namedSecond : Named slot second) :
    first = second :=
  CString.eq_of_prefix namedFirst namedSecond

/-- Every slot in use has a name. -/
def AllNamed (table : DataTable) : Prop :=
  ∀ slot : SlotIndex, Used table[slot] → ∃ name, Named table[slot] name

/-- The name of a slot which has one is compared inside its field. -/
theorem nameIs_of_named
    {table : DataTable} {slot : SlotIndex} {name : CString}
    (named : Named table[slot] name) (other : CString) :
    nameIs table slot other = some (decide (name = other)) := by
  rcases named with ⟨rest, split⟩
  have compared :=
    strcmpEq_terminated name.property other.property
      (rest ++ memoryFrom table (slot + 1)) []
  rw [List.append_nil, ← List.append_assoc, split] at compared
  rw [nameIs, compared]
  have same : name.val = other.val ↔ name = other := Subtype.ext_iff.symm
  rw [decide_eq_decide.mpr same]

/-- The search passes a free slot. -/
theorem searchLoop_free
    {table : DataTable} {name : CString} {slot : SlotIndex}
    {rest : List SlotIndex} (free : ¬ Used table[slot]) :
    searchLoop table name (slot :: rest) = searchLoop table name rest := by
  rw [searchLoop, if_neg (show ¬ table[slot].shareCounter ≠ 0 from free)]

/-- The search compares the name of a slot in use. -/
theorem searchLoop_used
    {table : DataTable} {name own : CString} {slot : SlotIndex}
    {rest : List SlotIndex} (used : Used table[slot])
    (named : Named table[slot] own) :
    searchLoop table name (slot :: rest) =
      if own = name then some (some slot)
      else searchLoop table name rest := by
  rw [searchLoop, if_pos (show table[slot].shareCounter ≠ 0 from used),
    nameIs_of_named named]
  by_cases same : own = name <;> simp [same]

/-- The search ends at a slot of the name, or there is none. -/
theorem searchLoop_spec
    {table : DataTable} (allNamed : AllNamed table) (name : CString)
    (slots : List SlotIndex) :
    (∃ slot ∈ slots,
        searchLoop table name slots = some (some slot) ∧
          Used table[slot] ∧ Named table[slot] name) ∨
      searchLoop table name slots = some none ∧
        ∀ slot ∈ slots, Used table[slot] → ¬ Named table[slot] name := by
  induction slots with
  | nil => exact Or.inr ⟨rfl, nofun⟩
  | cons first rest induction =>
      -- Unless the first slot has the name, the search goes on behind it.
      have later
          (continues :
            searchLoop table name (first :: rest) =
              searchLoop table name rest)
          (other : Used table[first] → ¬ Named table[first] name) :
          (∃ slot ∈ first :: rest,
              searchLoop table name (first :: rest) = some (some slot) ∧
                Used table[slot] ∧ Named table[slot] name) ∨
            searchLoop table name (first :: rest) = some none ∧
              ∀ slot ∈ first :: rest,
                Used table[slot] → ¬ Named table[slot] name := by
        rw [continues]
        rcases induction with ⟨slot, member, found⟩ | ⟨missing, none⟩
        · exact Or.inl ⟨slot, List.mem_cons_of_mem _ member, found⟩
        · refine Or.inr ⟨missing, ?_⟩
          intro slot member
          rcases List.mem_cons.mp member with rfl | below
          · exact other
          · exact none slot below
      by_cases used : Used table[first]
      · rcases allNamed first used with ⟨own, named⟩
        have compared := @searchLoop_used table name own first rest used
          named
        by_cases same : own = name
        · subst same
          rw [if_pos rfl] at compared
          exact Or.inl
            ⟨first, List.mem_cons_self .., compared, used, named⟩
        · rw [if_neg same] at compared
          apply later compared
          intro _ namedSlot
          exact same (named_unique named namedSlot)
      · exact later (searchLoop_free used) fun usedSlot =>
          absurd usedSlot used

/-- The slot of a name is found, and no other. -/
theorem findName_spec
    {table : DataTable} (allNamed : AllNamed table) (name : CString) :
    (∃ slot,
        findName table name = some (some slot) ∧
          Used table[slot] ∧ Named table[slot] name) ∨
      findName table name = some none ∧
        ∀ slot : SlotIndex, Used table[slot] → ¬ Named table[slot] name := by
  rcases searchLoop_spec allNamed name (List.finRange _) with
    ⟨slot, -, found⟩ | ⟨missing, none⟩
  · exact Or.inl ⟨slot, found⟩
  · exact Or.inr ⟨missing, fun slot => none slot (List.mem_finRange slot)⟩

theorem used_named_of_findName
    {table : DataTable} (allNamed : AllNamed table) {name : CString}
    {slot : SlotIndex} (found : findName table name = some (some slot)) :
    Used table[slot] ∧ Named table[slot] name := by
  rcases findName_spec allNamed name with
    ⟨other, foundOther, used, named⟩ | ⟨missing, -⟩
  · cases found.symm.trans foundOther
    exact ⟨used, named⟩
  · cases found.symm.trans missing

/-! ## The local hash table -/

/-- The slot which a process finds under a name. -/
def indexOf (process : Process) (name : Bytes) : Option SlotIndex :=
  (hashStringFind process.dataTableCacheMap name).map
    HashStringEntry.value

/-- The process keeps a handle of the slot or an entry for it. -/
def Linked (process : Process) (slot : SlotIndex) : Prop :=
  process.dead = false ∧
    (Holds process slot ∨ ∃ name, indexOf process name = some slot)

/-- A new entry is found under its name, and hides no other. -/
theorem indexOf_cacheName
    {process : Process} {name : CString} {slot found : SlotIndex}
    {granted : Bool} {other : Bytes}
    (present :
      indexOf (process.cacheName name slot granted) other = some found) :
    indexOf process other = some found ∨
      other = name.val ∧ found = slot := by
  unfold indexOf Process.cacheName at present
  rcases eq_or_ne other name.val with same | different
  · subst same
    cases absent : hashStringFind process.dataTableCacheMap name.val with
    | some entry =>
        rw [hashStringAdd, absent] at present
        exact Or.inl present
    | none =>
        cases granted with
        | true =>
            rw [hashStringFind_add_self absent] at present
            cases present
            exact Or.inr ⟨rfl, rfl⟩
        | false =>
            rw [hashStringAdd, absent] at present
            exact Or.inl present
  · rw [hashStringFind_add_of_ne _ different] at present
    exact Or.inl present

/-! ## The registry -/

open Classical in
/-- The processes which are linked to a slot. -/
noncomputable def linkers (config : Config count) (slot : SlotIndex) :
    Finset (Fin count) :=
  Finset.univ.filter fun process => Linked (config.processes process) slot

@[simp]
theorem mem_linkers
    {config : Config count} {process : Fin count} {slot : SlotIndex} :
    process ∈ linkers config slot ↔
      Linked (config.processes process) slot := by
  simp [linkers]

/--
The names tell the slots in use apart, everybody who is linked is counted, and
the local entries point to the slots of their names.
-/
structure Registered (config : Config count) : Prop where
  allNamed : AllNamed config.table
  distinct :
    ∀ (first second : SlotIndex) (name : CString),
      Used config.table[first] → Used config.table[second] →
        Named config.table[first] name →
          Named config.table[second] name → first = second
  counted :
    ∀ slot : SlotIndex,
      ((linkers config slot).card : Int) ≤ config.table[slot].shareCounter
  entries :
    ∀ process (name : Bytes) (slot : SlotIndex),
      (config.processes process).dead = false →
        indexOf (config.processes process) name = some slot →
          ∃ text : CString,
            text.val = name ∧ Named config.table[slot] text
  wellFormed :
    ∀ process, WellFormed (config.processes process).dataTableCacheMap
  bounded :
    ∀ slot : SlotIndex, config.table[slot].shareCounter < 2 ^ 31

/--
The registry reads no more of a slot than its counter and its name, and looks
at the processes which are alive.
-/
theorem Registered.of_similar
    {config next : Config count} (registered : Registered config)
    (alive :
      ∀ process, (next.processes process).dead = false →
        (config.processes process).dead = false)
    (cache :
      ∀ process,
        (next.processes process).dataTableCache =
          (config.processes process).dataTableCache)
    (map :
      ∀ process,
        (next.processes process).dataTableCacheMap =
          (config.processes process).dataTableCacheMap)
    (counter :
      ∀ slot : SlotIndex,
        next.table[slot].shareCounter = config.table[slot].shareCounter)
    (name :
      ∀ slot : SlotIndex,
        next.table[slot].name = config.table[slot].name) :
    Registered next := by
  have used (slot : SlotIndex) :
      Used next.table[slot] ↔ Used config.table[slot] := by
    rw [Used, counter, Used]
  have named (slot : SlotIndex) (text : CString) :
      Named next.table[slot] text ↔ Named config.table[slot] text := by
    rw [Named, name, Named]
  have index (process : Fin count) (text : Bytes) :
      indexOf (next.processes process) text =
        indexOf (config.processes process) text := by
    rw [indexOf, map, indexOf]
  constructor
  case allNamed =>
    intro slot inUse
    rcases registered.allNamed slot ((used slot).mp inUse) with ⟨text, has⟩
    exact ⟨text, (named slot text).mpr has⟩
  case distinct =>
    intro first second text usedFirst usedSecond namedFirst namedSecond
    exact registered.distinct first second text
      ((used first).mp usedFirst) ((used second).mp usedSecond)
      ((named first text).mp namedFirst) ((named second text).mp namedSecond)
  case counted =>
    intro slot
    have fewer : linkers next slot ⊆ linkers config slot := by
      intro process member
      rcases mem_linkers.mp member with ⟨lives, holding | ⟨text, present⟩⟩
      · rw [Holds, cache] at holding
        exact mem_linkers.mpr ⟨alive process lives, Or.inl holding⟩
      · rw [index] at present
        exact mem_linkers.mpr
          ⟨alive process lives, Or.inr ⟨text, present⟩⟩
    have card := Finset.card_le_card fewer
    have counted := registered.counted slot
    rw [counter]
    omega
  case entries =>
    intro process text slot lives present
    rw [index] at present
    rcases registered.entries process text slot (alive process lives)
        present with ⟨own, same, has⟩
    exact ⟨own, same, (named slot own).mpr has⟩
  case wellFormed =>
    intro process
    rw [map]
    exact registered.wellFormed process
  case bounded =>
    intro slot
    rw [counter]
    exact registered.bounded slot

/-- Somebody who is linked keeps the slot in use. -/
theorem Registered.counter_pos
    {config : Config count} (registered : Registered config)
    {process : Fin count} {slot : SlotIndex}
    (linked : Linked (config.processes process) slot) :
    0 < config.table[slot].shareCounter := by
  have counted := registered.counted slot
  have positive : 0 < (linkers config slot).card :=
    Finset.card_pos.mpr ⟨process, mem_linkers.mpr linked⟩
  omega

theorem Registered.used
    {config : Config count} (registered : Registered config)
    {process : Fin count} {slot : SlotIndex}
    (linked : Linked (config.processes process) slot) :
    Used config.table[slot] := by
  have positive := registered.counter_pos linked
  show config.table[slot].shareCounter ≠ 0
  omega

/-- The name which a reservation copies into its field. -/
def withName (slot : WimpDataSlot) (name : CString) : WimpDataSlot :=
  { slot with
    name :=
      terminated name.val ++
        slot.name.drop (terminated name.val).length }

theorem named_withName (slot : WimpDataSlot) (name : CString) :
    Named (withName slot name) name :=
  ⟨_, rfl⟩

/-- The slot of a reservation which succeeds. -/
def reservedSlot (slot : WimpDataSlot) (name : CString) (size : Nat) :
    WimpDataSlot :=
  { withName slot name with
    dataArena :=
      (sarenaInit slot.dataArena 0 size).1
    shareCounter := addInt32 slot.shareCounter 1
    size }

/-- The two slots differ in their counters at most. -/
structure SameContent (slot following : WimpDataSlot) : Prop where
  name : following.name = slot.name
  size : following.size = slot.size
  dataArena : following.dataArena = slot.dataArena

/--
What a call does to the slot which it works on, and what it reserves there.
-/
inductive Move (table : DataTable) (slot following : WimpDataSlot)
    (linked links : Prop) (reservation : Option (CString × Nat)) :
    Prop where
  | kept (counter : following.shareCounter = slot.shareCounter)
      (same : Used slot → SameContent slot following)
      (keeps : links → linked) (nothing : reservation = none)
  | reserved
      (first : (findFree table).map (fun index => table[index]) = some slot)
      (free : ¬ Used slot) (name : CString) (size : Nat)
      (reserves : reservation = some (name, size))
      (following_eq : following = reservedSlot slot name size)
      (new :
        ∀ other : SlotIndex, Used table[other] →
          ¬ Named table[other] name)
  | joined (used : Used slot)
      (room : slot.shareCounter + 1 < 2 ^ 31)
      (counter : following.shareCounter = slot.shareCounter + 1)
      (same : SameContent slot following) (nothing : reservation = none)
  | left (held : linked) (lets : ¬ links)
      (counter : following.shareCounter = slot.shareCounter - 1)
      (same : Used following → SameContent slot following)
      (nothing : reservation = none)

/-- A reserved slot has its first user. -/
theorem shareCounter_reservedSlot
    {slot : WimpDataSlot} (free : ¬ Used slot) (name : CString)
    (size : Nat) : (reservedSlot slot name size).shareCounter = 1 := by
  have zero : slot.shareCounter = 0 := Decidable.not_not.mp free
  show addInt32 slot.shareCounter 1 = 1
  rw [zero]
  rfl

theorem getElem_set_slot
    (table : DataTable) (slot other : SlotIndex)
    (following : WimpDataSlot) :
    (put table slot following)[other] =
      if other = slot then following else table[other] := by
  split
  · rename_i same
    subst same
    exact getElem_put_self table other following
  · rename_i different
    exact getElem_put_of_ne table following different

/-- What a call of one process does to the table and to its caller. -/
structure Effect (config next : Config count) (caller : Fin count)
    (slot : SlotIndex) (following : WimpDataSlot) (process : Process)
    (reservation : Option (CString × Nat)) : Prop where
  alive : (config.processes caller).dead = false
  processes :
    next.processes = Function.update config.processes caller process
  table : next.table = put config.table slot following
  move :
    Move config.table config.table[slot] following
      (Linked (config.processes caller) slot) (Linked process slot)
      reservation
  arena :
    following.dataArena = config.table[slot].dataArena ∨
      ∃ capacity,
        following.dataArena =
          (sarenaInit config.table[slot].dataArena 0 capacity).1
  others :
    ∀ other, other ≠ slot → Linked process other →
      Linked (config.processes caller) other
  entries :
    ∀ (name : Bytes) (found : SlotIndex),
      indexOf process name = some found →
        indexOf (config.processes caller) name = some found ∨
          found = slot ∧
            ∃ text : CString, text.val = name ∧ Named following text
  wellFormed : WellFormed process.dataTableCacheMap

section EffectRules

variable {config next : Config count} {caller : Fin count}
variable {slot : SlotIndex} {following : WimpDataSlot} {process : Process}
variable {reservation : Option (CString × Nat)}

theorem Effect.getElem
    (effect :
      Effect config next caller slot following process reservation)
    (other : SlotIndex) :
    next.table[other] =
      if other = slot then following else config.table[other] := by
  rw [effect.table]
  exact getElem_set_slot config.table slot other following

theorem Effect.process_of_ne
    (effect :
      Effect config next caller slot following process reservation)
    {other : Fin count} (different : other ≠ caller) :
    next.processes other = config.processes other := by
  rw [effect.processes, Function.update_of_ne different]

theorem Effect.process_self
    (effect :
      Effect config next caller slot following process reservation) :
    next.processes caller = process := by
  rw [effect.processes, Function.update_self]

/-- A reservation which succeeds takes the first free slot. -/
theorem Effect.of_reservation
    {name : CString} {size : Nat}
    (effect :
      Effect config next caller slot following process
        (some (name, size))) :
    (findFree config.table).map (fun index => config.table[index]) =
        some config.table[slot] ∧
      ¬ Used config.table[slot] ∧
        following = reservedSlot config.table[slot] name size := by
  cases effect.move with
  | kept counter same keeps nothing => cases nothing
  | reserved first free text length reserves following_eq new =>
      cases reserves
      exact ⟨first, free, following_eq⟩
  | joined used room counter same nothing => cases nothing
  | left held lets counter same nothing => cases nothing

/-- Only the caller can come to be linked. -/
theorem Effect.linkers_subset
    (effect :
      Effect config next caller slot following process reservation)
    (other : SlotIndex) :
    linkers next other ⊆ insert caller (linkers config other) := by
  intro member linked
  rw [Finset.mem_insert]
  by_cases same : member = caller
  · exact Or.inl same
  · rw [mem_linkers, effect.process_of_ne same] at linked
    exact Or.inr (mem_linkers.mpr linked)

/-- A slot to which the caller is not newly linked. -/
theorem Effect.linkers_subset_of_keeps
    (effect :
      Effect config next caller slot following process reservation)
    {other : SlotIndex}
    (keeps :
      Linked process other → Linked (config.processes caller) other) :
    linkers next other ⊆ linkers config other := by
  intro member linked
  rw [mem_linkers] at linked ⊢
  by_cases same : member = caller
  · subst same
    rw [effect.process_self] at linked
    exact keeps linked
  · rwa [effect.process_of_ne same] at linked

/-- A slot which the caller leaves. -/
theorem Effect.linkers_subset_of_lets
    (effect :
      Effect config next caller slot following process reservation)
    {other : SlotIndex} (lets : ¬ Linked process other) :
    linkers next other ⊆ (linkers config other).erase caller := by
  intro member linked
  rw [mem_linkers] at linked
  rw [Finset.mem_erase, mem_linkers]
  by_cases same : member = caller
  · subst same
    rw [effect.process_self] at linked
    exact absurd linked lets
  · rw [effect.process_of_ne same] at linked
    exact ⟨same, linked⟩

/-- The counter still covers everybody who is linked. -/
theorem Effect.counted
    (effect :
      Effect config next caller slot following process reservation)
    (registered : Registered config) (other : SlotIndex) :
    ((linkers next other).card : Int) ≤ next.table[other].shareCounter := by
  have before := registered.counted other
  rw [effect.getElem]
  by_cases same : other = slot
  · subst same
    rw [if_pos rfl]
    cases effect.move with
    | kept counter same keeps nothing =>
        have fewer :=
          Finset.card_le_card (effect.linkers_subset_of_keeps keeps)
        omega
    | reserved first free name size reserves following_eq new =>
        have counter := shareCounter_reservedSlot free name size
        rw [← following_eq] at counter
        have most := Finset.card_le_card (effect.linkers_subset other)
        have grown := Finset.card_insert_le caller (linkers config other)
        have zero : config.table[other].shareCounter = 0 :=
          Decidable.not_not.mp free
        omega
    | joined used room counter same nothing =>
        have most := Finset.card_le_card (effect.linkers_subset other)
        have grown := Finset.card_insert_le caller (linkers config other)
        omega
    | left held lets counter same nothing =>
        have fewer :=
          Finset.card_le_card (effect.linkers_subset_of_lets lets)
        have member : caller ∈ linkers config other := mem_linkers.mpr held
        rw [Finset.card_erase_of_mem member] at fewer
        have positive := Finset.card_pos.mpr ⟨caller, member⟩
        omega
  · rw [if_neg same]
    have fewer := Finset.card_le_card
      (effect.linkers_subset_of_keeps (effect.others other same))
    omega

/-- A slot in use keeps the name which it had, or was reserved just now. -/
theorem Effect.used_cases
    (effect :
      Effect config next caller slot following process reservation)
    (registered : Registered config) (used : Used following) :
    (Used config.table[slot] ∧
        SameContent config.table[slot] following) ∨
      ∃ name size,
        reservation = some (name, size) ∧
          (findFree config.table).map (fun index => config.table[index]) =
              some config.table[slot] ∧
            following = reservedSlot config.table[slot] name size ∧
          ∀ other : SlotIndex, Used config.table[other] →
              ¬ Named config.table[other] name := by
  cases effect.move with
  | kept counter same keeps nothing =>
      have before : Used config.table[slot] := by
        rw [Used, counter] at used
        exact used
      exact Or.inl ⟨before, same before⟩
  | reserved first free name size reserves following_eq new =>
      exact Or.inr ⟨name, size, reserves, first, following_eq, new⟩
  | joined before room counter same nothing => exact Or.inl ⟨before, same⟩
  | left held lets counter same nothing =>
      exact Or.inl ⟨registered.used held, same used⟩

theorem Effect.allNamed
    (effect :
      Effect config next caller slot following process reservation)
    (registered : Registered config) : AllNamed next.table := by
  intro other used
  rw [effect.getElem] at used ⊢
  split
  · rename_i same
    rw [if_pos same] at used
    rcases effect.used_cases registered used with
      ⟨before, same⟩ | ⟨name, size, -, -, following_eq, -⟩
    · rcases registered.allNamed slot before with ⟨text, named⟩
      exact ⟨text, by rw [Named, same.name]; exact named⟩
    · refine ⟨name, ?_⟩
      rw [following_eq]
      exact named_withName config.table[slot] name
  · rename_i different
    rw [if_neg different] at used
    exact registered.allNamed other used

/-- No other slot in use has the name of the slot. -/
theorem Effect.alone
    (effect :
      Effect config next caller slot following process reservation)
    (registered : Registered config) {other : SlotIndex}
    {name : CString} (usedSlot : Used following)
    (namedSlot : Named following name)
    (usedOther : Used config.table[other])
    (namedOther : Named config.table[other] name) : slot = other := by
  rcases effect.used_cases registered usedSlot with
    ⟨before, same⟩ | ⟨text, size, -, -, following_eq, new⟩
  · rw [Named, same.name] at namedSlot
    exact registered.distinct slot other name before usedOther namedSlot
      namedOther
  · rw [following_eq] at namedSlot
    have equal := named_unique namedSlot
      (named_withName config.table[slot] text)
    subst equal
    exact absurd namedOther (new other usedOther)

theorem Effect.distinct
    (effect :
      Effect config next caller slot following process reservation)
    (registered : Registered config) (first second : SlotIndex)
    (name : CString) (usedFirst : Used next.table[first])
    (usedSecond : Used next.table[second])
    (namedFirst : Named next.table[first] name)
    (namedSecond : Named next.table[second] name) : first = second := by
  rw [effect.getElem] at usedFirst usedSecond namedFirst namedSecond
  by_cases isFirst : first = slot
  · subst isFirst
    by_cases isSecond : second = first
    · exact isSecond.symm
    · rw [if_pos rfl] at usedFirst namedFirst
      rw [if_neg isSecond] at usedSecond namedSecond
      exact effect.alone registered usedFirst namedFirst usedSecond
        namedSecond
  · rw [if_neg isFirst] at usedFirst namedFirst
    by_cases isSecond : second = slot
    · subst isSecond
      rw [if_pos rfl] at usedSecond namedSecond
      exact (effect.alone registered usedSecond namedSecond usedFirst
        namedFirst).symm
    · rw [if_neg isSecond] at usedSecond namedSecond
      exact registered.distinct first second name usedFirst usedSecond
        namedFirst namedSecond

/-- Somebody who stays linked to the slot sees its name unchanged. -/
theorem Effect.name_of_linked
    (effect :
      Effect config next caller slot following process reservation)
    (registered : Registered config) {member : Fin count}
    (before : Linked (config.processes member) slot)
    (after : Linked (next.processes member) slot) :
    following.name = config.table[slot].name := by
  have used := registered.used before
  cases effect.move with
  | kept counter same keeps nothing => exact (same used).name
  | reserved first free name size reserves following_eq new =>
      exact absurd used free
  | joined used room counter same nothing => exact same.name
  | left held lets counter same nothing =>
      have other : member ≠ caller := by
        rintro rfl
        rw [effect.process_self] at after
        exact lets after
      have two : 2 ≤ (linkers config slot).card := by
        rw [← Finset.card_pair other]
        apply Finset.card_le_card
        intro process chosen
        rw [Finset.mem_insert, Finset.mem_singleton] at chosen
        rcases chosen with rfl | rfl
        · exact mem_linkers.mpr before
        · exact mem_linkers.mpr held
      have counted := registered.counted slot
      have stays : Used following := by
        show following.shareCounter ≠ 0
        omega
      exact (same stays).name

variable (slot) in
/-- One call keeps the registry. -/
theorem Registered.of_effect
    (registered : Registered config)
    (effect :
      Effect config next caller slot following process reservation) :
    Registered next := by
  constructor
  case allNamed => exact effect.allNamed registered
  case distinct => exact effect.distinct registered
  case counted => exact effect.counted registered
  case entries =>
    intro member name found alive present
    have after : Linked (next.processes member) found :=
      ⟨alive, Or.inr ⟨name, present⟩⟩
    have old
        (aliveBefore : (config.processes member).dead = false)
        (presentBefore :
          indexOf (config.processes member) name = some found) :
        ∃ text : CString,
          text.val = name ∧ Named next.table[found] text := by
      have before : Linked (config.processes member) found :=
        ⟨aliveBefore, Or.inr ⟨name, presentBefore⟩⟩
      rcases registered.entries member name found aliveBefore
          presentBefore with ⟨text, same, named⟩
      refine ⟨text, same, ?_⟩
      rw [effect.getElem]
      split
      · rename_i here
        subst here
        rw [Named, effect.name_of_linked registered before after]
        exact named
      · exact named
    by_cases same : member = caller
    · subst same
      rw [effect.process_self] at present
      rcases effect.entries name found present with
        before | ⟨rfl, text, same, named⟩
      · exact old effect.alive before
      · refine ⟨text, same, ?_⟩
        rw [effect.getElem, if_pos rfl]
        exact named
    · rw [effect.process_of_ne same] at alive present
      exact old alive present
  case wellFormed =>
    intro member
    by_cases same : member = caller
    · subst same
      rw [effect.process_self]
      exact effect.wellFormed
    · rw [effect.process_of_ne same]
      exact registered.wellFormed member
  case bounded =>
    intro other
    have before := registered.bounded other
    rw [effect.getElem]
    split
    · rename_i here
      subst here
      cases effect.move with
      | kept counter same keeps nothing => omega
      | reserved first free name size reserves following_eq new =>
          have counter := shareCounter_reservedSlot free name size
          rw [← following_eq] at counter
          omega
      | joined used room counter same nothing => omega
      | left held lets counter same nothing => omega
    · exact before

end EffectRules

/-! ## The calls -/

variable {config next : Config count}

/-- The segment of a reservation is there and large enough. -/
def Succeeds (fresh : ShmResult) (size : Nat) : Prop :=
  ¬ (fresh.err = true ∨ fresh.size < size)

instance (fresh : ShmResult) (size : Nat) :
    Decidable (Succeeds fresh size) :=
  inferInstanceAs (Decidable (¬ _))

/-- No slot in use has the name. -/
def New (table : DataTable) (name : CString) : Prop :=
  ∀ slot : SlotIndex, Used table[slot] → ¬ Named table[slot] name

instance (table : DataTable) (name : CString) :
    Decidable (New table name) :=
  inferInstanceAs (Decidable (∀ _ : SlotIndex, _ → ¬ _))

/--
The calls which keep the registry: a name which gets a slot fits its field and
is new, a counter has room, and only somebody who is linked unlinks.
-/
def Allowed (config : Config count) : Action count → Prop
  | .linkToProcess _ => True
  | .reserve _ reservedName size fresh _ =>
      (findFree config.table).isSome →
        reservedName.val.length < wimpSharedSlotMaxNameBytes ∧
          (Succeeds fresh size → New config.table reservedName)
  | .linkToData _ name _ _ =>
      ∀ slot : SlotIndex, Used config.table[slot] →
        Named config.table[slot] name →
          config.table[slot].shareCounter + 1 < 2 ^ 31
  | .unlinkFromData caller name =>
      ∀ slot : SlotIndex, Used config.table[slot] →
        Named config.table[slot] name →
          Linked (config.processes caller) slot
  | .unlinkFromProcess _ => False

/--
The name and the size which a call reserves, when it is a reservation which
succeeds.
-/
def reservation (config : Config count) :
    Action count → Option (CString × Nat)
  | .reserve caller reservedName size fresh granted =>
      let process := config.processes caller
      if process.isTableLinked ∧
          (wimpDataReserve reservedName size fresh granted config.table
            process).ending = .success then
        some (reservedName, size)
      else none
  | _ => none

/-- The caller works on one slot. -/
def Affected (config next : Config count) (caller : Fin count)
    (reservation : Option (CString × Nat)) : Prop :=
  ∃ slot following process,
    Effect config next caller slot following process reservation

theorem affected_at
    (slot : SlotIndex) {caller : Fin count} {following : WimpDataSlot}
    {process : Process} {reservation : Option (CString × Nat)}
    (effect :
      Effect config next caller slot following process reservation) :
    Affected config next caller reservation :=
  ⟨slot, following, process, effect⟩

/-- The caller leaves the table alone, and is linked to nothing new. -/
theorem effect_idle
    {caller : Fin count} {process : Process}
    (alive : (config.processes caller).dead = false)
    (processes :
      next.processes = Function.update config.processes caller process)
    (table : next.table = config.table)
    (holds :
      ∀ slot, Linked process slot →
        Linked (config.processes caller) slot)
    (entries :
      ∀ (name : Bytes) (slot : SlotIndex),
        indexOf process name = some slot →
          indexOf (config.processes caller) name = some slot)
    (wellFormed : WellFormed process.dataTableCacheMap) :
    Effect config next caller 0 config.table[(0 : SlotIndex)] process
      none := by
  constructor
  case alive => exact alive
  case processes => exact processes
  case table =>
    rw [table]
    exact (put_getElem_self config.table 0).symm
  case move => exact .kept rfl (fun _ => ⟨rfl, rfl, rfl⟩) (holds 0) rfl
  case arena => exact Or.inl rfl
  case others => exact fun other _ => holds other
  case entries =>
    exact fun name found present => Or.inl (entries name found present)
  case wellFormed => exact wellFormed

/-- The caller dies, or becomes what it was. -/
structure Idle (config next : Config count) (caller : Fin count)
    (process : Process) : Prop where
  effect :
    Effect config next caller 0 config.table[(0 : SlotIndex)] process none
  cache :
    process.dataTableCache = (config.processes caller).dataTableCache
  map :
    process.dataTableCacheMap =
      (config.processes caller).dataTableCacheMap

theorem Registered.idle
    (registered : Registered config) {caller : Fin count}
    {process : Process} (alive : (config.processes caller).dead = false)
    (processes :
      next.processes = Function.update config.processes caller process)
    (table : next.table = config.table)
    (cache :
      process.dataTableCache = (config.processes caller).dataTableCache)
    (map :
      process.dataTableCacheMap =
        (config.processes caller).dataTableCacheMap) :
    Idle config next caller process := by
  have index (name : Bytes) :
      indexOf process name = indexOf (config.processes caller) name := by
    rw [indexOf, map, indexOf]
  constructor
  case cache => exact cache
  case map => exact map
  case effect =>
    apply effect_idle alive processes table
    · rintro slot ⟨-, holding | ⟨name, present⟩⟩
      · refine ⟨alive, Or.inl ?_⟩
        rw [Holds, cache] at holding
        exact holding
      · rw [index] at present
        exact ⟨alive, Or.inr ⟨name, present⟩⟩
    · intro name slot present
      rwa [index] at present
    · rw [map]
      exact registered.wellFormed caller

/-- A call works on the table under its lock, or its caller dies. -/
theorem call_cases
    {caller : Fin count} {operation : DataTable → Process → Outcome}
    (called : config.call caller operation = some next) :
    ((config.processes caller).isTableLinked = false ∧
        next.table = config.table ∧
          next.processes =
            Function.update config.processes caller
              { config.processes caller with dead := true }) ∨
      (config.processes caller).isTableLinked = true ∧
        next.table =
            (operation config.table (config.processes caller)).table ∧
          next.processes =
            Function.update config.processes caller
              { (operation config.table (config.processes caller)).process
                  with
                dead :=
                  (operation config.table
                    (config.processes caller)).crashed } := by
  unfold Config.call at called
  dsimp only at called
  split at called
  · rename_i attached
    split at called
    · cases called
    · cases called
      exact Or.inr ⟨attached, rfl, rfl⟩
  · rename_i detached
    cases called
    exact Or.inl ⟨Bool.not_eq_true _ ▸ detached, rfl, rfl⟩

theorem copyName_of_fits
    (table : DataTable) (slot : SlotIndex) {name : CString}
    (fits : name.val.length < wimpSharedSlotMaxNameBytes) :
    copyName table slot name =
      some (put table slot (withName table[slot] name)) := by
  have short :
      (terminated name.val).length ≤ wimpSharedSlotMaxNameBytes := by
    rw [length_terminated]
    exact fits
  simp only [copyName, if_pos short]
  rfl

/-- The three ways in which a reservation with a fitting name ends. -/
theorem wimpDataReserve_eq
    {name : CString} (size : Nat) (fresh : ShmResult) (granted : Bool)
    (table : DataTable) (process : Process)
    (fits :
      (findFree table).isSome →
        name.val.length < wimpSharedSlotMaxNameBytes) :
    wimpDataReserve name size fresh granted table process =
      match findFree table with
      | none => ⟨table, process, .fail⟩
      | some slot =>
          if Succeeds fresh size then
            ⟨put table slot (reservedSlot table[slot] name size),
              { process with
                  dataTableCache :=
                    put process.dataTableCache slot fresh.handle }.cacheName
                name slot granted, .success⟩
          else
            ⟨put table slot (withName table[slot] name), process, .fail⟩ := by
  unfold wimpDataReserve
  cases free : findFree table with
  | none => rfl
  | some slot =>
      rw [free] at fits
      dsimp only
      rw [copyName_of_fits table slot (fits rfl)]
      dsimp only
      by_cases succeeds : Succeeds fresh size
      · rw [if_neg succeeds, if_pos succeeds]
        simp [reservedSlot, withName]
      · rw [if_pos (Decidable.not_not.mp succeeds), if_neg succeeds]

/-- A free slot is not in use. -/
theorem free_of_findFree
    {table : DataTable} {slot : SlotIndex}
    (free : findFree table = some slot) : ¬ Used table[slot] := by
  have zero : table[slot].shareCounter = 0 := by
    simpa using List.find?_some free
  exact not_not.mpr zero

/-- A process which only got a new entry and a new handle for a slot. -/
theorem linked_of_cacheName
    {process : Process} {slot other : SlotIndex} {name : CString}
    {granted dead : Bool} {handle : Option PShm}
    (alive : process.dead = false) (different : other ≠ slot)
    (linked :
      Linked
        { ({ process with
              dataTableCache :=
                put process.dataTableCache slot handle }).cacheName name
              slot granted with
          dead } other) :
    Linked process other := by
  rcases linked with ⟨-, holding | ⟨text, present⟩⟩
  · have same :
        Holds
            { process with
              dataTableCache := put process.dataTableCache slot handle }
            other ↔ Holds process other :=
      RefCount.holds_set_of_ne different rfl
    exact ⟨alive, Or.inl (same.mp holding)⟩
  · rcases indexOf_cacheName present with before | ⟨-, here⟩
    · exact ⟨alive, Or.inr ⟨text, before⟩⟩
    · exact absurd here different

/-- A new entry for a slot which has the name. -/
theorem entries_of_cacheName
    {process : Process} {slot : SlotIndex} {following : WimpDataSlot}
    {text : CString} {granted dead : Bool} {handle : Option PShm}
    (named : Named following text) (name : Bytes) (found : SlotIndex)
    (present :
      indexOf
        { ({ process with
              dataTableCache :=
                put process.dataTableCache slot handle }).cacheName text
              slot granted with
          dead } name = some found) :
    indexOf process name = some found ∨
      found = slot ∧
        ∃ text : CString, text.val = name ∧ Named following text := by
  rcases indexOf_cacheName present with before | ⟨same, here⟩
  · exact Or.inl before
  · exact Or.inr ⟨here, text, same.symm, named⟩

/-- The ways in which a reservation ends. -/
inductive ReserveCase (config next : Config count) (caller : Fin count)
    (name : CString) (size : Nat) (fresh : ShmResult) (granted : Bool) :
    Prop where
  | idle (process : Process)
      (none :
        (config.processes caller).isTableLinked = false ∨
          findFree config.table = none)
      (idle : Idle config next caller process)
  | failed (slot : SlotIndex)
      (attached : (config.processes caller).isTableLinked = true)
      (free : findFree config.table = some slot)
      (fails : ¬ Succeeds fresh size)
      (effect :
        Effect config next caller slot (withName config.table[slot] name)
          { config.processes caller with dead := false } none)
  | succeeded (slot : SlotIndex)
      (attached : (config.processes caller).isTableLinked = true)
      (free : findFree config.table = some slot)
      (succeeds : Succeeds fresh size)
      (effect :
        Effect config next caller slot
          (reservedSlot config.table[slot] name size)
          { ({ config.processes caller with
                dataTableCache :=
                  put (config.processes caller).dataTableCache slot
                    fresh.handle }).cacheName name slot granted with
            dead := false }
          (some (name, size)))

theorem reserve_cases
    (registered : Registered config) {caller : Fin count}
    {name : CString} {size : Nat} {fresh : ShmResult} {granted : Bool}
    (alive : (config.processes caller).dead = false)
    (allowed :
      Allowed config (.reserve caller name size fresh granted))
    (called :
      config.call caller (wimpDataReserve name size fresh granted) =
        some next) :
    ReserveCase config next caller name size fresh granted := by
  rcases call_cases called with
    ⟨detached, table, processes⟩ | ⟨attached, table, processes⟩
  · exact .idle _ (Or.inl detached)
      (registered.idle alive processes table rfl rfl)
  rw [wimpDataReserve_eq size fresh granted _ _
    fun free => (allowed free).1] at table processes
  cases free : findFree config.table with
  | none =>
      rw [free] at table processes
      exact .idle _ (Or.inr free)
        (registered.idle alive processes table rfl rfl)
  | some slot =>
      rw [free] at table processes
      dsimp only at table processes
      have unused := free_of_findFree free
      by_cases succeeds : Succeeds fresh size
      · rw [if_pos succeeds] at table processes
        have new := (allowed (by rw [free]; rfl)).2 succeeds
        apply ReserveCase.succeeded slot attached free succeeds
        constructor
        case alive => exact alive
        case processes => exact processes
        case table => exact table
        case move =>
          exact .reserved (by rw [free]; rfl) unused name size rfl rfl new
        case arena => exact Or.inr ⟨size, rfl⟩
        case others =>
          intro other different linked
          exact linked_of_cacheName alive different linked
        case entries =>
          intro text found present
          exact entries_of_cacheName
            (named_withName config.table[slot] name) text found present
        case wellFormed =>
          exact wellFormed_add (registered.wellFormed caller) _ _ _
      · rw [if_neg succeeds] at table processes
        apply ReserveCase.failed slot attached free succeeds
        constructor
        case alive => exact alive
        case processes => exact processes
        case table => exact table
        case move =>
          refine .kept rfl (fun used => absurd used unused) ?_ rfl
          rintro ⟨-, linked⟩
          exact ⟨alive, linked⟩
        case arena => exact Or.inl rfl
        case others =>
          rintro other - ⟨-, linked⟩
          exact ⟨alive, linked⟩
        case entries => exact fun text found present => Or.inl present
        case wellFormed => exact registered.wellFormed caller

/-- The ways in which a link ends. -/
inductive LinkCase (config next : Config count) (caller : Fin count)
    (name : CString) (opened : ShmResult) (granted : Bool) : Prop where
  | idle (process : Process)
      (none :
        (config.processes caller).isTableLinked = false ∨
          findName config.table name = some none ∨
            ∃ slot, findName config.table name = some (some slot) ∧
              (config.processes caller).dataTableCache[slot].isSome)
      (idle : Idle config next caller process)
  | linked (slot : SlotIndex)
      (attached : (config.processes caller).isTableLinked = true)
      (found : findName config.table name = some (some slot))
      (free : (config.processes caller).dataTableCache[slot] = none)
      (effect :
        Effect config next caller slot
          { config.table[slot] with
            shareCounter := addInt32 config.table[slot].shareCounter 1 }
          { ({ config.processes caller with
                dataTableCache :=
                  put (config.processes caller).dataTableCache slot
                    opened.handle }).cacheName name slot granted with
            dead := false }
          none)

theorem linkToData_cases
    (registered : Registered config) {caller : Fin count}
    {name : CString} {opened : ShmResult} {granted : Bool}
    (alive : (config.processes caller).dead = false)
    (allowed : Allowed config (.linkToData caller name opened granted))
    (called :
      config.call caller (wimpDataLinkToData name opened granted) =
        some next) :
    LinkCase config next caller name opened granted := by
  rcases call_cases called with
    ⟨detached, table, processes⟩ | ⟨attached, table, processes⟩
  · exact .idle _ (Or.inl detached)
      (registered.idle alive processes table rfl rfl)
  unfold wimpDataLinkToData at table processes
  rcases findName_spec registered.allNamed name with
    ⟨slot, found, used, named⟩ | ⟨missing, -⟩
  · rw [found] at table processes
    dsimp only at table processes
    split at table
    · rename_i cached
      rw [if_pos cached] at processes
      exact .idle _ (Or.inr (Or.inr ⟨slot, found, cached⟩))
        (registered.idle alive processes table rfl rfl)
    · rename_i free
      rw [if_neg free] at processes
      have room := allowed slot used named
      have nonneg : 0 ≤ config.table[slot].shareCounter := by
        have counted := registered.counted slot
        omega
      apply LinkCase.linked slot attached found
        (Option.not_isSome_iff_eq_none.mp free)
      constructor
      case alive => exact alive
      case processes => exact processes
      case table => exact table
      case move =>
        exact .joined used room
          (addInt32_of_fits (by omega) (by omega)) ⟨rfl, rfl, rfl⟩ rfl
      case arena => exact Or.inl rfl
      case others =>
        intro other different linked
        exact linked_of_cacheName alive different linked
      case entries =>
        intro text found present
        exact entries_of_cacheName named text found present
      case wellFormed =>
        exact wellFormed_add (registered.wellFormed caller) _ _ _
  · rw [missing] at table processes
    exact .idle _ (Or.inr (Or.inl missing))
      (registered.idle alive processes table rfl rfl)

/-- Nobody who let a slot go and forgot its name is linked to it. -/
theorem not_linked_of_unlink
    (registered : Registered config) {caller : Fin count}
    {slot : SlotIndex} {name : CString} {process : Process}
    (alive : (config.processes caller).dead = false)
    (named : Named config.table[slot] name)
    (cache :
      process.dataTableCache =
        put (config.processes caller).dataTableCache slot none)
    (forgets : indexOf process name.val = none)
    (remembers :
      ∀ other, other ≠ name.val →
        indexOf process other = indexOf (config.processes caller) other) :
    ¬ Linked process slot := by
  rintro ⟨-, holding | ⟨text, present⟩⟩
  · have nothing := (RefCount.holds_set_self cache).mp holding
    cases nothing
  · by_cases same : text = name.val
    · subst same
      rw [forgets] at present
      cases present
    · rw [remembers text same] at present
      rcases registered.entries caller text slot alive present with
        ⟨own, rfl, ownNamed⟩
      exact same (congrArg Subtype.val (named_unique ownNamed named))

/-- The ways in which somebody who is linked unlinks. -/
inductive UnlinkCase (config next : Config count) (caller : Fin count)
    (name : CString) : Prop where
  | idle (process : Process)
      (none :
        (config.processes caller).isTableLinked = false ∨
          findName config.table name = some none)
      (idle : Idle config next caller process)
  | unlinked (slot : SlotIndex) (following : WimpDataSlot)
      (process : Process)
      (attached : (config.processes caller).isTableLinked = true)
      (found : findName config.table name = some (some slot))
      (named : Named config.table[slot] name)
      (last : Used following → config.table[slot].shareCounter ≠ 1)
      (process_cases :
        process.dead = true ∨
          process.dataTableCache =
              put (config.processes caller).dataTableCache slot none ∧
            indexOf process name.val = none ∧
              ∀ other, other ≠ name.val →
                indexOf process other =
                  indexOf (config.processes caller) other)
      (effect :
        Effect config next caller slot following process none)

theorem unlinkFromData_cases
    (registered : Registered config) {caller : Fin count}
    {name : CString} (alive : (config.processes caller).dead = false)
    (allowed : Allowed config (.unlinkFromData caller name))
    (called :
      config.call caller (wimpDataUnlinkFromData name) = some next) :
    UnlinkCase config next caller name := by
  rcases call_cases called with
    ⟨detached, table, processes⟩ | ⟨attached, table, processes⟩
  · exact .idle _ (Or.inl detached)
      (registered.idle alive processes table rfl rfl)
  unfold wimpDataUnlinkFromData at table processes
  rcases findName_spec registered.allNamed name with
    ⟨slot, found, used, named⟩ | ⟨missing, -⟩
  · rw [found] at table processes
    dsimp only at table processes
    have linked := allowed slot used named
    have positive := registered.counter_pos linked
    have bounded := registered.bounded slot
    have counter :
        addInt32 config.table[slot].shareCounter (-1) =
          config.table[slot].shareCounter - 1 :=
      addInt32_of_fits (by omega) (by omega)
    have lost (other : SlotIndex) (different : other ≠ slot)
        {process : Process}
        (cache :
          process.dataTableCache =
            put (config.processes caller).dataTableCache slot none)
        (holding : Holds process other) :
        Linked (config.processes caller) other :=
      ⟨alive,
        Or.inl ((RefCount.holds_set_of_ne different cache).mp holding)⟩
    cases removed :
        hashStringRemove (config.processes caller).dataTableCacheMap
          name.val with
    | none =>
        rw [removed] at table processes
        refine .unlinked slot _ _ attached found named ?_ (Or.inl ?_)
          (Effect.mk alive processes table ?_ ?_ ?_ ?_ ?_)
        case refine_1 =>
          intro stays one
          apply stays
          show addInt32 config.table[slot].shareCounter (-1) = 0
          omega
        case refine_2 => rfl
        case refine_3 =>
          exact .left linked nofun counter (fun _ => ⟨rfl, rfl, rfl⟩) rfl
        case refine_4 => exact Or.inl rfl
        case refine_5 => exact fun other different linked => nomatch linked.1
        case refine_6 => exact fun text found present => Or.inl present
        case refine_7 => exact registered.wellFormed caller
    | some result =>
        rcases result with ⟨map, status⟩
        rw [removed] at table processes
        rcases hashStringRemove_spec (registered.wellFormed caller)
            removed with ⟨wellFormed, forgets, remembers⟩
        have nothing :
            (hashStringFind map name.val).map HashStringEntry.value =
              none := by
          rw [forgets]
          rfl
        have same (other : Bytes) (different : other ≠ name.val) :
            (hashStringFind map other).map HashStringEntry.value =
              indexOf (config.processes caller) other := by
          rw [remembers other different, indexOf]
        refine .unlinked slot _
          { config.processes caller with
            dataTableCache :=
              put (config.processes caller).dataTableCache slot none
            dataTableCacheMap := map
            dead := false }
          attached found named ?_ (Or.inr ⟨rfl, nothing, same⟩)
          (Effect.mk alive processes table ?_ ?_ ?_ ?_ wellFormed)
        case refine_1 =>
          intro stays one
          rw [if_pos (by rw [counter]; omega)] at stays
          exact stays rfl
        case refine_2 =>
          refine .left linked ?_ ?_ ?_ rfl
          · exact not_linked_of_unlink registered alive named rfl nothing
              same
          · split
            · rename_i last
              rw [counter] at last
              show (0 : Int) = _
              omega
            · exact counter
          · intro stays
            split at stays
            · exact absurd rfl stays
            · rename_i more
              rw [if_neg more]
              exact ⟨rfl, rfl, rfl⟩
        case refine_3 =>
          split
          · exact Or.inr ⟨0, rfl⟩
          · exact Or.inl rfl
        case refine_4 =>
          rintro other different ⟨-, holding | ⟨text, present⟩⟩
          · exact lost other different rfl holding
          · refine ⟨alive, Or.inr ⟨text, ?_⟩⟩
            by_cases equal : text = name.val
            · subst equal
              cases nothing.symm.trans present
            · exact (same text equal).symm.trans present
        case refine_5 =>
          intro text found present
          by_cases equal : text = name.val
          · subst equal
            cases nothing.symm.trans present
          · exact Or.inl ((same text equal).symm.trans present)
  · rw [missing] at table processes
    exact .idle _ (Or.inr missing)
      (registered.idle alive processes table rfl rfl)

/-- A process which attaches starts without handles and entries. -/
theorem linkToProcess_cases (process : Process) :
    (wimpDataLinkToProcess process = process) ∨
      (∀ slot, ¬ Holds (wimpDataLinkToProcess process) slot) ∧
        (∀ name,
            indexOf (wimpDataLinkToProcess process) name = none) ∧
          WellFormed (wimpDataLinkToProcess process).dataTableCacheMap := by
  unfold wimpDataLinkToProcess
  split
  · exact Or.inl rfl
  · exact Or.inr
      ⟨RefCount.not_holds_blank rfl, fun name => by simp [indexOf],
        wellFormed_create⟩

theorem effect_of_linkToProcess
    (registered : Registered config) {caller : Fin count}
    (alive : (config.processes caller).dead = false) :
    Effect config
      (config.setProcess caller
        (wimpDataLinkToProcess (config.processes caller)))
      caller 0 config.table[(0 : SlotIndex)]
      (wimpDataLinkToProcess (config.processes caller)) none := by
  have processes :
      (config.setProcess caller
          (wimpDataLinkToProcess (config.processes caller))).processes =
        Function.update config.processes caller
          (wimpDataLinkToProcess (config.processes caller)) :=
    rfl
  rcases linkToProcess_cases (config.processes caller) with
    same | ⟨released, nothing, wellFormed⟩
  · exact (registered.idle alive processes rfl
      (congrArg Process.dataTableCache same)
      (congrArg Process.dataTableCacheMap same)).effect
  · apply effect_idle alive processes rfl
    · rintro slot ⟨-, holding | ⟨name, present⟩⟩
      · exact absurd holding (released slot)
      · rw [nothing] at present
        cases present
    · intro name slot present
      rw [nothing] at present
      cases present
    · exact wellFormed

/-- What a reservation reserves. -/
theorem reservation_reserve
    {caller : Fin count} {name : CString} {size : Nat}
    {fresh : ShmResult} {granted : Bool}
    (fits :
      (findFree config.table).isSome →
        name.val.length < wimpSharedSlotMaxNameBytes) :
    reservation config (.reserve caller name size fresh granted) =
      if (config.processes caller).isTableLinked = true ∧
          (findFree config.table).isSome ∧ Succeeds fresh size then
        some (name, size)
      else none := by
  simp only [reservation, wimpDataReserve_eq size fresh granted _ _ fits]
  cases free : findFree config.table with
  | none => simp
  | some slot =>
      by_cases succeeds : Succeeds fresh size <;> simp [succeeds]

/-- Every allowed call works on one slot. -/
theorem affected_of_step
    {action : Action count} (registered : Registered config)
    (allowed : Allowed config action)
    (stepped : step config action = some next) :
    Affected config next action.caller (reservation config action) := by
  unfold step at stepped
  split at stepped
  · cases stepped
  rename_i notDead
  have alive : (config.processes action.caller).dead = false := by
    simpa using notDead
  cases action with
  | linkToProcess caller =>
      cases stepped
      exact affected_at 0 (effect_of_linkToProcess registered alive)
  | reserve caller name size fresh granted =>
      rw [reservation_reserve fun free => (allowed free).1]
      cases reserve_cases registered alive allowed stepped with
      | idle process none idle =>
          rw [if_neg]
          · exact affected_at 0 idle.effect
          · rintro ⟨attached, free, -⟩
            rcases none with detached | full
            · cases attached.symm.trans detached
            · rw [full] at free
              cases free
      | failed slot attached free fails effect =>
          rw [if_neg fun holds => fails holds.2.2]
          exact affected_at slot effect
      | succeeded slot attached free succeeds effect =>
          rw [if_pos ⟨attached, by rw [free]; rfl, succeeds⟩]
          exact affected_at slot effect
  | linkToData caller name opened granted =>
      cases linkToData_cases registered alive allowed stepped with
      | idle process none idle => exact affected_at 0 idle.effect
      | linked slot attached found free effect =>
          exact affected_at slot effect
  | unlinkFromData caller name =>
      cases unlinkFromData_cases registered alive allowed stepped with
      | idle process none idle => exact affected_at 0 idle.effect
      | unlinked slot following process attached found named last
          process_cases effect =>
          exact affected_at slot effect
  | unlinkFromProcess caller => exact allowed.elim

theorem registered_initial : Registered ({} : Config count) := by
  have free (slot : SlotIndex) :
      ¬ Used ({} : Config count).table[slot] := by
    simp [Used]
  have nothing (process : Fin count) (name : Bytes) :
      indexOf (({} : Config count).processes process) name = none := by
    simp [indexOf]
  constructor
  case allNamed => exact fun slot used => absurd used (free slot)
  case distinct => exact fun first _ _ used => absurd used (free first)
  case counted =>
    intro slot
    have nobody : linkers ({} : Config count) slot = ∅ := by
      apply Finset.eq_empty_of_forall_notMem
      intro process member
      rcases mem_linkers.mp member with ⟨-, holding | ⟨name, present⟩⟩
      · exact RefCount.not_holds_blank rfl slot holding
      · rw [nothing] at present
        cases present
    rw [nobody]
    simp
  case entries =>
    intro process name slot _ present
    rw [nothing] at present
    cases present
  case wellFormed => exact fun _ => wellFormed_create
  case bounded => simp

end Wimp.Data.Registry
