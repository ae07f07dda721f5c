import Mathlib.Data.Fintype.Card
import Wimp.Lib.Runs
import Wimp.Data.Table

/-!
# The share counters of the data table

The counter of a slot should be the number of the processes which hold it: a
process holds a slot from a successful call which reserved it or linked to it
up to the call which unlinks from it or detaches the process.  Who holds what
is recorded from the results of the calls.  The cache entry of a process is
set and cleared by the same calls, and agrees with the record.

Two calls break the count.  A process which detaches drops its handles and
leaves the counters alone, and `wimp_data_unlink_from_data` takes a count
away from a slot which its caller does not hold.  A name which does not fit
its field runs over the counter of the next slot.  `Guarded` leaves these
calls out, and what remains keeps the count.
-/

namespace Wimp.Data.RefCount

open Wimp.Lib.ByteRegion
open Wimp.Lib.Runs
open Wimp.Utility.HashTable
open Wimp.Data.Table hiding step

variable {count : Nat}

/-! ## Who holds a slot -/

/--
The processes of a table, and which process holds which slot according to the
results of the calls.
-/
structure State (count : Nat) where
  config : Config count := {}
  held : Finset (Fin count × SlotIndex) := ∅

/-- The slot which a call takes when it succeeds. -/
def taken (outcome : Outcome) (slot : Option SlotIndex) :
    Option SlotIndex :=
  if outcome.ending = .success then slot else none

/-- The slot which a call gives to its caller. -/
def takes (config : Config count) : Action count → Option SlotIndex
  | .reserve caller reservedName size fresh granted =>
      let process := config.processes caller
      if process.isTableLinked then
        taken
          (wimpDataReserve reservedName size fresh granted config.table
            process)
          (findFree config.table)
      else none
  | .linkToData caller name opened granted =>
      let process := config.processes caller
      if process.isTableLinked then
        taken (wimpDataLinkToData name opened granted config.table process)
          (findName config.table name).join
      else none
  | _ => none

/-- A call lets its caller's hold of a slot go. -/
def LetsGo (config : Config count) (action : Action count)
    (slot : SlotIndex) : Prop :=
  match action with
  | .unlinkFromData _ name =>
      (findName config.table name).join = some slot
  | .unlinkFromProcess _ => True
  | _ => False

instance (config : Config count) (slot : SlotIndex) :
    ∀ action, Decidable (LetsGo config action slot)
  | .unlinkFromData _ _ => inferInstanceAs (Decidable (_ = _))
  | .unlinkFromProcess _ => inferInstanceAs (Decidable True)
  | .linkToProcess _ | .reserve _ _ _ _ _ | .linkToData _ _ _ _ =>
      inferInstanceAs (Decidable False)

/-- The record behind a call. -/
def heldAfter (state : State count) (action : Action count) :
    Finset (Fin count × SlotIndex) :=
  let kept :=
    state.held.filter fun hold =>
      ¬ (hold.1 = action.caller ∧ LetsGo state.config action hold.2)
  (takes state.config action).elim kept fun slot =>
    insert (action.caller, slot) kept

/-- One call of one process, whose result is recorded. -/
def step (state : State count) (action : Action count) :
    Option (State count) :=
  (Table.step state.config action).map fun config =>
    { config, held := heldAfter state action }

/-- The processes which hold a slot. -/
def holders (state : State count) (slot : SlotIndex) :
    Finset (Fin count) :=
  Finset.univ.filter fun process => (process, slot) ∈ state.held

/-- The slot is unused and has no name. -/
def Cleared (slot : WimpDataSlot) : Prop :=
  slot.shareCounter = 0 ∧ slot.size = 0 ∧
    slot.name = List.replicate wimpSharedSlotMaxNameBytes 0

/--
Every counter is the number of the holders, and exactly the slots without a
holder are cleared.
-/
structure Counted (table : DataTable)
    (holders : SlotIndex → Finset (Fin count)) : Prop where
  counter :
    ∀ slot : SlotIndex, table[slot].shareCounter = (holders slot).card
  cleared :
    ∀ slot : SlotIndex, Cleared table[slot] ↔ holders slot = ∅

/-- The shared memory calls of a reservation succeed. -/
def ShmResult.Granted (fresh : ShmResult) (size : Nat) : Prop :=
  fresh.err = false ∧ size ≤ fresh.size ∧ fresh.handle.isSome

instance (fresh : ShmResult) (size : Nat) :
    Decidable (ShmResult.Granted fresh size) :=
  inferInstanceAs (Decidable (_ ∧ _ ∧ _))

/--
The calls which keep the count: a reserved name fits its field, a slot is
unlinked by a process which holds it and can remove its name from its hash
table, and a process detaches when it holds nothing.
-/
def Guarded (state : State count) : Action count → Prop
  | .linkToProcess _ => True
  | .reserve _ reservedName size fresh _ =>
      ShmResult.Granted fresh size ∧
        reservedName.val.length < wimpSharedSlotMaxNameBytes
  | .linkToData _ _ opened _ => opened.handle.isSome
  | .unlinkFromData caller name =>
      ∀ slot ∈ (findName state.config.table name).join,
        (caller, slot) ∈ state.held ∧
          Removable (state.config.processes caller).dataTableCacheMap
            name.val
  | .unlinkFromProcess caller => ∀ slot, (caller, slot) ∉ state.held

instance (state : State count) (action : Action count) :
    Decidable (Guarded state action) :=
  match action with
  | .linkToProcess _ => inferInstanceAs (Decidable True)
  | .reserve .. => inferInstanceAs (Decidable (_ ∧ _))
  | .linkToData .. => inferInstanceAs (Decidable (_ = _))
  | .unlinkFromData caller name =>
      inferInstanceAs
        (Decidable
          (∀ slot ∈ (findName state.config.table name).join,
            (caller, slot) ∈ state.held ∧
              Removable (state.config.processes caller).dataTableCacheMap
                name.val))
  | .unlinkFromProcess caller =>
      inferInstanceAs (Decidable (∀ slot, (caller, slot) ∉ state.held))

/-! ## Who has a slot in the cache -/

variable {config next : Config count} {action : Action count}

/-- The process has a handle of the slot. -/
def Holds (process : Process) (slot : SlotIndex) : Prop :=
  process.dataTableCache[slot].isSome

instance (process : Process) (slot : SlotIndex) :
    Decidable (Holds process slot) :=
  inferInstanceAs (Decidable (_ = _))

/-- The processes which have a handle of a slot. -/
def cachers (config : Config count) (slot : SlotIndex) :
    Finset (Fin count) :=
  Finset.univ.filter fun process => Holds (config.processes process) slot

@[simp]
theorem mem_cachers (process : Fin count) (slot : SlotIndex) :
    process ∈ cachers config slot ↔
      Holds (config.processes process) slot := by
  simp [cachers]

/-- Another state of one process moves at most that process. -/
theorem cachers_setProcess_of_holds
    {caller : Fin count} {process : Process} {slot : SlotIndex}
    (processes :
      next.processes = Function.update config.processes caller process)
    (holds : Holds process slot) :
    cachers next slot = insert caller (cachers config slot) := by
  ext other
  rw [mem_cachers, Finset.mem_insert, mem_cachers, processes]
  by_cases same : other = caller
  · subst same
    simp [holds]
  · simp [same]

theorem cachers_setProcess_of_not_holds
    {caller : Fin count} {process : Process} {slot : SlotIndex}
    (processes :
      next.processes = Function.update config.processes caller process)
    (lets : ¬ Holds process slot) :
    cachers next slot = (cachers config slot).erase caller := by
  ext other
  rw [mem_cachers, Finset.mem_erase, mem_cachers, processes]
  by_cases same : other = caller
  · subst same
    simp [lets]
  · simp [same]

/-! ## What a call does to a slot -/

/-- A slot and the hold of the caller before and behind a call. -/
inductive SlotChange (slot following : WimpDataSlot)
    (held holds : Prop) : Prop where
  | kept (same : following = slot) (equal : holds ↔ held)
  | taken (free : ¬ held) (holding : holds)
      (counter : following.shareCounter = slot.shareCounter + 1)
  | released (holding : held) (lets : ¬ holds)
      (counter : following.shareCounter = slot.shareCounter - 1)
      (cleared : following.shareCounter = 0 → Cleared following)

/-- The rule of the count: it is enough to look at each slot alone. -/
theorem Counted.of_changes
    (counted : Counted config.table (cachers config))
    {caller : Fin count} {process : Process}
    (processes :
      next.processes = Function.update config.processes caller process)
    (changes :
      ∀ slot : SlotIndex,
        SlotChange config.table[slot] next.table[slot]
          (Holds (config.processes caller) slot) (Holds process slot)) :
    Counted next.table (cachers next) := by
  have each :
      ∀ slot : SlotIndex,
        next.table[slot].shareCounter = (cachers next slot).card ∧
          (Cleared next.table[slot] ↔ cachers next slot = ∅) := by
    intro slot
    have counter := counted.counter slot
    cases changes slot with
    | kept same equal =>
        have unmoved : cachers next slot = cachers config slot := by
          by_cases holds : Holds process slot
          · rw [cachers_setProcess_of_holds processes holds,
              Finset.insert_eq_self, mem_cachers]
            exact equal.mp holds
          · rw [cachers_setProcess_of_not_holds processes holds,
              Finset.erase_eq_self, mem_cachers]
            exact fun held => holds (equal.mpr held)
        rw [same, unmoved]
        exact ⟨counter, counted.cleared slot⟩
    | taken free holding following =>
        rw [cachers_setProcess_of_holds processes holding,
          Finset.card_insert_of_notMem (by simpa using free), following]
        refine ⟨by rw [counter]; rfl, iff_of_false ?_ ?_⟩
        · rintro ⟨zero, -⟩
          omega
        · exact Finset.insert_ne_empty _ _
    | released holding lets following cleared =>
        have member : caller ∈ cachers config slot := by simpa using holding
        have positive := Finset.card_pos.mpr ⟨caller, member⟩
        rw [cachers_setProcess_of_not_holds processes lets,
          Finset.card_erase_of_mem member, following]
        refine ⟨by omega, ?_⟩
        constructor
        · rintro ⟨zero, -⟩
          rw [← Finset.card_eq_zero, Finset.card_erase_of_mem member]
          omega
        · intro empty
          apply cleared
          rw [← Finset.card_eq_zero, Finset.card_erase_of_mem member]
            at empty
          omega
  exact ⟨fun slot => (each slot).1, fun slot => (each slot).2⟩

/-! ## The calls on the table -/

/-- What an allowed call does to the table and to its caller. -/
structure Keeps (table : DataTable) (process : Process)
    (outcome : Outcome) (takes : Option SlotIndex)
    (letsGo : SlotIndex → Prop) : Prop where
  linked : outcome.process.isTableLinked = process.isTableLinked
  wellFormed : WellFormed outcome.process.dataTableCacheMap
  changes :
    ∀ slot : SlotIndex,
      SlotChange table[slot] outcome.table[slot]
        (Holds process slot) (Holds outcome.process slot)
  holds :
    ∀ slot, Holds outcome.process slot ↔
      takes = some slot ∨ Holds process slot ∧ ¬ letsGo slot

variable {table : DataTable} {process : Process}

theorem keeps_unchanged
    (wellFormed : WellFormed process.dataTableCacheMap) (ending : Ending)
    {letsGo : SlotIndex → Prop} (keepsAll : ∀ slot, ¬ letsGo slot) :
    Keeps table process ⟨table, process, ending⟩ none letsGo where
  linked := rfl
  wellFormed := wellFormed
  changes := fun _ => .kept rfl Iff.rfl
  holds := fun slot => by simp [keepsAll slot]

theorem holds_set_self
    {process following : Process} {slot : SlotIndex}
    {handle : Option PShm}
    (cache :
      following.dataTableCache = put process.dataTableCache slot handle) :
    Holds following slot ↔ handle.isSome := by
  simp [Holds, cache]

theorem holds_set_of_ne
    {process following : Process} {slot other : SlotIndex}
    {handle : Option PShm} (different : other ≠ slot)
    (cache :
      following.dataTableCache = put process.dataTableCache slot handle) :
    Holds following other ↔ Holds process other := by
  rw [Holds, cache, getElem_put_of_ne _ _ different, Holds]

/-- A call which changes one slot and the hold of its caller on it. -/
theorem keeps_of_set
    {slot : SlotIndex} {following : WimpDataSlot} {after : Process}
    {handle : Option PShm} {ending : Ending}
    {takes : Option SlotIndex} {letsGo : SlotIndex → Prop}
    (linked : after.isTableLinked = process.isTableLinked)
    (wellFormed : WellFormed after.dataTableCacheMap)
    (cache :
      after.dataTableCache = put process.dataTableCache slot handle)
    (change :
      SlotChange table[slot] following (Holds process slot)
        handle.isSome)
    (own :
      handle.isSome ↔ takes = some slot ∨ Holds process slot ∧ ¬ letsGo slot)
    (others : ∀ other, other ≠ slot → takes ≠ some other ∧ ¬ letsGo other) :
    Keeps table process ⟨put table slot following, after, ending⟩ takes
      letsGo := by
  constructor
  case linked => exact linked
  case wellFormed => exact wellFormed
  case changes =>
    intro other
    by_cases same : other = slot
    · subst same
      simpa [holds_set_self cache] using change
    · refine .kept ?_ (holds_set_of_ne same cache)
      exact getElem_put_of_ne table following same
  case holds =>
    intro other
    by_cases same : other = slot
    · subst same
      exact (holds_set_self cache).trans own
    · rcases others other same with ⟨leaves, keepsOther⟩
      rw [holds_set_of_ne same cache]
      simp [leaves, keepsOther]

/-- A reservation takes a slot which nobody holds. -/
theorem keeps_wimpDataReserve
    {reservedName : CString} {size : Nat} {fresh : ShmResult}
    {granted : Bool}
    (wellFormed : WellFormed process.dataTableCacheMap)
    (vacant :
      ∀ slot : SlotIndex, table[slot].shareCounter = 0 →
        ¬ Holds process slot)
    (succeeds : ShmResult.Granted fresh size)
    (fits : reservedName.val.length < wimpSharedSlotMaxNameBytes) :
    let outcome :=
      wimpDataReserve reservedName size fresh granted table process
    Keeps table process outcome (taken outcome (findFree table))
      fun _ => False := by
  rcases succeeds with ⟨proper, large, handle⟩
  have short :
      (terminated reservedName.val).length ≤ wimpSharedSlotMaxNameBytes := by
    rw [length_terminated]
    exact fits
  have accepted : ¬ (fresh.err = true ∨ fresh.size < size) := by
    simp [proper, large]
  unfold wimpDataReserve
  cases free : findFree table with
  | none => exact keeps_unchanged wellFormed .fail fun _ => id
  | some slot =>
      have unused : table[slot].shareCounter = 0 := by
        simpa using List.find?_some free
      simp only [copyName, if_pos short, if_neg accepted]
      simp only [put_put, getElem_put_self]
      apply keeps_of_set
      case linked => rfl
      case wellFormed => exact wellFormed_add wellFormed _ _ _
      case cache => rfl
      case change =>
        refine .taken (vacant slot unused) handle ?_
        show addInt32 _ 1 = _
        rw [unused]
        rfl
      case own => simp [taken, handle]
      case others =>
        intro other different
        simp [taken, Ne.symm different]

/-- A link takes a slot which the caller does not hold yet. -/
theorem keeps_wimpDataLinkToData
    {name : CString} {opened : ShmResult} {granted : Bool}
    (wellFormed : WellFormed process.dataTableCacheMap)
    (bounded :
      ∀ slot : SlotIndex, ¬ Holds process slot →
        0 ≤ table[slot].shareCounter ∧
          table[slot].shareCounter + 1 < 2 ^ 31)
    (succeeds : opened.handle.isSome) :
    let outcome := wimpDataLinkToData name opened granted table process
    Keeps table process outcome (taken outcome (findName table name).join)
      fun _ => False := by
  unfold wimpDataLinkToData
  split
  · exact keeps_unchanged wellFormed .crash fun _ => id
  · exact keeps_unchanged wellFormed .fail fun _ => id
  · rename_i slot found
    split
    · exact keeps_unchanged wellFormed .fail fun _ => id
    · rename_i free
      have bounds := bounded slot free
      apply keeps_of_set
      case linked => rfl
      case wellFormed => exact wellFormed_add wellFormed _ _ _
      case cache => rfl
      case change =>
        refine .taken free succeeds ?_
        exact addInt32_of_fits (by omega) (by omega)
      case own => simp [taken, found, succeeds]
      case others =>
        intro other different
        simp [taken, found, Ne.symm different]

/-- A holder which unlinks gives one count back. -/
theorem keeps_wimpDataUnlinkFromData
    {name : CString} (wellFormed : WellFormed process.dataTableCacheMap)
    (bounded :
      ∀ slot : SlotIndex, Holds process slot →
        0 < table[slot].shareCounter ∧
          table[slot].shareCounter < 2 ^ 31)
    (guarded :
      ∀ slot ∈ (findName table name).join,
        Holds process slot ∧
          Removable process.dataTableCacheMap name.val) :
    Keeps table process (wimpDataUnlinkFromData name table process) none
      fun slot => (findName table name).join = some slot := by
  unfold wimpDataUnlinkFromData
  split
  · rename_i crashed
    exact keeps_unchanged wellFormed .crash fun slot => by simp [crashed]
  · rename_i missing
    exact keeps_unchanged wellFormed .success fun slot => by simp [missing]
  · rename_i slot found
    rcases guarded slot (by simp [found]) with ⟨holding, removable⟩
    have removed :=
      (isSome_hashStringRemove_iff wellFormed name.val).mpr removable
    have bounds := bounded slot holding
    have counter :
        addInt32 table[slot].shareCounter (-1) =
          table[slot].shareCounter - 1 :=
      addInt32_of_fits (by omega) (by omega)
    dsimp only
    split
    · rename_i crashed
      rw [crashed] at removed
      cases removed
    · rename_i map status ended
      apply keeps_of_set
      case linked => rfl
      case wellFormed => exact (hashStringRemove_spec wellFormed ended).1
      case cache => rfl
      case change =>
        refine .released holding nofun ?_ ?_
        · split
          · rename_i last
            show 0 = _
            omega
          · exact counter
        · intro zero
          split at zero
          · rename_i last
            rw [if_pos last]
            exact ⟨rfl, rfl, rfl⟩
          · rename_i more
            exact absurd zero.le more
      case own => simp [found]
      case others =>
        intro other different
        simp [found, Ne.symm different]

/-! ## Every run -/

variable {state after : State count}

/--
The count, that the record agrees with the caches, that a process without a
table holds nothing, and that the hash tables are in order.
-/
structure Invariant (state : State count) : Prop where
  counted : Counted state.config.table (cachers state.config)
  agrees :
    ∀ process slot, (process, slot) ∈ state.held ↔
      Holds (state.config.processes process) slot
  detached :
    ∀ process, (state.config.processes process).isTableLinked = false →
      ∀ slot, ¬ Holds (state.config.processes process) slot
  wellFormed :
    ∀ process,
      WellFormed (state.config.processes process).dataTableCacheMap

/-- The recorded holders of a slot are the processes which have a handle. -/
theorem Invariant.holders_eq
    (invariant : Invariant state) :
    holders state = cachers state.config := by
  funext slot
  ext process
  rw [mem_cachers, holders, Finset.mem_filter, invariant.agrees]
  exact and_iff_right (Finset.mem_univ process)

theorem Invariant.nonneg
    (invariant : Invariant state) (slot : SlotIndex) :
    0 ≤ state.config.table[slot].shareCounter := by
  rw [invariant.counted.counter slot]
  omega

/-- A holder is counted. -/
theorem Invariant.counter_pos
    (invariant : Invariant state) {caller : Fin count} {slot : SlotIndex}
    (holding : Holds (state.config.processes caller) slot) :
    0 < state.config.table[slot].shareCounter := by
  rw [invariant.counted.counter slot]
  have positive : 0 < (cachers state.config slot).card :=
    Finset.card_pos.mpr ⟨caller, (mem_cachers caller slot).mpr holding⟩
  omega

theorem Invariant.counter_le
    (invariant : Invariant state) (slot : SlotIndex) :
    state.config.table[slot].shareCounter ≤ count := by
  rw [invariant.counted.counter slot]
  have most := Finset.card_le_univ (cachers state.config slot)
  rw [Fintype.card_fin] at most
  omega

/-- A process which does not hold a slot leaves room for its count. -/
theorem Invariant.counter_lt
    (invariant : Invariant state) {caller : Fin count} {slot : SlotIndex}
    (free : ¬ Holds (state.config.processes caller) slot) :
    state.config.table[slot].shareCounter < count := by
  rw [invariant.counted.counter slot]
  have most := Finset.card_lt_univ_of_notMem
    (fun member => free ((mem_cachers caller slot).mp member))
  rw [Fintype.card_fin] at most
  omega

/-- What the record says behind a call. -/
theorem mem_heldAfter
    (action : Action count) (process : Fin count) (slot : SlotIndex) :
    (process, slot) ∈ heldAfter state action ↔
      (process = action.caller ∧ takes state.config action = some slot) ∨
        (process, slot) ∈ state.held ∧
          ¬ (process = action.caller ∧
            LetsGo state.config action slot) := by
  unfold heldAfter
  cases takes state.config action with
  | none => simp
  | some other => simp [eq_comm]

/-- A caller whose holds change as the record says keeps the invariant. -/
theorem Invariant.of_caller
    (invariant : Invariant state) {action : Action count}
    {process : Process}
    (processes :
      next.processes =
        Function.update state.config.processes action.caller process)
    (changes :
      ∀ slot : SlotIndex,
        SlotChange state.config.table[slot] next.table[slot]
          (Holds (state.config.processes action.caller) slot)
          (Holds process slot))
    (holds :
      ∀ slot, Holds process slot ↔
        takes state.config action = some slot ∨
          Holds (state.config.processes action.caller) slot ∧
            ¬ LetsGo state.config action slot)
    (detached :
      process.isTableLinked = false → ∀ slot, ¬ Holds process slot)
    (wellFormed : WellFormed process.dataTableCacheMap) :
    Invariant ⟨next, heldAfter state action⟩ := by
  constructor
  case counted => exact invariant.counted.of_changes processes changes
  case agrees =>
    intro other slot
    rw [mem_heldAfter, invariant.agrees, processes]
    by_cases same : other = action.caller
    · rw [same, Function.update_self, holds]
      simp
    · rw [Function.update_of_ne same]
      simp [same]
  case detached =>
    intro other
    rw [processes]
    by_cases same : other = action.caller
    · rw [same, Function.update_self]
      exact detached
    · rw [Function.update_of_ne same]
      exact invariant.detached other
  case wellFormed =>
    intro other
    rw [processes]
    by_cases same : other = action.caller
    · rw [same, Function.update_self]
      exact wellFormed
    · rw [Function.update_of_ne same]
      exact invariant.wellFormed other

/-- A call under the table lock. -/
theorem Invariant.of_call
    (invariant : Invariant state) (action : Action count)
    (operation : DataTable → Process → Outcome)
    (slot : Outcome → Option SlotIndex)
    (recorded :
      let process := state.config.processes action.caller
      takes state.config action =
        if process.isTableLinked then
          slot (operation state.config.table process)
        else none)
    (keeps :
      let process := state.config.processes action.caller
      let outcome := operation state.config.table process
      Keeps state.config.table process outcome (slot outcome)
        (LetsGo state.config action))
    (called : state.config.call action.caller operation = some next) :
    Invariant ⟨next, heldAfter state action⟩ := by
  unfold Config.call at called
  dsimp only at called recorded keeps
  split at called
  · rename_i linked
    rw [if_pos linked] at recorded
    split at called
    · cases called
    · cases called
      apply invariant.of_caller rfl
      case changes => exact keeps.changes
      case holds =>
        intro other
        rw [recorded]
        exact keeps.holds other
      case detached =>
        intro unlinked
        exact absurd (unlinked.symm.trans (keeps.linked.trans linked))
          Bool.false_ne_true
      case wellFormed => exact keeps.wellFormed
  · rename_i unlinked
    rw [if_neg unlinked] at recorded
    have nothing := invariant.detached action.caller (by simpa using unlinked)
    cases called
    apply invariant.of_caller rfl
    case changes => exact fun other => .kept rfl Iff.rfl
    case holds =>
      intro other
      have free := nothing other
      rw [Holds] at free
      simp [recorded, Holds, free]
    case detached => exact fun _ => nothing
    case wellFormed => exact invariant.wellFormed action.caller

theorem not_holds_blank {process : Process}
    (blank : process.dataTableCache = Vector.replicate _ none)
    (slot : SlotIndex) : ¬ Holds process slot := by
  simp [Holds, blank]

/-- One guarded call keeps the count. -/
theorem invariant_of_step
    (few : count < 2 ^ 31) (invariant : Invariant state)
    (guarded : Guarded state action)
    (stepped : step state action = some after) : Invariant after := by
  rcases Option.map_eq_some_iff.mp stepped with ⟨next, moved, rfl⟩
  unfold Table.step at moved
  split at moved
  · cases moved
  cases action with
  | linkToProcess caller =>
      cases moved
      unfold wimpDataLinkToProcess
      split
      · rename_i linked
        apply invariant.of_caller rfl
        case changes => exact fun slot => .kept rfl Iff.rfl
        case holds => exact fun slot => by simp [takes, LetsGo, Action.caller]
        case detached => exact invariant.detached caller
        case wellFormed => exact invariant.wellFormed caller
      · rename_i unlinked
        have nothing := invariant.detached caller (by simpa using unlinked)
        apply invariant.of_caller rfl
        case changes =>
          intro slot
          exact .kept rfl
            (iff_of_false (not_holds_blank rfl slot) (nothing slot))
        case holds =>
          intro slot
          have blank := nothing slot
          simp [takes, LetsGo, Action.caller, blank, not_holds_blank]
        case detached => exact fun _ => not_holds_blank rfl
        case wellFormed => exact wellFormed_create
  | reserve caller reservedName size fresh granted =>
      refine invariant.of_call (.reserve caller reservedName size fresh granted)
        (wimpDataReserve reservedName size fresh granted)
        (fun outcome => taken outcome (findFree state.config.table))
        rfl ?_ moved
      apply keeps_wimpDataReserve (invariant.wellFormed caller) _ guarded.1
        guarded.2
      intro slot unused holding
      have positive := invariant.counter_pos holding
      omega
  | linkToData caller name opened granted =>
      refine invariant.of_call (.linkToData caller name opened granted)
        (wimpDataLinkToData name opened granted)
        (fun outcome =>
          taken outcome (findName state.config.table name).join)
        rfl ?_ moved
      apply keeps_wimpDataLinkToData (invariant.wellFormed caller) _ guarded
      intro slot free
      have room := invariant.counter_lt free
      exact ⟨invariant.nonneg slot, by omega⟩
  | unlinkFromData caller name =>
      refine invariant.of_call (.unlinkFromData caller name)
        (wimpDataUnlinkFromData name) (fun _ => none) (by simp [takes]) ?_
        moved
      apply keeps_wimpDataUnlinkFromData (invariant.wellFormed caller)
      · intro slot holding
        have most := invariant.counter_le slot
        exact ⟨invariant.counter_pos holding, by omega⟩
      · intro slot found
        rcases guarded slot found with ⟨held, removable⟩
        exact ⟨(invariant.agrees caller slot).mp held, removable⟩
  | unlinkFromProcess caller =>
      have nothing (slot : SlotIndex) :
          ¬ Holds (state.config.processes caller) slot :=
        fun holding => guarded slot ((invariant.agrees caller slot).mpr holding)
      cases moved
      unfold wimpDataUnlinkFromProcess
      split
      · apply invariant.of_caller rfl
        case changes =>
          intro slot
          exact .kept rfl
            (iff_of_false (not_holds_blank rfl slot) (nothing slot))
        case holds =>
          intro slot
          simp [takes, LetsGo, not_holds_blank]
        case detached => exact fun _ => not_holds_blank rfl
        case wellFormed => exact wellFormed_create
      · apply invariant.of_caller rfl
        case changes => exact fun slot => .kept rfl Iff.rfl
        case holds =>
          intro slot
          have blank := nothing slot
          simp [takes, LetsGo, Action.caller, blank]
        case detached => exact invariant.detached caller
        case wellFormed => exact invariant.wellFormed caller

theorem invariant_initial : Invariant ({} : State count) := by
  have nobody (slot : SlotIndex) :
      cachers ({} : State count).config slot = ∅ := by
    ext process
    simp [Holds]
  constructor
  case counted =>
    constructor
    case counter =>
      intro slot
      rw [nobody slot]
      simp
    case cleared =>
      intro slot
      refine iff_of_true ?_ (nobody slot)
      simp [Cleared]
  case agrees =>
    intro process slot
    simp [Holds]
  case detached => exact fun process _ => not_holds_blank rfl
  case wellFormed => exact fun _ => wellFormed_create

/--
In every run of guarded calls each counter is the number of the holders, and
a slot is cleared exactly when its last holder has let it go.
-/
theorem counted_of_guarded
    (few : count < 2 ^ 31) {actions : List (Action count)}
    (guarded : Along step Guarded {} actions)
    (ran : run step {} actions = some state) :
    Counted state.config.table (holders state) := by
  have invariant : Invariant state :=
    run_induction_along (motive := fun _ state => Invariant state)
      invariant_initial
      (fun _ _ _ _ invariant guarded stepped =>
        invariant_of_step few invariant guarded stepped)
      guarded ran
  rw [invariant.holders_eq]
  exact invariant.counted

/-! ## The calls which break the count -/

/-- A process which detaches while it holds a slot stays counted. -/
theorem not_counted_of_unlinkFromProcess
    (invariant : Invariant state) {caller : Fin count} {slot : SlotIndex}
    (holding : (caller, slot) ∈ state.held)
    (stepped : step state (.unlinkFromProcess caller) = some after) :
    ¬ Counted after.config.table (holders after) := by
  rcases Option.map_eq_some_iff.mp stepped with ⟨next, moved, rfl⟩
  unfold Table.step at moved
  split at moved
  · cases moved
  cases moved
  intro counted
  have before := invariant.counted.counter slot
  have counter := counted.counter slot
  have member : caller ∈ cachers state.config slot :=
    (mem_cachers caller slot).mpr
      ((invariant.agrees caller slot).mp holding)
  have positive := Finset.card_pos.mpr ⟨caller, member⟩
  have fewer :
      holders
          ⟨state.config.setProcess caller
            (wimpDataUnlinkFromProcess (state.config.processes caller)),
            heldAfter state (.unlinkFromProcess caller)⟩
          slot =
        (cachers state.config slot).erase caller := by
    ext process
    rw [holders, Finset.mem_filter, mem_heldAfter, Finset.mem_erase,
      mem_cachers, invariant.agrees]
    simp [takes, LetsGo, Action.caller, and_comm]
  rw [fewer, Finset.card_erase_of_mem member] at counter
  have same :
      state.config.table[slot].shareCounter =
        ((cachers state.config slot).card - 1 : Nat) := counter
  omega

/-- The counter of a slot which is unlinked goes down, whoever unlinks. -/
theorem shareCounter_wimpDataUnlinkFromData
    (process : Process) {name : CString} {slot : SlotIndex}
    (found : findName table name = some (some slot))
    (positive : 0 < table[slot].shareCounter)
    (bounded : table[slot].shareCounter < 2 ^ 31) :
    (wimpDataUnlinkFromData name table process).table[slot].shareCounter =
      table[slot].shareCounter - 1 := by
  have counter :
      addInt32 table[slot].shareCounter (-1) =
        table[slot].shareCounter - 1 :=
    addInt32_of_fits (by omega) (by omega)
  unfold wimpDataUnlinkFromData
  rw [found]
  dsimp only
  split
  · simpa using counter
  · split
    · rename_i last
      have zero : table[slot].shareCounter - 1 = 0 := by omega
      rw [zero]
      simp [clearSlot]
    · simpa using counter

/-- A process which unlinks a slot it does not hold takes a count away. -/
theorem not_counted_of_unlinkFromData
    (few : count < 2 ^ 31) (invariant : Invariant state)
    {caller : Fin count} {name : CString} {slot : SlotIndex}
    (linked : (state.config.processes caller).isTableLinked = true)
    (found : findName state.config.table name = some (some slot))
    (used : state.config.table[slot].shareCounter ≠ 0)
    (free : (caller, slot) ∉ state.held)
    (stepped : step state (.unlinkFromData caller name) = some after) :
    ¬ Counted after.config.table (holders after) := by
  have nonneg := invariant.nonneg slot
  have most := invariant.counter_le slot
  have lowered :=
    shareCounter_wimpDataUnlinkFromData (state.config.processes caller) found
      (by omega) (by omega)
  rcases Option.map_eq_some_iff.mp stepped with ⟨next, moved, rfl⟩
  have unmoved :
      holders ⟨next, heldAfter state (.unlinkFromData caller name)⟩ slot =
        cachers state.config slot := by
    ext process
    rw [holders, Finset.mem_filter, mem_heldAfter, mem_cachers,
      invariant.agrees]
    rw [invariant.agrees] at free
    simp only [takes, LetsGo, Action.caller, found]
    constructor
    · rintro ⟨-, ⟨-, never⟩ | ⟨holding, -⟩⟩
      · cases never
      · exact holding
    · intro holding
      refine ⟨Finset.mem_univ process, Or.inr ⟨holding, ?_⟩⟩
      rintro ⟨rfl, -⟩
      exact free holding
  unfold Table.step at moved
  split at moved
  · cases moved
  simp only [Config.call, linked, if_true] at moved
  split at moved
  · cases moved
  cases moved
  intro counted
  have before := invariant.counted.counter slot
  have counter := counted.counter slot
  rw [unmoved] at counter
  have less :
      state.config.table[slot].shareCounter - 1 =
        (cachers state.config slot).card := lowered.symm.trans counter
  omega

/-! ## Two runs -/

/-- The name `n`. -/
def nameN : CString := .ofBytes [0x6e]

/-- A segment of 16 bytes. -/
def segment (handle : PShm) : ShmResult :=
  { shm := some (handle, 16), err := false }

/-- A slot is reserved and linked, and let go by the one who reserved it. -/
def shared (first second : Fin 2) : List (Action 2) :=
  [.linkToProcess first, .linkToProcess second,
    .reserve first nameN 16 (segment 1) true,
    .linkToData second nameN (segment 2) true,
    .unlinkFromData first nameN, .unlinkFromProcess first]

theorem counted_shared :
    ∃ state,
      run step {} (shared 0 1) = some state ∧ holders state 0 = {1} ∧
        Counted state.config.table (holders state) := by
  rcases Option.map_eq_some_iff.mp
    (show
      (run step {} (shared 0 1)).map (fun state => holders state 0) =
        some {1} by decide +kernel) with
    ⟨state, ran, left⟩
  exact ⟨state, ran, left,
    counted_of_guarded (by decide) (by decide +kernel) ran⟩

/-- A process reserves a slot and detaches: it is still counted. -/
theorem not_counted_detached :
    ∃ state : State 1,
      run step {}
          [.linkToProcess 0, .reserve 0 nameN 16 (segment 1) true,
            .unlinkFromProcess 0] = some state ∧
        ¬ Counted state.config.table (holders state) := by
  have last :
      (run step ({} : State 1)
          [.linkToProcess 0, .reserve 0 nameN 16 (segment 1) true,
            .unlinkFromProcess 0]).map
          (fun state =>
            (state.config.table[(0 : SlotIndex)].shareCounter,
              (holders state 0).card)) =
        some (1, 0) := by
    decide +kernel
  rcases Option.map_eq_some_iff.mp last with ⟨state, ran, left⟩
  rcases Prod.mk.inj left with ⟨counter, nobody⟩
  refine ⟨state, ran, fun counted => ?_⟩
  have equal := counted.counter 0
  rw [counter, nobody] at equal
  cases equal

end Wimp.Data.RefCount
