import Wimp.Data.Sessions
import Wimp.Data.Segments.TableName

/-!
# Sessions under the locks of the segments

As long as every link opens the segment which the reservation made, all the
processes of a slot take the same lock, and its sessions follow one another: a
session starts from the arena which the last one left, and no two allocations
overlap.  Where the name has lost its segment, a link makes another one with a
lock of its own, and a link without a segment takes no lock at all.
-/

namespace Wimp.Data.Exclusion

open Wimp.Lib.ByteRegion
open Wimp.Lib.SharedMemory
open Wimp.Lib.SerialHistory
  (Phase Serial left opened_eq_left changed_le apply_of_mem phase)
open Wimp.Utility.SimpleArena
open Wimp.Data.Registry
open Wimp.Data.Sessions
open Wimp.Data.RefCount (Holds)
open Wimp.Data.Segments (TableKept)
open Wimp.Data.Table
  (Process SlotIndex findFree wimpSharedSlotMaxNameBytes)

variable {count : Nat}

/-! ## Sessions which follow one another -/

/-- An alive process is in a session of the slot. -/
def Inside (config : Config count) (slot : SlotIndex)
    (process : Fin count) (position : Nat) : Prop :=
  (config.process process).dead = false ∧
    ∃ session, (config.sessions process)[position]? = some session ∧
      indexOf (config.process process) session.name.val = some slot

/--
The range of an allocation which advanced the pointer of the arena: its start
and its size.
-/
def given : Event count → Option (Nat × Nat)
  | .changed _ before grant after =>
      if before.arenaPointer < after.arenaPointer then
        some (grant.pointer, grant.size)
      else none
  | _ => none

/--
At most one session of the slot is open, every session started from the arena
which the one before it left, and no two allocations which advanced the
pointer were given overlapping ranges.
-/
structure Serialized (config : Config count) (slot : SlotIndex) :
    Prop where
  exclusive :
    ∀ first second position other,
      Inside config slot first position →
        Inside config slot second other →
          first = second ∧ position = other
  continued :
    ∀ later caller arena earlier,
      (config.lifetimes slot).history =
          later ++ .opened caller arena :: earlier →
        arena = left (config.lifetimes slot).start earlier
  disjoint :
    ∀ later second earlier, ∀ first ∈ earlier,
      (config.lifetimes slot).history = later ++ second :: earlier →
        ∀ range ∈ given first, ∀ other ∈ given second,
          range.1 + range.2 ≤ other.1 ∨ other.1 + other.2 ≤ range.1

/-- The sessions of every slot in use follow one another. -/
def AllSerialized (config : Config count) : Prop :=
  ∀ slot : SlotIndex, Used config.table[slot] → Serialized config slot

/-! ## The calls which keep the sessions apart -/

/--
The calls of the processes: a name is reserved once at a time, processes stay
linked while they access, and the sizes of allocations do not overflow.
-/
def Admissible (config : Config count) : Action count → Prop
  | .call (.reserve _ reservedName _ _ _ _) =>
      New config.table reservedName
  | .call (.unlinkFromData caller name) =>
      ∀ session ∈ config.sessions caller, session.name ≠ name
  | .alloc caller position size =>
      ∀ session ∈ (config.sessions caller)[position]?,
        session.dataArena.arena.arenaPointer + size < 2 ^ 64
  | _ => True

/--
A link opens the segment which the reservation made, which its name still
leads to; only somebody who is linked unlinks; names fit their fields, none is
that of the table, and counters have room.
-/
def Clean (config : Config count) : Action count → Prop
  | .call (.reserve _ reservedName _ first _ _) =>
      (findFree config.table).isSome →
        reservedName.val.length < wimpSharedSlotMaxNameBytes ∧
          (first = true → reservedName ≠ config.base.tableName)
  | .call (.linkToData caller name opens _) =>
      ∀ slot : SlotIndex, Used config.table[slot] →
        Named config.table[slot] name →
          config.table[slot].shareCounter + 1 < 2 ^ 31 ∧
            (¬ Holds (config.process caller) slot →
              opens = true ∧
                config.base.memory.names name =
                  some (config.lifetimes slot).segment)
  | .call (.unlinkFromData caller name) =>
      ∀ slot : SlotIndex, Used config.table[slot] →
        Named config.table[slot] name →
          Holds (config.process caller) slot ∨
            indexOf (config.process caller) name.val = some slot
  | _ => True

instance (config : Config count) :
    ∀ action, Decidable (Admissible config action)
  | .call (.reserve _ name _ _ _ _) =>
      inferInstanceAs (Decidable (New config.table name))
  | .call (.unlinkFromData _ _) =>
      inferInstanceAs (Decidable (∀ _ ∈ _, ¬ _))
  | .alloc _ _ _ =>
      inferInstanceAs (Decidable (∀ _ ∈ _, _ < _))
  | .call (.linkToProcess _ _) | .call (.linkToData _ _ _ _)
  | .call (.write _ _ _ _) | .access _ _ _ | .resume _
  | .stopAccess _ _ => inferInstanceAs (Decidable True)

instance (config : Config count) :
    ∀ action, Decidable (Clean config action)
  | .call (.reserve _ _ _ _ _ _) =>
      inferInstanceAs (Decidable (_ → _ < _ ∧ (_ = _ → _ ≠ _)))
  | .call (.linkToData _ _ _ _) =>
      inferInstanceAs
        (Decidable
          (∀ _ : SlotIndex, _ → _ →
            _ < _ ∧ (¬ Holds _ _ → _ = true ∧ _ = _)))
  | .call (.unlinkFromData _ _) =>
      inferInstanceAs (Decidable (∀ _ : SlotIndex, _ → _ → _ ∨ _))
  | .call (.linkToProcess _ _) | .call (.write _ _ _ _)
  | .access _ _ _ | .resume _ | .alloc _ _ _ | .stopAccess _ _ =>
      inferInstanceAs (Decidable True)

/-! ## The invariant -/

/-- A request which an arena of a state grants or refuses. -/
def Allocated (before : SArena) (grant : Grant) (after : SArena) : Prop :=
  before.arenaPointer + grant.size < 2 ^ 64 ∧
    sarenaAllocUnchecked before grant.size = (after, grant.pointer)

/-- The phase of a slot. -/
def phaseOf (config : Config count) (slot : SlotIndex) :
    Phase (Fin count) SArena :=
  phase (config.lifetimes slot).start (config.lifetimes slot).history

/-- A session of the slot, which its caller has locked. -/
structure InSession (config : Config count) (process : Fin count)
    (session : Session) (slot : SlotIndex) : Prop where
  found :
    indexOf (config.process process) session.name.val = some slot
  handle :
    session.dataArena.shm = (config.process process).dataTableCache[slot]
  locked : config.locked (config.lifetimes slot).segment = true
  busy :
    phaseOf config slot =
      .busy process (content session.dataArena.arena)

/-- What holds between the calls. -/
structure Invariant (config : Config count) : Prop where
  registered : Registered config.base.base
  sound : Sound config.base.memory
  tableKept : TableKept config.base
  made :
    ∀ slot : SlotIndex, Used config.table[slot] →
      (config.lifetimes slot).segment < config.base.memory.segments.length
  apart :
    ∀ first second : SlotIndex, Used config.table[first] →
      Used config.table[second] →
        (config.lifetimes first).segment =
            (config.lifetimes second).segment →
          first = second
  linked :
    ∀ process (name : Bytes) (slot : SlotIndex),
      (config.process process).dead = false →
        indexOf (config.process process) name = some slot →
          segmentAt config.base.memory
              (config.process process).dataTableCache[slot] =
            some (config.lifetimes slot).segment
  lockedMade :
    ∀ segment, config.locked segment = true →
      segment < config.base.memory.segments.length
  inside :
    ∀ process, (config.process process).dead = false →
      ∀ session ∈ config.sessions process,
        (config.process process).isTableLinked = true ∧
          ∃ slot, InSession config process session slot
  single :
    ∀ process, (config.process process).dead = false →
      ((config.sessions process).map fun session =>
        indexOf (config.process process) session.name.val).Nodup
  serial :
    ∀ slot : SlotIndex, Used config.table[slot] →
      Serial Allocated (config.lifetimes slot).start
        (config.lifetimes slot).history
  resting :
    ∀ slot : SlotIndex, Used config.table[slot] →
      ∀ arena, phaseOf config slot = .idle arena →
        content config.table[slot].dataArena = arena
  busyLocked :
    ∀ slot : SlotIndex, Used config.table[slot] →
      ∀ caller arena, phaseOf config slot = .busy caller arena →
        config.locked (config.lifetimes slot).segment = true

variable {config next : Config count}

/-! ## What the invariant says -/

/-- An allocation advances the pointer by its size, or not at all. -/
theorem Allocated.cases
    {before after : SArena} {grant : Grant}
    (allocated : Allocated before grant after) :
    after.arenaPointer = before.arenaPointer ∨
      after.arenaPointer = before.arenaPointer + grant.size ∧
        grant.pointer = before.arenaPointer := by
  rcases allocated with ⟨small, result⟩
  unfold sarenaAllocUnchecked at result
  rw [addSizeT_of_lt small] at result
  dsimp only at result
  split_ifs at result
  · rcases Prod.mk.inj result with ⟨rfl, -⟩
    exact Or.inl rfl
  · rcases Prod.mk.inj result with ⟨rfl, pointer⟩
    exact Or.inr ⟨rfl, pointer.symm⟩

theorem Allocated.grows
    (before : SArena) (grant : Grant) (after : SArena)
    (allocated : Allocated before grant after) :
    before.arenaPointer ≤ after.arenaPointer := by
  rcases allocated.cases with same | ⟨advanced, -⟩
  · exact same.ge
  · rw [advanced]
    exact Nat.le_add_right _ _

/-- An allocation which advances the pointer gives the bytes it passes. -/
theorem given_changed
    {caller : Fin count} {before after : SArena} {grant : Grant}
    (allocated : Allocated before grant after) {range : Nat × Nat}
    (member : range ∈ given (.changed caller before grant after)) :
    range.1 = before.arenaPointer ∧
      range.1 + range.2 = after.arenaPointer := by
  rw [given] at member
  split_ifs at member with advanced
  · cases member
    rcases allocated.cases with same | ⟨moved, start⟩
    · omega
    · exact ⟨start, by rw [moved, start]⟩
  · cases member

/-- A slot of the name of a session is the slot of the session. -/
theorem Invariant.of_inside
    (invariant : Invariant config) {slot : SlotIndex}
    {process : Fin count} {position : Nat}
    (inside : Inside config slot process position) :
    ∃ session, (config.sessions process)[position]? = some session ∧
      InSession config process session slot := by
  rcases inside with ⟨alive, session, at_position, found⟩
  have member := List.mem_of_getElem? at_position
  rcases (invariant.inside process alive session member).2 with
    ⟨own, inSession⟩
  cases inSession.found.symm.trans found
  exact ⟨session, at_position, inSession⟩

theorem Invariant.exclusive
    (invariant : Invariant config) {slot : SlotIndex}
    {first second : Fin count} {position other : Nat}
    (insideFirst : Inside config slot first position)
    (insideSecond : Inside config slot second other) :
    first = second ∧ position = other := by
  rcases invariant.of_inside insideFirst with ⟨left, atLeft, sessionLeft⟩
  rcases invariant.of_inside insideSecond with
    ⟨right, atRight, sessionRight⟩
  have phases := sessionLeft.busy.symm.trans sessionRight.busy
  have same : first = second := (Phase.busy.inj phases).1
  subst same
  refine ⟨rfl, ?_⟩
  have bound := (List.getElem?_eq_some_iff.mp atLeft).1
  apply (List.getElem?_inj
    (by rw [List.length_map]; exact bound)
    (invariant.single first insideFirst.1)).mp
  rw [List.getElem?_map, List.getElem?_map, atLeft, atRight,
    Option.map_some, Option.map_some, sessionLeft.found,
    sessionRight.found]

theorem Invariant.allSerialized
    (invariant : Invariant config) : AllSerialized config := by
  intro slot used
  have serial := invariant.serial slot used
  constructor
  case exclusive =>
    intro first second position other insideFirst insideSecond
    exact invariant.exclusive insideFirst insideSecond
  case continued =>
    intro later caller arena earlier history
    rw [history] at serial
    exact opened_eq_left serial
  case disjoint =>
    intro later second earlier first member history range given_first other
      given_second
    rw [history] at serial
    cases first with
    | opened caller arena => cases given_first
    | closed caller arena => cases given_first
    | changed caller before grant after =>
        cases second with
        | opened other_caller arena => cases given_second
        | closed other_caller arena => cases given_second
        | changed other_caller start label finish =>
            have ordered := changed_le Allocated.grows serial member
            have one :=
              given_changed
                (apply_of_mem serial
                  (List.mem_append_right _
                    (List.mem_cons_of_mem _ member)))
                given_first
            have two :=
              given_changed
                (apply_of_mem serial
                  (List.mem_append_right _ List.mem_cons_self))
                given_second
            left
            rw [one.2, two.1]
            exact ordered

end Wimp.Data.Exclusion
