import Wimp.Data.Exclusion.Calls

/-!
# The steps of a session

A session starts behind the free lock of its segment, so its slot is at rest
and the arena which is copied is the one which the last session left.  What
the session allocates is granted by its own copy, and the copy is written back
before the lock is given up.
-/

namespace Wimp.Data.Exclusion

open Wimp.Lib.ByteRegion
open Wimp.Lib.SharedMemory
open Wimp.Lib.SerialHistory (Follows Phase phase)
open Wimp.Utility.HashTable
open Wimp.Utility.SimpleArena
open Wimp.Data.Registry
open Wimp.Data.Segments (TableKept)
open Wimp.Data.Sessions
open Wimp.Data.Table (DataTable PShm Process SlotIndex put)

variable {count : Nat} {config next : Config count}

/-! ## Events of a slot -/

/-- The phase of a slot behind one more event. -/
def phaseBehind (config : Config count) (slot : SlotIndex)
    (event : Event count) : Phase (Fin count) SArena :=
  phase (config.lifetimes slot).start
    (event :: (config.lifetimes slot).history)

theorem phaseOf_of_extend
    {slot : SlotIndex} {event : Event count}
    (extended :
      next.lifetimes slot = (config.lifetimes slot).extend event) :
    phaseOf next slot = phaseBehind config slot event := by
  rw [phaseOf, extended]
  rfl

/--
What an event of a slot may change: the sessions and the lock of this slot,
and its arena.
-/
structure Happens (config next : Config count) (slot : SlotIndex)
    (event : Event count) : Prop where
  registered : Registered next.base.base
  tableKept : TableKept next.base
  memory : next.base.memory = config.base.memory
  process : ∀ owner, next.process owner = config.process owner
  used :
    ∀ other : SlotIndex, Used next.table[other] ↔ Used config.table[other]
  arenas :
    ∀ other : SlotIndex, other ≠ slot →
      next.table[other].dataArena = config.table[other].dataArena
  lifetimes :
    next.lifetimes =
      Function.update config.lifetimes slot
        ((config.lifetimes slot).extend event)
  locks :
    ∀ segment, segment ≠ (config.lifetimes slot).segment →
      next.locked segment = config.locked segment
  follows : Follows Allocated (phaseOf config slot) event
  inUse : Used config.table[slot]
  resting :
    ∀ arena, phaseBehind config slot event = .idle arena →
      content next.table[slot].dataArena = arena
  busyLocked :
    ∀ caller arena, phaseBehind config slot event = .busy caller arena →
      next.locked (config.lifetimes slot).segment = true
  sessions :
    ∀ owner, (config.process owner).dead = false →
      ∀ session ∈ next.sessions owner,
        ((config.process owner).isTableLinked = true ∧
            indexOf (config.process owner) session.name.val = some slot ∧
              session.dataArena.shm =
                  (config.process owner).dataTableCache[slot] ∧
                phaseBehind config slot event =
                  .busy owner (content session.dataArena.arena)) ∨
          session ∈ config.sessions owner ∧
            indexOf (config.process owner) session.name.val ≠ some slot
  single :
    ∀ owner, (config.process owner).dead = false →
      ((next.sessions owner).map fun session =>
        indexOf (config.process owner) session.name.val).Nodup

section Events

variable {slot : SlotIndex} {event : Event count}

theorem Happens.lifetime_of_ne
    (happens : Happens config next slot event) {other : SlotIndex}
    (different : other ≠ slot) :
    next.lifetimes other = config.lifetimes other := by
  rw [happens.lifetimes, Function.update_of_ne different]

theorem Happens.lifetime_self
    (happens : Happens config next slot event) :
    next.lifetimes slot = (config.lifetimes slot).extend event := by
  rw [happens.lifetimes, Function.update_self]

/-- An event moves no slot to another segment. -/
theorem Happens.segment
    (happens : Happens config next slot event) (other : SlotIndex) :
    (next.lifetimes other).segment = (config.lifetimes other).segment := by
  by_cases same : other = slot
  · subst same
    rw [happens.lifetime_self]
    rfl
  · rw [happens.lifetime_of_ne same]

theorem Happens.phase_of_ne
    (happens : Happens config next slot event) {other : SlotIndex}
    (different : other ≠ slot) :
    phaseOf next other = phaseOf config other := by
  rw [phaseOf, happens.lifetime_of_ne different, phaseOf]

/-- The lock of another slot in use stays as it is. -/
theorem Invariant.locked_of_happens
    (invariant : Invariant config) (happens : Happens config next slot event)
    {other : SlotIndex} (used : Used config.table[other])
    (different : other ≠ slot)
    (locked : config.locked (config.lifetimes other).segment = true) :
    next.locked (next.lifetimes other).segment = true := by
  rw [happens.segment, happens.locks]
  · exact locked
  · intro same
    exact different (invariant.apart other slot used happens.inUse same)

/-- An event which follows keeps the invariant. -/
theorem Invariant.of_happens
    (invariant : Invariant config)
    (happens : Happens config next slot event) :
    Invariant next := by
  constructor
  case registered => exact happens.registered
  case tableKept => exact happens.tableKept
  case sound => rw [happens.memory]; exact invariant.sound
  case made =>
    intro other used
    rw [happens.segment, happens.memory]
    exact invariant.made other ((happens.used other).mp used)
  case apart =>
    intro first second usedFirst usedSecond same
    rw [happens.segment, happens.segment] at same
    exact invariant.apart first second ((happens.used first).mp usedFirst)
      ((happens.used second).mp usedSecond) same
  case linked =>
    intro owner name other alive found
    rw [happens.process] at alive found ⊢
    rw [happens.memory, happens.segment]
    exact invariant.linked owner name other alive found
  case lockedMade =>
    intro segment locked
    rw [happens.memory]
    by_cases own : segment = (config.lifetimes slot).segment
    · rw [own]
      exact invariant.made slot happens.inUse
    · rw [happens.locks segment own] at locked
      exact invariant.lockedMade segment locked
  case inside =>
    intro owner alive session member
    rw [happens.process] at alive ⊢
    rcases happens.sessions owner alive session member with
      ⟨attached, found, handle, busy⟩ | ⟨old, elsewhere⟩
    · refine ⟨attached, slot, ?_⟩
      constructor
      case found => rw [happens.process]; exact found
      case handle => rw [happens.process]; exact handle
      case locked =>
        rw [happens.segment]
        exact happens.busyLocked owner _ busy
      case busy =>
        rw [phaseOf_of_extend happens.lifetime_self]
        exact busy
    · rcases invariant.inside owner alive session old with
        ⟨attached, other, inSession⟩
      have different : other ≠ slot := by
        rintro rfl
        exact elsewhere inSession.found
      refine ⟨attached, other, ?_⟩
      constructor
      case found => rw [happens.process]; exact inSession.found
      case handle => rw [happens.process]; exact inSession.handle
      case locked =>
        exact invariant.locked_of_happens happens
          (invariant.used_of_found alive inSession.found) different
          inSession.locked
      case busy => rw [happens.phase_of_ne different]; exact inSession.busy
  case single =>
    intro owner alive
    rw [happens.process] at alive ⊢
    exact happens.single owner alive
  case serial =>
    intro other used
    by_cases same : other = slot
    · subst same
      rw [happens.lifetime_self]
      exact ⟨happens.follows, invariant.serial other happens.inUse⟩
    · rw [happens.lifetime_of_ne same]
      exact invariant.serial other ((happens.used other).mp used)
  case resting =>
    intro other used arena idle
    by_cases same : other = slot
    · subst same
      rw [phaseOf_of_extend happens.lifetime_self] at idle
      exact happens.resting arena idle
    · rw [happens.phase_of_ne same] at idle
      rw [happens.arenas other same]
      exact invariant.resting other ((happens.used other).mp used) arena idle
  case busyLocked =>
    intro other used owner arena busy
    by_cases same : other = slot
    · subst same
      rw [phaseOf_of_extend happens.lifetime_self] at busy
      rw [happens.segment]
      exact happens.busyLocked owner arena busy
    · rw [happens.phase_of_ne same] at busy
      have inUse := (happens.used other).mp used
      exact invariant.locked_of_happens happens inUse same
        (invariant.busyLocked other inUse owner arena busy)

end Events

/-! ## The steps of a session -/

section Steps

variable {caller : Fin count}

/-- A slot starts no new life while the table stays as it is. -/
theorem begun_of_table
    {before after : Segments.Config count}
    (same : after.base.table = before.base.table) (caller : Fin count)
    (lifetimes : SlotIndex → Lifetime count) :
    begun before after caller lifetimes = lifetimes := by
  funext slot
  rw [begun, same, if_neg]
  exact fun fresh => fresh.1 fresh.2

theorem Invariant.die
    (invariant : Invariant config)
    (alive : (config.process caller).dead = false) :
    Invariant (config.die caller) := by
  have idle :
      Idle config.base.base (config.die caller).base.base caller
        { config.process caller with dead := true } :=
    invariant.registered.idle alive rfl rfl rfl rfl
  have proceeded :=
    invariant.of_proceeds
      (@proceeds_of_idle _ config (config.die caller).base caller _ idle
        invariant.sound
        (invariant.tableKept.of_idle invariant.registered idle)
        (Extends.refl _) id)
  have same :=
    @begun_of_table _ config.base (config.die caller).base rfl caller
      config.lifetimes
  rw [Config.proceed, same] at proceeded
  exact proceeded

/-- A slot whose segment is not locked is at rest. -/
theorem Invariant.idle_of_unlocked
    (invariant : Invariant config) {slot : SlotIndex}
    (used : Used config.table[slot])
    (free : config.locked (config.lifetimes slot).segment = false) :
    phaseOf config slot = .idle (content config.table[slot].dataArena) := by
  cases phased : phaseOf config slot with
  | idle arena => rw [invariant.resting slot used arena phased]
  | busy owner arena =>
      have locked := invariant.busyLocked slot used owner arena phased
      cases locked.symm.trans free

/-- Nobody has a session of a slot whose segment is not locked. -/
theorem Invariant.nobody_of_unlocked
    (invariant : Invariant config) {slot : SlotIndex}
    (free : config.locked (config.lifetimes slot).segment = false)
    {owner : Fin count} (alive : (config.process owner).dead = false)
    {session : Session} (member : session ∈ config.sessions owner) :
    indexOf (config.process owner) session.name.val ≠ some slot := by
  intro here
  rcases (invariant.inside owner alive session member).2 with
    ⟨other, inSession⟩
  cases inSession.found.symm.trans here
  cases inSession.locked.symm.trans free

/-- A session which starts behind a free lock. -/
theorem Invariant.happens_opened
    (invariant : Invariant config) {slot : SlotIndex} {name : CString}
    {dataArena : WimpDataArena}
    (alive : (config.process caller).dead = false)
    (attached : (config.process caller).isTableLinked = true)
    (found : indexOf (config.process caller) name.val = some slot)
    (handle :
      dataArena.shm = (config.process caller).dataTableCache[slot])
    (copied :
      content dataArena.arena = content config.table[slot].dataArena)
    (free : config.locked (config.lifetimes slot).segment = false) :
    Happens config
      (((config.setSessions caller
        (⟨name, dataArena⟩ :: config.sessions caller)).log caller name
          (.opened caller (content dataArena.arena))).setLocked
            (config.lifetimes slot).segment true)
      slot (.opened caller (content dataArena.arena)) := by
  have used := invariant.used_of_found alive found
  have idle := invariant.idle_of_unlocked used free
  have found_now :
      indexOf
          ((config.setSessions caller
            (⟨name, dataArena⟩ :: config.sessions caller)).process caller)
          name.val =
        some slot :=
    found
  rw [log_of_found found_now]
  constructor
  case registered => exact invariant.registered
  case tableKept => exact invariant.tableKept
  case memory => rfl
  case process => exact fun owner => rfl
  case used => exact fun other => Iff.rfl
  case arenas => exact fun other different => rfl
  case lifetimes => rfl
  case locks =>
    intro segment different
    exact Function.update_of_ne different _ _
  case follows =>
    rw [idle]
    exact copied
  case inUse => exact used
  case resting =>
    intro arena rests
    cases rests
  case busyLocked =>
    intro owner arena busy
    exact Function.update_self ..
  case sessions =>
    intro owner lives session member
    dsimp only [Config.setLocked, Config.setSessions] at member
    by_cases own : owner = caller
    · subst own
      rw [Function.update_self] at member
      rcases List.mem_cons.mp member with rfl | old
      · exact Or.inl ⟨attached, found, handle, rfl⟩
      · exact Or.inr ⟨old, invariant.nobody_of_unlocked free lives old⟩
    · rw [Function.update_of_ne own] at member
      exact Or.inr
        ⟨member, invariant.nobody_of_unlocked free lives member⟩
  case single =>
    intro owner lives
    dsimp only [Config.setLocked, Config.setSessions]
    by_cases own : owner = caller
    · subst own
      rw [Function.update_self, List.map_cons, List.nodup_cons]
      refine ⟨?_, invariant.single owner lives⟩
      intro again
      rcases List.mem_map.mp again with ⟨session, old, same⟩
      exact invariant.nobody_of_unlocked free lives old
        (same.trans found)
    · rw [Function.update_of_ne own]
      exact invariant.single owner lives

/-- A session starts behind the lock of its segment. -/
theorem Invariant.of_enter
    (invariant : Invariant config) {name : CString} {address : Nat}
    (alive : (config.process caller).dead = false)
    (accessed : config.enter caller name address = some next) :
    Invariant next := by
  unfold Config.enter at accessed
  dsimp only at accessed
  split at accessed
  case isFalse =>
    cases accessed
    exact invariant.die alive
  rename_i attached
  split at accessed
  · cases accessed
    exact invariant
  rename_i dataArena copied
  rcases found_of_wimpDataAccess copied with ⟨slot, found, handle, same⟩
  have behind := invariant.linked caller name.val slot alive found
  rw [← handle] at behind
  split at accessed
  · rename_i null
    rw [null] at behind
    cases behind
  rename_i shm cached
  rw [cached] at behind
  rw [behind] at accessed
  dsimp only at accessed
  split at accessed
  · cases accessed
  rename_i unlocked
  cases accessed
  exact invariant.of_happens
    (invariant.happens_opened alive attached found handle same
      (Bool.eq_false_iff.mpr unlocked))

/-- The session at a position, and the slot which it locked. -/
theorem Invariant.inSession_of_position
    (invariant : Invariant config)
    (alive : (config.process caller).dead = false) {position : Nat}
    {session : Session}
    (at_position : (config.sessions caller)[position]? = some session) :
    (config.process caller).isTableLinked = true ∧
      ∃ slot, InSession config caller session slot ∧
        Used config.table[slot] := by
  rcases invariant.inside caller alive session
    (List.mem_of_getElem? at_position) with ⟨attached, slot, inSession⟩
  exact
    ⟨attached, slot, inSession,
      invariant.used_of_found alive inSession.found⟩

/-- Every other session is one of another slot. -/
theorem Invariant.elsewhere
    (invariant : Invariant config)
    (alive : (config.process caller).dead = false) {position : Nat}
    {session : Session} {slot : SlotIndex}
    (at_position : (config.sessions caller)[position]? = some session)
    (inSession : InSession config caller session slot)
    {owner : Fin count} (lives : (config.process owner).dead = false)
    {other : Session} {place : Nat}
    (at_place : (config.sessions owner)[place]? = some other)
    (apart : owner = caller → place ≠ position) :
    indexOf (config.process owner) other.name.val ≠ some slot := by
  intro here
  have both := invariant.exclusive
    ⟨lives, other, at_place, here⟩
    ⟨alive, session, at_position, inSession.found⟩
  exact apart both.1 both.2

/-- An arena without its region grants what it grants with it. -/
theorem sarenaAllocUnchecked_content (arena : SArena) (size : Nat) :
    sarenaAllocUnchecked (content arena) size =
      (content (sarenaAllocUnchecked arena size).1,
        (sarenaAllocUnchecked arena size).2) := by
  show sarenaAllocUnchecked { arena with data := 0 } size = _
  unfold sarenaAllocUnchecked
  dsimp only
  split_ifs <;> rfl

/-- A session whose arena changes is found where it was. -/
theorem map_found_set
    {sessions : List Session} {position : Nat} {session other : Session}
    (at_position : sessions[position]? = some session)
    (same : other.name = session.name) (process : Process) :
    ((sessions.set position other).map fun session =>
        indexOf process session.name.val) =
      sessions.map fun session => indexOf process session.name.val := by
  have bound := (List.getElem?_eq_some_iff.mp at_position).1
  apply List.ext_getElem?
  intro place
  rw [List.getElem?_map, List.getElem?_map]
  by_cases here : position = place
  · subst here
    rw [List.getElem?_set_self bound, at_position, Option.map_some,
      Option.map_some, same]
  · rw [List.getElem?_set_ne here]

/-- A session whose arena grants a request. -/
theorem Invariant.happens_changed
    (invariant : Invariant config) {slot : SlotIndex} {position : Nat}
    {session : Session} {size pointer : Nat} {arena : SArena}
    (alive : (config.process caller).dead = false)
    (attached : (config.process caller).isTableLinked = true)
    (at_position : (config.sessions caller)[position]? = some session)
    (inSession : InSession config caller session slot)
    (used : Used config.table[slot])
    (small : session.dataArena.arena.arenaPointer + size < 2 ^ 64)
    (granted :
      sarenaAllocUnchecked session.dataArena.arena size =
        (arena, pointer)) :
    Happens config
      ((config.setSessions caller
        ((config.sessions caller).set position
          { session with
            dataArena := { session.dataArena with arena } })).log caller
              session.name
                (.changed caller (content session.dataArena.arena)
                  ⟨size, pointer⟩ (content arena)))
      slot
      (.changed caller (content session.dataArena.arena) ⟨size, pointer⟩
        (content arena)) := by
  have found_now :
      indexOf
          ((config.setSessions caller
            ((config.sessions caller).set position
              { session with
                dataArena :=
                  { session.dataArena with arena } })).process caller)
          session.name.val =
        some slot :=
    inSession.found
  rw [log_of_found found_now]
  constructor
  case registered => exact invariant.registered
  case tableKept => exact invariant.tableKept
  case memory => rfl
  case process => exact fun owner => rfl
  case used => exact fun other => Iff.rfl
  case arenas => exact fun other different => rfl
  case lifetimes => rfl
  case locks => exact fun segment different => rfl
  case follows =>
    rw [inSession.busy]
    refine ⟨rfl, rfl, small, ?_⟩
    rw [sarenaAllocUnchecked_content, granted]
  case inUse => exact used
  case resting =>
    intro rest rests
    cases rests
  case busyLocked => exact fun owner rest busy => inSession.locked
  case sessions =>
    intro owner lives other member
    dsimp only [Config.setSessions] at member
    rcases List.mem_iff_getElem?.mp member with ⟨place, at_place⟩
    by_cases own : owner = caller
    · subst own
      rw [Function.update_self] at at_place
      by_cases here : place = position
      · subst here
        rw [List.getElem?_set_self
          (List.getElem?_eq_some_iff.mp at_position).1] at at_place
        cases at_place
        exact Or.inl ⟨attached, inSession.found, inSession.handle, rfl⟩
      · rw [List.getElem?_set_ne (Ne.symm here)] at at_place
        exact Or.inr
          ⟨List.mem_of_getElem? at_place,
            invariant.elsewhere alive at_position inSession lives at_place
              fun _ => here⟩
    · rw [Function.update_of_ne own] at at_place
      exact Or.inr
        ⟨List.mem_of_getElem? at_place,
          invariant.elsewhere alive at_position inSession lives at_place
            fun same => absurd same own⟩
  case single =>
    intro owner lives
    dsimp only [Config.setSessions]
    by_cases own : owner = caller
    · subst own
      rw [Function.update_self, map_found_set at_position]
      · exact invariant.single owner lives
      · rfl
    · rw [Function.update_of_ne own]
      exact invariant.single owner lives

/-- An allocation in a session. -/
theorem Invariant.of_alloc
    (invariant : Invariant config) {asserts : Bool} {position size : Nat}
    (alive : (config.process caller).dead = false)
    (admissible : Admissible config (.alloc caller position size))
    (requested : config.alloc asserts caller position size = some next) :
    Invariant next := by
  unfold Config.alloc at requested
  cases at_position : (config.sessions caller)[position]? with
  | none =>
      rw [at_position] at requested
      cases requested
  | some session =>
      rw [at_position] at requested
      dsimp only at requested
      rcases invariant.inSession_of_position alive at_position with
        ⟨attached, slot, inSession, used⟩
      have small :=
        admissible session (by rw [at_position]; exact rfl)
      split at requested
      · cases requested
        exact invariant.die alive
      · rename_i arena pointer granted
        cases requested
        exact invariant.of_happens
          (invariant.happens_changed alive attached at_position inSession
            used small (eq_unchecked_of_compiled granted).symm)

/-- A session gives its slot back as it leaves it, and its lock with it. -/
theorem Invariant.happens_closed
    (invariant : Invariant config) {slot : SlotIndex} {position : Nat}
    {session : Session}
    (alive : (config.process caller).dead = false)
    (at_position : (config.sessions caller)[position]? = some session)
    (inSession : InSession config caller session slot)
    (used : Used config.table[slot]) :
    Happens config
      ((((config.setTable
        (put config.table slot
          { config.table[slot] with
            dataArena := content session.dataArena.arena })).setSessions
              caller ((config.sessions caller).eraseIdx position)).log caller
                session.name
                  (.closed caller
                    (content session.dataArena.arena))).setLocked
                      (config.lifetimes slot).segment false)
      slot (.closed caller (content session.dataArena.arena)) := by
  have found_now :
      indexOf
          (((config.setTable
            (put config.table slot
              { config.table[slot] with
                dataArena := content session.dataArena.arena })).setSessions
                  caller
                  ((config.sessions caller).eraseIdx position)).process
                    caller)
          session.name.val =
        some slot :=
    inSession.found
  rw [log_of_found found_now]
  have written (other : SlotIndex) :=
    getElem_writeBack config.table slot other
      (content session.dataArena.arena)
  constructor
  case registered =>
    apply invariant.registered.of_similar
    case alive => exact fun _ => id
    case cache => exact fun _ => rfl
    case map => exact fun _ => rfl
    case counter =>
      intro other
      show (put config.table slot _)[other].shareCounter = _
      rw [written]
      rfl
    case name =>
      intro other
      show (put config.table slot _)[other].name = _
      rw [written]
      rfl
  case tableKept =>
    refine ⟨invariant.tableKept.found, ?_, invariant.tableKept.handles⟩
    intro other
    show Used (put config.table slot _)[other] →
      ¬ Named (put config.table slot _)[other] _
    rw [written]
    exact invariant.tableKept.slots other
  case memory => rfl
  case process => exact fun owner => rfl
  case used =>
    intro other
    show Used (put config.table slot _)[other] ↔ _
    rw [written]
    exact Iff.rfl
  case arenas =>
    intro other different
    show (put config.table slot _)[other].dataArena = _
    rw [written]
    exact if_neg different
  case lifetimes => rfl
  case locks =>
    intro segment different
    exact Function.update_of_ne different _ _
  case follows =>
    rw [inSession.busy]
    exact ⟨rfl, rfl⟩
  case inUse => exact used
  case resting =>
    intro arena rests
    cases rests
    show content (put config.table slot _)[slot].dataArena = _
    rw [written]
    dsimp only
    rw [if_pos rfl]
    rfl
  case busyLocked =>
    intro owner arena busy
    cases busy
  case sessions =>
    intro owner lives other member
    dsimp only [Config.setLocked, Config.setSessions] at member
    by_cases own : owner = caller
    · subst own
      rw [Function.update_self] at member
      rcases List.mem_eraseIdx_iff_getElem?.mp member with
        ⟨place, apart, at_place⟩
      exact Or.inr
        ⟨List.mem_of_getElem? at_place,
          invariant.elsewhere alive at_position inSession lives at_place
            fun _ => apart⟩
    · rw [Function.update_of_ne own] at member
      rcases List.mem_iff_getElem?.mp member with ⟨place, at_place⟩
      exact Or.inr
        ⟨member,
          invariant.elsewhere alive at_position inSession lives at_place
            fun same => absurd same own⟩
  case single =>
    intro owner lives
    dsimp only [Config.setLocked, Config.setSessions]
    by_cases own : owner = caller
    · subst own
      rw [Function.update_self]
      exact (invariant.single owner lives).sublist
        ((List.eraseIdx_sublist _ position).map _)
    · rw [Function.update_of_ne own]
      exact invariant.single owner lives

/-- The lock behind a handle of the process is released. -/
theorem unlock_of_cached
    {session : Session} {handle : PShm} {segment : Nat}
    (cached : session.dataArena.shm = some handle)
    (own : some handle ∈ (config.process caller).dataTableCache)
    (behind : segmentAt config.base.memory (some handle) = some segment) :
    config.unlock caller session = config.setLocked segment false := by
  rw [Config.unlock, cached, Option.elim_some,
    if_pos (Vector.contains_iff_mem.mpr own), behind, Option.elim_some]

/-- A session ends, and its lock is released. -/
theorem Invariant.of_stopAccess
    (invariant : Invariant config) {position : Nat}
    (alive : (config.process caller).dead = false)
    (stopped : config.stopAccess caller position = some next) :
    Invariant next := by
  unfold Config.stopAccess at stopped
  cases at_position : (config.sessions caller)[position]? with
  | none =>
      rw [at_position] at stopped
      cases stopped
  | some session =>
      rw [at_position] at stopped
      rcases invariant.inSession_of_position alive at_position with
        ⟨attached, slot, inSession, used⟩
      dsimp only at stopped
      rw [if_pos attached,
        wimpDataStopAccess_of_found inSession.found] at stopped
      cases stopped
      have behind :=
        invariant.linked caller session.name.val slot alive inSession.found
      rw [← inSession.handle] at behind
      have kept :
          session.dataArena.shm ∈
            (config.process caller).dataTableCache := by
        rw [inSession.handle]
        exact Vector.getElem_mem slot.isLt
      have happens :=
        invariant.happens_closed alive at_position inSession used
      cases cached : session.dataArena.shm with
      | none =>
          rw [cached] at behind
          cases behind
      | some handle =>
          rw [cached] at behind kept
          rw [unlock_of_cached cached
            (by rw [log_process]; exact kept)
            (by rw [log_base]; exact behind)]
          exact invariant.of_happens happens

end Steps

end Wimp.Data.Exclusion
