import Mathlib.Data.Finset.Lattice.Fold
import Wimp.Data.Exclusion.Runs
import Wimp.Lib.Mutex

/-!
# Waiting for a session

A process which accesses shared data waits for the lock of its segment, and
makes no other call until it gets it.  In every state of a guarded run a lock
that is taken belongs to the session of one process, and unless that process
died in its session or waits itself, it can end the session, which lets the
next one in.

A process which waits for a session of its own waits for ever, and so do two
processes which wait for each other.  When each of them opens its sessions in
the same order, one that has a session and can go on is always there.
-/

namespace Wimp.Data.Exclusion

open Wimp.Lib.ByteRegion
open Wimp.Lib.Runs
open Wimp.Lib.Mutex
open Wimp.Lib.SharedMemory
open Wimp.Lib.SerialHistory (Phase)
open Wimp.Utility.SimpleArena
open Wimp.Data.Registry
open Wimp.Data.Segments (nameN nameT)
open Wimp.Data.Sessions
open Wimp.Data.Table (Process SlotIndex put)

variable {count : Nat} {config next : Config count}

/-! ## Locks and sessions -/

/-- The slot is in the session of a process. -/
def Busy (config : Config count) (slot : SlotIndex) (owner : Fin count) :
    Prop :=
  ∃ arena, phaseOf config slot = .busy owner arena

/--
A lock which is taken belongs to a session, and a process which is in one and
lives has it open.
-/
structure Attended (config : Config count) : Prop where
  owned :
    ∀ slot : SlotIndex, Used config.table[slot] →
      config.locked (config.lifetimes slot).segment = true →
        ∃ owner, Busy config slot owner
  opened :
    ∀ slot : SlotIndex, Used config.table[slot] →
      ∀ owner, Busy config slot owner →
        (config.process owner).dead = false →
          ∃ position, Inside config slot owner position

/-- The process in whose session a slot in use is. -/
def ownerOf (config : Config count) (slot : SlotIndex) :
    Option (Fin count) :=
  if Used config.table[slot] then
    match phaseOf config slot with
    | .busy owner _ => some owner
    | .idle _ => none
  else none

theorem ownerOf_eq_some_iff (slot : SlotIndex) (owner : Fin count) :
    ownerOf config slot = some owner ↔
      Used config.table[slot] ∧ Busy config slot owner := by
  unfold ownerOf Busy
  by_cases used : Used config.table[slot]
  · rw [if_pos used]
    cases phaseOf config slot with
    | idle arena => simp
    | busy other arena => simp [used]
  · simp [used]

/-- The slots which are in sessions of a process. -/
def slotsOf (config : Config count) (process : Fin count) :
    Finset SlotIndex :=
  Finset.univ.filter fun slot => ownerOf config slot = some process

theorem agrees_ownerOf (config : Config count) :
    Agrees id (ownerOf config) (slotsOf config) := by
  intro process slot
  simp [slotsOf]

theorem attended_initial
    (system : System CString) (maker : Fin count) (tableName : CString) :
    Attended (Config.initial system maker tableName) where
  owned := fun _ _ locked => nomatch locked
  opened := fun slot used =>
    absurd used
      (by
        simp [Config.initial, Config.table, Segments.Config.initial,
          Table.Config.setProcess, Used])

/-! ## The steps -/

section Steps

variable {slot : SlotIndex} {event : Event count} {caller : Fin count}

/-- What an event of a slot does to the sessions which are open. -/
structure Attends (config next : Config count) (slot : SlotIndex)
    (event : Event count) : Prop where
  keeps :
    ∀ owner, ∀ session ∈ config.sessions owner,
      indexOf (config.process owner) session.name.val ≠ some slot →
        session ∈ next.sessions owner
  holds :
    ∀ owner arena, phaseBehind config slot event = .busy owner arena →
      ∃ session ∈ next.sessions owner,
        indexOf (config.process owner) session.name.val = some slot
  frees :
    ∀ arena, phaseBehind config slot event = .idle arena →
      next.locked (config.lifetimes slot).segment = false

theorem Attended.of_happens
    (attended : Attended config) (invariant : Invariant config)
    (happens : Happens config next slot event)
    (attends : Attends config next slot event) : Attended next := by
  have behind := phaseOf_of_extend happens.lifetime_self
  constructor
  case owned =>
    intro other used locked
    have usedBefore := (happens.used other).mp used
    rw [happens.segment] at locked
    by_cases same : other = slot
    · subst same
      cases phased : phaseBehind config other event with
      | idle arena =>
          rw [attends.frees arena phased] at locked
          cases locked
      | busy owner arena => exact ⟨owner, arena, behind.trans phased⟩
    · rw [happens.locks] at locked
      · rcases attended.owned other usedBefore locked with
          ⟨owner, arena, busy⟩
        exact ⟨owner, arena, (happens.phase_of_ne same).trans busy⟩
      · intro equal
        exact same
          (invariant.apart other slot usedBefore happens.inUse equal)
  case opened =>
    intro other used owner busy alive
    rcases busy with ⟨arena, busy⟩
    rw [happens.process] at alive
    by_cases same : other = slot
    · subst same
      rcases attends.holds owner arena (behind.symm.trans busy) with
        ⟨session, member, found⟩
      rcases List.mem_iff_getElem?.mp member with ⟨position, at_position⟩
      refine ⟨position, ?_, session, at_position, ?_⟩
      · rw [happens.process]
        exact alive
      · rw [happens.process]
        exact found
    · rw [happens.phase_of_ne same] at busy
      rcases attended.opened other ((happens.used other).mp used) owner
          ⟨arena, busy⟩ alive with ⟨place, -, session, at_position, found⟩
      have stays :=
        attends.keeps owner session (List.mem_of_getElem? at_position)
          (by
            rw [found]
            exact fun equal => same (Option.some.inj equal))
      rcases List.mem_iff_getElem?.mp stays with ⟨position, at_place⟩
      refine ⟨position, ?_, session, at_place, ?_⟩
      · rw [happens.process]
        exact alive
      · rw [happens.process]
        exact found

/-- A call on the table opens and closes no session. -/
theorem Attended.of_proceeds
    (attended : Attended config) (invariant : Invariant config)
    {base : Segments.Config count} {following : Table.WimpDataSlot}
    {process : Process} {reservation : Option (CString × Nat)}
    (proceeds :
      Proceeds config base caller slot following process reservation) :
    Attended (config.proceed base caller) := by
  constructor
  case owned =>
    intro other used locked
    rcases proceeds.used_cases invariant.registered used with
      ⟨before, -⟩ | ⟨rfl, -, -, segment, -, new, -, life⟩
    · rw [lifetime_of_used before] at locked
      rcases attended.owned other before locked with ⟨owner, arena, busy⟩
      exact ⟨owner, arena, (phaseOf_of_used before).trans busy⟩
    · rw [life] at locked
      have old := invariant.lockedMade segment locked
      omega
  case opened =>
    intro other used owner busy alive
    rcases busy with ⟨arena, busy⟩
    rcases proceeds.used_cases invariant.registered used with
      ⟨before, -⟩ | ⟨rfl, -, -, segment, -, -, -, life⟩
    · rw [phaseOf_of_used before] at busy
      by_cases own : owner = caller
      · subst own
        rcases attended.opened other before owner ⟨arena, busy⟩
            proceeds.effect.alive with
          ⟨position, -, session, at_position, found⟩
        refine ⟨position, alive, session, at_position, ?_⟩
        rw [proceeds.process_self] at alive ⊢
        exact (proceeds.keeps alive session
          (List.mem_of_getElem? at_position) other found).1
      · rw [proceeds.process_of_ne own] at alive
        rcases attended.opened other before owner ⟨arena, busy⟩ alive with
          ⟨position, -, session, at_position, found⟩
        refine ⟨position, ?_, session, at_position, ?_⟩
        · rw [proceeds.process_of_ne own]
          exact alive
        · rw [proceeds.process_of_ne own]
          exact found
    · rw [phaseOf, life] at busy
      cases busy

theorem Attended.die
    (attended : Attended config) (invariant : Invariant config)
    (alive : (config.process caller).dead = false) :
    Attended (config.die caller) := by
  have idle :
      Idle config.base.base (config.die caller).base.base caller
        { config.process caller with dead := true } :=
    invariant.registered.idle alive rfl rfl rfl rfl
  have proceeded :=
    attended.of_proceeds invariant
      (@proceeds_of_idle _ config (config.die caller).base caller _ idle
        invariant.sound
        (invariant.tableKept.of_idle invariant.registered idle)
        (Extends.refl _) id)
  have same :=
    @begun_of_table _ config.base (config.die caller).base rfl caller
      config.lifetimes
  rw [Config.proceed, same] at proceeded
  exact proceeded

theorem attends_opened
    {name : CString} {dataArena : WimpDataArena}
    (found : indexOf (config.process caller) name.val = some slot) :
    Attends config
      (((config.setSessions caller
        (⟨name, dataArena⟩ :: config.sessions caller)).log caller name
          (.opened caller (content dataArena.arena))).setLocked
            (config.lifetimes slot).segment true)
      slot (.opened caller (content dataArena.arena)) where
  keeps := by
    intro owner session member _
    simp only [Config.setLocked, log_sessions, Config.setSessions]
    by_cases own : owner = caller
    · subst own
      rw [Function.update_self]
      exact List.mem_cons_of_mem _ member
    · rwa [Function.update_of_ne own]
  holds := by
    intro owner arena busy
    cases busy
    simp only [Config.setLocked, log_sessions, Config.setSessions,
      Function.update_self]
    exact ⟨_, List.mem_cons_self .., found⟩
  frees := by
    intro arena idle
    cases idle

theorem attends_changed
    {position : Nat} {session : Session} {size pointer : Nat}
    {arena : SArena}
    (at_position : (config.sessions caller)[position]? = some session)
    (found :
      indexOf (config.process caller) session.name.val = some slot) :
    Attends config
      ((config.setSessions caller
        ((config.sessions caller).set position
          { session with
            dataArena := { session.dataArena with arena } })).log caller
              session.name
                (.changed caller (content session.dataArena.arena)
                  ⟨size, pointer⟩ (content arena)))
      slot
      (.changed caller (content session.dataArena.arena) ⟨size, pointer⟩
        (content arena)) where
  keeps := by
    intro owner other member elsewhere
    simp only [log_sessions, Config.setSessions]
    by_cases own : owner = caller
    · subst own
      rw [Function.update_self]
      rcases List.mem_iff_getElem?.mp member with ⟨place, at_place⟩
      apply List.mem_iff_getElem?.mpr
      refine ⟨place, ?_⟩
      rw [List.getElem?_set_ne]
      · exact at_place
      · rintro rfl
        cases at_position.symm.trans at_place
        exact elsewhere found
    · rwa [Function.update_of_ne own]
  holds := by
    intro owner copy busy
    cases busy
    simp only [log_sessions, Config.setSessions, Function.update_self]
    have bound := (List.getElem?_eq_some_iff.mp at_position).1
    exact
      ⟨_, List.mem_iff_getElem?.mpr ⟨position, List.getElem?_set_self bound⟩,
        found⟩
  frees := by
    intro copy idle
    cases idle

theorem attends_closed
    {position : Nat} {session : Session} {arena : SArena}
    {table : Table.DataTable}
    (at_position : (config.sessions caller)[position]? = some session)
    (found :
      indexOf (config.process caller) session.name.val = some slot) :
    Attends config
      ((((config.setTable table).setSessions caller
        ((config.sessions caller).eraseIdx position)).log caller
          session.name (.closed caller arena)).setLocked
            (config.lifetimes slot).segment false)
      slot (.closed caller arena) where
  keeps := by
    intro owner other member elsewhere
    simp only [Config.setLocked, log_sessions, Config.setSessions,
      Config.setTable]
    by_cases own : owner = caller
    · subst own
      rw [Function.update_self]
      rcases List.mem_iff_getElem?.mp member with ⟨place, at_place⟩
      apply List.mem_eraseIdx_iff_getElem?.mpr
      refine ⟨place, ?_, at_place⟩
      rintro rfl
      cases at_position.symm.trans at_place
      exact elsewhere found
    · rwa [Function.update_of_ne own]
  holds := by
    intro owner copy busy
    cases busy
  frees := fun _ _ => Function.update_self ..

/-- The ways in which a session starts, or has to wait. -/
inductive EnterCase (config : Config count) (caller : Fin count)
    (name : CString) : Option (Config count) → Prop where
  | detached (unlinked : (config.process caller).isTableLinked = false) :
      EnterCase config caller name (some (config.die caller))
  | missing (absent : indexOf (config.process caller) name.val = none) :
      EnterCase config caller name (some config)
  | waits (slot : SlotIndex)
      (found : indexOf (config.process caller) name.val = some slot)
      (locked : config.locked (config.lifetimes slot).segment = true) :
      EnterCase config caller name none
  | starts (slot : SlotIndex) (dataArena : WimpDataArena)
      (attached : (config.process caller).isTableLinked = true)
      (found : indexOf (config.process caller) name.val = some slot)
      (handle :
        dataArena.shm = (config.process caller).dataTableCache[slot])
      (copied :
        content dataArena.arena = content config.table[slot].dataArena)
      (free : config.locked (config.lifetimes slot).segment = false) :
      EnterCase config caller name
        (some
          (((config.setSessions caller
            (⟨name, dataArena⟩ :: config.sessions caller)).log caller name
              (.opened caller (content dataArena.arena))).setLocked
                (config.lifetimes slot).segment true))

theorem Invariant.enter_cases
    (invariant : Invariant config) (name : CString) (address : Nat)
    (alive : (config.process caller).dead = false) :
    EnterCase config caller name (config.enter caller name address) := by
  unfold Config.enter
  dsimp only
  split
  case isFalse =>
    rename_i unlinked
    exact .detached (Bool.eq_false_iff.mpr unlinked)
  rename_i attached
  split
  · rename_i nothing
    apply EnterCase.missing
    rw [indexOf]
    rw [wimpDataAccess, Option.map_eq_none_iff] at nothing
    rw [nothing]
    rfl
  rename_i dataArena copied
  rcases found_of_wimpDataAccess copied with ⟨slot, found, handle, same⟩
  have behind := invariant.linked caller name.val slot alive found
  rw [← handle] at behind
  split
  · rename_i null
    rw [null] at behind
    cases behind
  rename_i shm cached
  rw [cached] at behind
  rw [behind]
  dsimp only
  split
  · rename_i locked
    exact .waits slot found locked
  · rename_i unlocked
    exact .starts slot dataArena attached found handle same
      (Bool.eq_false_iff.mpr unlocked)

/-- A session of a live process can always be ended. -/
theorem Invariant.stopAccess_eq
    (invariant : Invariant config) {position : Nat} {session : Session}
    (alive : (config.process caller).dead = false)
    (at_position : (config.sessions caller)[position]? = some session)
    (inSession : InSession config caller session slot) :
    config.stopAccess caller position =
      some
        ((((config.setTable
          (put config.table slot
            { config.table[slot] with
              dataArena := content session.dataArena.arena })).setSessions
                caller ((config.sessions caller).eraseIdx position)).log
                  caller session.name
                    (.closed caller
                      (content session.dataArena.arena))).setLocked
                        (config.lifetimes slot).segment false) := by
  have attached :=
    (invariant.inside caller alive session
      (List.mem_of_getElem? at_position)).1
  have behind :=
    invariant.linked caller session.name.val slot alive inSession.found
  rw [← inSession.handle] at behind
  have kept :
      session.dataArena.shm ∈ (config.process caller).dataTableCache := by
    rw [inSession.handle]
    exact Vector.getElem_mem slot.isLt
  unfold Config.stopAccess
  rw [at_position]
  dsimp only
  rw [if_pos attached, wimpDataStopAccess_of_found inSession.found]
  cases cached : session.dataArena.shm with
  | none =>
      rw [cached] at behind
      cases behind
  | some handle =>
      rw [cached] at behind kept
      dsimp only
      rw [unlock_of_cached cached (by rw [log_process]; exact kept)
        (by rw [log_base]; exact behind)]

/-- Whoever is in a session can end it, and gives the lock up. -/
theorem Invariant.exists_stopAccess
    (invariant : Invariant config) {position : Nat}
    (inside : Inside config slot caller position) :
    ∃ next,
      config.stopAccess caller position = some next ∧
        Invariant next ∧
          (∀ owner, next.process owner = config.process owner) ∧
            next.waiting = config.waiting ∧
              next.locked (next.lifetimes slot).segment = false := by
  rcases invariant.of_inside inside with ⟨session, at_position, inSession⟩
  have used := invariant.used_of_found inside.1 inSession.found
  have happens :=
    invariant.happens_closed inside.1 at_position inSession used
  refine ⟨_, invariant.stopAccess_eq inside.1 at_position inSession,
    invariant.of_happens happens, happens.process, ?_, ?_⟩
  · simp only [Config.setLocked, log_waiting, Config.setSessions,
      Config.setTable]
  · rw [happens.segment]
    exact Function.update_self ..

/-- It does not matter to the sessions who waits. -/
theorem Attended.setWaiting
    (attended : Attended config) (caller : Fin count)
    (wanted : Option (CString × Nat)) :
    Attended (config.setWaiting caller wanted) :=
  ⟨attended.owned, attended.opened⟩

theorem Attended.of_enter
    (attended : Attended config) (invariant : Invariant config)
    {name : CString} {address : Nat}
    (alive : (config.process caller).dead = false)
    (entered : config.enter caller name address = some next) :
    Attended next := by
  have cases := invariant.enter_cases name address alive
  rw [entered] at cases
  cases cases with
  | detached unlinked => exact attended.die invariant alive
  | missing absent => exact attended
  | starts slot dataArena attached found handle copied free =>
      exact attended.of_happens invariant
        (invariant.happens_opened alive attached found handle copied free)
        (attends_opened found)

theorem Attended.of_step
    (attended : Attended config) (invariant : Invariant config)
    {asserts : Bool} {system : System CString} {action : Action count}
    (guarded : Guarded config action)
    (stepped : step asserts system config action = some next) :
    Attended next := by
  rcases transition_of_step stepped with ⟨alive, transition⟩
  cases transition with
  | called action next called =>
      rcases Option.map_eq_some_iff.mp called with ⟨base, moved, rfl⟩
      rcases invariant.exists_proceeds guarded.1 guarded.2 moved with
        ⟨slot, following, process, reservation, proceeds⟩
      exact attended.of_proceeds invariant proceeds
  | waits caller name address blocked => exact attended.setWaiting _ _
  | accessed caller name address next entered =>
      exact attended.of_enter invariant alive entered
  | resumed caller name address next waiting entered =>
      exact (attended.setWaiting caller none).of_enter
        (invariant.setWaiting caller none) alive entered
  | allocated caller position size next allocated =>
      change (config.process caller).dead = false at alive
      unfold Config.alloc at allocated
      cases at_position : (config.sessions caller)[position]? with
      | none =>
          rw [at_position] at allocated
          cases allocated
      | some session =>
          rw [at_position] at allocated
          dsimp only at allocated
          rcases invariant.inSession_of_position alive at_position with
            ⟨attached, slot, inSession, used⟩
          have small :=
            guarded.1 session (by rw [at_position]; exact rfl)
          split at allocated
          · cases allocated
            exact attended.die invariant alive
          · rename_i arena pointer granted
            cases allocated
            exact attended.of_happens invariant
              (invariant.happens_changed alive attached at_position
                inSession used small (eq_unchecked_of_compiled granted).symm)
              (attends_changed at_position inSession.found)
  | stopped caller position next stopped =>
      change (config.process caller).dead = false at alive
      cases at_position : (config.sessions caller)[position]? with
      | none =>
          unfold Config.stopAccess at stopped
          rw [at_position] at stopped
          cases stopped
      | some session =>
          rcases invariant.inSession_of_position alive at_position with
            ⟨attached, slot, inSession, used⟩
          rw [invariant.stopAccess_eq alive at_position inSession]
            at stopped
          cases stopped
          exact attended.of_happens invariant
            (invariant.happens_closed alive at_position inSession used)
            (attends_closed at_position inSession.found)

end Steps

/-! ## Whole runs -/

section Waiting

variable {caller : Fin count} {name : CString} {address : Nat}
variable (asserts : Bool) (system : System CString) (maker : Fin count)
variable (tableName : CString)

theorem attended_of_run
    {actions : List (Action count)}
    (guarded :
      Along (step asserts system) Guarded (.initial system maker tableName)
        actions)
    (ran :
      run (step asserts system) (.initial system maker tableName) actions =
        some config) :
    Invariant config ∧ Attended config :=
  run_induction_along
    (motive := fun _ config => Invariant config ∧ Attended config)
    ⟨invariant_initial system maker tableName,
      attended_initial system maker tableName⟩
    (fun _ _ _ _ holds guarded stepped =>
      ⟨holds.1.of_step guarded.1 guarded.2 stepped,
        holds.2.of_step holds.1 guarded stepped⟩)
    guarded ran

/-- A process which waits goes on, or its slot is locked. -/
theorem Invariant.resume_cases
    (invariant : Invariant config)
    (alive : (config.process caller).dead = false)
    (waits : config.waiting caller = some (name, address)) :
    (step asserts system config (.resume caller)).isSome ∨
      ∃ slot, indexOf (config.process caller) name.val = some slot ∧
        config.locked (config.lifetimes slot).segment = true := by
  have cases :=
    (invariant.setWaiting caller none).enter_cases name address alive
  rw [step_resume asserts system alive waits]
  cases ended : (config.setWaiting caller none).enter caller name address with
  | some next => exact Or.inl rfl
  | none =>
      rw [ended] at cases
      cases cases with
      | waits slot found locked => exact Or.inr ⟨slot, found, locked⟩

/-- A process which waits for a lock that is free goes on. -/
theorem Invariant.isSome_resume
    (invariant : Invariant config)
    (alive : (config.process caller).dead = false)
    (waits : config.waiting caller = some (name, address))
    (free :
      ∀ slot, indexOf (config.process caller) name.val = some slot →
        config.locked (config.lifetimes slot).segment = false) :
    (step asserts system config (.resume caller)).isSome := by
  rcases invariant.resume_cases asserts system alive waits with
    goes | ⟨slot, found, locked⟩
  · exact goes
  · rw [free slot found] at locked
    cases locked

/--
In every state of a guarded run, a process which waits for a lock gets it, or
the slot of this lock is in the session of a process.  Unless that process
died or waits itself, it can end the session, and the one who waits gets the
lock.
-/
theorem passedOn_of_guarded
    {actions : List (Action count)}
    (guarded :
      Along (step asserts system) Guarded (.initial system maker tableName)
        actions)
    (ran :
      run (step asserts system) (.initial system maker tableName) actions =
        some config)
    (alive : (config.process caller).dead = false)
    (waits : config.waiting caller = some (name, address)) :
    (step asserts system config (.resume caller)).isSome ∨
      ∃ slot owner,
        indexOf (config.process caller) name.val = some slot ∧
          Busy config slot owner ∧
            ((config.process owner).dead = false →
              config.waiting owner = none →
                ∃ position next,
                  Inside config slot owner position ∧
                    step asserts system config
                          (.stopAccess owner position) =
                        some next ∧
                      (step asserts system next (.resume caller)).isSome) := by
  rcases attended_of_run asserts system maker tableName guarded ran with
    ⟨invariant, attended⟩
  rcases invariant.resume_cases asserts system alive waits with
    goes | ⟨slot, found, locked⟩
  · exact Or.inl goes
  have used := invariant.used_of_found alive found
  rcases attended.owned slot used locked with ⟨owner, busy⟩
  refine Or.inr ⟨slot, owner, found, busy, fun lives runs => ?_⟩
  rcases attended.opened slot used owner busy lives with ⟨position, inside⟩
  rcases invariant.exists_stopAccess inside with
    ⟨next, stopped, invariantNext, same, waitsNext, freed⟩
  refine ⟨position, next, inside, ?_, ?_⟩
  · rw [step_stopAccess asserts system lives runs]
    exact stopped
  · apply invariantNext.isSome_resume asserts system
    · rw [same]
      exact alive
    · rw [waitsNext]
      exact waits
    · intro other foundNow
      rw [same, found] at foundNow
      cases foundNow
      exact freed

/-- The slot which a process waits for. -/
def slotFor (config : Config count) (process : Fin count) :
    Option SlotIndex :=
  (config.waiting process).bind fun wanted =>
    indexOf (config.process process) wanted.1.val

/--
When whoever waits has its sessions below the slot it waits for, in the order
of a rank, and nobody died in a session, a process that waits goes on, or leads
to one which has a session and can end it or goes on itself.
-/
theorem running_of_ordered
    {actions : List (Action count)}
    (guarded :
      Along (step asserts system) Guarded (.initial system maker tableName)
        actions)
    (ran :
      run (step asserts system) (.initial system maker tableName) actions =
        some config)
    (survived :
      ∀ slot : SlotIndex, Used config.table[slot] →
        ∀ owner, Busy config slot owner →
          (config.process owner).dead = false)
    (rank : SlotIndex → Nat)
    (ordered :
      ∀ process slot other position,
        slotFor config process = some slot →
          Inside config other process position → rank other < rank slot)
    (alive : (config.process caller).dead = false)
    (waits : config.waiting caller = some (name, address)) :
    (step asserts system config (.resume caller)).isSome ∨
      ∃ slot owner position,
        Inside config slot owner position ∧
          ((step asserts system config (.stopAccess owner position)).isSome ∨
            (step asserts system config (.resume owner)).isSome) := by
  rcases attended_of_run asserts system maker tableName guarded ran with
    ⟨invariant, attended⟩
  rcases invariant.resume_cases asserts system alive waits with
    goes | ⟨slot, found, locked⟩
  · exact Or.inl goes
  right
  have used := invariant.used_of_found alive found
  have insideOf (process : Fin count) (other : SlotIndex)
      (holds : ownerOf config other = some process) :
      ∃ position, Inside config other process position := by
    rcases (ownerOf_eq_some_iff other process).mp holds with
      ⟨usedOther, busy⟩
    exact attended.opened other usedOther process busy
      (survived other usedOther process busy)
  have order :
      ∀ process slot, slotFor config process = some slot →
        ∀ other ∈ slotsOf config process, rank other < rank slot := by
    intro process slot waiting other member
    rcases insideOf process other (by simpa [slotsOf] using member) with
      ⟨position, inside⟩
    exact ordered process slot other position waiting inside
  have limit (slot : SlotIndex) : rank slot ≤ Finset.univ.sup rank :=
    Finset.le_sup (Finset.mem_univ slot)
  have waiting : slotFor config caller = some slot := by
    rw [slotFor, waits]
    exact found
  have taken : ownerOf config (id slot) ≠ none := by
    rcases attended.owned slot used locked with ⟨owner, busy⟩
    rw [id, (ownerOf_eq_some_iff slot owner).mpr ⟨used, busy⟩]
    exact Option.some_ne_none owner
  rcases (agrees_ownerOf config).exists_running order limit waiting taken
    with ⟨owner, ⟨other, member⟩, free⟩
  rcases insideOf owner other (by simpa [slotsOf] using member) with
    ⟨position, inside⟩
  refine ⟨other, owner, position, inside, ?_⟩
  cases wanted : config.waiting owner with
  | none =>
      left
      rcases invariant.exists_stopAccess inside with ⟨next, stopped, -⟩
      rw [step_stopAccess asserts system inside.1 wanted, stopped]
      rfl
  | some request =>
      right
      apply invariant.isSome_resume asserts system inside.1 wanted
      intro target foundToo
      have nobody : ownerOf config target = none := by
        apply free
        rw [slotFor, wanted]
        exact foundToo
      by_contra taken
      have usedToo := invariant.used_of_found inside.1 foundToo
      rcases attended.owned target usedToo (by simpa using taken) with
        ⟨holder, busy⟩
      rw [(ownerOf_eq_some_iff target holder).mpr ⟨usedToo, busy⟩] at nobody
      cases nobody

end Waiting

/-- The name `m`. -/
private def nameM : CString :=
  .ofBytes [0x6d]

/--
The first process is in a session of `m` and waits for the second one, which
is in a session of `n`.
-/
private def crossed (first second : Fin 2) : List (Action 2) :=
  [.call (.linkToProcess second true),
    .call (.reserve first nameM 64 true true true),
    .call (.reserve first nameN 64 true true true),
    .call (.linkToData second nameM true true),
    .call (.linkToData second nameN true true),
    .access first nameM 4096, .access second nameN 8192,
    .access first nameN 4096]

/-- What is needed of the run is computed. -/
private theorem exists_crossed :
    ∃ config,
      run (step true (memorySystem true)) (start true 0) (crossed 0 1) =
          some config ∧
        (∀ process, (config.process process).dead = false) ∧
          config.waiting 0 = some (nameN, 4096) ∧
            config.waiting 1 = none ∧
              indexOf (config.process 0) nameN.val = some 1 ∧
                (config.sessions 0).map (fun session =>
                    indexOf (config.process 0) session.name.val) =
                  [some 0] := by
  have left :
      (run (step true (memorySystem true)) (start true 0)
          (crossed 0 1)).map (fun config =>
        decide
          ((∀ process, (config.process process).dead = false) ∧
            config.waiting 0 = some (nameN, 4096) ∧
              config.waiting 1 = none ∧
                indexOf (config.process 0) nameN.val = some 1 ∧
                  (config.sessions 0).map (fun session =>
                      indexOf (config.process 0) session.name.val) =
                    [some 0])) =
        some true := by
    decide +kernel
  rcases Option.map_eq_some_iff.mp left with ⟨config, ran, facts⟩
  exact ⟨config, ran, of_decide_eq_true facts⟩

theorem passedOn_crossed :
    ∃ config,
      run (step true (memorySystem true)) (start true 0) (crossed 0 1) =
          some config ∧
        ((step true (memorySystem true) config (.resume 0)).isSome ∨
          ∃ slot owner,
            indexOf (config.process 0) nameN.val = some slot ∧
              Busy config slot owner ∧
                ((config.process owner).dead = false →
                  config.waiting owner = none →
                    ∃ position next,
                      Inside config slot owner position ∧
                        step true (memorySystem true) config
                              (.stopAccess owner position) =
                            some next ∧
                          (step true (memorySystem true) next
                            (.resume 0)).isSome)) := by
  rcases exists_crossed with ⟨config, ran, alive, waits, -, -, -⟩
  exact ⟨config, ran,
    passedOn_of_guarded true (memorySystem true) 0 nameT
      (by decide +kernel) ran (alive 0) waits⟩

theorem running_crossed :
    ∃ config,
      run (step true (memorySystem true)) (start true 0) (crossed 0 1) =
          some config ∧
        ((step true (memorySystem true) config (.resume 0)).isSome ∨
          ∃ slot owner position,
            Inside config slot owner position ∧
              ((step true (memorySystem true) config
                  (.stopAccess owner position)).isSome ∨
                (step true (memorySystem true) config
                  (.resume owner)).isSome)) := by
  rcases exists_crossed with
    ⟨config, ran, alive, waits, runs, found, sessions⟩
  have ordered :
      ∀ process slot other position,
        slotFor config process = some slot →
          Inside config other process position →
            (other : Nat) < (slot : Nat) := by
    rintro process slot other position here
      ⟨-, session, at_position, inside⟩
    by_cases isFirst : process = 0
    · subst isFirst
      rw [slotFor, waits, Option.bind_some, found] at here
      have member := List.mem_of_getElem? at_position
      have zero :
          indexOf (config.process 0) session.name.val ∈
            [some (0 : SlotIndex)] := by
        rw [← sessions]
        exact List.mem_map_of_mem member
      rw [List.mem_singleton, inside] at zero
      cases here
      cases zero
      decide
    · have isSecond : process = 1 := by omega
      subst isSecond
      rw [slotFor, runs] at here
      cases here
  exact ⟨config, ran,
    running_of_ordered true (memorySystem true) 0 nameT (by decide +kernel)
      ran (fun _ _ owner _ => alive owner) Fin.val ordered (alive 0) waits⟩

end Wimp.Data.Exclusion
