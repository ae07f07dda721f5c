import Wimp.Data.Sessions
import Wimp.Data.Segments.Names

/-!
# Arenas and their segments

The arena of a slot should be the arena of its segment: as large as the slot
says, with the allocation pointer inside, and empty at first.  The arena is
left as it is when the slot is given up, however, and an arena which has a
capacity is not initialized again.
-/

namespace Wimp.Data.Arenas

open Wimp.Lib.ByteRegion
open Wimp.Lib.Runs
open Wimp.Lib.SharedMemory
open Wimp.Utility.HashTable
open Wimp.Utility.SimpleArena
open Wimp.Data.Registry
open Wimp.Data.Sessions
  (Action Session content getElem_writeBack log_base log_sessions
    found_of_wimpDataAccess transition_of_step)
open Wimp.Data.RefCount (Holds)
open Wimp.Data.Segments
  (affected_of_step nameN nameT reservationOf tableAction
    wimpCreateFreshShm)
open Wimp.Data.Table
  (Process SlotIndex WimpDataSlot findFree put wimpDataReserve
    wimpSharedSlotMaxNameBytes)

variable {count : Nat}

/-! ## The processes and what they reserved -/

/-- The processes, with the names and sizes which were reserved so far. -/
structure State (count : Nat) where
  config : Sessions.Config count
  reserved : List (CString × Nat) := []

/-- The state behind a `wimp_data_init` of one process. -/
def State.initial (system : System CString) (maker : Fin count)
    (tableName : CString) : State count :=
  { config := .initial system maker tableName }

/-- The name and the size which a call reserves, when it succeeds. -/
def reserves (system : System CString) (config : Sessions.Config count) :
    Action count → Option (CString × Nat)
  | .call action => reservationOf system config.base action
  | _ => none

/-- One call of one process, whose reservation is recorded. -/
def step (asserts : Bool) (system : System CString) (state : State count)
    (action : Action count) : Option (State count) :=
  (Sessions.step asserts system state.config action).map fun config =>
    { config
      reserved :=
        (reserves system state.config action).toList ++ state.reserved }

/--
Every slot in use has the arena of its segment: its capacity is the size of
the slot, and the size with which the name was reserved, and the allocation
pointer is inside.
-/
def Matched (state : State count) : Prop :=
  ∀ slot : SlotIndex, 0 < state.config.table[slot].shareCounter →
    let arena := state.config.table[slot].dataArena
    arena.arenaCapacity = state.config.table[slot].size ∧
      arena.arenaPointer ≤ arena.arenaCapacity ∧
        ∃ name, Named state.config.table[slot] name ∧
          (name, arena.arenaCapacity) ∈ state.reserved

/-- A reservation which succeeds leaves an empty arena of its size. -/
def Emptied (system : System CString) (state next : State count)
    (action : Action count) : Prop :=
  ∀ name size, reserves system state.config action = some (name, size) →
    ∃ slot : SlotIndex,
      Used next.config.table[slot] ∧ Named next.config.table[slot] name ∧
        next.config.table[slot].dataArena = { arenaCapacity := size }

/--
The calls of the processes: names are reserved once, and only somebody who is
linked unlinks.
-/
def Admissible (state : State count) : Action count → Prop
  | .call (.reserve _ reservedName _ _ _ _) =>
      reservedName ∉ state.reserved.map Prod.fst
  | .call (.unlinkFromData caller name) =>
      let process := state.config.process caller
      ∀ slot : SlotIndex, Used state.config.table[slot] →
        Named state.config.table[slot] name →
          Holds process slot ∨ indexOf process name.val = some slot
  | _ => True

/--
A name which gets a slot fits its field and is not that of the table, the
reservation meets an arena which it can use, and a counter has room.
-/
def Clean (system : System CString) (state : State count) :
    Action count → Prop
  | .call (.reserve _ reservedName size first second _) =>
      ∀ slot ∈ findFree state.config.table,
        reservedName.val.length < wimpSharedSlotMaxNameBytes ∧
          (first = true → reservedName ≠ state.config.base.tableName) ∧
            (Succeeds
                (wimpCreateFreshShm system state.config.base.memory
                  reservedName size first second).2 size →
              Reusable state.config.table[slot].dataArena size)
  | .call (.linkToData _ name _ _) =>
      ∀ slot : SlotIndex, Used state.config.table[slot] →
        Named state.config.table[slot] name →
          state.config.table[slot].shareCounter + 1 < 2 ^ 31
  | _ => True

instance (state : State count) :
    ∀ action, Decidable (Admissible state action)
  | .call (.reserve _ _ _ _ _ _) => inferInstanceAs (Decidable (¬ _))
  | .call (.unlinkFromData _ _) =>
      inferInstanceAs (Decidable (∀ _ : SlotIndex, _ → _ → _ ∨ _))
  | .call (.linkToProcess _ _) | .call (.linkToData _ _ _ _)
  | .call (.write _ _ _ _) | .access _ _ _ | .resume _ | .alloc _ _ _
  | .stopAccess _ _ => inferInstanceAs (Decidable True)

instance (system : System CString) (state : State count) :
    ∀ action, Decidable (Clean system state action)
  | .call (.reserve _ _ _ _ _ _) =>
      inferInstanceAs
        (Decidable (∀ _ ∈ findFree _, _ ∧ (_ = _ → _ ≠ _) ∧ (_ → _)))
  | .call (.linkToData _ _ _ _) =>
      inferInstanceAs (Decidable (∀ _ : SlotIndex, _ → _ → _ < _))
  | .call (.linkToProcess _ _) | .call (.unlinkFromData _ _)
  | .call (.write _ _ _ _) | .access _ _ _ | .resume _ | .alloc _ _ _
  | .stopAccess _ _ => inferInstanceAs (Decidable True)

/-! ## The invariant -/

/-- An open session allocates inside the segment of its name. -/
structure Within (reserved : List (CString × Nat)) (session : Session) :
    Prop where
  inside :
    session.dataArena.arena.arenaPointer ≤
      session.dataArena.arena.arenaCapacity
  capacity :
    (session.name, session.dataArena.arena.arenaCapacity) ∈ reserved

/-- What holds of the table and of the sessions between the calls. -/
structure Invariant (base : Table.Config count)
    (sessions : Fin count → List Session)
    (reserved : List (CString × Nat)) : Prop where
  registered : Registered base
  reservedOnce : (reserved.map Prod.fst).Nodup
  atRest : ∀ slot : SlotIndex, AtRest base.table[slot].dataArena
  sized :
    ∀ slot : SlotIndex, Used base.table[slot] →
      base.table[slot].dataArena.arenaCapacity = base.table[slot].size ∧
        ∃ name, Named base.table[slot] name ∧
          (name, base.table[slot].size) ∈ reserved
  sessions :
    ∀ process, ∀ session ∈ sessions process, Within reserved session

/-- The invariant of a state. -/
abbrev Kept (config : Sessions.Config count)
    (reserved : List (CString × Nat)) : Prop :=
  Invariant config.base.base config.sessions reserved

section Reading

variable {base : Table.Config count} {sessions : Fin count → List Session}
variable {reserved : List (CString × Nat)}

/-- A name was reserved with one size. -/
theorem Invariant.size_unique
    (invariant : Invariant base sessions reserved) {name : CString}
    {first second : Nat} (reservedFirst : (name, first) ∈ reserved)
    (reservedSecond : (name, second) ∈ reserved) :
    first = second := by
  have once :=
    List.inj_on_of_nodup_map invariant.reservedOnce reservedFirst
      reservedSecond rfl
  exact congrArg Prod.snd once

/-- The slot which an alive process finds under a name. -/
theorem Invariant.size_of_indexOf
    (invariant : Invariant base sessions reserved) {process : Fin count}
    {name : CString} {slot : SlotIndex}
    (alive : (base.processes process).dead = false)
    (present : indexOf (base.processes process) name.val = some slot) :
    base.table[slot].dataArena.arenaCapacity = base.table[slot].size ∧
      (name, base.table[slot].size) ∈ reserved := by
  have used :=
    invariant.registered.used ⟨alive, Or.inr ⟨name.val, present⟩⟩
  rcases invariant.registered.entries process name.val slot alive present
    with ⟨text, same, namedText⟩
  rcases invariant.sized slot used with ⟨capacity, own, named, member⟩
  have equal := (named_unique named namedText).trans (Subtype.ext same)
  subst equal
  exact ⟨capacity, member⟩

end Reading

variable {config next : Sessions.Config count}
variable {reserved : List (CString × Nat)}
variable {system : System CString} {asserts : Bool}

theorem Invariant.matched
    (invariant : Kept config reserved) : Matched ⟨config, reserved⟩ := by
  intro slot positive
  rcases invariant.sized slot (by rw [Used]; exact positive.ne') with
    ⟨capacity, name, named, member⟩
  refine ⟨capacity, (invariant.atRest slot).inside, name, named, ?_⟩
  exact capacity.symm ▸ member

/-! ## The parts of a step -/

/-- Nothing about a process is read but whether it is alive. -/
theorem Invariant.die
    (invariant : Kept config reserved) (caller : Fin count) :
    Kept (config.die caller) reserved := by
  have fields (process : Fin count) :
      let after := (config.die caller).process process
      let before := config.process process
      (after.dead = false → before.dead = false) ∧
        after.dataTableCache = before.dataTableCache ∧
          after.dataTableCacheMap = before.dataTableCacheMap := by
    by_cases same : process = caller
    · subst same
      simp [Sessions.Config.die, Sessions.Config.process,
        Table.Config.setProcess]
    · simp [Sessions.Config.die, Sessions.Config.process,
        Table.Config.setProcess, same]
  constructor
  case registered =>
    exact invariant.registered.of_similar
      (fun process => (fields process).1)
      (fun process => (fields process).2.1)
      (fun process => (fields process).2.2)
      (fun _ => rfl) (fun _ => rfl)
  case reservedOnce => exact invariant.reservedOnce
  case atRest => exact invariant.atRest
  case sized => exact invariant.sized
  case sessions => exact invariant.sessions

theorem Invariant.setSessions
    (invariant : Kept config reserved) {caller : Fin count}
    {sessions : List Session}
    (within : ∀ session ∈ sessions, Within reserved session) :
    Kept (config.setSessions caller sessions) reserved := by
  constructor
  case registered => exact invariant.registered
  case reservedOnce => exact invariant.reservedOnce
  case atRest => exact invariant.atRest
  case sized => exact invariant.sized
  case sessions =>
    intro process session member
    change session ∈ Function.update config.sessions caller sessions process
      at member
    by_cases same : process = caller
    · subst same
      rw [Function.update_self] at member
      exact within session member
    · rw [Function.update_of_ne same] at member
      exact invariant.sessions process session member

/-- The events of the slots do not matter. -/
theorem Invariant.log
    (invariant : Kept config reserved) (caller : Fin count)
    (name : CString) (event : Sessions.Event count) :
    Kept (config.log caller name event) reserved := by
  rw [Kept, log_base, log_sessions]
  exact invariant

/-- An arena of the same capacity is written back. -/
theorem Invariant.writeBack
    (invariant : Kept config reserved) {slot : SlotIndex} {arena : SArena}
    (atRest : AtRest arena)
    (capacity :
      arena.arenaCapacity = config.table[slot].dataArena.arenaCapacity) :
    Kept
      (config.setTable
        (put config.table slot
          { config.table[slot] with dataArena := arena }))
      reserved := by
  have written (other : SlotIndex) :=
    getElem_writeBack config.table slot other arena
  constructor
  case registered =>
    apply invariant.registered.of_similar
    case alive => exact fun _ => id
    case cache => exact fun _ => rfl
    case map => exact fun _ => rfl
    case counter =>
      intro other
      show (put config.table slot _)[other].shareCounter = _
      rw [written]
      rfl
    case name =>
      intro other
      show (put config.table slot _)[other].name = _
      rw [written]
      rfl
  case reservedOnce => exact invariant.reservedOnce
  case atRest =>
    intro other
    show AtRest (put config.table slot _)[other].dataArena
    rw [written]
    dsimp only
    split
    · exact atRest
    · exact invariant.atRest other
  case sized =>
    intro other
    show Used (put config.table slot _)[other] → _
    rw [Sessions.Config.setTable]
    dsimp only
    rw [written]
    intro used
    rcases invariant.sized other used with ⟨equal, named⟩
    refine ⟨?_, named⟩
    dsimp only
    split
    · rename_i same
      rw [capacity, ← same]
      exact equal
    · exact equal
  case sessions => exact invariant.sessions

theorem Invariant.unlock
    (invariant : Kept config reserved) (caller : Fin count)
    (session : Session) : Kept (config.unlock caller session) reserved := by
  unfold Sessions.Config.unlock
  cases session.dataArena.shm with
  | none => exact invariant
  | some handle =>
      dsimp only [Option.elim]
      split
      · cases Sessions.segmentAt config.base.memory (some handle) with
        | none => exact invariant
        | some segment => exact invariant
      · exact invariant.die caller

/-- A session starts with the arena of the slot of its name. -/
theorem Invariant.of_enter
    (invariant : Kept config reserved) {caller : Fin count}
    {name : CString} {address : Nat}
    (alive : (config.process caller).dead = false)
    (entered : config.enter caller name address = some next) :
    Kept next reserved := by
  unfold Sessions.Config.enter at entered
  dsimp only at entered
  split at entered
  case isFalse =>
    cases entered
    exact invariant.die caller
  split at entered
  · cases entered
    exact invariant
  rename_i dataArena accessed
  rcases found_of_wimpDataAccess accessed with ⟨slot, present, -, same⟩
  rcases invariant.size_of_indexOf alive present with ⟨capacity, member⟩
  have copied : Within reserved ⟨name, dataArena⟩ := by
    have pointer := congrArg SArena.arenaPointer same
    have size := congrArg SArena.arenaCapacity same
    constructor
    · exact pointer.trans_le
        ((invariant.atRest slot).inside.trans_eq size.symm)
    · have whole :
          dataArena.arena.arenaCapacity = config.table[slot].size :=
        size.trans capacity
      show (name, dataArena.arena.arenaCapacity) ∈ reserved
      rwa [whole]
  have opened :
      Kept
        ((config.setSessions caller
          (⟨name, dataArena⟩ :: config.sessions caller)).log caller name
            (.opened caller (content dataArena.arena)))
        reserved := by
    apply Invariant.log
    apply invariant.setSessions
    intro session among
    rcases List.mem_cons.mp among with rfl | before
    · exact copied
    · exact invariant.sessions caller session before
  split at entered
  · cases entered
    exact opened
  split at entered
  · cases entered
  split at entered
  · cases entered
  · cases entered
    exact opened

/-- An allocation stays inside the segment. -/
theorem Invariant.of_alloc
    (invariant : Kept config reserved) {caller : Fin count}
    {position size : Nat}
    (allocated : config.alloc asserts caller position size = some next) :
    Kept next reserved := by
  unfold Sessions.Config.alloc at allocated
  split at allocated
  · cases allocated
  rename_i session opened
  have within :=
    invariant.sessions caller session (List.mem_of_getElem? opened)
  dsimp only at allocated
  split at allocated
  · cases allocated
    exact invariant.die caller
  · rename_i arena pointer granted
    cases allocated
    rcases spec_of_compiled within.inside granted with ⟨capacity, inside⟩
    apply Invariant.log
    apply invariant.setSessions
    intro other member
    rcases List.mem_or_eq_of_mem_set member with before | rfl
    · exact invariant.sessions caller other before
    · refine ⟨inside, ?_⟩
      show (session.name, arena.arenaCapacity) ∈ reserved
      rw [capacity]
      exact within.capacity

/-- A session gives back an arena of the segment which it was opened on. -/
theorem Invariant.of_stopAccess
    (invariant : Kept config reserved) {caller : Fin count} {position : Nat}
    (alive : (config.process caller).dead = false)
    (stopped : config.stopAccess caller position = some next) :
    Kept next reserved := by
  unfold Sessions.Config.stopAccess at stopped
  dsimp only at stopped
  split at stopped
  · cases stopped
  rename_i session opened
  have within :=
    invariant.sessions caller session (List.mem_of_getElem? opened)
  split at stopped
  case isFalse =>
    cases stopped
    exact invariant.die caller
  split at stopped
  · cases stopped
    exact invariant
  rename_i table written
  cases stopped
  rcases Option.map_eq_some_iff.mp written with ⟨entry, found, rfl⟩
  have present :
      indexOf (config.process caller) session.name.val =
        some entry.value := by
    rw [indexOf, found]
    rfl
  rcases invariant.size_of_indexOf alive present with ⟨capacity, member⟩
  apply Invariant.unlock
  apply Invariant.log
  apply Invariant.setSessions
  · apply invariant.writeBack
    · exact ⟨rfl, within.inside⟩
    · exact (invariant.size_unique within.capacity member).trans
        capacity.symm
  · intro other remains
    exact invariant.sessions caller other (List.mem_of_mem_eraseIdx remains)

/-! ## The calls on the table -/

/-- The name and the size which a reservation reserves are its own. -/
theorem action_of_reservationOf
    {base : Segments.Config count} {action : Segments.Action count}
    {name : CString} {size : Nat}
    (reserving : reservationOf system base action = some (name, size)) :
    ∃ caller first second granted,
      action = .reserve caller name size first second granted ∧
        Succeeds
          (wimpCreateFreshShm system base.memory name size first second).2
          size := by
  cases action with
  | reserve caller reservedName reservedSize first second granted =>
      rw [reservationOf, tableAction, Option.bind_some] at reserving
      simp only [reservation] at reserving
      split at reserving
      case isFalse => cases reserving
      rename_i success
      cases reserving
      refine ⟨caller, first, second, granted, rfl, ?_⟩
      intro fails
      have ending := success.2
      unfold wimpDataReserve at ending
      cases free : findFree base.base.table with
      | none =>
          rw [free] at ending
          cases ending
      | some slot =>
          rw [free] at ending
          dsimp only at ending
          split at ending
          · cases ending
          · rw [if_pos fails] at ending
            cases ending
  | linkToProcess caller opens => cases reserving
  | linkToData caller linkName opens granted => cases reserving
  | unlinkFromData caller unlinkName => cases reserving
  | write caller writtenName offset bytes => cases reserving

/-- The calls of a guarded run keep the registry. -/
theorem Invariant.allowed
    (invariant : Kept config reserved) {action : Segments.Action count}
    (alive : (config.process action.caller).dead = false)
    (admissible : Admissible ⟨config, reserved⟩ (.call action))
    (clean : Clean system ⟨config, reserved⟩ (.call action)) :
    ∀ call ∈ tableAction system config.base action,
      Allowed config.base.base call := by
  intro call member
  cases action with
  | linkToProcess caller opens =>
      cases member
      trivial
  | reserve caller reservedName size first second granted =>
      cases member
      intro free
      rcases Option.isSome_iff_exists.mp free with ⟨slot, found⟩
      refine ⟨(clean slot found).1, fun _ other used named => ?_⟩
      rcases invariant.sized other used with ⟨-, text, has, member⟩
      have equal := named_unique has named
      subst equal
      exact admissible (List.mem_map_of_mem (f := Prod.fst) member)
  | linkToData caller name opens granted =>
      cases member
      exact clean
  | unlinkFromData caller name =>
      cases member
      intro slot used named
      refine ⟨alive, ?_⟩
      rcases admissible slot used named with holding | present
      · exact Or.inl holding
      · exact Or.inr ⟨name.val, present⟩
  | write caller name offset bytes => cases member

/-- A name is reserved once. -/
theorem Invariant.reservedOnce_of_call
    (invariant : Kept config reserved) {action : Segments.Action count}
    (admissible : Admissible ⟨config, reserved⟩ (.call action)) :
    (((reservationOf system config.base action).toList ++ reserved).map
      Prod.fst).Nodup := by
  cases reserving : reservationOf system config.base action with
  | none => exact invariant.reservedOnce
  | some result =>
      rcases result with ⟨name, size⟩
      rcases action_of_reservationOf reserving with
        ⟨caller, first, second, granted, rfl, -⟩
      exact List.nodup_cons.mpr ⟨admissible, invariant.reservedOnce⟩

/-- The slot of a guarded reservation gets an empty arena. -/
theorem Invariant.empty_of_reserving
    (invariant : Kept config reserved) {action : Segments.Action count}
    (clean : Clean system ⟨config, reserved⟩ (.call action))
    {slot : SlotIndex} {name : CString} {size : Nat}
    (reserving :
      reservationOf system config.base action = some (name, size))
    (first :
      (findFree config.table).map (fun index => config.table[index]) =
        some config.table[slot]) :
    (reservedSlot config.table[slot] name size).dataArena =
      { arenaCapacity := size } := by
  rcases action_of_reservationOf reserving with
    ⟨caller, opens, makes, granted, rfl, succeeds⟩
  rcases Option.map_eq_some_iff.mp first with ⟨index, free, same⟩
  have reusable := (clean index free).2.2 succeeds
  rw [same] at reusable
  exact
    (sarenaInit_eq_empty_iff (invariant.atRest slot) size).mpr reusable

section Effects

variable {base : Segments.Config count} {caller : Fin count}
variable {slot : SlotIndex} {following : WimpDataSlot} {process : Process}

/-- An arena which a call leaves or initializes is at rest. -/
theorem Invariant.atRest_of_effect
    (invariant : Kept config reserved)
    {reservation : Option (CString × Nat)}
    (effect :
      Effect config.base.base base.base caller slot following process
        reservation)
    (other : SlotIndex) : AtRest base.base.table[other].dataArena := by
  rw [effect.getElem]
  split
  · rcases effect.arena with same | ⟨capacity, initialized⟩
    · rw [same]
      exact invariant.atRest slot
    · rw [initialized]
      exact atRest_sarenaInit (invariant.atRest slot) capacity
  · exact invariant.atRest other

/-- A slot which is in use behind a guarded call has its arena. -/
theorem Invariant.sized_of_effect
    (invariant : Kept config reserved) {action : Segments.Action count}
    (clean : Clean system ⟨config, reserved⟩ (.call action))
    (effect :
      Effect config.base.base base.base caller slot following process
        (reservationOf system config.base action))
    (other : SlotIndex) (used : Used base.base.table[other]) :
    base.base.table[other].dataArena.arenaCapacity =
        base.base.table[other].size ∧
      ∃ name, Named base.base.table[other] name ∧
        (name, base.base.table[other].size) ∈
          (reservationOf system config.base action).toList ++ reserved := by
  by_cases same : other = slot
  · subst same
    have moved : base.base.table[other] = following := by
      rw [effect.getElem, if_pos rfl]
    rw [moved] at used ⊢
    rcases effect.used_cases invariant.registered used with
      ⟨before, kept⟩ | ⟨name, size, reserving, first, rfl, -⟩
    · rcases invariant.sized other before with
        ⟨capacity, name, named, member⟩
      rw [kept.dataArena, kept.size]
      refine ⟨capacity, name, ?_, List.mem_append_right _ member⟩
      rw [Named, kept.name]
      exact named
    · have arena := invariant.empty_of_reserving clean reserving first
      rw [reserving]
      exact
        ⟨congrArg SArena.arenaCapacity arena, name,
          named_withName config.table[other] name, List.mem_cons_self ..⟩
  · rw [effect.getElem, if_neg same] at used ⊢
    rcases invariant.sized other used with ⟨capacity, name, named, member⟩
    exact ⟨capacity, name, named, List.mem_append_right _ member⟩

end Effects

/-- What a guarded call does to the invariant and to a reserved arena. -/
theorem Invariant.of_call
    (invariant : Kept config reserved) {action : Segments.Action count}
    (alive : (config.process action.caller).dead = false)
    (admissible : Admissible ⟨config, reserved⟩ (.call action))
    (clean : Clean system ⟨config, reserved⟩ (.call action))
    (called : config.call system action = some next) :
    let recorded :=
      (reservationOf system config.base action).toList ++ reserved
    Kept next recorded ∧
      Emptied system ⟨config, reserved⟩ ⟨next, recorded⟩
        (.call action) := by
  intro recorded
  rcases Option.map_eq_some_iff.mp called with ⟨base, stepped, rfl⟩
  have allowed := invariant.allowed alive admissible clean
  rcases affected_of_step invariant.registered allowed stepped with
    ⟨slot, following, process, effect⟩
  constructor
  · constructor
    case registered => exact invariant.registered.of_effect slot effect
    case reservedOnce => exact invariant.reservedOnce_of_call admissible
    case atRest => exact invariant.atRest_of_effect effect
    case sized => exact invariant.sized_of_effect clean effect
    case sessions =>
      intro member session opened
      rcases invariant.sessions member session opened with
        ⟨inside, capacity⟩
      exact ⟨inside, List.mem_append_right _ capacity⟩
  · intro name size reserving
    change reservationOf system config.base action = some (name, size)
      at reserving
    rw [reserving] at effect
    rcases effect.of_reservation with ⟨first, free, rfl⟩
    have arena := invariant.empty_of_reserving clean reserving first
    have counter := shareCounter_reservedSlot free name size
    refine ⟨slot, ?_⟩
    show Used base.base.table[slot] ∧ Named base.base.table[slot] name ∧
      base.base.table[slot].dataArena = { arenaCapacity := size }
    rw [effect.getElem, if_pos rfl]
    refine ⟨?_, named_withName config.table[slot] name, arena⟩
    rw [Used, counter]
    exact one_ne_zero

/-! ## Whole runs -/

/-- One guarded step keeps the invariant and reserves empty arenas. -/
theorem Invariant.of_step
    {state after : State count} {action : Action count}
    (invariant : Kept state.config state.reserved)
    (admissible : Admissible state action)
    (clean : Clean system state action)
    (stepped : step asserts system state action = some after) :
    Kept after.config after.reserved ∧
      Emptied system state after action := by
  rcases Option.map_eq_some_iff.mp stepped with ⟨next, moved, rfl⟩
  rcases transition_of_step moved with ⟨alive, transition⟩
  have nothing {kept : State count}
      (none : reserves system state.config action = none) :
      Emptied system state kept action := by
    intro name size reserving
    rw [none] at reserving
    cases reserving
  cases transition with
  | called action next called =>
      exact invariant.of_call alive admissible clean called
  | waits caller name address blocked => exact ⟨invariant, nothing rfl⟩
  | accessed caller name address next entered =>
      exact ⟨invariant.of_enter alive entered, nothing rfl⟩
  | resumed caller name address next waiting entered =>
      have idle : Kept (state.config.setWaiting caller none) state.reserved :=
        invariant
      exact ⟨idle.of_enter alive entered, nothing rfl⟩
  | allocated caller position size next allocated =>
      exact ⟨invariant.of_alloc allocated, nothing rfl⟩
  | stopped caller position next stopped =>
      exact ⟨invariant.of_stopAccess alive stopped, nothing rfl⟩

theorem invariant_initial
    (system : System CString) (maker : Fin count) (tableName : CString) :
    Kept (Sessions.Config.initial system maker tableName) [] := by
  have atFirst := Segments.invariant_initial system maker tableName
  constructor
  case registered => exact atFirst.registered
  case reservedOnce => exact List.nodup_nil
  case atRest =>
    intro slot
    constructor <;>
      simp [Sessions.Config.initial, Segments.Config.initial,
        Table.Config.setProcess]
  case sized =>
    intro slot used
    simp [Sessions.Config.initial, Segments.Config.initial,
      Table.Config.setProcess, Used] at used
  case sessions =>
    intro process session member
    cases member

/-- The calls of the processes, on arenas which they can use. -/
def Guarded (system : System CString) (state : State count)
    (action : Action count) : Prop :=
  Admissible state action ∧ Clean system state action

instance (system : System CString) (state : State count)
    (action : Action count) : Decidable (Guarded system state action) :=
  inferInstanceAs (Decidable (_ ∧ _))

/--
Along every run of guarded calls the slots in use have the arenas of their
segments, and every reservation which succeeds leaves an empty arena.
-/
theorem matched_of_guarded
    (asserts : Bool) (system : System CString) (maker : Fin count)
    (tableName : CString) {actions : List (Action count)}
    {state : State count}
    (guarded :
      Along (step asserts system) (Guarded system)
        (.initial system maker tableName) actions)
    (ran :
      run (step asserts system) (.initial system maker tableName) actions =
        some state) :
    Matched state ∧
      ∀ action next, Guarded system state action →
        step asserts system state action = some next →
          Emptied system state next action := by
  have invariant : Kept state.config state.reserved :=
    run_induction_along
      (motive := fun _ state => Kept state.config state.reserved)
      (invariant_initial system maker tableName)
      (fun _ _ _ _ invariant guarded stepped =>
        (invariant.of_step guarded.1 guarded.2 stepped).1)
      guarded ran
  refine ⟨invariant.matched, ?_⟩
  intro action next guards stepped
  exact (invariant.of_step guards.1 guards.2 stepped).2

/-! ## Two runs -/

/-- The state behind a `wimp_data_init` in a system in memory. -/
def start (createdOwned : Bool) (maker : Fin count) : State count :=
  .initial (memorySystem createdOwned) maker nameT

/-- The name `m`. -/
def nameM : CString := .ofBytes [0x6D]

/--
A process allocates in the segment of another one, which then gives its name
up; the segment is opened again, and both are in sessions at once.
-/
def allocated (first second : Fin 2) : List (Action 2) :=
  [.call (.linkToProcess second true),
    .call (.reserve first nameN 16 true true true),
    .call (.linkToData second nameN true true),
    .access second nameN 4096, .alloc second 0 4,
    .call (.unlinkFromData first nameN),
    .call (.linkToData first nameN true true), .access first nameN 8192,
    .alloc first 0 8, .stopAccess second 0, .stopAccess first 0,
    .call (.unlinkFromData second nameN),
    .call (.reserve first nameM 32 true true true)]

theorem matched_allocated :
    ∃ state,
      run (step true (memorySystem true)) (start true 0) (allocated 0 1) =
          some state ∧
        Matched state := by
  rcases Option.isSome_iff_exists.mp
    (show
      (run (step true (memorySystem true)) (start true 0)
        (allocated 0 1)).isSome by decide +kernel) with
    ⟨state, ran⟩
  exact ⟨state, ran,
    (matched_of_guarded true (memorySystem true) 0 nameT
      (by decide +kernel) ran).1⟩

/-- A process reserves a slot again which it gave up. -/
def reused (process : Fin 1) : List (Action 1) :=
  [.call (.reserve process nameN 16 true true true),
    .call (.unlinkFromData process nameN),
    .call (.reserve process nameM 32 true true true)]

/-- The second segment has the arena of the first one. -/
theorem not_matched_reused :
    Along (step true (memorySystem true)) Admissible (start true 0)
        (reused 0) ∧
      ∃ state,
        run (step true (memorySystem true)) (start true 0) (reused 0) =
            some state ∧
          ¬ Matched state := by
  refine ⟨by decide +kernel, ?_⟩
  have last :
      (run (step true (memorySystem true)) (start true 0) (reused 0)).map
          (fun state =>
            let slot := state.config.table[(0 : SlotIndex)]
            (slot.shareCounter, slot.dataArena.arenaCapacity,
              slot.size)) =
        some (1, 16, 32) := by
    decide +kernel
  rcases Option.map_eq_some_iff.mp last with ⟨state, ran, left⟩
  rcases Prod.mk.inj left with ⟨counter, sizes⟩
  rcases Prod.mk.inj sizes with ⟨capacity, size⟩
  refine ⟨state, ran, fun matched => ?_⟩
  have equal := (matched 0 (by rw [counter]; exact one_pos)).1
  rw [capacity, size] at equal
  cases equal

end Wimp.Data.Arenas
