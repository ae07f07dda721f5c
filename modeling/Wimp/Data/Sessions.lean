import Wimp.Data.Segments
import Wimp.Lib.SerialHistory
import Wimp.Utility.ArenaRequests

/-!
# Sessions of shared data

A process which wants to use the data of a slot takes the lock of the segment
behind its handle, copies the arena of the slot out of the table, allocates
from the copy and writes it back before it gives the lock up.  The table
itself is not locked meanwhile.

A process which finds the lock taken waits for it, and does nothing else until
it gets it.
-/

namespace Wimp.Data.Sessions

open Wimp.Lib.ByteRegion
open Wimp.Lib.SharedMemory
open Wimp.Utility.HashTable
open Wimp.Utility.SimpleArena
open Wimp.Data.Registry
open Wimp.Data.Segments (SystemMemory)
open Wimp.Data.Table (DataTable PShm Process SlotIndex put)

/-! ## The calls -/

/-- `WimpDataArena`. -/
structure WimpDataArena where
  arena : SArena := {}
  shm : Option PShm := none
deriving DecidableEq, Repr

/--
`wimp_data_access` behind the lock, given the address of the segment; there
is no result when the name is not in the hash table.
-/
def wimpDataAccess (name : CString) (address : Nat) (table : DataTable)
    (process : Process) : Option WimpDataArena :=
  (hashStringFind process.dataTableCacheMap name.val).map fun entry =>
    let shm := process.dataTableCache[entry.value]
    { arena :=
        { table[entry.value].dataArena with
          data := if shm.isSome then address else 0 }
      shm }

/-- The table to which `wimp_data_stop_access` writes an arena back. -/
def wimpDataStopAccess (dataArena : WimpDataArena) (name : CString)
    (table : DataTable) (process : Process) : Option DataTable :=
  (hashStringFind process.dataTableCacheMap name.val).map fun entry =>
    put table entry.value
      { table[entry.value] with
        dataArena := { dataArena.arena with data := 0 } }

/-! ## The events of a slot -/

/-- An arena without the address at which a process sees its region. -/
def content (arena : SArena) : SArena :=
  { arena with data := 0 }

/-- A request to an arena, with the pointer which was returned. -/
structure Grant where
  size : Nat
  pointer : Nat
deriving DecidableEq, Repr

/-- The events of the sessions of a slot. -/
abbrev Event (count : Nat) :=
  Wimp.Lib.SerialHistory.Event (Fin count) SArena Grant

/--
What became of a slot since it was reserved: the segment which was made for
it, the arena it started with, and its events, the newest first.
-/
structure Lifetime (count : Nat) where
  segment : Nat := 0
  start : SArena := {}
  history : List (Event count) := []

/-- The next event of a slot. -/
def Lifetime.extend {count : Nat} (lifetime : Lifetime count)
    (event : Event count) : Lifetime count :=
  { lifetime with history := event :: lifetime.history }

/-! ## The processes and their sessions -/

/-- An open session, with the name under which it was opened. -/
structure Session where
  name : CString
  dataArena : WimpDataArena
deriving DecidableEq, Repr

/--
The processes with the segments of the system, their open sessions, what they
wait to open, the locks of the segments, and what became of the slots.
-/
structure Config (count : Nat) where
  base : Segments.Config count
  sessions : Fin count → List Session := fun _ => []
  waiting : Fin count → Option (CString × Nat) := fun _ => none
  locked : Nat → Bool := fun _ => false
  lifetimes : SlotIndex → Lifetime count := fun _ => {}

/--
The calls of the processes; a session is named by its position.  A process
resumes when it gets the lock for which it waits.
-/
inductive Action (count : Nat) where
  | call (action : Segments.Action count)
  | access (caller : Fin count) (name : CString) (address : Nat)
  | resume (caller : Fin count)
  | alloc (caller : Fin count) (position size : Nat)
  | stopAccess (caller : Fin count) (position : Nat)
deriving DecidableEq, Repr

/-- The process which makes a call. -/
def Action.caller {count : Nat} : Action count → Fin count
  | .call action => action.caller
  | .access caller _ _ => caller
  | .resume caller => caller
  | .alloc caller _ _ => caller
  | .stopAccess caller _ => caller

/-- The segment behind a handle. -/
def segmentAt (memory : SystemMemory) (shm : Option PShm) : Option Nat :=
  (shm.bind fun handle => memory.handles[handle]?).map Handle.segment

/-- A slot which comes into use starts a new life. -/
def begun {count : Nat} (before after : Segments.Config count)
    (caller : Fin count) (lifetimes : SlotIndex → Lifetime count)
    (slot : SlotIndex) : Lifetime count :=
  if ¬ Used before.base.table[slot] ∧ Used after.base.table[slot] then
    { segment :=
        (segmentAt after.memory
          (after.base.processes caller).dataTableCache[slot]).getD 0
      start := content after.base.table[slot].dataArena }
  else lifetimes slot

namespace Config

variable {count : Nat}

/-- A process with its handles and its hash table. -/
def process (config : Config count) (caller : Fin count) : Process :=
  config.base.base.processes caller

/-- The shared data table. -/
def table (config : Config count) : DataTable :=
  config.base.base.table

/-- The process dies. -/
def die (config : Config count) (caller : Fin count) : Config count :=
  { config with
    base :=
      { config.base with
        base :=
          config.base.base.setProcess caller
            { config.process caller with dead := true } } }

/-- The next sessions of one process. -/
def setSessions (config : Config count) (caller : Fin count)
    (sessions : List Session) : Config count :=
  { config with
    sessions := Function.update config.sessions caller sessions }

/-- What one process waits to open from now on. -/
def setWaiting (config : Config count) (caller : Fin count)
    (wanted : Option (CString × Nat)) : Config count :=
  { config with waiting := Function.update config.waiting caller wanted }

/-- The next state of one lock. -/
def setLocked (config : Config count) (segment : Nat) (taken : Bool) :
    Config count :=
  { config with locked := Function.update config.locked segment taken }

/-- An event of the slot which a process finds under a name. -/
def log (config : Config count) (caller : Fin count) (name : CString)
    (event : Event count) : Config count :=
  match indexOf (config.process caller) name.val with
  | none => config
  | some slot =>
      { config with
        lifetimes :=
          Function.update config.lifetimes slot
            ((config.lifetimes slot).extend event) }

/-- The configuration behind a call on the table. -/
def proceed (config : Config count) (base : Segments.Config count)
    (caller : Fin count) : Config count :=
  { config with
    base
    lifetimes := begun config.base base caller config.lifetimes }

/-- A call which works on the table and on the segments. -/
def call (system : System CString) (config : Config count)
    (action : Segments.Action count) : Option (Config count) :=
  (Segments.step system config.base action).map fun base =>
    config.proceed base action.caller

/--
The start of a session, which needs the lock of the segment behind the handle
of its caller.  The null handle is not locked.
-/
def enter (config : Config count) (caller : Fin count) (name : CString)
    (address : Nat) : Option (Config count) :=
  let process := config.process caller
  if process.isTableLinked then
    match wimpDataAccess name address config.table process with
    | none => some config
    | some dataArena =>
        let opened :=
          (config.setSessions caller
            (⟨name, dataArena⟩ :: config.sessions caller)).log caller name
              (.opened caller (content dataArena.arena))
        match dataArena.shm with
        | none => some opened
        | some handle =>
            match segmentAt config.base.memory (some handle) with
            | none => none
            | some segment =>
                if config.locked segment then none
                else some (opened.setLocked segment true)
  else
    some (config.die caller)

/-- The lock of the segment behind the handle of a name is taken. -/
def blocks (config : Config count) (caller : Fin count) (name : CString) :
    Bool :=
  let process := config.process caller
  (indexOf process name.val).any fun slot =>
    (segmentAt config.base.memory process.dataTableCache[slot]).any
      config.locked

/-- A process accesses the data of a name, or begins to wait for its lock. -/
def access (config : Config count) (caller : Fin count) (name : CString)
    (address : Nat) : Option (Config count) :=
  if (config.process caller).isTableLinked ∧ config.blocks caller name then
    some (config.setWaiting caller (some (name, address)))
  else config.enter caller name address

/-- An allocation in a session, whose assertion may fail. -/
def alloc (asserts : Bool) (config : Config count) (caller : Fin count)
    (position size : Nat) : Option (Config count) :=
  match (config.sessions caller)[position]? with
  | none => none
  | some session =>
      let before := session.dataArena.arena
      match sarenaAllocCompiled asserts before size with
      | none => some (config.die caller)
      | some (arena, pointer) =>
          some
            ((config.setSessions caller
              ((config.sessions caller).set position
                { session with
                  dataArena := { session.dataArena with arena } })).log
              caller session.name
                (.changed caller (content before) ⟨size, pointer⟩
                  (content arena)))

/--
The lock of a session is released through its handle.  The null handle has no
lock, and a handle which is not the process's any more was freed.
-/
def unlock (config : Config count) (caller : Fin count)
    (session : Session) : Config count :=
  session.dataArena.shm.elim config fun handle =>
    if (config.process caller).dataTableCache.contains (some handle) then
      (segmentAt config.base.memory (some handle)).elim config fun segment =>
        config.setLocked segment false
    else
      config.die caller

/-- The table after an arena was written back. -/
def setTable (config : Config count) (table : DataTable) : Config count :=
  { config with
    base := { config.base with base := { config.base.base with table } } }

/-- The end of a session, which stays open when its name is not there. -/
def stopAccess (config : Config count) (caller : Fin count)
    (position : Nat) : Option (Config count) :=
  let process := config.process caller
  match (config.sessions caller)[position]? with
  | none => none
  | some session =>
      if process.isTableLinked then
        match
          wimpDataStopAccess session.dataArena session.name config.table
            process
        with
        | none => some config
        | some table =>
            some
              (((((config.setTable table).setSessions caller
                ((config.sessions caller).eraseIdx position)).log caller
                  session.name
                    (.closed caller
                      (content session.dataArena.arena)))).unlock caller
                session)
      else
        some (config.die caller)

end Config

variable {count : Nat}

/--
One call of one process.  A dead process makes none, and a process which waits
for a lock only goes on when it gets it.
-/
def step (asserts : Bool) (system : System CString) (config : Config count)
    (action : Action count) : Option (Config count) :=
  if (config.process action.caller).dead then none
  else
    match config.waiting action.caller, action with
    | some (name, address), .resume caller =>
        (config.setWaiting caller none).enter caller name address
    | some _, _ => none
    | none, .call action => config.call system action
    | none, .access caller name address =>
        config.access caller name address
    | none, .resume _ => none
    | none, .alloc caller position size =>
        config.alloc asserts caller position size
    | none, .stopAccess caller position => config.stopAccess caller position

/-- The processes behind a `wimp_data_init` of one of them. -/
def Config.initial (system : System CString) (maker : Fin count)
    (tableName : CString) : Config count :=
  { base := .initial system maker tableName }

/-! ## What the parts of a session leave alone -/

section Parts

variable {config : Config count} {caller : Fin count}

/-- A process finds the slot which it copies an arena from. -/
theorem found_of_wimpDataAccess
    {name : CString} {address : Nat} {dataArena : WimpDataArena}
    (accessed :
      wimpDataAccess name address config.table (config.process caller) =
        some dataArena) :
    ∃ slot, indexOf (config.process caller) name.val = some slot ∧
      dataArena.shm = (config.process caller).dataTableCache[slot] ∧
        content dataArena.arena = content config.table[slot].dataArena := by
  rcases Option.map_eq_some_iff.mp accessed with ⟨entry, listed, rfl⟩
  refine ⟨entry.value, ?_, rfl, rfl⟩
  rw [indexOf, listed]
  rfl

/-- The arena of a session is written back to the slot of its name. -/
theorem wimpDataStopAccess_of_found
    {dataArena : WimpDataArena} {name : CString} {slot : SlotIndex}
    {table : DataTable} {process : Process}
    (found : indexOf process name.val = some slot) :
    wimpDataStopAccess dataArena name table process =
      some
        (put table slot
          { table[slot] with dataArena := content dataArena.arena }) := by
  rcases Option.map_eq_some_iff.mp found with ⟨entry, listed, rfl⟩
  rw [wimpDataStopAccess, listed]
  rfl

/-- The entry of a slot behind an arena which was written back. -/
theorem getElem_writeBack
    (table : DataTable) (slot other : SlotIndex) (arena : SArena) :
    (put table slot { table[slot] with dataArena := arena })[other] =
      { table[other] with
        dataArena :=
          if other = slot then arena else table[other].dataArena } := by
  rw [getElem_set_slot]
  split
  · rename_i same
    rw [same]
  · rfl

theorem log_of_found
    {caller : Fin count} {name : CString} {slot : SlotIndex}
    (found : indexOf (config.process caller) name.val = some slot)
    (event : Event count) :
    config.log caller name event =
      { config with
        lifetimes :=
          Function.update config.lifetimes slot
            ((config.lifetimes slot).extend event) } := by
  rw [Config.log, found]

theorem log_base
    (config : Config count) (caller : Fin count) (name : CString)
    (event : Event count) :
    (config.log caller name event).base = config.base := by
  unfold Config.log
  split
  · rfl
  · rfl

theorem log_process
    (config : Config count) (caller : Fin count) (name : CString)
    (event : Event count) (owner : Fin count) :
    (config.log caller name event).process owner = config.process owner := by
  rw [Config.process, log_base, Config.process]

theorem log_sessions
    (config : Config count) (caller : Fin count) (name : CString)
    (event : Event count) :
    (config.log caller name event).sessions = config.sessions := by
  unfold Config.log
  split <;> rfl

theorem log_waiting
    (config : Config count) (caller : Fin count) (name : CString)
    (event : Event count) :
    (config.log caller name event).waiting = config.waiting := by
  unfold Config.log
  split <;> rfl

end Parts

/-! ## What a step can be -/

/-- The ways in which a process goes on. -/
inductive Transition (asserts : Bool) (system : System CString)
    (config : Config count) : Action count → Config count → Prop where
  | called (action : Segments.Action count) (next : Config count)
      (called : config.call system action = some next) :
      Transition asserts system config (.call action) next
  | waits (caller : Fin count) (name : CString) (address : Nat)
      (blocked : config.blocks caller name = true) :
      Transition asserts system config (.access caller name address)
        (config.setWaiting caller (some (name, address)))
  | accessed (caller : Fin count) (name : CString) (address : Nat)
      (next : Config count)
      (entered : config.enter caller name address = some next) :
      Transition asserts system config (.access caller name address) next
  | resumed (caller : Fin count) (name : CString) (address : Nat)
      (next : Config count)
      (waiting : config.waiting caller = some (name, address))
      (entered :
        (config.setWaiting caller none).enter caller name address =
          some next) :
      Transition asserts system config (.resume caller) next
  | allocated (caller : Fin count) (position size : Nat)
      (next : Config count)
      (allocated :
        config.alloc asserts caller position size = some next) :
      Transition asserts system config (.alloc caller position size) next
  | stopped (caller : Fin count) (position : Nat) (next : Config count)
      (stopped : config.stopAccess caller position = some next) :
      Transition asserts system config (.stopAccess caller position) next

theorem transition_of_step
    {asserts : Bool} {system : System CString} {config next : Config count}
    {action : Action count}
    (stepped : step asserts system config action = some next) :
    (config.process action.caller).dead = false ∧
      Transition asserts system config action next := by
  unfold step at stepped
  split at stepped
  · cases stepped
  rename_i alive
  refine ⟨Bool.eq_false_iff.mpr alive, ?_⟩
  split at stepped
  · rename_i name address caller waiting
    exact .resumed caller name address next waiting stepped
  · cases stepped
  · exact .called _ next stepped
  · rename_i caller name address waiting
    unfold Config.access at stepped
    split at stepped
    · rename_i blocked
      cases stepped
      exact .waits caller name address blocked.2
    · exact .accessed caller name address next stepped
  · cases stepped
  · exact .allocated _ _ _ next stepped
  · exact .stopped _ _ next stepped

section Steps

variable {config : Config count} {caller : Fin count}
variable (asserts : Bool) (system : System CString)

/-- A process which does not wait may end a session. -/
theorem step_stopAccess
    (alive : (config.process caller).dead = false)
    (runs : config.waiting caller = none) (position : Nat) :
    step asserts system config (.stopAccess caller position) =
      config.stopAccess caller position := by
  unfold step
  rw [if_neg (by simp [Action.caller, alive])]
  simp only [Action.caller, runs]

/-- A process which waits goes on where it stopped. -/
theorem step_resume
    {name : CString} {address : Nat}
    (alive : (config.process caller).dead = false)
    (waits : config.waiting caller = some (name, address)) :
    step asserts system config (.resume caller) =
      (config.setWaiting caller none).enter caller name address := by
  unfold step
  rw [if_neg (by simp [Action.caller, alive])]
  simp only [Action.caller, waits]

end Steps

end Wimp.Data.Sessions
