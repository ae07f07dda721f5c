import Mathlib.Data.Fintype.Basic
import Wimp.Instr.Codec
import Wimp.Instr.Queue

/-!
# Waiting for a response

`wimp_server_wait_response` scans the incoming queue again and again, moves
what it does not want to a queue of its own, and puts that queue back in
front once the awaited instruction or an exit signal was found.  Meanwhile
the receivers append to the incoming queue.

The threads run interleaved, one call on a mutex or one piece of a critical
section at a time.  A node is the buffer which it owns.  The configuration
records the misuses of mutexes on the way: a mutex which is unlocked by a
thread that does not hold it, and a mutex which is freed while a thread
holds it or waits for it.
-/

namespace Wimp.Server.WaitResponse

open Wimp.Lib.ByteRegion
open Wimp.Lib.Mutex
open Wimp.Instr.Codec
open Wimp.Instr.Queue

/--
The mutexes, told apart by the field of the queue for which they were made.
-/
inductive Mutex where
  | incoming (field : QueueMutex)
  | tmpqueue (field : QueueMutex)
deriving DecidableEq, Repr

/-- The server thread and its receivers. -/
inductive Thread (count : Nat) where
  | server
  | reciever (number : Fin count)
deriving DecidableEq, Repr

/-- A queue of instruction buffers. -/
abbrev Queue := WimpInstrQueue Bytes Mutex

/-- The rest of a lock function. -/
abbrev LockCode := Code QueueMutex Mutex

/-- Where the server thread stands in `wimp_server_wait_response`. -/
inductive ServerControl where
  | lock (code : LockCode)
  | scan
  | unlock (disconnect : Bool) (code : LockCode)
  | relock (code : LockCode)
  | prepend
  | lastUnlock (code : LockCode)
  | free
  | returned
  | fault
deriving DecidableEq, Repr

/-- Where a receiver stands between its completed instructions. -/
inductive RecieverControl where
  | idle
  | lock (instruction : Bytes) (code : LockCode)
  | add (instruction : Bytes)
  | unlock (code : LockCode)
deriving DecidableEq, Repr

namespace ServerControl

/-- The lock function which the server is in. -/
def code : ServerControl → Option LockCode
  | .lock code => some code
  | .unlock _ code => some code
  | .relock code => some code
  | .lastUnlock code => some code
  | _ => none

/-- The server further on in its lock function. -/
def resume (code : LockCode) : ServerControl → ServerControl
  | .lock _ => .lock code
  | .unlock disconnect _ => .unlock disconnect code
  | .relock _ => .relock code
  | .lastUnlock _ => .lastUnlock code
  | control => control

/-- Where the server goes from the end of its lock function. -/
def finish : ServerControl → ServerControl
  | .lock _ => .scan
  | .unlock false _ => .lock { rest := wimpInstrQueueHighPrioLock }
  | .unlock true _ => .relock { rest := wimpInstrQueueHighPrioLock }
  | .relock _ => .prepend
  | .lastUnlock _ => .free
  | control => control

end ServerControl

namespace RecieverControl

/-- The lock function which a receiver is in. -/
def code : RecieverControl → Option LockCode
  | .lock _ code => some code
  | .unlock code => some code
  | _ => none

/-- A receiver further on in its lock function. -/
def resume (code : LockCode) : RecieverControl → RecieverControl
  | .lock instruction _ => .lock instruction code
  | .unlock _ => .unlock code
  | control => control

/-- Where a receiver goes from the end of its lock function. -/
def finish : RecieverControl → RecieverControl
  | .lock instruction _ => .add instruction
  | .unlock _ => .idle
  | control => control

end RecieverControl

/-- A call on a mutex which its documentation does not allow. -/
inductive Misuse (count : Nat) where
  | unlock (thread : Thread count) (mutex : Mutex)
  | free (mutex : Mutex)
deriving DecidableEq, Repr

/-- The threads, their queues and the mutexes during the call. -/
structure Config (count : Nat) where
  incoming : Queue
  tmpqueue : Queue
  /-- The returned node. -/
  node : Option Bytes := none
  server : ServerControl := .lock { rest := wimpInstrQueueHighPrioLock }
  recievers : Fin count → RecieverControl := fun _ => .idle
  holder : Mutex → Option (Thread count) := fun _ => none
  /-- The instructions which the receivers have appended. -/
  arrived : List Bytes := []
  misuses : List (Misuse count) := []

variable {count : Nat}

/-- The state in which the loop is entered. -/
def called (nodes : List Bytes) : Config count :=
  { incoming :=
      { nodes
        datamutex := .incoming .data
        nextmutex := .incoming .next
        lowpriomutex := .incoming .lowprio }
    tmpqueue :=
      { nodes := []
        datamutex := .tmpqueue .data
        nextmutex := .tmpqueue .next
        lowpriomutex := .tmpqueue .lowprio } }

/-! ## The pieces of a step -/

/--
`wimp_instr_check` on the instruction of a node.  Undefined when its name is
`NULL` or a comparison leaves the buffer.
-/
def nodeCheck (buffer instr : Bytes) : Option Bool := do
  let result ← wimpInstrGetFromNode buffer
  let pointer ← result.instr
  strcmpEq (buffer.drop pointer) (terminated instr)

/-- The mutexes behind one step of a thread in a lock function. -/
def Config.afterCall (config : Config count) (thread : Thread count)
    (advanced : Advance QueueMutex Mutex (Thread count)) : Config count :=
  { config with
    holder := advanced.holder
    misuses :=
      config.misuses ++
        (advanced.misused.map (Misuse.unlock thread)).toList }

/-- One step of a thread in a lock function on the incoming queue. -/
def advance (config : Config count) (thread : Thread count)
    (code : LockCode) : Option (Config count × LockCode) :=
  (code.advance config.incoming.handle config.holder thread).map
    fun advanced => (config.afterCall thread advanced, advanced.code)

/-- One iteration of the loop over the incoming queue. -/
def scanNode (instr : CString) (config : Config count) : Config count :=
  match wimpInstrQueuePop config.incoming with
  | none =>
      { config with
        server := .unlock false { rest := wimpInstrQueueHighPrioUnlock } }
  | some (currentnode, incoming) =>
      let config := { config with incoming }
      match nodeCheck currentnode instr.val with
      | none => { config with server := .fault }
      | some true =>
          { config with
            node := some currentnode
            server := .unlock true { rest := wimpInstrQueueHighPrioUnlock } }
      | some false =>
          match nodeCheck currentnode wimpInstructionExit with
          | none => { config with server := .fault }
          | some true =>
              { config with
                server :=
                  .unlock true { rest := wimpInstrQueueHighPrioUnlock } }
          | some false =>
              { config with
                tmpqueue :=
                  wimpInstrQueueAddExisting config.tmpqueue currentnode }

/-- The temporary queue is put in front of the incoming queue. -/
def prependTmpqueue (config : Config count) : Config count :=
  let (incoming, tmpqueue) :=
    wimpInstrQueuePrependQueue config.incoming config.tmpqueue
  { config with
    incoming, tmpqueue
    server := .lastUnlock { rest := wimpInstrQueueHighPrioUnlock } }

/-- A thread holds the mutex or waits for it. -/
def InUse (config : Config count) (mutex : Mutex) : Prop :=
  config.holder mutex ≠ none ∨
    config.server.code.bind Code.awaited = some mutex ∨
      ∃ number,
        (config.recievers number).code.bind Code.awaited = some mutex

instance (config : Config count) (mutex : Mutex) :
    Decidable (InUse config mutex) :=
  inferInstanceAs (Decidable (_ ∨ _ ∨ _))

/-- `wimp_instr_queue_free` on the temporary queue. -/
def freeTmpqueue (config : Config count) : Config count :=
  let mutexes :=
    [config.tmpqueue.datamutex, config.tmpqueue.nextmutex,
      config.tmpqueue.lowpriomutex]
  { config with
    tmpqueue := { config.tmpqueue with nodes := [] }
    misuses :=
      config.misuses ++
        (mutexes.filter (InUse config ·)).map Misuse.free
    server := .returned }

/-- One step of the server thread. -/
def serverStep (instr : CString) (config : Config count) :
    Option (Config count) :=
  match config.server.code with
  | some code =>
      if code.rest = [] then
        some { config with server := config.server.finish }
      else
        (advance config .server code).map fun (next, code) =>
          { next with server := config.server.resume code }
  | none =>
      match config.server with
      | .scan => some (scanNode instr config)
      | .prepend => some (prependTmpqueue config)
      | .free => some (freeTmpqueue config)
      | _ => none

/-- The next control of one receiver. -/
def Config.setReciever (config : Config count) (number : Fin count)
    (control : RecieverControl) : Config count :=
  { config with
    recievers := Function.update config.recievers number control }

/-- One step of a receiver which has an instruction to hand over. -/
def recieverStep (config : Config count) (number : Fin count)
    (granted : Bool) : Option (Config count) :=
  match (config.recievers number).code with
  | some code =>
      if code.rest = [] then
        some
          (config.setReciever number (config.recievers number).finish)
      else
        (advance config (.reciever number) code).map
          fun (next, code) =>
            next.setReciever number
              ((config.recievers number).resume code)
  | none =>
      match config.recievers number with
      | .add instruction =>
          some
            ({ config with
                incoming :=
                  wimpInstrQueueAdd config.incoming instruction granted
                arrived :=
                  if granted then config.arrived ++ [instruction]
                  else config.arrived }.setReciever number
              (.unlock { rest := wimpInstrQueueLowPrioUnlock }))
      | _ => none

/-! ## The threads as a transition system -/

/-- The choices of the scheduler and of the receivers. -/
inductive Action (count : Nat) where
  | server
  | recieve (number : Fin count) (instruction : Bytes)
  | reciever (number : Fin count) (granted : Bool)
deriving DecidableEq, Repr

/-- One step of one thread; a fault of the server ends them all. -/
def step (instr : CString) (config : Config count)
    (action : Action count) : Option (Config count) :=
  if config.server = .fault then none
  else
    match action with
    | .server => serverStep instr config
    | .recieve number instruction =>
        match config.recievers number with
        | .idle =>
            some
              (config.setReciever number
                (.lock instruction
                  { rest := wimpInstrQueueLowPrioLock }))
        | _ => none
    | .reciever number granted => recieverStep config number granted

/-! ## What a step can do -/

/-- The steps of the server and of a receiver, by the piece they run. -/
inductive Transition (instr : CString) (config : Config count) :
    Action count → Config count → Prop where
  | serverFinish (code : LockCode)
      (inside : config.server.code = some code) (ended : code.rest = []) :
      Transition instr config .server
        { config with server := config.server.finish }
  | serverCall (code : LockCode)
      (inside : config.server.code = some code)
      (advanced : Advance QueueMutex Mutex (Thread count))
      (made :
        code.advance config.incoming.handle config.holder .server =
          some advanced) :
      Transition instr config .server
        { config.afterCall .server advanced with
          server := config.server.resume advanced.code }
  | scan (control : config.server = .scan) :
      Transition instr config .server (scanNode instr config)
  | prepend (control : config.server = .prepend) :
      Transition instr config .server (prependTmpqueue config)
  | free (control : config.server = .free) :
      Transition instr config .server (freeTmpqueue config)
  | recieve (number : Fin count) (instruction : Bytes)
      (control : config.recievers number = .idle) :
      Transition instr config (.recieve number instruction)
        (config.setReciever number
          (.lock instruction { rest := wimpInstrQueueLowPrioLock }))
  | recieverFinish (number : Fin count) (granted : Bool) (code : LockCode)
      (inside : (config.recievers number).code = some code)
      (ended : code.rest = []) :
      Transition instr config (.reciever number granted)
        (config.setReciever number (config.recievers number).finish)
  | recieverCall (number : Fin count) (granted : Bool) (code : LockCode)
      (inside : (config.recievers number).code = some code)
      (advanced : Advance QueueMutex Mutex (Thread count))
      (made :
        code.advance config.incoming.handle config.holder
          (.reciever number) = some advanced) :
      Transition instr config (.reciever number granted)
        ((config.afterCall (.reciever number) advanced).setReciever number
          ((config.recievers number).resume advanced.code))
  | add (number : Fin count) (granted : Bool) (instruction : Bytes)
      (control : config.recievers number = .add instruction) :
      Transition instr config (.reciever number granted)
        ({ config with
            incoming :=
              wimpInstrQueueAdd config.incoming instruction granted
            arrived :=
              if granted then config.arrived ++ [instruction]
              else config.arrived }.setReciever number
          (.unlock { rest := wimpInstrQueueLowPrioUnlock }))

variable {instr : CString} {config next : Config count}
variable {action : Action count}

/-- Every step is one of the transitions, and a fault makes none. -/
theorem step_cases (stepped : step instr config action = some next) :
    config.server ≠ .fault ∧ Transition instr config action next := by
  unfold step at stepped
  split at stepped
  · cases stepped
  · rename_i healthy
    refine ⟨healthy, ?_⟩
    cases action with
    | server =>
        simp only [serverStep] at stepped
        split at stepped
        · rename_i code inside
          split at stepped
          · rename_i ended
            cases stepped
            exact .serverFinish code inside ended
          · rcases Option.map_eq_some_iff.mp stepped with
              ⟨outcome, called, rfl⟩
            rcases Option.map_eq_some_iff.mp called with
              ⟨advanced, made, rfl⟩
            exact .serverCall code inside advanced made
        · split at stepped
          · rename_i control
            cases stepped
            exact .scan control
          · rename_i control
            cases stepped
            exact .prepend control
          · rename_i control
            cases stepped
            exact .free control
          · cases stepped
    | recieve number instruction =>
        dsimp only at stepped
        split at stepped
        · rename_i control
          cases stepped
          exact .recieve number instruction control
        · cases stepped
    | reciever number granted =>
        simp only [recieverStep] at stepped
        split at stepped
        · rename_i code inside
          split at stepped
          · rename_i ended
            cases stepped
            exact .recieverFinish number granted code inside ended
          · rcases Option.map_eq_some_iff.mp stepped with
              ⟨outcome, called, rfl⟩
            rcases Option.map_eq_some_iff.mp called with
              ⟨advanced, made, rfl⟩
            exact .recieverCall number granted code inside advanced made
        · split at stepped
          · rename_i instruction control
            cases stepped
            exact .add number granted instruction control
          · cases stepped

/-- What one iteration of the scan does to a node. -/
inductive ScanOutcome (instr : CString) (config : Config count) :
    Config count → Prop where
  | exhausted (empty : config.incoming.nodes = []) :
      ScanOutcome instr config
        { config with
          server :=
            .unlock false { rest := wimpInstrQueueHighPrioUnlock } }
  | undecodable (currentnode : Bytes) (nodes : List Bytes)
      (front : config.incoming.nodes = currentnode :: nodes)
      (check :
        nodeCheck currentnode instr.val = none ∨
          nodeCheck currentnode wimpInstructionExit = none) :
      ScanOutcome instr config
        { config with
          incoming := { config.incoming with nodes }
          server := .fault }
  | response (currentnode : Bytes) (nodes : List Bytes)
      (front : config.incoming.nodes = currentnode :: nodes)
      (check : nodeCheck currentnode instr.val = some true) :
      ScanOutcome instr config
        { config with
          incoming := { config.incoming with nodes }
          node := some currentnode
          server := .unlock true { rest := wimpInstrQueueHighPrioUnlock } }
  | exit (currentnode : Bytes) (nodes : List Bytes)
      (front : config.incoming.nodes = currentnode :: nodes)
      (other : nodeCheck currentnode instr.val = some false)
      (check : nodeCheck currentnode wimpInstructionExit = some true) :
      ScanOutcome instr config
        { config with
          incoming := { config.incoming with nodes }
          server := .unlock true { rest := wimpInstrQueueHighPrioUnlock } }
  | passed (currentnode : Bytes) (nodes : List Bytes)
      (front : config.incoming.nodes = currentnode :: nodes)
      (other : nodeCheck currentnode instr.val = some false)
      (check : nodeCheck currentnode wimpInstructionExit = some false) :
      ScanOutcome instr config
        { config with
          incoming := { config.incoming with nodes }
          tmpqueue :=
            { config.tmpqueue with
              nodes := config.tmpqueue.nodes ++ [currentnode] } }

theorem scanNode_cases (instr : CString) (config : Config count) :
    ScanOutcome instr config (scanNode instr config) := by
  unfold scanNode wimpInstrQueuePop
  cases front : config.incoming.nodes with
  | nil => exact .exhausted front
  | cons currentnode nodes =>
      dsimp only
      cases wanted : nodeCheck currentnode instr.val with
      | none => exact .undecodable currentnode nodes front (Or.inl wanted)
      | some answered =>
          cases answered with
          | true => exact .response currentnode nodes front wanted
          | false =>
              cases exits :
                  nodeCheck currentnode wimpInstructionExit with
              | none =>
                  exact .undecodable currentnode nodes front
                    (Or.inr exits)
              | some exited =>
                  cases exited with
                  | true =>
                      exact .exit currentnode nodes front wanted exits
                  | false =>
                      exact .passed currentnode nodes front wanted exits

theorem prependTmpqueue_eq (config : Config count) :
    prependTmpqueue config =
      { config with
        incoming :=
          { config.tmpqueue with
            nodes := config.tmpqueue.nodes ++ config.incoming.nodes }
        tmpqueue := { config.incoming with nodes := [] }
        server :=
          .lastUnlock { rest := wimpInstrQueueHighPrioUnlock } } := by
  rw [prependTmpqueue, wimpInstrQueuePrependQueue_eq]

end Wimp.Server.WaitResponse
