import Mathlib.Data.Fintype.Basic
import Wimp.Lib.Mutex

/-!
# Instruction queues and their locks

A queue record holds its chain of nodes, here the list of the nodes from
front to back, and the handles of its three mutexes.  The lock functions are
straight lines of calls on the fields of the record; they form the triple
mutex pattern which lets the server thread pass the receivers.

The queue operations work on the whole record, because a record which is
copied takes the handles along.
-/

namespace Wimp.Instr.Queue

open Wimp.Lib.Mutex
open Wimp.Lib.Runs

/-- The fields of a queue which hold a mutex. -/
inductive QueueMutex where
  | data
  | next
  | lowprio
deriving DecidableEq, Repr

/-- `WimpInstrQueue`. -/
structure WimpInstrQueue (Node Mutex : Type) where
  nodes : List Node
  datamutex : Mutex
  nextmutex : Mutex
  lowpriomutex : Mutex
deriving DecidableEq, Repr

variable {Node Mutex : Type}

/-- The handle stored in a field. -/
def WimpInstrQueue.handle (queue : WimpInstrQueue Node Mutex) :
    QueueMutex → Mutex
  | .data => queue.datamutex
  | .next => queue.nextmutex
  | .lowprio => queue.lowpriomutex

@[simp]
theorem handle_nodes (queue : WimpInstrQueue Node Mutex)
    (nodes : List Node) :
    { queue with nodes }.handle = queue.handle := by
  funext field
  cases field <;> rfl

/-! ## The lock functions -/

/-- `wimp_instr_queue_low_prio_lock`. -/
def wimpInstrQueueLowPrioLock : List (Command QueueMutex) :=
  [.lock .lowprio, .lock .next, .lock .data, .unlock .next]

/-- `wimp_instr_queue_low_prio_unlock`. -/
def wimpInstrQueueLowPrioUnlock : List (Command QueueMutex) :=
  [.unlock .data, .unlock .lowprio]

/-- `wimp_instr_queue_high_prio_lock`. -/
def wimpInstrQueueHighPrioLock : List (Command QueueMutex) :=
  [.lock .next, .lock .data, .unlock .next]

/-- `wimp_instr_queue_high_prio_unlock`. -/
def wimpInstrQueueHighPrioUnlock : List (Command QueueMutex) :=
  [.unlock .data]

/-- A receiver in its critical section holds the data and the entry mutex. -/
theorem follow_lowPrioLock :
    run follow ∅ wimpInstrQueueLowPrioLock = some {.lowprio, .data} := by
  decide

theorem follow_lowPrioUnlock :
    run follow {.lowprio, .data} wimpInstrQueueLowPrioUnlock = some ∅ := by
  decide

/-- The server in its critical section holds the data mutex alone. -/
theorem follow_highPrioLock :
    run follow ∅ wimpInstrQueueHighPrioLock = some {.data} := by
  decide

theorem follow_highPrioUnlock :
    run follow {.data} wimpInstrQueueHighPrioUnlock = some ∅ := by
  decide

/-! ## The queue operations -/

/-- `wimp_instr_queue_add`, given whether its node is granted. -/
def wimpInstrQueueAdd (queue : WimpInstrQueue Node Mutex) (node : Node)
    (granted : Bool) : WimpInstrQueue Node Mutex :=
  if granted then { queue with nodes := queue.nodes ++ [node] } else queue

@[simp]
theorem handle_wimpInstrQueueAdd (queue : WimpInstrQueue Node Mutex)
    (node : Node) (granted : Bool) :
    (wimpInstrQueueAdd queue node granted).handle = queue.handle := by
  unfold wimpInstrQueueAdd
  split
  · apply handle_nodes
  · rfl

/-- `wimp_instr_queue_add_existing`. -/
def wimpInstrQueueAddExisting (queue : WimpInstrQueue Node Mutex)
    (node : Node) : WimpInstrQueue Node Mutex :=
  { queue with nodes := queue.nodes ++ [node] }

/-- `wimp_instr_queue_pop`; an empty queue returns no node. -/
def wimpInstrQueuePop (queue : WimpInstrQueue Node Mutex) :
    Option (Node × WimpInstrQueue Node Mutex) :=
  match queue.nodes with
  | [] => none
  | node :: nodes => some (node, { queue with nodes })

/-- The loop of `wimp_instr_queue_append_queue` over the popped nodes. -/
def appendLoop (queue : WimpInstrQueue Node Mutex) :
    List Node → WimpInstrQueue Node Mutex
  | [] => queue
  | node :: nodes =>
      appendLoop (wimpInstrQueueAddExisting queue node) nodes

/--
`wimp_instr_queue_append_queue` of two queues: the nodes of the second leave
it for the back of the first.
-/
def wimpInstrQueueAppendQueue (queue add : WimpInstrQueue Node Mutex) :
    WimpInstrQueue Node Mutex × WimpInstrQueue Node Mutex :=
  (appendLoop queue add.nodes, { add with nodes := [] })

/--
`wimp_instr_queue_prepend_queue`: the queue is appended to the other one, and
then the two records change places, handles included.
-/
def wimpInstrQueuePrependQueue (queue add : WimpInstrQueue Node Mutex) :
    WimpInstrQueue Node Mutex × WimpInstrQueue Node Mutex :=
  let (addOrig, queueOrig) := wimpInstrQueueAppendQueue add queue
  (addOrig, queueOrig)

theorem appendLoop_eq (queue : WimpInstrQueue Node Mutex)
    (nodes : List Node) :
    appendLoop queue nodes =
      { queue with nodes := queue.nodes ++ nodes } := by
  induction nodes generalizing queue with
  | nil => simp [appendLoop]
  | cons node rest induction =>
      rw [appendLoop, induction]
      simp [wimpInstrQueueAddExisting]

/-- A prepended queue brings its nodes and its mutexes. -/
theorem wimpInstrQueuePrependQueue_eq
    (queue add : WimpInstrQueue Node Mutex) :
    wimpInstrQueuePrependQueue queue add =
      ({ add with nodes := add.nodes ++ queue.nodes },
        { queue with nodes := [] }) := by
  rw [wimpInstrQueuePrependQueue, wimpInstrQueueAppendQueue, appendLoop_eq]

end Wimp.Instr.Queue
