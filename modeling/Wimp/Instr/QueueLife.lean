import Wimp.Instr.LinkedQueue
import Wimp.Lib.ByteRegion

/-!
# The life of the instruction queues

A queue is created with its three mutexes, receives nodes with the buffers of
their instructions, gives nodes up to its callers and to other queues, and is
freed with what is left in it.  A popped node belongs to its caller, who
queues it again or frees it together with its buffer.

The module embeds the creation and the release of queues and nodes on the
memory of `Wimp.Instr.LinkedQueue`, beside the buffers and the mutexes.  A
step which follows or frees a dead pointer is undefined.  The result is a
ledger: whatever the order of the calls, everything alive has exactly one
owner, nothing is freed twice, and nothing is left behind the last queue and
the last popped node.
-/

namespace Wimp.Instr.QueueLife

open Wimp.Lib.ByteRegion
open Wimp.Lib.Chain
open Wimp.Lib.Runs
open Wimp.Instr.LinkedQueue

variable {Queue Mutex : Type} [DecidableEq Queue] [DecidableEq Mutex]

/--
The memory of the queues, the buffers of the instructions and a record of the
calls on the mutexes.  The last three fields are a record for the properties,
which no call reads.
-/
structure World (Queue Mutex : Type) where
  memory : Memory Queue Mutex
  buffers : Address → Option Bytes := fun _ => none
  /-- `p_mutex_new` has returned it and `p_mutex_free` has not been called. -/
  mutexes : Mutex → Bool := fun _ => false
  /-- The queues which have been created and not freed. -/
  alive : Queue → Bool := fun _ => false
  /-- The popped nodes which have neither been queued again nor freed. -/
  popped : List Address := []
  /-- The buffers which have neither been queued nor freed. -/
  loose : List Address := []

/-! ## Creation and release -/

/-- `free`; a null pointer is ignored. -/
def free {Content : Type} (heap : Address → Option Content) :
    Option Address → Option (Address → Option Content)
  | none => some heap
  | some address =>
      if (heap address).isSome then
        some (Function.update heap address none)
      else none

/-- A call of `p_mutex_free` is recorded, once for every mutex. -/
def recordMutexFree (mutexes : Mutex → Bool) (mutex : Mutex) :
    Option (Mutex → Bool) :=
  if mutexes mutex then some (Function.update mutexes mutex false)
  else none

/-- `wimp_create_instr_queue`, given what `p_mutex_new` returns. -/
def wimpCreateInstrQueue (datamutex nextmutex lowpriomutex : Mutex) :
    WimpInstrQueue Mutex :=
  { backnode := none, nextnode := none, datamutex, nextmutex, lowpriomutex }

/-- `wimp_instr_node_free`. -/
def wimpInstrNodeFree (heap : Address → Option WimpInstrNode)
    (buffers : Address → Option Bytes) (node : Address) :
    Option ((Address → Option WimpInstrNode) × (Address → Option Bytes)) := do
  let cell ← heap node
  let buffers ← free buffers cell.instr.instruction
  let heap ← free heap (some node)
  return (heap, buffers)

/--
The loop of `wimp_instr_queue_free` on its own copy of the queue, undefined
when the fuel ends in front of the queue.
-/
def freeLoop :
    Nat → Memory Unit Mutex → (Address → Option Bytes) →
      Option ((Address → Option WimpInstrNode) × (Address → Option Bytes))
  | 0, _, _ => none
  | fuel + 1, copy, buffers => do
      let (copy, currentnode) ← wimpInstrQueuePop copy ()
      match currentnode with
      | none => return (copy.heap, buffers)
      | some currentnode =>
          let (heap, buffers) ←
            wimpInstrNodeFree copy.heap buffers currentnode
          freeLoop fuel { copy with heap } buffers

/--
`wimp_instr_queue_free`.  The queue is passed by value: the caller's record
keeps its pointers.
-/
def wimpInstrQueueFree (fuel : Nat) (world : World Queue Mutex)
    (queue : Queue) : Option (World Queue Mutex) := do
  let record := world.memory.queues queue
  let (heap, buffers) ←
    freeLoop fuel { heap := world.memory.heap, queues := fun _ => record }
      world.buffers
  let mutexes ← recordMutexFree world.mutexes record.datamutex
  let mutexes ← recordMutexFree mutexes record.nextmutex
  let mutexes ← recordMutexFree mutexes record.lowpriomutex
  return { world with
    memory := { world.memory with heap }, buffers, mutexes }

/-! ## The calls as a transition system -/

/-- The calls on the queues, and the buffers of their callers. -/
inductive Action (Queue Mutex : Type) where
  | create (queue : Queue) (datamutex nextmutex lowpriomutex : Mutex)
  | malloc (buffer : Address) (bytes : Bytes)
  | add (queue : Queue) (instr : WimpInstr) (block : Option Address)
  | addExisting (queue : Queue) (node : Address)
  | pop (queue : Queue)
  | append (queue add : Queue)
  | prepend (queue add : Queue)
  | nodeFree (node : Address)
  | bufferFree (buffer : Address)
  | queueFree (queue : Queue)
deriving DecidableEq, Repr

/-- One call. -/
def step (fuel : Nat) (world : World Queue Mutex) :
    Action Queue Mutex → Option (World Queue Mutex)
  | .create queue datamutex nextmutex lowpriomutex =>
      some
        { world with
          memory :=
            world.memory.setQueue queue
              (wimpCreateInstrQueue datamutex nextmutex lowpriomutex)
          mutexes := fun mutex =>
            mutex ∈ [datamutex, nextmutex, lowpriomutex] ||
              world.mutexes mutex
          alive := Function.update world.alive queue true }
  | .malloc buffer bytes =>
      some
        { world with
          buffers := Function.update world.buffers buffer (some bytes)
          loose := buffer :: world.loose }
  | .add queue instr block =>
      (wimpInstrQueueAdd world.memory queue instr block).map
        fun (memory, success) =>
          { world with
            memory
            loose :=
              if success then
                world.loose.filter (instr.instruction ≠ some ·)
              else world.loose }
  | .addExisting queue node =>
      (wimpInstrQueueAddExisting world.memory queue node).map
        fun memory =>
          { world with memory, popped := world.popped.erase node }
  | .pop queue =>
      (wimpInstrQueuePop world.memory queue).map fun (memory, node) =>
        { world with memory, popped := world.popped ++ node.toList }
  | .append queue add =>
      (wimpInstrQueueAppendQueue fuel world.memory queue add).map
        fun memory => { world with memory }
  | .prepend queue add =>
      (wimpInstrQueuePrependQueue fuel world.memory queue add).map
        fun memory => { world with memory }
  | .nodeFree node =>
      (wimpInstrNodeFree world.memory.heap world.buffers node).map
        fun (heap, buffers) =>
          { world with
            memory := { world.memory with heap }
            buffers
            popped := world.popped.erase node }
  | .bufferFree buffer =>
      (free world.buffers (some buffer)).map fun buffers =>
        { world with buffers, loose := world.loose.erase buffer }
  | .queueFree queue =>
      (wimpInstrQueueFree fuel world queue).map fun world =>
        { world with alive := Function.update world.alive queue false }

/-- The buffer of a node. -/
def bufferOf (heap : Address → Option WimpInstrNode) (node : Address) :
    Option Address :=
  (heap node).bind fun cell => cell.instr.instruction

/--
The discipline of the callers: they use queues between creation and release,
queue buffers and nodes which are theirs, and free those once.  Allocations
grant what is not in use.
-/
def Admissible (world : World Queue Mutex) : Action Queue Mutex → Prop
  | .create queue datamutex nextmutex lowpriomutex =>
      world.alive queue = false ∧
        [datamutex, nextmutex, lowpriomutex].Nodup ∧
          ∀ mutex ∈ [datamutex, nextmutex, lowpriomutex],
            world.mutexes mutex = false
  | .malloc buffer _ => world.buffers buffer = none
  | .add queue instr block =>
      world.alive queue = true ∧
        (∀ node ∈ block, world.memory.heap node = none) ∧
          ∀ buffer ∈ instr.instruction, buffer ∈ world.loose
  | .addExisting queue node =>
      world.alive queue = true ∧ node ∈ world.popped
  | .pop queue => world.alive queue = true
  | .append queue add =>
      world.alive queue = true ∧ world.alive add = true ∧ queue ≠ add
  | .prepend queue add =>
      world.alive queue = true ∧ world.alive add = true ∧ queue ≠ add
  | .nodeFree node => node ∈ world.popped
  | .bufferFree buffer => buffer ∈ world.loose
  | .queueFree queue => world.alive queue = true

instance (world : World Queue Mutex) (action : Action Queue Mutex) :
    Decidable (Admissible world action) :=
  match action with
  | .create .. => inferInstanceAs (Decidable (_ ∧ _ ∧ ∀ mutex ∈ _, _))
  | .malloc .. => inferInstanceAs (Decidable (_ = _))
  | .add .. =>
      inferInstanceAs
        (Decidable (_ ∧ (∀ node ∈ _, _) ∧ ∀ buffer ∈ _, buffer ∈ _))
  | .addExisting .. => inferInstanceAs (Decidable (_ ∧ _ ∈ _))
  | .pop .. => inferInstanceAs (Decidable (_ = _))
  | .append .. => inferInstanceAs (Decidable (_ ∧ _ ∧ _))
  | .prepend .. => inferInstanceAs (Decidable (_ ∧ _ ∧ _))
  | .nodeFree .. => inferInstanceAs (Decidable (_ ∈ _))
  | .bufferFree .. => inferInstanceAs (Decidable (_ ∈ _))
  | .queueFree .. => inferInstanceAs (Decidable (_ = _))

/-- Nothing has been allocated yet. -/
def empty (queues : Queue → WimpInstrQueue Mutex) : World Queue Mutex :=
  { memory := { queues } }

/-! ## The live queues -/

/-- A memory in which the dead queues hold nothing. -/
def mask (alive : Queue → Bool) (memory : Memory Queue Mutex) :
    Memory Queue Mutex :=
  { memory with
    queues := fun queue =>
      if alive queue then memory.queues queue
      else
        { memory.queues queue with backnode := none, nextnode := none } }

section Mask

variable {alive : Queue → Bool} {queue add : Queue}

omit [DecidableEq Queue] [DecidableEq Mutex] in
@[simp]
theorem mask_heap (memory : Memory Queue Mutex) :
    (mask alive memory).heap = memory.heap :=
  rfl

omit [DecidableEq Queue] [DecidableEq Mutex] in
theorem mask_queues (memory : Memory Queue Mutex)
    (lives : alive queue = true) :
    (mask alive memory).queues queue = memory.queues queue :=
  if_pos lives

omit [DecidableEq Queue] [DecidableEq Mutex] in
@[simp]
theorem mask_setNode (memory : Memory Queue Mutex) (node : Address)
    (cell : WimpInstrNode) :
    (mask alive memory).setNode node cell =
      mask alive (memory.setNode node cell) :=
  rfl

omit [DecidableEq Mutex] in
theorem mask_setQueue (memory : Memory Queue Mutex)
    (lives : alive queue = true) (record : WimpInstrQueue Mutex) :
    (mask alive memory).setQueue queue record =
      mask alive (memory.setQueue queue record) := by
  rw [Memory.setQueue, mask, Memory.setQueue, mask, Memory.mk.injEq]
  refine ⟨rfl, ?_⟩
  funext other
  by_cases same : other = queue
  · subst same
    simp [lives]
  · simp [same]

omit [DecidableEq Mutex] in
theorem link_mask (memory : Memory Queue Mutex)
    (lives : alive queue = true) (node : Address) :
    link (mask alive memory) queue node =
      (link memory queue node).map (mask alive) := by
  rw [link, link, mask_queues memory lives]
  cases (memory.queues queue).backnode with
  | none => simp only [mask_setQueue memory lives, Option.map_some]
  | some back =>
      cases found : memory.heap back <;>
        simp [found, mask_setQueue _ lives]

omit [DecidableEq Mutex] in
theorem addExisting_mask (memory : Memory Queue Mutex)
    (lives : alive queue = true) (node : Address) :
    wimpInstrQueueAddExisting (mask alive memory) queue node =
      (wimpInstrQueueAddExisting memory queue node).map (mask alive) := by
  rw [wimpInstrQueueAddExisting, wimpInstrQueueAddExisting, mask_heap]
  cases memory.heap node with
  | none => rfl
  | some cell => simp [link_mask _ lives]

omit [DecidableEq Mutex] in
theorem pop_mask (memory : Memory Queue Mutex)
    (lives : alive queue = true) :
    wimpInstrQueuePop (mask alive memory) queue =
      (wimpInstrQueuePop memory queue).map
        fun (memory, node) => (mask alive memory, node) := by
  rw [wimpInstrQueuePop, wimpInstrQueuePop, mask_queues memory lives]
  cases (memory.queues queue).nextnode with
  | none => rfl
  | some current =>
      cases found : memory.heap current <;>
        simp [found, mask_setQueue _ lives]

omit [DecidableEq Mutex] in
theorem appendLoop_mask (fuel : Nat) (memory : Memory Queue Mutex)
    (lives : alive queue = true) (livesToo : alive add = true) :
    appendLoop fuel (mask alive memory) queue add =
      (appendLoop fuel memory queue add).map (mask alive) := by
  induction fuel generalizing memory with
  | zero => rfl
  | succ fuel induction =>
      simp only [appendLoop, pop_mask memory livesToo]
      cases wimpInstrQueuePop memory add with
      | none => rfl
      | some result =>
          rcases result with ⟨after, node⟩
          cases node with
          | none => rfl
          | some node =>
              simp only [Option.map_some, Option.bind_eq_bind,
                Option.bind_some, addExisting_mask after lives]
              cases wimpInstrQueueAddExisting after queue node with
              | none => rfl
              | some joined => exact induction joined

omit [DecidableEq Mutex] in
theorem prepend_mask (fuel : Nat) (memory : Memory Queue Mutex)
    (lives : alive queue = true) (livesToo : alive add = true) :
    wimpInstrQueuePrependQueue fuel (mask alive memory) queue add =
      (wimpInstrQueuePrependQueue fuel memory queue add).map
        (mask alive) := by
  rw [wimpInstrQueuePrependQueue, wimpInstrQueuePrependQueue,
    wimpInstrQueueAppendQueue, appendLoop_mask fuel memory livesToo lives]
  cases appended : appendLoop fuel memory add queue with
  | none => simp [wimpInstrQueueAppendQueue, appended]
  | some after =>
      simp [wimpInstrQueueAppendQueue, appended, mask_queues _ lives,
        mask_queues _ livesToo, mask_setQueue _ lives,
        mask_setQueue _ livesToo]

end Mask

/-! ## The mutexes of the records -/

/-- The mutexes of a queue. -/
def mutexesOf (record : WimpInstrQueue Mutex) : List Mutex :=
  [record.datamutex, record.nextmutex, record.lowpriomutex]

/-- The queues keep their mutexes. -/
def SameMutexes (memory next : Memory Queue Mutex) : Prop :=
  ∀ queue, mutexesOf (next.queues queue) = mutexesOf (memory.queues queue)

section Mutexes

variable {memory next : Memory Queue Mutex} {queue add : Queue}

omit [DecidableEq Queue] [DecidableEq Mutex] in
theorem SameMutexes.trans
    {last : Memory Queue Mutex} (first : SameMutexes memory next)
    (second : SameMutexes next last) : SameMutexes memory last :=
  fun queue => (second queue).trans (first queue)

omit [DecidableEq Mutex] in
theorem sameMutexes_setQueue (memory : Memory Queue Mutex) {queue : Queue}
    {record : WimpInstrQueue Mutex}
    (same : mutexesOf record = mutexesOf (memory.queues queue)) :
    SameMutexes memory (memory.setQueue queue record) := by
  intro other
  by_cases here : other = queue
  · subst here
    simp [Memory.setQueue, same]
  · simp [Memory.setQueue, here]

omit [DecidableEq Mutex] in
theorem sameMutexes_link {node : Address}
    (linked : link memory queue node = some next) :
    SameMutexes memory next := by
  unfold link at linked
  dsimp only at linked
  split at linked
  · cases linked
    exact sameMutexes_setQueue memory rfl
  · rcases Option.bind_eq_some_iff.mp linked with ⟨last, -, result⟩
    cases result
    exact sameMutexes_setQueue (memory.setNode _ _) rfl

omit [DecidableEq Mutex] in
theorem sameMutexes_addExisting {node : Address}
    (joined : wimpInstrQueueAddExisting memory queue node = some next) :
    SameMutexes memory next := by
  rcases Option.bind_eq_some_iff.mp joined with ⟨cell, -, linked⟩
  have same := sameMutexes_link linked
  exact same

omit [DecidableEq Mutex] in
theorem sameMutexes_pop {node : Option Address}
    (popping : wimpInstrQueuePop memory queue = some (next, node)) :
    SameMutexes memory next := by
  unfold wimpInstrQueuePop at popping
  dsimp only at popping
  split at popping
  · cases popping
    exact fun _ => rfl
  · rcases Option.bind_eq_some_iff.mp popping with ⟨cell, -, result⟩
    cases result
    exact sameMutexes_setQueue memory rfl

omit [DecidableEq Mutex] in
theorem sameMutexes_appendLoop {fuel : Nat}
    (looped : appendLoop fuel memory queue add = some next) :
    SameMutexes memory next := by
  induction fuel generalizing memory with
  | zero => cases looped
  | succ fuel induction =>
      rcases Option.bind_eq_some_iff.mp looped with
        ⟨⟨after, node⟩, popping, rest⟩
      have first := sameMutexes_pop popping
      cases node with
      | none =>
          cases rest
          exact first
      | some node =>
          rcases Option.bind_eq_some_iff.mp rest with
            ⟨joined, joining, rest⟩
          exact
            first.trans
              ((sameMutexes_addExisting joining).trans (induction rest))

omit [DecidableEq Mutex] in
/-- A prepended queue changes places with the other one. -/
theorem sameMutexes_prepend {fuel : Nat}
    (prepended :
      wimpInstrQueuePrependQueue fuel memory queue add = some next)
    (other : Queue) :
    mutexesOf (next.queues other) =
      mutexesOf (memory.queues (Equiv.swap queue add other)) := by
  rcases Option.bind_eq_some_iff.mp prepended with
    ⟨after, looped, result⟩
  have same := sameMutexes_appendLoop looped
  cases result
  rw [← same]
  simp only [Memory.setQueue, update_update_eq_comp_swap,
    Function.comp_apply]

end Mutexes

end Wimp.Instr.QueueLife
