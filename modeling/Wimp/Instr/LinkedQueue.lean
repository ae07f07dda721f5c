import Mathlib.Data.Finset.Card
import Mathlib.Logic.Equiv.Basic
import Wimp.Lib.Chain
import Wimp.Lib.Runs
import Wimp.Instr.Queue

/-!
# The linked nodes of the instruction queues

A queue record points to the first and to the last of its nodes, and every
node points to the next one.  The nodes lie in a heap which all queues share.
A node which was popped keeps its pointer into the queue it came from until
it is queued again.

The module embeds the queue functions on this memory; a step which follows a
null or a dead pointer is undefined.  The result is that the queues are
first-in first-out lists, whatever the order of the calls: each queue is a
chain from its first to its last node, and the chains share no node.
-/

namespace Wimp.Instr.LinkedQueue

open Wimp.Lib.Chain
open Wimp.Lib.Runs

/-- The address of a node. -/
abbrev Address := Nat

/-- `WimpInstr`. -/
structure WimpInstr where
  instruction : Option Nat
  instructionBytes : Nat
deriving DecidableEq, Repr

/-- `WimpInstrNode`. -/
structure WimpInstrNode where
  instr : WimpInstr
  nextnode : Option Address
deriving DecidableEq, Repr

/-- `WimpInstrQueue`. -/
structure WimpInstrQueue (Mutex : Type) where
  backnode : Option Address := none
  nextnode : Option Address := none
  datamutex : Mutex
  nextmutex : Mutex
  lowpriomutex : Mutex
deriving DecidableEq, Repr

/-- The live nodes and the queue records. -/
structure Memory (Queue Mutex : Type) where
  heap : Address → Option WimpInstrNode := fun _ => none
  queues : Queue → WimpInstrQueue Mutex

variable {Queue Mutex : Type} [DecidableEq Queue]

/-- A queue record is written. -/
def Memory.setQueue (memory : Memory Queue Mutex) (queue : Queue)
    (record : WimpInstrQueue Mutex) : Memory Queue Mutex :=
  { memory with queues := Function.update memory.queues queue record }

/-- A node is written. -/
def Memory.setNode (memory : Memory Queue Mutex) (address : Address)
    (node : WimpInstrNode) : Memory Queue Mutex :=
  { memory with heap := Function.update memory.heap address (some node) }

/-! ## The queue functions -/

/--
The end of `wimp_instr_queue_add` and `wimp_instr_queue_add_existing`: the
node is linked behind the last one.
-/
def link (memory : Memory Queue Mutex) (queue : Queue) (node : Address) :
    Option (Memory Queue Mutex) :=
  let record := memory.queues queue
  match record.backnode with
  | none =>
      some
        (memory.setQueue queue
          { record with nextnode := some node, backnode := some node })
  | some back => do
      let last ← memory.heap back
      return (memory.setNode back
        { last with nextnode := some node }).setQueue queue
          { record with backnode := some node }

/--
`wimp_instr_queue_add`, given what `malloc` returns, with its success flag.
-/
def wimpInstrQueueAdd (memory : Memory Queue Mutex) (queue : Queue)
    (instr : WimpInstr) (block : Option Address) :
    Option (Memory Queue Mutex × Bool) :=
  match block with
  | none => some (memory, false)
  | some newNode => do
      let memory := memory.setNode newNode { instr, nextnode := none }
      let memory ← link memory queue newNode
      return (memory, true)

/-- `wimp_instr_queue_add_existing`. -/
def wimpInstrQueueAddExisting (memory : Memory Queue Mutex)
    (queue : Queue) (node : Address) : Option (Memory Queue Mutex) := do
  let cell ← memory.heap node
  link (memory.setNode node { cell with nextnode := none }) queue node

/-- `wimp_instr_queue_pop`. -/
def wimpInstrQueuePop (memory : Memory Queue Mutex) (queue : Queue) :
    Option (Memory Queue Mutex × Option Address) :=
  let record := memory.queues queue
  match record.nextnode with
  | none => some (memory, none)
  | some current => do
      let cell ← memory.heap current
      some
        (memory.setQueue queue
          { record with
            nextnode := cell.nextnode
            backnode :=
              if cell.nextnode = none then none else record.backnode },
          some current)

/--
The loop of `wimp_instr_queue_append_queue`, undefined when the fuel ends in
front of the added queue.
-/
def appendLoop :
    Nat → Memory Queue Mutex → Queue → Queue →
      Option (Memory Queue Mutex)
  | 0, _, _, _ => none
  | fuel + 1, memory, queue, add => do
      let (memory, currentnode) ← wimpInstrQueuePop memory add
      match currentnode with
      | none => return memory
      | some currentnode =>
          let memory ← wimpInstrQueueAddExisting memory queue currentnode
          appendLoop fuel memory queue add

/-- `wimp_instr_queue_append_queue`. -/
def wimpInstrQueueAppendQueue (fuel : Nat) (memory : Memory Queue Mutex)
    (queue add : Queue) : Option (Memory Queue Mutex) :=
  appendLoop fuel memory queue add

/-- `wimp_instr_queue_prepend_queue`. -/
def wimpInstrQueuePrependQueue (fuel : Nat) (memory : Memory Queue Mutex)
    (queue add : Queue) : Option (Memory Queue Mutex) := do
  let memory ← wimpInstrQueueAppendQueue fuel memory add queue
  let queueOrig := memory.queues queue
  let addOrig := memory.queues add
  return (memory.setQueue queue addOrig).setQueue add queueOrig

/-! ## The calls as a transition system -/

/-- The calls on the queues. -/
inductive Action (Queue : Type) where
  | add (queue : Queue) (instr : WimpInstr) (block : Option Address)
  | addExisting (queue : Queue) (node : Address)
  | pop (queue : Queue)
  | append (queue add : Queue)
  | prepend (queue add : Queue)
deriving DecidableEq, Repr

/-- The memory, and what the pop calls have returned so far. -/
structure Config (Queue Mutex : Type) where
  memory : Memory Queue Mutex
  popped : List (Option Address) := []

/-- One call. -/
def step (fuel : Nat) (config : Config Queue Mutex) :
    Action Queue → Option (Config Queue Mutex)
  | .add queue instr block =>
      (wimpInstrQueueAdd config.memory queue instr block).map
        fun (memory, _) => { config with memory }
  | .addExisting queue node =>
      (wimpInstrQueueAddExisting config.memory queue node).map
        fun memory => { config with memory }
  | .pop queue =>
      (wimpInstrQueuePop config.memory queue).map
        fun (memory, node) =>
          { memory, popped := config.popped ++ [node] }
  | .append queue add =>
      (wimpInstrQueueAppendQueue fuel config.memory queue add).map
        fun memory => { config with memory }
  | .prepend queue add =>
      (wimpInstrQueuePrependQueue fuel config.memory queue add).map
        fun memory => { config with memory }

/-- Created queues hold no nodes. -/
def created (queues : Queue → WimpInstrQueue Mutex) :
    Config Queue Mutex :=
  { memory :=
      { queues := fun queue =>
          { queues queue with backnode := none, nextnode := none } } }

/--
`malloc` grants a fresh node, an existing node is live and in no queue, and
two queues are two.
-/
def Admissible (config : Config Queue Mutex) : Action Queue → Prop
  | .add _ _ block =>
      ∃ address, block = some address ∧ config.memory.heap address = none
  | .addExisting _ node =>
      (config.memory.heap node).isSome ∧
        ∀ queue,
          ¬ Reaches config.memory.heap WimpInstrNode.nextnode
            (config.memory.queues queue).nextnode node
  | .pop _ => True
  | .append queue add => queue ≠ add
  | .prepend queue add => queue ≠ add

/-! ## Lists -/

/-- What the queues are for: lists of nodes, each with its instruction. -/
structure Fifo (Queue : Type) where
  lists : Queue → List Address := fun _ => []
  instrs : Address → Option WimpInstr := fun _ => none
  popped : List (Option Address) := []

/-- A list is replaced. -/
def Fifo.set (fifo : Fifo Queue) (queue : Queue) (list : List Address) :
    Fifo Queue :=
  { fifo with lists := Function.update fifo.lists queue list }

/-- What a call means for the lists. -/
def Fifo.step (fifo : Fifo Queue) : Action Queue → Fifo Queue
  | .add queue instr block =>
      match block with
      | none => fifo
      | some address =>
          { fifo.set queue (fifo.lists queue ++ [address]) with
            instrs := Function.update fifo.instrs address (some instr) }
  | .addExisting queue node => fifo.set queue (fifo.lists queue ++ [node])
  | .pop queue =>
      { fifo.set queue (fifo.lists queue).tail with
        popped := fifo.popped ++ [(fifo.lists queue).head?] }
  | .append queue add =>
      (fifo.set queue (fifo.lists queue ++ fifo.lists add)).set add []
  | .prepend queue add =>
      (fifo.set queue (fifo.lists add ++ fifo.lists queue)).set add []

/--
Every queue is a chain from its first node to the null pointer behind its
last node, and no two queues share a node.
-/
structure Linked (memory : Memory Queue Mutex)
    (lists : Queue → List Address) : Prop where
  chain :
    ∀ queue,
      Segment memory.heap WimpInstrNode.nextnode
        (memory.queues queue).nextnode (lists queue) none
  back :
    ∀ queue, (memory.queues queue).backnode = (lists queue).getLast?
  apart :
    ∀ first second, first ≠ second →
      (lists first).Disjoint (lists second)

/-- The queues are the lists, and the nodes carry their instructions. -/
structure Represents (config : Config Queue Mutex) (fifo : Fifo Queue) :
    Prop where
  linked : Linked config.memory fifo.lists
  instrs :
    ∀ address,
      (config.memory.heap address).map WimpInstrNode.instr =
        fifo.instrs address
  popped : config.popped = fifo.popped

variable {memory following : Memory Queue Mutex}
variable {lists : Queue → List Address} {queue add : Queue}
variable {node : Address} {cell : WimpInstrNode}

/-! ## The pieces -/

/-- The nodes carry the same instructions. -/
def SameInstrs (memory following : Memory Queue Mutex) : Prop :=
  ∀ address,
    (following.heap address).map WimpInstrNode.instr =
      (memory.heap address).map WimpInstrNode.instr

omit [DecidableEq Queue] in
theorem SameInstrs.trans
    {last : Memory Queue Mutex} (first : SameInstrs memory following)
    (second : SameInstrs following last) : SameInstrs memory last :=
  fun address => (second address).trans (first address)

omit [DecidableEq Queue] in
/-- Another pointer of a live node leaves the instructions alone. -/
theorem sameInstrs_setNode
    (live : memory.heap node = some cell) (nextnode : Option Address) :
    SameInstrs memory (memory.setNode node { cell with nextnode }) := by
  intro address
  by_cases same : address = node
  · subst same
    simp [Memory.setNode, live]
  · simp [Memory.setNode, same]

omit [DecidableEq Queue] in
/-- A node outside of all queues may be written. -/
theorem Linked.setNode
    (linked : Linked memory lists) (outside : ∀ queue, node ∉ lists queue)
    (cell : WimpInstrNode) : Linked (memory.setNode node cell) lists where
  chain := fun queue => (linked.chain queue).update (outside queue) _
  back := linked.back
  apart := linked.apart

/-- One queue changes, together with its record and its nodes. -/
theorem Linked.of_queue
    (linked : Linked memory lists) {record : WimpInstrQueue Mutex}
    {list : List Address}
    (queues :
      following.queues = Function.update memory.queues queue record)
    (elsewhere :
      ∀ other, other ≠ queue → ∀ address ∈ lists other,
        following.heap address = memory.heap address)
    (chain :
      Segment following.heap WimpInstrNode.nextnode record.nextnode list
        none)
    (back : record.backnode = list.getLast?)
    (apart :
      ∀ other, other ≠ queue → list.Disjoint (lists other)) :
    Linked following (Function.update lists queue list) := by
  constructor
  case chain =>
    intro other
    rw [queues]
    by_cases same : other = queue
    · subst same
      rw [Function.update_self, Function.update_self]
      exact chain
    · rw [Function.update_of_ne same, Function.update_of_ne same]
      exact (linked.chain other).congr (elsewhere other same)
  case back =>
    intro other
    rw [queues]
    by_cases same : other = queue
    · subst same
      rw [Function.update_self, Function.update_self]
      exact back
    · rw [Function.update_of_ne same, Function.update_of_ne same]
      exact linked.back other
  case apart =>
    intro first second different
    by_cases left : first = queue
    · subst left
      rw [Function.update_self, Function.update_of_ne different.symm]
      exact apart second different.symm
    · rw [Function.update_of_ne left]
      by_cases right : second = queue
      · subst right
        rw [Function.update_self]
        exact (apart first left).symm
      · rw [Function.update_of_ne right]
        exact linked.apart first second different

omit [DecidableEq Queue] in
/-- A node which is in no queue may join any of them. -/
theorem Linked.disjoint_concat
    (linked : Linked memory lists) (outside : ∀ queue, node ∉ lists queue)
    (other : Queue) (different : other ≠ queue) :
    (lists queue ++ [node]).Disjoint (lists other) := by
  rw [List.disjoint_append_left]
  refine ⟨linked.apart queue other different.symm, ?_⟩
  rw [List.singleton_disjoint]
  exact outside other

/-- A node without a successor is linked behind the last one. -/
theorem exists_link
    (linked : Linked memory lists) (outside : ∀ queue, node ∉ lists queue)
    (live : memory.heap node = some cell) (ends : cell.nextnode = none)
    (queue : Queue) :
    ∃ next,
      link memory queue node = some next ∧
        Linked next
          (Function.update lists queue (lists queue ++ [node])) ∧
        SameInstrs memory next := by
  have apart (other : Queue) (different : other ≠ queue) :
      (lists queue ++ [node]).Disjoint (lists other) :=
    linked.disjoint_concat outside other different
  cases split : (lists queue).getLast? with
  | none =>
      have back : (memory.queues queue).backnode = none := by
        rw [linked.back queue, split]
      have empty := List.getLast?_eq_none_iff.mp split
      refine
        ⟨memory.setQueue queue
            { memory.queues queue with
              nextnode := some node
              backnode := some node },
          ?_, ?_, fun _ => rfl⟩
      · rw [link, back]
      refine linked.of_queue rfl (fun _ _ _ _ => rfl) ?_ ?_ apart
      · rw [empty]
        exact ⟨rfl, cell, live, ends⟩
      · rw [empty]
        rfl
  | some last =>
      have back : (memory.queues queue).backnode = some last := by
        rw [linked.back queue, split]
      have member := List.mem_of_getLast? split
      rcases List.getLast?_eq_some_iff.mp split with ⟨front, whole⟩
      rcases (linked.chain queue).live member with ⟨lastCell, found⟩
      have distinct : node ≠ last := by
        rintro rfl
        exact outside queue member
      refine
        ⟨(memory.setNode last
              { lastCell with nextnode := some node }).setQueue queue
            { memory.queues queue with backnode := some node },
          ?_, ?_, sameInstrs_setNode found (some node)⟩
      · rw [link, back]
        simp [found]
      · refine linked.of_queue rfl ?_ ?_ ?_ apart
        · intro other different address within
          apply Function.update_of_ne
          rintro rfl
          exact linked.apart other queue different within member
        · have chain := linked.chain queue
          rw [whole] at chain ⊢
          exact chain.concat rfl live ends distinct
        · exact List.getLast?_concat.symm

/-- The front node of a queue is popped. -/
theorem exists_pop
    (linked : Linked memory lists) {rest : List Address}
    (front : lists queue = node :: rest) :
    ∃ next,
      wimpInstrQueuePop memory queue = some (next, some node) ∧
        Linked next (Function.update lists queue rest) ∧
        next.heap = memory.heap := by
  have chain := linked.chain queue
  have back := linked.back queue
  rw [front] at chain back
  rcases chain with ⟨points, cell, live, tail⟩
  refine
    ⟨memory.setQueue queue
        { memory.queues queue with
          nextnode := cell.nextnode
          backnode :=
            if cell.nextnode = none then none
            else (memory.queues queue).backnode },
      ?_, ?_, rfl⟩
  · rw [wimpInstrQueuePop, points]
    simp [live]
  · refine linked.of_queue rfl (fun _ _ _ _ => rfl) tail ?_ ?_
    · cases rest with
      | nil =>
          rw [if_pos (show cell.nextnode = none from tail)]
          rfl
      | cons second rest =>
          rw [if_neg (by rw [tail.1]; exact nofun), back]
          rfl
    · intro other different
      have apart := linked.apart queue other different.symm
      rw [front, List.disjoint_cons_left] at apart
      exact apart.2

/-- An empty queue has nothing to pop. -/
theorem pop_of_nil
    (linked : Linked memory lists) (empty : lists queue = []) :
    wimpInstrQueuePop memory queue = some (memory, none) := by
  have chain := linked.chain queue
  rw [empty] at chain
  rw [wimpInstrQueuePop, show (memory.queues queue).nextnode = none from chain]

/-- A node outside of all queues joins the back of one. -/
theorem exists_addExisting
    (linked : Linked memory lists) (outside : ∀ queue, node ∉ lists queue)
    (live : (memory.heap node).isSome) (queue : Queue) :
    ∃ next,
      wimpInstrQueueAddExisting memory queue node = some next ∧
        Linked next
          (Function.update lists queue (lists queue ++ [node])) ∧
        SameInstrs memory next := by
  rcases Option.isSome_iff_exists.mp live with ⟨cell, found⟩
  rcases exists_link
      (linked.setNode outside { cell with nextnode := none }) outside
      (Function.update_self ..) rfl queue with
    ⟨next, linking, after, same⟩
  refine ⟨next, ?_, after, (sameInstrs_setNode found none).trans same⟩
  rw [wimpInstrQueueAddExisting, found]
  exact linking

/-- The loop moves one queue behind another one. -/
theorem exists_appendLoop
    (linked : Linked memory lists) (different : queue ≠ add)
    {fuel : Nat} {list : List Address} (added : lists add = list)
    (enough : list.length < fuel) :
    ∃ next,
      appendLoop fuel memory queue add = some next ∧
        Linked next
          (Function.update
            (Function.update lists queue (lists queue ++ list)) add []) ∧
        SameInstrs memory next := by
  induction list generalizing memory lists fuel with
  | nil =>
      rcases Nat.exists_eq_succ_of_ne_zero (by omega : fuel ≠ 0) with
        ⟨fuel, rfl⟩
      refine ⟨memory, ?_, ?_, fun _ => rfl⟩
      · simp [appendLoop, pop_of_nil linked added]
      · rw [List.append_nil, Function.update_eq_self, ← added,
          Function.update_eq_self]
        exact linked
  | cons node rest induction =>
      rcases Nat.exists_eq_succ_of_ne_zero (by omega : fuel ≠ 0) with
        ⟨fuel, rfl⟩
      rcases exists_pop linked added with ⟨popped, popping, after, heap⟩
      have live : (popped.heap node).isSome := by
        rcases (linked.chain add).live (added ▸ List.mem_cons_self ..) with
          ⟨cell, found⟩
        rw [heap, found]
        rfl
      have outside :
          ∀ other, node ∉ Function.update lists add rest other := by
        intro other
        by_cases same : other = add
        · subst same
          rw [Function.update_self]
          have distinct := (linked.chain other).nodup
          rw [added, List.nodup_cons] at distinct
          exact distinct.1
        · rw [Function.update_of_ne same]
          intro member
          exact linked.apart other add same member
            (added ▸ List.mem_cons_self ..)
      rcases exists_addExisting after outside live queue with
        ⟨joined, joining, linkedAgain, same⟩
      rcases induction linkedAgain
          (by rw [Function.update_of_ne different.symm,
            Function.update_self])
          (show rest.length < fuel by
            rw [List.length_cons] at enough
            omega) with
        ⟨next, looped, final, sameAgain⟩
      refine ⟨next, ?_, ?_, ?_⟩
      · simp only [appendLoop, popping, joining, Option.bind_eq_bind,
          Option.bind_some, looped]
      · rw [Function.update_self, Function.update_of_ne different,
          List.append_assoc, List.singleton_append] at final
        rw [Function.update_idem,
          Function.update_comm different.symm, Function.update_idem]
          at final
        exact final
      · apply SameInstrs.trans _ (same.trans sameAgain)
        intro address
        rw [heap]

omit [DecidableEq Queue] in
/-- The records may change places together with their lists. -/
theorem Linked.reindex
    (linked : Linked memory lists) {places : Queue → Queue}
    (injective : Function.Injective places) :
    Linked { memory with queues := memory.queues ∘ places }
      (lists ∘ places) where
  chain := fun queue => linked.chain (places queue)
  back := fun queue => linked.back (places queue)
  apart := fun first second different =>
    linked.apart (places first) (places second)
      fun same => different (injective same)

/-- Two values which change places. -/
theorem update_update_eq_comp_swap {Value : Type}
    (values : Queue → Value) (queue add : Queue) :
    Function.update (Function.update values queue (values add)) add
        (values queue) =
      values ∘ Equiv.swap queue add := by
  funext other
  rw [Function.comp_apply, Equiv.swap_apply_def]
  by_cases right : other = add
  · subst right
    by_cases left : other = queue
    · subst left
      simp
    · simp [left]
  · by_cases left : other = queue
    · subst left
      simp [right]
    · simp [left, right]

/-- The prepended queue comes in front, and leaves its record behind. -/
theorem exists_prepend
    (linked : Linked memory lists) (different : queue ≠ add)
    {fuel : Nat} (enough : (lists queue).length < fuel) :
    ∃ next,
      wimpInstrQueuePrependQueue fuel memory queue add = some next ∧
        Linked next
          (Function.update
            (Function.update lists queue (lists add ++ lists queue)) add
            []) ∧
        SameInstrs memory next := by
  rcases exists_appendLoop linked different.symm rfl enough with
    ⟨appended, looped, after, same⟩
  refine
    ⟨{ appended with queues := appended.queues ∘ Equiv.swap queue add },
      ?_, ?_, same⟩
  · simp only [wimpInstrQueuePrependQueue, wimpInstrQueueAppendQueue,
      looped, Option.bind_eq_bind, Option.bind_some, Option.pure_def,
      Memory.setQueue, update_update_eq_comp_swap]
  · have swapped := after.reindex (Equiv.swap queue add).injective
    rw [← update_update_eq_comp_swap
      (Function.update (Function.update lists add _) queue [])] at swapped
    rw [Function.update_self, Function.update_of_ne different.symm,
      Function.update_self] at swapped
    rw [Function.update_idem, Function.update_comm different.symm,
      Function.update_idem] at swapped
    exact swapped

/-! ## One call -/

variable {config next : Config Queue Mutex} {fifo : Fifo Queue}
variable {action : Action Queue} {fuel bound : Nat}

/-- The heap holds a bounded number of nodes. -/
def Allocated (memory : Memory Queue Mutex) (bound : Nat) : Prop :=
  ∃ live : Finset Address,
    live.card ≤ bound ∧
      ∀ address, (memory.heap address).isSome → address ∈ live

omit [DecidableEq Queue] in
/-- No queue is longer than the heap. -/
theorem Linked.length_le
    (linked : Linked memory lists) (allocated : Allocated memory bound)
    (queue : Queue) : (lists queue).length ≤ bound := by
  rcases allocated with ⟨live, card, all⟩
  have distinct := (linked.chain queue).nodup
  rw [← List.toFinset_card_of_nodup distinct]
  refine (Finset.card_le_card ?_).trans card
  intro address member
  rcases (linked.chain queue).live (List.mem_toFinset.mp member) with
    ⟨cell, found⟩
  exact all address (by rw [found]; rfl)

omit [DecidableEq Queue] in
theorem Allocated.same
    (allocated : Allocated memory bound)
    (same : SameInstrs memory following) : Allocated following bound := by
  rcases allocated with ⟨live, card, all⟩
  refine ⟨live, card, fun address alive => all address ?_⟩
  have equal := congrArg Option.isSome (same address)
  rwa [Option.isSome_map, Option.isSome_map, alive, eq_comm] at equal

omit [DecidableEq Queue] in
/-- A node which cannot be reached is in no list. -/
theorem not_mem_of_not_reaches
    (linked : Linked memory lists)
    (unreached :
      ∀ queue,
        ¬ Reaches memory.heap WimpInstrNode.nextnode
          (memory.queues queue).nextnode node)
    (queue : Queue) : node ∉ lists queue :=
  fun member =>
    unreached queue (((linked.chain queue).reaches_iff node).mpr member)

omit [DecidableEq Queue] in
/-- A call which allocates nothing and pops nothing. -/
theorem Represents.of_same
    (represents : Represents config fifo)
    {after : Memory Queue Mutex} {afterLists : Queue → List Address}
    (linked : Linked after afterLists)
    (same : SameInstrs config.memory after) :
    Represents { config with memory := after }
      { fifo with lists := afterLists } where
  linked := linked
  instrs := fun address => (same address).trans (represents.instrs address)
  popped := represents.popped

/-- Every admissible call is defined and does what it means. -/
theorem exists_step
    (represents : Represents config fifo)
    (allocated : Allocated config.memory bound) (enough : bound < fuel)
    (admissible : Admissible config action) :
    ∃ next,
      step fuel config action = some next ∧
        Represents next (fifo.step action) ∧
        Allocated next.memory (bound + 1) := by
  have linked := represents.linked
  have grown {memory : Memory Queue Mutex}
      (allocated : Allocated memory bound) :
      Allocated memory (bound + 1) := by
    rcases allocated with ⟨live, card, all⟩
    exact ⟨live, by omega, all⟩
  cases action with
  | add queue instr block =>
      rcases admissible with ⟨address, rfl, fresh⟩
      have outside : ∀ queue, address ∉ fifo.lists queue := by
        intro queue member
        rcases (linked.chain queue).live member with ⟨cell, found⟩
        rw [fresh] at found
        cases found
      rcases exists_link
          (linked.setNode outside { instr, nextnode := none }) outside
          (Function.update_self ..) rfl queue with
        ⟨after, linking, linkedAfter, same⟩
      refine ⟨{ config with memory := after }, ?_, ?_, ?_⟩
      · simp [step, wimpInstrQueueAdd, linking]
      · refine ⟨linkedAfter, ?_, represents.popped⟩
        intro other
        refine (same other).trans ?_
        by_cases equal : other = address
        · subst equal
          simp [Memory.setNode, Fifo.step]
        · simpa [Memory.setNode, Fifo.step, Fifo.set, equal] using
            represents.instrs other
      · apply Allocated.same _ same
        rcases allocated with ⟨live, card, all⟩
        refine ⟨insert address live, ?_, ?_⟩
        · exact (Finset.card_insert_le _ _).trans (by omega)
        · intro other alive
          rw [Finset.mem_insert]
          by_cases equal : other = address
          · exact Or.inl equal
          · refine Or.inr (all other ?_)
            simpa [Memory.setNode, equal] using alive
  | addExisting queue node =>
      rcases admissible with ⟨live, unreached⟩
      rcases exists_addExisting linked
          (not_mem_of_not_reaches linked unreached) live queue with
        ⟨after, joining, linkedAfter, same⟩
      refine ⟨{ config with memory := after }, ?_, ?_, ?_⟩
      · simp [step, joining]
      · exact represents.of_same linkedAfter same
      · exact grown (allocated.same same)
  | pop queue =>
      cases front : fifo.lists queue with
      | nil =>
          refine
            ⟨{ config with popped := config.popped ++ [none] }, ?_, ?_,
              grown allocated⟩
          · simp [step, pop_of_nil linked front]
          · refine ⟨?_, represents.instrs, ?_⟩
            · show Linked config.memory
                (Function.update fifo.lists queue (fifo.lists queue).tail)
              rw [front, List.tail_nil, ← front, Function.update_eq_self]
              exact linked
            · simp [Fifo.step, front, represents.popped]
      | cons node rest =>
          rcases exists_pop linked front with
            ⟨after, popping, linkedAfter, heap⟩
          refine
            ⟨{ memory := after, popped := config.popped ++ [some node] },
              ?_, ?_, ?_⟩
          · simp [step, popping]
          · refine ⟨?_, ?_, ?_⟩
            · show Linked after
                (Function.update fifo.lists queue (fifo.lists queue).tail)
              rw [front]
              exact linkedAfter
            · intro address
              rw [heap]
              exact represents.instrs address
            · simp [Fifo.step, front, represents.popped]
          · apply grown
            rcases allocated with ⟨live, card, all⟩
            exact ⟨live, card, by rw [heap]; exact all⟩
  | append queue add =>
      have length := linked.length_le allocated add
      rcases exists_appendLoop linked admissible rfl
          (by omega : (fifo.lists add).length < fuel) with
        ⟨after, looped, linkedAfter, same⟩
      refine ⟨{ config with memory := after }, ?_, ?_, ?_⟩
      · simp [step, wimpInstrQueueAppendQueue, looped]
      · exact represents.of_same linkedAfter same
      · exact grown (allocated.same same)
  | prepend queue add =>
      have length := linked.length_le allocated queue
      rcases exists_prepend linked admissible
          (by omega : (fifo.lists queue).length < fuel) with
        ⟨after, prepended, linkedAfter, same⟩
      refine ⟨{ config with memory := after }, ?_, ?_, ?_⟩
      · simp [step, prepended]
      · exact represents.of_same linkedAfter same
      · exact grown (allocated.same same)

/-! ## Every run -/

omit [DecidableEq Queue] in
theorem represents_created (queues : Queue → WimpInstrQueue Mutex) :
    Represents (created queues) {} := by
  constructor
  case linked =>
    constructor
    case chain => exact fun _ => rfl
    case back => exact fun _ => rfl
    case apart => exact fun _ _ _ => List.disjoint_nil_left _
  case instrs => exact fun _ => rfl
  case popped => rfl

theorem exists_run
    {actions : List (Action Queue)}
    (represents : Represents config fifo)
    (allocated : Allocated config.memory bound)
    (enough : bound + actions.length ≤ fuel)
    (admissible : Along (step fuel) Admissible config actions) :
    ∃ final,
      run (step fuel) config actions = some final ∧
        Represents final (actions.foldl Fifo.step fifo) := by
  induction actions generalizing config fifo bound with
  | nil => exact ⟨config, rfl, represents⟩
  | cons action rest induction =>
      rcases admissible with ⟨first, later⟩
      rw [List.length_cons] at enough
      have below : bound < fuel := by omega
      rcases exists_step represents allocated below first with
        ⟨next, stepped, following, grown⟩
      rcases induction following grown (by omega) (later next stepped) with
        ⟨final, ran, last⟩
      refine ⟨final, ?_, last⟩
      rw [run_cons, stepped]
      exact ran

/--
Every sequence of admissible calls is defined, and the queues are the lists
which the calls mean: chains without repetition, each ending in the null
pointer behind its last node, which share no node.
-/
theorem represents_of_admissible
    (queues : Queue → WimpInstrQueue Mutex) {actions : List (Action Queue)}
    (enough : actions.length ≤ fuel)
    (admissible :
      Along (step fuel) Admissible (created queues) actions) :
    ∃ config,
      run (step fuel) (created queues) actions = some config ∧
        Represents config (actions.foldl Fifo.step {}) ∧
        ∀ queue, ((actions.foldl Fifo.step {}).lists queue).Nodup := by
  have nothing : Allocated (created queues).memory 0 :=
    ⟨∅, Nat.le_refl 0, fun _ alive => nomatch alive⟩
  rcases exists_run (represents_created queues) nothing (by omega)
      admissible with
    ⟨config, ran, represents⟩
  exact ⟨config, ran, represents, fun queue =>
    (represents.linked.chain queue).nodup⟩

/-- An instruction without a buffer. -/
def emptyInstr : WimpInstr :=
  { instruction := none, instructionBytes := 0 }

/-- The only node moves to another queue, which is then prepended. -/
def moved : List (Action Bool) :=
  [.add false emptyInstr (some 0), .pop false, .addExisting true 0,
    .add false emptyInstr (some 1), .prepend false true]

/-- Two queues without mutexes. -/
def bareQueues (_ : Bool) : WimpInstrQueue Unit :=
  { datamutex := (), nextmutex := (), lowpriomutex := () }

theorem represents_moved :
    ∃ config,
      run (step 5) (created bareQueues) moved = some config ∧
        Represents config (moved.foldl Fifo.step {}) ∧
        ∀ queue, ((moved.foldl Fifo.step {}).lists queue).Nodup := by
  apply represents_of_admissible bareQueues (Nat.le_refl 5)
  refine ⟨⟨0, rfl, rfl⟩, ?_⟩
  rintro _ ⟨⟩
  refine ⟨trivial, ?_⟩
  rintro _ ⟨⟩
  refine ⟨⟨rfl, ?_⟩, ?_⟩
  · intro queue reach
    cases queue with
    | false => cases reach
    | true => cases reach
  · rintro _ ⟨⟩
    refine ⟨⟨1, rfl, rfl⟩, ?_⟩
    rintro _ ⟨⟩
    exact ⟨Bool.false_ne_true, fun _ _ => trivial⟩

end Wimp.Instr.LinkedQueue
