import Wimp.Lib.Critical
import Wimp.Instr.LinkedQueue
import Wimp.Instr.PriorityLock

/-!
# The linked queue under its lock

A receiver adds an instruction, and the server thread pops nodes and frees
them, each of them between the lock and the unlock function of the queue.  A
call is not one step: it allocates a node, fills its fields, and moves the
pointers of the queue record and of the last node one at a time, while other
threads go on.

The module embeds the calls write by write.  The result is that the lock makes
them atomic: in every interleaving of the single reads and writes and of the
single calls on the mutexes, no pointer which is followed is null or dead, and
the calls have the results which they have on a list, in the order in which
they return.  The live nodes are those of the list and those which were popped
and not freed yet.
-/

namespace Wimp.Instr.LockedQueue

open Wimp.Lib.Chain
open Wimp.Lib.Critical
open Wimp.Lib.Runs
open Wimp.Instr.LinkedQueue hiding Action Config step
open Wimp.Instr.PriorityLock (Placed Priority)

/-! ## The calls, one read or write at a time -/

/--
The calls which are made under the lock.  A new node is where `malloc` puts
it, with whatever its bytes are then.
-/
inductive Operation where
  | add (instr : WimpInstr) (block : Option (Address × WimpInstrNode))
  | pop
  | free (node : Address)
deriving DecidableEq, Repr

/-- What a call returns. -/
inductive Result where
  | added (success : Bool)
  | popped (node : Option Address)
  | freed
deriving DecidableEq, Repr

/-- The next access of a call. -/
inductive Point where
  | malloc (instr : WimpInstr) (block : Option (Address × WimpInstrNode))
  | setInstruction (newNode : Address) (instr : WimpInstr)
  | setBytes (newNode : Address) (instr : WimpInstr)
  | setNext (newNode : Address)
  | testBack (newNode : Address)
  | setFirst (newNode : Address)
  | linkLast (newNode : Address)
  | setBack (newNode : Address)
  | testFront
  | takeFront
  | advance (current : Address)
  | testEmpty (current : Address)
  | clearBack (current : Address)
  | freeInstruction (node : Address)
  | freeNode (node : Address)
deriving DecidableEq, Repr

/-- The memory of one queue. -/
abbrev QueueMemory (Mutex : Type) := Memory Unit Mutex

variable {Mutex : Type}

/-- The queue record. -/
def record (memory : QueueMemory Mutex) : WimpInstrQueue Mutex :=
  memory.queues ()

/-- A node goes back to the heap. -/
def release (memory : QueueMemory Mutex) (node : Address) :
    QueueMemory Mutex :=
  { memory with heap := Function.update memory.heap node none }

/-- The first access of a call. -/
def start : Operation → Point
  | .add instr block => .malloc instr block
  | .pop => .testFront
  | .free node => .freeInstruction node

/--
The accesses of `wimp_instr_queue_add`, `wimp_instr_queue_pop` and
`wimp_instr_node_free`; an access through a null or dead pointer is undefined.
-/
def micro (point : Point) (memory : QueueMemory Mutex) :
    Option (QueueMemory Mutex × (Point ⊕ Result)) :=
  match point with
  | .malloc _ none => some (memory, .inr (.added false))
  | .malloc instr (some (newNode, garbage)) =>
      some
        (memory.setNode newNode garbage, .inl (.setInstruction newNode instr))
  | .setInstruction newNode instr =>
      (memory.heap newNode).map fun cell =>
        (memory.setNode newNode
          { cell with
            instr :=
              { cell.instr with instruction := instr.instruction } },
          .inl (.setBytes newNode instr))
  | .setBytes newNode instr =>
      (memory.heap newNode).map fun cell =>
        (memory.setNode newNode
          { cell with
            instr :=
              { cell.instr with
                instructionBytes := instr.instructionBytes } },
          .inl (.setNext newNode))
  | .setNext newNode =>
      (memory.heap newNode).map fun cell =>
        (memory.setNode newNode { cell with nextnode := none },
          .inl (.testBack newNode))
  | .testBack newNode =>
      some
        (memory,
          .inl
            (if (record memory).backnode = none then .setFirst newNode
            else .linkLast newNode))
  | .setFirst newNode =>
      some
        (memory.setQueue () { record memory with nextnode := some newNode },
          .inl (.setBack newNode))
  | .linkLast newNode => do
      let back ← (record memory).backnode
      let last ← memory.heap back
      return (memory.setNode back { last with nextnode := some newNode },
        .inl (.setBack newNode))
  | .setBack newNode =>
      some
        (memory.setQueue () { record memory with backnode := some newNode },
          .inr (.added true))
  | .testFront =>
      some
        (memory,
          if (record memory).nextnode = none then .inr (.popped none)
          else .inl .takeFront)
  | .takeFront =>
      (record memory).nextnode.map fun current =>
        (memory, .inl (.advance current))
  | .advance current =>
      (memory.heap current).map fun cell =>
        (memory.setQueue ()
          { record memory with nextnode := cell.nextnode },
          .inl (.testEmpty current))
  | .testEmpty current =>
      some
        (memory,
          if (record memory).nextnode = none then .inl (.clearBack current)
          else .inr (.popped (some current)))
  | .clearBack current =>
      some
        (memory.setQueue () { record memory with backnode := none },
          .inr (.popped (some current)))
  | .freeInstruction node =>
      (memory.heap node).map fun _ => (memory, .inl (.freeNode node))
  | .freeNode node =>
      (memory.heap node).map fun _ => (release memory node, .inr .freed)

/-- The calls as programs. -/
def calls (Mutex : Type) :
    Program (QueueMemory Mutex) Operation Point Result where
  start := start
  micro := micro

/--
`malloc` grants a fresh node, and a node which is freed is live and not in the
queue.
-/
def Allowed (memory : QueueMemory Mutex) : Operation → Prop
  | .add _ block => ∀ new ∈ block, memory.heap new.1 = none
  | .pop => True
  | .free node =>
      (memory.heap node).isSome ∧
        ¬ Reaches memory.heap WimpInstrNode.nextnode
          (record memory).nextnode node

/-! ## What the calls mean -/

/-- A node and its instruction. -/
abbrev Entry := Address × WimpInstr

/-- The nodes in the queue, and those which were popped and not freed. -/
structure Contents where
  queued : List Entry := []
  held : List Entry := []
deriving DecidableEq, Repr

/-- All the nodes. -/
def Contents.entries (contents : Contents) : List Entry :=
  contents.queued ++ contents.held

/-- A call on the contents, with its result. -/
def Contents.serve (contents : Contents) : Operation → Contents × Result
  | .add _ none => (contents, .added false)
  | .add instr (some (newNode, _)) =>
      ({ contents with queued := contents.queued ++ [(newNode, instr)] },
        .added true)
  | .pop =>
      match contents.queued with
      | [] => (contents, .popped none)
      | entry :: rest =>
          ({ queued := rest, held := entry :: contents.held },
            .popped (some entry.1))
  | .free node =>
      ({ contents with
          held := contents.held.filter fun entry => entry.1 ≠ node },
        .freed)

/-- The memory holds the contents, and no other node. -/
structure Holds (memory : QueueMemory Mutex) (contents : Contents) :
    Prop where
  linked : Linked memory fun _ => contents.queued.map Prod.fst
  instrs :
    ∀ entry ∈ contents.entries,
      (memory.heap entry.1).map WimpInstrNode.instr = some entry.2
  live :
    ∀ address, (memory.heap address).isSome →
      address ∈ contents.entries.map Prod.fst
  nodup : (contents.entries.map Prod.fst).Nodup

/-! ## A call as a whole -/

section Whole

variable {memory after : QueueMemory Mutex} {node : Address}
variable {contents : Contents}

/-- The pointers are moved as the function which links a node moves them. -/
theorem completes_of_link
    (linking : link memory () node = some after) :
    Completes (calls Mutex) memory (.testBack node) after (.added true) := by
  unfold link at linking
  dsimp only at linking
  cases back : (memory.queues ()).backnode with
  | none =>
      rw [back] at linking
      cases linking
      have tested :
          micro (.testBack node) memory =
            some (memory, .inl (.setFirst node)) := by
        simp [micro, record, back]
      refine .next tested (.next rfl (.last ?_))
      simp [calls, micro, record, Memory.setQueue]
  | some last =>
      rw [back] at linking
      rcases Option.bind_eq_some_iff.mp linking with ⟨cell, found, made⟩
      cases made
      have tested :
          micro (.testBack node) memory =
            some (memory, .inl (.linkLast node)) := by
        simp [micro, record, back]
      have linked :
          micro (.linkLast node) memory =
            some
              (memory.setNode last { cell with nextnode := some node },
                .inl (.setBack node)) := by
        simp [micro, record, back, found]
      exact .next tested (.next linked (.last rfl))

/-- The pointers are moved as the function which pops a node moves them. -/
theorem completes_of_pop
    (popping : wimpInstrQueuePop memory () = some (after, some node)) :
    Completes (calls Mutex) memory .testFront after
      (.popped (some node)) := by
  unfold wimpInstrQueuePop at popping
  dsimp only at popping
  cases front : (memory.queues ()).nextnode with
  | none =>
      rw [front] at popping
      cases popping
  | some current =>
      rw [front] at popping
      rcases Option.bind_eq_some_iff.mp popping with ⟨cell, found, made⟩
      rcases Prod.mk.inj (Option.some.inj made) with ⟨rfl, same⟩
      cases same
      have tested :
          micro .testFront memory = some (memory, .inl .takeFront) := by
        simp [micro, record, front]
      have taken :
          micro .takeFront memory = some (memory, .inl (.advance node)) := by
        simp [micro, record, front]
      have advanced :
          micro (.advance node) memory =
            some
              (memory.setQueue ()
                { record memory with nextnode := cell.nextnode },
                .inl (.testEmpty node)) := by
        simp [micro, found]
      refine .next tested (.next taken (.next advanced ?_))
      cases ends : cell.nextnode with
      | none =>
          have emptied :
              micro (.testEmpty node)
                  (memory.setQueue ()
                    { record memory with nextnode := none }) =
                some
                  (memory.setQueue ()
                    { record memory with nextnode := none },
                    .inl (.clearBack node)) := by
            simp [micro, record, Memory.setQueue]
          refine .next emptied (.last ?_)
          simp [calls, micro, record, Memory.setQueue]
      | some next =>
          refine .last ?_
          simp [calls, micro, record, Memory.setQueue]

@[simp]
theorem setNode_heap_self (cell : WimpInstrNode) :
    (memory.setNode node cell).heap node = some cell :=
  Function.update_self ..

@[simp]
theorem setNode_setNode (cell other : WimpInstrNode) :
    (memory.setNode node cell).setNode node other =
      memory.setNode node other := by
  simp [Memory.setNode]

/-- A new node is filled before it is linked. -/
theorem completes_of_add
    {instr : WimpInstr} {garbage : WimpInstrNode}
    (linking :
      link (memory.setNode node { instr, nextnode := none }) () node =
        some after) :
    Completes (calls Mutex) memory (.malloc instr (some (node, garbage)))
      after (.added true) := by
  have filled :
      micro (.setInstruction node instr) (memory.setNode node garbage) =
        some
          (memory.setNode node
            { garbage with
              instr :=
                { garbage.instr with instruction := instr.instruction } },
            .inl (.setBytes node instr)) := by
    simp [micro]
  have sized :
      micro (.setBytes node instr)
          (memory.setNode node
            { garbage with
              instr :=
                { garbage.instr with instruction := instr.instruction } }) =
        some
          (memory.setNode node { garbage with instr },
            .inl (.setNext node)) := by
    simp [micro]
  have ended :
      micro (.setNext node) (memory.setNode node { garbage with instr }) =
        some
          (memory.setNode node { instr, nextnode := none },
            .inl (.testBack node)) := by
    simp [micro]
  exact .next rfl
    (.next filled (.next sized (.next ended (completes_of_link linking))))

/-- A live node is freed. -/
theorem completes_of_free
    {cell : WimpInstrNode} (live : memory.heap node = some cell) :
    Completes (calls Mutex) memory (.freeInstruction node)
      (release memory node) .freed := by
  have read :
      micro (.freeInstruction node) memory =
        some (memory, .inl (.freeNode node)) := by
    simp [micro, live]
  have freed :
      micro (.freeNode node) memory =
        some (release memory node, .inr .freed) := by
    simp [micro, live]
  exact .next read (.last freed)

/-! ## The contents behind a call -/

/-- The nodes of the contents are live. -/
theorem Holds.isSome_iff
    (holds : Holds memory contents) (address : Address) :
    (memory.heap address).isSome ↔
      address ∈ contents.entries.map Prod.fst := by
  constructor
  · exact holds.live address
  · intro member
    rcases List.mem_map.mp member with ⟨entry, present, rfl⟩
    have instr := holds.instrs entry present
    rw [← Option.isSome_map, instr]
    rfl

/-- A fresh node is none of those of the contents. -/
theorem Holds.fresh
    (holds : Holds memory contents) (free : memory.heap node = none) :
    node ∉ contents.entries.map Prod.fst := by
  intro member
  have live := (holds.isSome_iff node).mpr member
  rw [free] at live
  cases live

theorem Holds.of_add
    (holds : Holds memory contents) {instr : WimpInstr}
    (free : memory.heap node = none)
    (linked :
      Linked after fun _ =>
        (contents.queued ++ [(node, instr)]).map Prod.fst)
    (same :
      SameInstrs (memory.setNode node { instr, nextnode := none }) after) :
    Holds after
      { contents with queued := contents.queued ++ [(node, instr)] } := by
  have fresh := holds.fresh free
  have heap (address : Address) :
      (after.heap address).map WimpInstrNode.instr =
        if address = node then some instr
        else (memory.heap address).map WimpInstrNode.instr := by
    rw [same address]
    by_cases equal : address = node
    · subst equal
      simp
    · simp [Memory.setNode, equal]
  have entries (entry : Entry) :
      entry ∈ Contents.entries
          { contents with queued := contents.queued ++ [(node, instr)] } ↔
        entry = (node, instr) ∨ entry ∈ contents.entries := by
    simp only [Contents.entries, List.mem_append, List.mem_singleton]
    tauto
  constructor
  case linked => exact linked
  case instrs =>
    intro entry member
    rw [heap]
    rcases (entries entry).mp member with rfl | old
    · exact if_pos rfl
    · rw [if_neg]
      · exact holds.instrs entry old
      · rintro rfl
        exact fresh (List.mem_map_of_mem old)
  case live =>
    intro address alive
    rw [← @Option.isSome_map _ _ WimpInstrNode.instr, heap] at alive
    rw [List.mem_map]
    by_cases equal : address = node
    · exact ⟨(node, instr), (entries _).mpr (Or.inl rfl), equal.symm⟩
    · rw [if_neg equal, Option.isSome_map] at alive
      rcases List.mem_map.mp (holds.live address alive) with
        ⟨entry, old, rfl⟩
      exact ⟨entry, (entries entry).mpr (Or.inr old), rfl⟩
  case nodup =>
    have nodup := holds.nodup
    simp only [Contents.entries, List.map_append, List.map_cons,
      List.append_assoc, List.singleton_append] at nodup fresh ⊢
    rw [List.nodup_middle, List.nodup_cons]
    exact ⟨fresh, nodup⟩

theorem Holds.of_pop
    (holds : Holds memory contents) {entry : Entry} {rest : List Entry}
    (front : contents.queued = entry :: rest)
    (linked : Linked after fun _ => rest.map Prod.fst)
    (same : after.heap = memory.heap) :
    Holds after { queued := rest, held := entry :: contents.held } := by
  have shuffled :
      (Contents.entries
        { queued := rest, held := entry :: contents.held }).Perm
        contents.entries := by
    simp only [Contents.entries, front, List.cons_append]
    exact List.perm_middle
  constructor
  case linked => exact linked
  case instrs =>
    intro other member
    rw [same]
    exact holds.instrs other (shuffled.mem_iff.mp member)
  case live =>
    intro address alive
    rw [same] at alive
    exact (shuffled.map Prod.fst).mem_iff.mpr (holds.live address alive)
  case nodup => exact (shuffled.map Prod.fst).nodup_iff.mpr holds.nodup

theorem Holds.of_free
    (holds : Holds memory contents)
    (outside : node ∉ contents.queued.map Prod.fst) :
    Holds (release memory node)
      { contents with
        held := contents.held.filter fun entry => entry.1 ≠ node } := by
  have entries (entry : Entry) :
      entry ∈ Contents.entries
          { contents with
            held := contents.held.filter fun entry => entry.1 ≠ node } ↔
        entry ∈ contents.entries ∧ entry.1 ≠ node := by
    have apart : entry ∈ contents.queued → entry.1 ≠ node := by
      rintro queued rfl
      exact outside (List.mem_map_of_mem queued)
    simp only [Contents.entries, List.mem_append, List.mem_filter,
      decide_eq_true_eq]
    tauto
  constructor
  case linked =>
    constructor
    case chain =>
      exact fun queue => (holds.linked.chain queue).update outside none
    case back => exact holds.linked.back
    case apart => exact holds.linked.apart
  case instrs =>
    intro entry member
    rcases (entries entry).mp member with ⟨old, different⟩
    have kept : (release memory node).heap entry.1 = memory.heap entry.1 :=
      Function.update_of_ne different _ _
    rw [kept]
    exact holds.instrs entry old
  case live =>
    intro address alive
    dsimp only [release] at alive
    by_cases equal : address = node
    · subst equal
      rw [Function.update_self] at alive
      cases alive
    · rw [Function.update_of_ne equal] at alive
      rcases List.mem_map.mp (holds.live address alive) with
        ⟨entry, old, rfl⟩
      exact List.mem_map_of_mem ((entries entry).mpr ⟨old, equal⟩)
  case nodup =>
    have kept :
        (Contents.entries
          { contents with
            held :=
              contents.held.filter fun entry =>
                entry.1 ≠ node }).Sublist contents.entries :=
      (List.Sublist.refl _).append List.filter_sublist
    exact (kept.map Prod.fst).nodup holds.nodup

/-- The list of the one queue is replaced. -/
theorem linked_of_update
    {list other : List Address}
    (linked :
      Linked memory (Function.update (fun _ => list) () other)) :
    Linked memory fun _ => other := by
  have whole :
      Function.update (fun _ : Unit => list) () other = fun _ => other :=
    funext fun _ => Function.update_self ..
  rw [whole] at linked
  exact linked

/--
Every call which is allowed comes to its end when nobody interferes, with the
result and the contents which it means.
-/
theorem Holds.exists_completes
    (holds : Holds memory contents) {operation : Operation}
    (allowed : Allowed memory operation) :
    ∃ after,
      Completes (calls Mutex) memory (start operation) after
          (contents.serve operation).2 ∧
        Holds after (contents.serve operation).1 := by
  cases operation with
  | add instr block =>
      cases block with
      | none => exact ⟨memory, .last rfl, holds⟩
      | some new =>
          rcases new with ⟨newNode, garbage⟩
          have free : memory.heap newNode = none := allowed _ rfl
          have fresh := holds.fresh free
          have outside : newNode ∉ contents.queued.map Prod.fst := by
            rw [Contents.entries, List.map_append] at fresh
            exact fun queued => fresh (List.mem_append_left _ queued)
          rcases exists_link
              (holds.linked.setNode (fun _ => outside)
                { instr, nextnode := none })
              (fun _ => outside) (setNode_heap_self _) rfl () with
            ⟨after, linking, linked, same⟩
          refine ⟨after, completes_of_add linking, ?_⟩
          apply holds.of_add free _ same
          rw [List.map_append]
          exact linked_of_update linked
  | pop =>
      cases front : contents.queued with
      | nil =>
          have empty : (record memory).nextnode = none := by
            have chain := holds.linked.chain ()
            rw [front] at chain
            exact chain
          refine ⟨memory, .last ?_, ?_⟩
          · simp [calls, start, micro, empty, Contents.serve, front]
          · simp only [Contents.serve, front]
            exact holds
      | cons entry rest =>
          have listed :
              contents.queued.map Prod.fst =
                entry.1 :: rest.map Prod.fst := by
            rw [front, List.map_cons]
          rcases @exists_pop _ _ _ memory _ () entry.1 holds.linked _
              listed with
            ⟨after, popping, linked, same⟩
          refine ⟨after, ?_, ?_⟩
          · simp only [Contents.serve, front]
            exact completes_of_pop popping
          · simp only [Contents.serve, front]
            exact holds.of_pop front (linked_of_update linked) same
  | free node =>
      rcases allowed with ⟨alive, unreached⟩
      rcases Option.isSome_iff_exists.mp alive with ⟨cell, live⟩
      have outside : node ∉ contents.queued.map Prod.fst :=
        fun member =>
          unreached
            (((holds.linked.chain ()).reaches_iff node).mpr member)
      exact ⟨_, completes_of_free live, holds.of_free outside⟩

end Whole

/-! ## The lock -/

section Lock

variable {Thread : Type} [DecidableEq Thread]
variable {priority : Thread → Priority}

/-- The lock of the queue, as its calls see it. -/
def lock (priority : Thread → Priority) :
    Guard (PriorityLock.Config Thread) Thread where
  move := PriorityLock.step priority
  inside := fun lock thread => decide (lock.control thread = .critical)

/-- A step changes the place of its own thread only. -/
theorem control_of_step
    {config next : PriorityLock.Config Thread} {thread other : Thread}
    (stepped : PriorityLock.step priority config thread = some next)
    (different : other ≠ thread) :
    next.control other = config.control other := by
  cases PriorityLock.step_cases stepped with
  | start control => exact Function.update_of_ne different _ _
  | lockCall code control advanced made =>
      exact Function.update_of_ne different _ _
  | enter code control ended => exact Function.update_of_ne different _ _
  | leave control => exact Function.update_of_ne different _ _
  | unlockCall code control advanced made =>
      exact Function.update_of_ne different _ _
  | stop code control ended => exact Function.update_of_ne different _ _

/-- The mutexes let one thread in at a time. -/
theorem excludes_lock (priority : Thread → Priority) :
    Excludes (lock priority) fun lock =>
      ∃ held, Placed priority lock held := by
  constructor
  case single =>
    rintro config first second ⟨held, placed⟩ left right
    exact placed.safe.exclusive first second (of_decide_eq_true left)
      (of_decide_eq_true right)
  case stays =>
    rintro config thread after ⟨held, placed⟩ moved
    refine
      ⟨PriorityLock.placed_of_transition placed
        (PriorityLock.step_cases moved), ?_⟩
    intro other different
    show decide (_ = _) = decide (_ = _)
    rw [control_of_step moved different]

omit [DecidableEq Thread] in
/-- At first nobody has taken a mutex. -/
theorem placed_start (priority : Thread → Priority) :
    Placed priority ({} : PriorityLock.Config Thread) fun _ => ∅ where
  agrees := fun thread mutex => by simp
  stands := fun thread => rfl

end Lock

/-! ## Every interleaving -/

section Runs

variable {Thread : Type} [DecidableEq Thread]

/-- The calls which have returned, in order. -/
abbrev History (Thread : Type) := List (Thread × Operation × Result)

/-- The threads with the lock and the memory of the queue. -/
abbrev QueueConfig (Thread Mutex : Type) :=
  Config (PriorityLock.Config Thread) Thread (QueueMemory Mutex)
    Operation Point Result

/-- The threads on a queue which was just created. -/
def started (Thread : Type) (queue : WimpInstrQueue Mutex) :
    QueueConfig Thread Mutex :=
  { lock := {}
    state := (created fun _ => queue).memory }

/-- The contents which the calls of a history leave. -/
def contentsAfter (history : History Thread) : Contents :=
  history.foldl (fun contents call => (contents.serve call.2.1).1) {}

/-- The nodes which the calls of a history have added, in order. -/
def granted (history : History Thread) : List Entry :=
  history.filterMap fun
    | (_, .add instr (some (newNode, _)), _) => some (newNode, instr)
    | _ => none

/-- The nodes which the calls of a history have popped, in order. -/
def popped (history : History Thread) : List Address :=
  history.filterMap fun
    | (_, _, .popped node) => node
    | _ => none

/--
The calls have the results which they have on a list, in the order of their
returns; the nodes are popped in the order in which they were added; the
memory of a queue on which no call is under way holds the list; and a call
which is under way goes on to the end which it has on the list.
-/
structure Linearized (config : QueueConfig Thread Mutex) : Prop where
  explained :
    ∀ earlier call later, config.returned = earlier ++ call :: later →
      call.2.2 = ((contentsAfter earlier).serve call.2.1).2
  fifo :
    ∃ taken,
      granted config.returned =
          taken ++ (contentsAfter config.returned).queued ∧
        popped config.returned = taken.map Prod.fst
  quiet :
    Quiet config → Holds config.state (contentsAfter config.returned)
  completes :
    ∀ thread operation point,
      config.pending thread = some (operation, point) →
        ∃ after,
          Completes (calls Mutex) config.state point after
              ((contentsAfter config.returned).serve operation).2 ∧
            Holds after
              ((contentsAfter config.returned).serve operation).1

omit [DecidableEq Thread] in
@[simp]
theorem contentsAfter_concat
    (history : History Thread) (call : Thread × Operation × Result) :
    contentsAfter (history ++ [call]) =
      ((contentsAfter history).serve call.2.1).1 := by
  rw [contentsAfter, List.foldl_concat]
  rfl

/-- What the calls of a history say about the memory behind them. -/
structure Explained (history : History Thread)
    (base : QueueMemory Mutex) : Prop where
  results :
    ∀ earlier call later, history = earlier ++ call :: later →
      call.2.2 = ((contentsAfter earlier).serve call.2.1).2
  fifo :
    ∃ taken,
      granted history = taken ++ (contentsAfter history).queued ∧
        popped history = taken.map Prod.fst
  holds : Holds base (contentsAfter history)

omit [DecidableEq Thread] in
/-- One more call is served by the contents. -/
theorem Explained.concat
    {history : History Thread} {base after : QueueMemory Mutex}
    {thread : Thread} {operation : Operation} {result : Result}
    (explained : Explained history base)
    (allowed : Allowed base operation)
    (completes :
      Completes (calls Mutex) base (start operation) after result) :
    Explained (history ++ [(thread, operation, result)]) after := by
  rcases explained.holds.exists_completes allowed with
    ⟨last, whole, holds⟩
  rcases completes.unique whole with ⟨rfl, rfl⟩
  constructor
  case results =>
    intro earlier call later split
    rcases List.eq_nil_or_concat later with rfl | ⟨front, final, rfl⟩
    · rcases List.append_inj' split rfl with ⟨rfl, same⟩
      cases same
      rfl
    · rw [List.concat_eq_append, ← List.cons_append,
        ← List.append_assoc] at split
      rcases List.append_inj' split rfl with ⟨same, -⟩
      exact explained.results earlier call front same
  case fifo =>
    rcases explained.fifo with ⟨taken, added, left⟩
    rw [contentsAfter_concat, granted, popped, List.filterMap_append,
      List.filterMap_append, ← granted, ← popped, added, left]
    cases operation with
    | add instr block =>
        cases block with
        | none => exact ⟨taken, by simp [Contents.serve]⟩
        | some new => exact ⟨taken, by simp [Contents.serve]⟩
    | pop =>
        cases front : (contentsAfter history).queued with
        | nil => exact ⟨taken, by simp [Contents.serve, front]⟩
        | cons entry rest =>
            exact ⟨taken ++ [entry], by simp [Contents.serve, front]⟩
    | free node => exact ⟨taken, by simp [Contents.serve]⟩
  case holds =>
    rw [contentsAfter_concat]
    exact holds

omit [DecidableEq Thread] in
theorem explained_of_effects
    {history : History Thread} {first base : QueueMemory Mutex}
    (holds : Holds first {})
    (effects : Effects (calls Mutex) Allowed first history base) :
    Explained history base := by
  induction effects with
  | nil =>
      refine ⟨?_, ⟨[], rfl, rfl⟩, holds⟩
      intro earlier call later split
      simp at split
  | concat earlier allows completes induction =>
      exact induction.concat allows completes

omit [DecidableEq Thread] in
/-- A created queue holds nothing. -/
theorem holds_started (queue : WimpInstrQueue Mutex) :
    Holds (started Thread queue).state {} where
  linked := (represents_created fun _ => queue).linked
  instrs := fun entry member => by cases member
  live := fun address alive => by cases alive
  nodup := List.nodup_nil

/--
In every interleaving of the accesses of the calls and of the calls on the
mutexes, the calls on the queue act as if each of them were one step.
-/
theorem linearized_of_run
    (priority : Thread → Priority) (queue : WimpInstrQueue Mutex)
    {actions : List (Action Thread Operation)}
    {config : QueueConfig Thread Mutex}
    (allows :
      Along (step (lock priority) (calls Mutex)) (Allows Allowed)
        (started Thread queue) actions)
    (ran :
      run (step (lock priority) (calls Mutex)) (started Thread queue)
          actions =
        some config) :
    Linearized config := by
  rcases atomic_of_run (excludes_lock priority)
      ⟨_, placed_start priority⟩ allows ran with
    ⟨-, base, atomic⟩
  have explained :=
    explained_of_effects (@holds_started _ Thread queue) atomic.effects
  constructor
  case explained => exact explained.results
  case fifo => exact explained.fifo
  case quiet =>
    intro quiet
    rw [atomic.quiet quiet]
    exact explained.holds
  case completes =>
    intro thread operation point under
    rcases atomic.pending thread operation point under with
      ⟨-, allowed, ends⟩
    rcases explained.holds.exists_completes allowed with
      ⟨after, completes, holds⟩
    exact ⟨after, (ends _ _).mpr completes, holds⟩

end Runs

/-- A receiver and the server thread. -/
def receiverAndServer : Bool → Priority
  | false => .low
  | true => .high

/-- A queue record without mutexes. -/
def bareQueue : WimpInstrQueue Unit :=
  { datamutex := (), nextmutex := (), lowpriomutex := () }

/--
The server thread waits while a receiver adds an instruction, and then pops
the node; it has moved the pointer of the record, but not returned yet.
-/
def handedOn : List (Action Bool Operation) :=
  List.replicate 9 (.move false) ++
    [.call false (.add emptyInstr (some (3, ⟨emptyInstr, some 9⟩)))] ++
    List.replicate 3 (.work false) ++ List.replicate 4 (.move true) ++
    List.replicate 4 (.work false) ++ List.replicate 2 (.move false) ++
    List.replicate 3 (.move true) ++ [.call true .pop] ++
    List.replicate 3 (.work true)

theorem linearized_handedOn :
    ∃ config,
      run (step (lock receiverAndServer) (calls Unit))
          (started Bool bareQueue) handedOn =
        some config ∧ Linearized config := by
  rcases Option.isSome_iff_exists.mp
    (show
      (run (step (lock receiverAndServer) (calls Unit))
        (started Bool bareQueue) handedOn).isSome by decide +kernel) with
    ⟨config, ran⟩
  have fresh :
      Along (step (lock receiverAndServer) (calls Unit))
        (fun config action =>
          action = .call false
                (.add emptyInstr (some (3, ⟨emptyInstr, some 9⟩))) ∧
              config.state.heap 3 = none ∨
            action = .call true .pop ∨ ∃ thread,
              action = .move thread ∨ action = .work thread)
        (started Bool bareQueue) handedOn := by
    decide +kernel
  refine ⟨config, ran,
    linearized_of_run receiverAndServer bareQueue (fresh.imp ?_) ran⟩
  rintro state action
    (⟨rfl, free⟩ | rfl | ⟨thread, rfl | rfl⟩)
  · rintro new ⟨⟩
    exact free
  · trivial
  · trivial
  · trivial

end Wimp.Instr.LockedQueue
