import Wimp.Instr.QueueLife.Ledger

/-!
# The release of the instruction queues

A node is released with its buffer, and a queue with its nodes and mutexes.
The calls which release keep the ledger too, so that every run of the callers
is defined and its ledger closes.
-/

namespace Wimp.Instr.QueueLife

open Wimp.Lib.ByteRegion
open Wimp.Lib.Chain
open Wimp.Lib.Runs
open Wimp.Instr.LinkedQueue

variable {Queue Mutex : Type} [DecidableEq Queue] [DecidableEq Mutex]

section Calls

variable {world : World Queue Mutex} {lists : Queue → List Address}
variable {queue : Queue} {fuel bound : Nat}

/-! ## Calls which release -/

/-- A caller frees a buffer of its own. -/
theorem Buffered.free
    {heap : Address → Option WimpInstrNode}
    {buffers : Address → Option Bytes} {loose : List Address}
    (buffered : Buffered heap buffers loose) {buffer : Address}
    (held : buffer ∈ loose) :
    Buffered heap (Function.update buffers buffer none)
      (loose.erase buffer) := by
  have away := buffered.apart buffer held
  constructor
  case owned =>
    intro other
    rw [buffered.once.mem_erase_iff]
    by_cases same : other = buffer
    · subst same
      simpa using away
    · simpa [same] using buffered.owned other
  case once => exact buffered.once.erase buffer
  case apart =>
    intro other member
    exact buffered.apart other (List.mem_of_mem_erase member)
  case own => exact buffered.own

theorem leads_bufferFree
    (owned : Owned world lists) (allocated : Allocated world.memory bound)
    {buffer : Address} (held : buffer ∈ world.loose) :
    Leads fuel bound world (.bufferFree buffer) := by
  have live := (owned.buffered.owned buffer).mpr (.inl held)
  have stepped :
      step fuel world (.bufferFree buffer) =
        some
          { world with
            buffers := Function.update world.buffers buffer none
            loose := world.loose.erase buffer } := by
    simp [step, QueueLife.free, live]
  refine leads_of_same allocated lists stepped ?_ fun _ => rfl
  constructor
  case linked => exact owned.linked
  case nodes => exact owned.nodes
  case once => exact owned.once
  case apart => exact owned.apart
  case buffered => exact owned.buffered.free held
  case locked => exact owned.locked

/-- The buffers which are left behind the release of some nodes. -/
def without (heap : Address → Option WimpInstrNode)
    (buffers : Address → Option Bytes) (nodes : List Address)
    (buffer : Address) : Option Bytes :=
  if ∃ node ∈ nodes, bufferOf heap node = some buffer then none
  else buffers buffer

/-- The nodes which are left. -/
def remove (heap : Address → Option WimpInstrNode) (nodes : List Address)
    (node : Address) : Option WimpInstrNode :=
  if node ∈ nodes then none else heap node

/-- A live node is released with its live buffer. -/
theorem nodeFree_eq
    {heap : Address → Option WimpInstrNode}
    {buffers : Address → Option Bytes} {node : Address}
    (live : (heap node).isSome)
    (buffered :
      ∀ buffer, bufferOf heap node = some buffer →
        (buffers buffer).isSome) :
    wimpInstrNodeFree heap buffers node =
      some (remove heap [node], without heap buffers [node]) := by
  rcases Option.isSome_iff_exists.mp live with ⟨cell, found⟩
  have carries : bufferOf heap node = cell.instr.instruction := by
    rw [bufferOf, found, Option.bind_some]
  have heapEq : Function.update heap node none = remove heap [node] := by
    funext other
    by_cases here : other = node
    · simp [remove, here]
    · simp [remove, here]
  cases points : cell.instr.instruction with
  | none =>
      have same : buffers = without heap buffers [node] := by
        funext buffer
        simp [without, carries, points]
      simp [wimpInstrNodeFree, found, free, points, heapEq, ← same]
  | some buffer =>
      have bufferLive := buffered buffer (carries.trans points)
      have same :
          Function.update buffers buffer none =
            without heap buffers [node] := by
        funext other
        by_cases here : other = buffer
        · simp [without, carries, points, here]
        · simp [without, carries, points, here, Ne.symm here]
      simp [wimpInstrNodeFree, found, free, points, heapEq, bufferLive,
        same]

@[simp]
theorem remove_nil (heap : Address → Option WimpInstrNode) :
    remove heap [] = heap := by
  funext node
  simp [remove]

@[simp]
theorem without_nil (heap : Address → Option WimpInstrNode)
    (buffers : Address → Option Bytes) : without heap buffers [] = buffers := by
  funext buffer
  simp [without]

theorem remove_remove (heap : Address → Option WimpInstrNode)
    (node : Address) (rest : List Address) :
    remove (remove heap [node]) rest = remove heap (node :: rest) := by
  funext other
  by_cases here : other = node
  · simp [remove, here]
  · simp [remove, here]

theorem bufferOf_remove (heap : Address → Option WimpInstrNode)
    (nodes : List Address) (node : Address) :
    bufferOf (remove heap nodes) node =
      if node ∈ nodes then none else bufferOf heap node := by
  by_cases member : node ∈ nodes
  · simp [bufferOf, remove, member]
  · simp [bufferOf, remove, member]

theorem without_without (heap : Address → Option WimpInstrNode)
    (buffers : Address → Option Bytes) {node : Address}
    {rest : List Address} (fresh : node ∉ rest) :
    without (remove heap [node]) (without heap buffers [node]) rest =
      without heap buffers (node :: rest) := by
  funext buffer
  have later :
      (∃ other ∈ rest, bufferOf (remove heap [node]) other = some buffer) ↔
        ∃ other ∈ rest, bufferOf heap other = some buffer := by
    have apart (other : Address) (member : other ∈ rest) :
        other ≠ node := by
      rintro rfl
      exact fresh member
    constructor
    · rintro ⟨other, member, points⟩
      refine ⟨other, member, ?_⟩
      simpa [bufferOf_remove, apart other member] using points
    · rintro ⟨other, member, points⟩
      refine ⟨other, member, ?_⟩
      simpa [bufferOf_remove, apart other member] using points
  rw [without, without, without]
  simp only [later, List.mem_cons, List.not_mem_nil, or_false,
    exists_eq_or_imp, exists_eq_left]
  by_cases front : bufferOf heap node = some buffer <;>
    by_cases behind : ∃ other ∈ rest, bufferOf heap other = some buffer <;>
      simp [front, behind]

omit [DecidableEq Mutex] in
/-- The loop releases the nodes of the queue and their buffers. -/
theorem freeLoop_eq
    {copy : Memory Unit Mutex} {buffers : Address → Option Bytes}
    {list : List Address} (linked : Linked copy fun _ => list)
    (buffered :
      ∀ node ∈ list, ∀ buffer, bufferOf copy.heap node = some buffer →
        (buffers buffer).isSome)
    (own :
      ∀ first ∈ list, ∀ second ∈ list, ∀ buffer,
        bufferOf copy.heap first = some buffer →
          bufferOf copy.heap second = some buffer → first = second)
    (enough : list.length < fuel) :
    freeLoop fuel copy buffers =
      some (remove copy.heap list, without copy.heap buffers list) := by
  induction list generalizing copy buffers fuel with
  | nil =>
      rcases Nat.exists_eq_succ_of_ne_zero (by omega : fuel ≠ 0) with
        ⟨fuel, rfl⟩
      have popping : wimpInstrQueuePop copy () = some (copy, none) :=
        pop_of_nil linked rfl
      simp [freeLoop, popping]
  | cons node rest induction =>
      rcases Nat.exists_eq_succ_of_ne_zero (by omega : fuel ≠ 0) with
        ⟨fuel, rfl⟩
      have front : (fun _ => node :: rest) () = node :: rest := rfl
      rcases exists_pop linked front with ⟨next, popping, after, heap⟩
      have distinct := (linked.chain ()).nodup
      rw [List.nodup_cons] at distinct
      have live : (next.heap node).isSome := by
        rcases (linked.chain ()).live (List.mem_cons_self ..) with
          ⟨cell, found⟩
        rw [heap, found]
        rfl
      have apart (other : Address) (member : other ∈ rest) :
          other ≠ node := by
        rintro rfl
        exact distinct.1 member
      have released :
          wimpInstrNodeFree next.heap buffers node =
            some
              (remove next.heap [node],
                without next.heap buffers [node]) := by
        apply nodeFree_eq live
        rw [heap]
        exact buffered node (List.mem_cons_self ..)
      have linkedRest :
          Linked { next with heap := remove next.heap [node] }
            fun _ => rest := by
        have chain := after.chain ()
        have back := after.back ()
        rw [Function.update_self] at chain back
        refine ⟨fun _ => chain.congr ?_, fun _ => back, nofun⟩
        intro other member
        simp [remove, apart other member]
      have short : rest.length < fuel := by simpa using enough
      simp only [freeLoop, popping, Option.bind_eq_bind, Option.bind_some,
        released]
      rw [← heap, ← without_without _ _ distinct.1,
        ← remove_remove next.heap node rest]
      apply induction linkedRest _ _ short
      · intro other member buffer points
        simp only [bufferOf_remove, List.mem_singleton,
          if_neg (apart other member), heap] at points
        have held :=
          buffered other (List.mem_cons_of_mem _ member) buffer points
        have kept : bufferOf next.heap node ≠ some buffer := by
          rw [heap]
          intro first
          exact apart other member
            (own other (List.mem_cons_of_mem _ member) node
              (List.mem_cons_self ..) buffer points first)
        simpa [without, kept] using held
      · intro first memFirst second memSecond buffer left right
        simp only [bufferOf_remove, List.mem_singleton,
          if_neg (apart first memFirst), heap] at left
        simp only [bufferOf_remove, List.mem_singleton,
          if_neg (apart second memSecond), heap] at right
        exact
          own first (List.mem_cons_of_mem _ memFirst) second
            (List.mem_cons_of_mem _ memSecond) buffer left right

/-- The nodes which are left keep their buffers. -/
theorem Buffered.remove
    {heap : Address → Option WimpInstrNode}
    {buffers : Address → Option Bytes} {loose : List Address}
    (buffered : Buffered heap buffers loose) (nodes : List Address) :
    Buffered (remove heap nodes) (without heap buffers nodes) loose := by
  have left {node buffer : Address}
      (points : bufferOf (QueueLife.remove heap nodes) node = some buffer) :
      node ∉ nodes ∧ bufferOf heap node = some buffer := by
    rw [bufferOf_remove] at points
    split_ifs at points with member
    exact ⟨member, points⟩
  constructor
  case owned =>
    intro buffer
    rw [without]
    split_ifs with gone
    · rcases gone with ⟨node, member, points⟩
      have unheld : buffer ∉ loose := fun held =>
        buffered.apart buffer held ⟨node, points⟩
      have uncarried :
          ¬ ∃ other,
              bufferOf (QueueLife.remove heap nodes) other =
                some buffer := by
        rintro ⟨other, still⟩
        rcases left still with ⟨kept, still⟩
        rw [buffered.own other node buffer still points] at kept
        exact kept member
      simp [unheld, uncarried]
    · rw [buffered.owned]
      refine or_congr_right ⟨?_, ?_⟩
      · rintro ⟨node, points⟩
        have kept : node ∉ nodes := fun member =>
          gone ⟨node, member, points⟩
        exact ⟨node, by rw [bufferOf_remove, if_neg kept, points]⟩
      · rintro ⟨node, points⟩
        exact ⟨node, (left points).2⟩
  case once => exact buffered.once
  case apart =>
    rintro buffer held ⟨node, points⟩
    exact buffered.apart buffer held ⟨node, (left points).2⟩
  case own =>
    intro first second buffer points also
    exact
      buffered.own first second buffer (left points).2 (left also).2

/-- The buffer of a node is alive. -/
theorem Buffered.live
    {heap : Address → Option WimpInstrNode}
    {buffers : Address → Option Bytes} {loose : List Address}
    (buffered : Buffered heap buffers loose) (node buffer : Address)
    (points : bufferOf heap node = some buffer) :
    (buffers buffer).isSome :=
  (buffered.owned buffer).mpr (.inr ⟨node, points⟩)

theorem leads_nodeFree
    (owned : Owned world lists) (allocated : Allocated world.memory bound)
    {node : Address} (held : node ∈ world.popped) :
    Leads fuel bound world (.nodeFree node) := by
  have released :=
    nodeFree_eq ((owned.nodes node).mpr (.inl held))
      (owned.buffered.live node)
  have away (place : Queue) (other : Address)
      (member : other ∈ lists place) : other ≠ node := by
    rintro rfl
    exact owned.apart other held ⟨place, member⟩
  refine
    ⟨_, lists, by simp only [step, released, Option.map_some]; rfl, ?_, ?_⟩
  · constructor
    case linked =>
      refine
        ⟨fun place => (owned.linked.chain place).congr ?_,
          owned.linked.back, owned.linked.apart⟩
      intro other member
      simp [remove, away place other member]
    case nodes =>
      intro other
      show (remove world.memory.heap [node] other).isSome = true ↔
        other ∈ world.popped.erase node ∨ _
      rw [owned.once.mem_erase_iff]
      by_cases here : other = node
      · simpa [remove, here] using fun place member =>
          away place node member rfl
      · simpa [remove, here] using owned.nodes other
    case once => exact owned.once.erase node
    case apart =>
      intro other member
      exact owned.apart other (List.mem_of_mem_erase member)
    case buffered => exact owned.buffered.remove [node]
    case locked => exact owned.locked
  · apply allocated_of_fewer allocated
    intro other alive
    simp only [remove] at alive
    split_ifs at alive
    · cases alive
    · exact alive

omit [DecidableEq Queue] in
/-- The three mutexes of a queue are released one after the other. -/
theorem mutexFree_eq
    {mutexes : Mutex → Bool} {record : WimpInstrQueue Mutex}
    (distinct : (mutexesOf record).Nodup)
    (live : ∀ mutex ∈ mutexesOf record, mutexes mutex = true) :
    ((recordMutexFree mutexes record.datamutex).bind fun mutexes =>
        (recordMutexFree mutexes record.nextmutex).bind fun mutexes =>
          recordMutexFree mutexes record.lowpriomutex) =
      some fun mutex => mutex ∉ mutexesOf record && mutexes mutex := by
  simp only [mutexesOf, List.nodup_cons, List.mem_cons, List.not_mem_nil,
    or_false, not_or, not_false_eq_true, List.nodup_nil, and_true]
    at distinct
  rcases distinct with ⟨⟨dataNext, dataLow⟩, nextLow⟩
  simp only [mutexesOf, List.mem_cons, List.not_mem_nil, or_false,
    forall_eq_or_imp, forall_eq] at live
  rcases live with ⟨dataLive, nextLive, lowLive⟩
  simp only [recordMutexFree, dataLive, if_true, Option.bind_some,
    Function.update_of_ne (Ne.symm dataNext), nextLive,
    Function.update_of_ne (Ne.symm dataLow),
    Function.update_of_ne (Ne.symm nextLow), lowLive, Option.some.injEq]
  funext mutex
  simp only [mutexesOf, List.mem_cons, List.not_mem_nil, or_false]
  by_cases isLow : mutex = record.lowpriomutex
  · simp [isLow]
  by_cases isNext : mutex = record.nextmutex
  · simp [isNext, nextLow]
  by_cases isData : mutex = record.datamutex
  · simp [isData, dataNext, dataLow]
  · simp [isLow, isNext, isData]

theorem Locked.free
    {alive : Queue → Bool} {queues : Queue → WimpInstrQueue Mutex}
    {live : Mutex → Bool} (locked : Locked alive queues live)
    (lives : alive queue = true) :
    Locked (Function.update alive queue false) queues
      fun mutex => mutex ∉ mutexesOf (queues queue) && live mutex := by
  have before (place : Queue)
      (left : Function.update alive queue false place = true) :
      place ≠ queue ∧ alive place = true := by
    by_cases here : place = queue
    · simp [here] at left
    · exact ⟨here, by simpa [here] using left⟩
  constructor
  case owned =>
    intro mutex
    rw [Bool.and_eq_true, locked.owned mutex, decide_eq_true_iff]
    constructor
    · rintro ⟨outside, place, alive, member⟩
      have away : place ≠ queue := by
        rintro rfl
        exact outside member
      exact ⟨place, by simpa [away] using alive, member⟩
    · rintro ⟨place, left, member⟩
      rcases before place left with ⟨away, alive⟩
      refine ⟨fun other => ?_, place, alive, member⟩
      exact locked.separate place queue alive lives away member other
  case distinct =>
    intro place left
    exact locked.distinct place (before place left).2
  case separate =>
    intro first second left right
    exact
      locked.separate first second (before first left).2
        (before second right).2

theorem leads_queueFree
    (owned : Owned world lists) (allocated : Allocated world.memory bound)
    (enough : bound < fuel) (alive : world.alive queue = true) :
    Leads fuel bound world (.queueFree queue) := by
  have length := owned.linked.length_le allocated queue
  have chain := owned.linked.chain queue
  have back := owned.linked.back queue
  rw [mask_queues _ alive] at chain back
  have copied :
      Linked
        { heap := world.memory.heap
          queues := fun _ : Unit => world.memory.queues queue }
        fun _ => lists queue :=
    ⟨fun _ => chain, fun _ => back, nofun⟩
  have looped :=
    freeLoop_eq copied (fun node _ => owned.buffered.live node)
      (fun first _ second _ => owned.buffered.own first second)
      (by omega : (lists queue).length < fuel)
  have unlocked :=
    mutexFree_eq (owned.locked.distinct queue alive) fun mutex member =>
      (owned.locked.owned mutex).mpr ⟨queue, alive, member⟩
  have apart (other : Queue) (away : other ≠ queue) (node : Address)
      (member : node ∈ lists other) : node ∉ lists queue :=
    owned.linked.apart other queue away member
  let next : World Queue Mutex :=
    { memory :=
        { world.memory with
          heap := remove world.memory.heap (lists queue) }
      buffers := without world.memory.heap world.buffers (lists queue)
      mutexes := fun mutex =>
        mutex ∉ mutexesOf (world.memory.queues queue) &&
          world.mutexes mutex
      alive := Function.update world.alive queue false
      popped := world.popped
      loose := world.loose }
  have stepped : step fuel world (.queueFree queue) = some next := by
    rcases Option.bind_eq_some_iff.mp unlocked with
      ⟨first, freedFirst, unlocked⟩
    rcases Option.bind_eq_some_iff.mp unlocked with
      ⟨second, freedSecond, freedThird⟩
    simp [step, wimpInstrQueueFree, looped, freedFirst, freedSecond,
      freedThird, next]
  refine ⟨next, Function.update lists queue [], stepped, ?_, ?_⟩
  · constructor
    case linked =>
      have queues :
          (mask next.alive next.memory).queues =
            Function.update (mask world.alive world.memory).queues queue
              { world.memory.queues queue with
                backnode := none
                nextnode := none } := by
        funext place
        by_cases here : place = queue
        · subst here
          simp [mask, next]
        · simp [mask, next, here]
      have ends :
          Segment (mask next.alive next.memory).heap
            WimpInstrNode.nextnode none [] none :=
        rfl
      refine
        owned.linked.of_queue queues ?_ ends rfl
          fun _ _ => List.disjoint_nil_left _
      intro other away node member
      exact if_neg (apart other away node member)
    case nodes =>
      intro node
      rw [exists_mem_update_iff]
      have before := owned.nodes node
      rw [exists_mem_iff lists queue] at before
      show (remove world.memory.heap (lists queue) node).isSome = true ↔
        node ∈ world.popped ∨ _
      by_cases member : node ∈ lists queue
      · have held : node ∉ world.popped := fun popped =>
          owned.apart node popped ⟨queue, member⟩
        have elsewhere :
            ¬ ∃ other, other ≠ queue ∧ node ∈ lists other := by
          rintro ⟨other, away, also⟩
          exact apart other away node also member
        simp [remove, member, held, elsewhere]
      · simpa [remove, member] using before
    case once => exact owned.once
    case apart =>
      intro node held
      have away := owned.apart node held
      rw [exists_mem_iff lists queue, not_or] at away
      rw [exists_mem_update_iff]
      exact not_or.mpr ⟨List.not_mem_nil, away.2⟩
    case buffered => exact owned.buffered.remove (lists queue)
    case locked => exact owned.locked.free alive
  · apply allocated_of_fewer allocated
    intro node alive
    simp only [next, remove] at alive
    split_ifs at alive
    · cases alive
    · exact alive

/-! ## Every run -/

/-- Every admissible call is defined and leaves everything owned. -/
theorem leads_of_admissible
    (owned : Owned world lists) (allocated : Allocated world.memory bound)
    (enough : bound < fuel) {action : Action Queue Mutex}
    (admissible : Admissible world action) :
    Leads fuel bound world action := by
  cases action with
  | create queue datamutex nextmutex lowpriomutex =>
      rcases admissible with ⟨dead, distinct, fresh⟩
      exact leads_create owned allocated dead distinct fresh
  | malloc buffer bytes =>
      exact leads_malloc owned allocated admissible bytes
  | add queue instr block =>
      rcases admissible with ⟨alive, fresh, held⟩
      exact leads_add owned allocated alive fresh held
  | addExisting queue node =>
      exact leads_addExisting owned allocated admissible.1 admissible.2
  | pop queue => exact leads_pop owned allocated admissible
  | append queue add =>
      rcases admissible with ⟨alive, aliveToo, different⟩
      exact leads_append owned allocated enough alive aliveToo different
  | prepend queue add =>
      rcases admissible with ⟨alive, aliveToo, different⟩
      exact leads_prepend owned allocated enough alive aliveToo different
  | nodeFree node => exact leads_nodeFree owned allocated admissible
  | bufferFree buffer =>
      exact leads_bufferFree owned allocated admissible
  | queueFree queue => exact leads_queueFree owned allocated enough admissible

theorem exists_run
    {actions : List (Action Queue Mutex)}
    (owned : Owned world lists) (allocated : Allocated world.memory bound)
    (enough : bound + actions.length ≤ fuel)
    (admissible : Along (step fuel) Admissible world actions) :
    ∃ final lists,
      run (step fuel) world actions = some final ∧ Owned final lists ∧
        Allocated final.memory (bound + actions.length) := by
  induction actions generalizing world lists bound with
  | nil => exact ⟨world, lists, rfl, owned, allocated⟩
  | cons action rest induction =>
      rcases admissible with ⟨first, later⟩
      rw [List.length_cons] at enough
      have below : bound < fuel := by omega
      rcases leads_of_admissible owned allocated below first with
        ⟨next, after, stepped, following, grown⟩
      rcases induction following grown (by omega) (later next stepped) with
        ⟨final, last, ran, ending, bounded⟩
      refine ⟨final, last, ?_, ending, ?_⟩
      · rw [run_cons, stepped]
        exact ran
      · rwa [List.length_cons, Nat.add_comm rest.length 1, ← Nat.add_assoc]

/-- Everything has been given back. -/
structure GivenBack (world : World Queue Mutex) : Prop where
  nodes : ∀ node, world.memory.heap node = none
  mutexes : ∀ mutex, world.mutexes mutex = false
  buffers :
    ∀ buffer, (world.buffers buffer).isSome ↔ buffer ∈ world.loose

end Calls

/--
In every sequence of calls by callers who keep to the discipline, no call
follows or frees a dead pointer, and everything alive has one owner.  When
every queue has been freed and no popped node is left with a caller, no node
and no mutex is alive, and the only live buffers are those which no caller has
queued or freed.
-/
theorem owned_of_admissible
    (queues : Queue → WimpInstrQueue Mutex) {fuel : Nat}
    {actions : List (Action Queue Mutex)}
    (enough : actions.length ≤ fuel)
    (admissible :
      Along (step fuel) Admissible (empty queues) actions) :
    ∃ world lists,
      run (step fuel) (empty queues) actions = some world ∧
        Owned world lists ∧
          ((∀ queue, world.alive queue = false) → world.popped = [] →
            GivenBack world) := by
  have nothing : Allocated (empty queues).memory 0 :=
    ⟨∅, Nat.le_refl 0, fun _ alive => nomatch alive⟩
  rcases exists_run (owned_empty queues) nothing (by omega) admissible with
    ⟨world, lists, ran, owned, -⟩
  refine ⟨world, lists, ran, owned, fun dead unheld => ?_⟩
  have gone (node : Address) : world.memory.heap node = none := by
    have nowhere : ¬ (world.memory.heap node).isSome = true := by
      rw [owned.nodes node, unheld]
      rintro (held | ⟨queue, member⟩)
      · cases held
      · rw [owned.nil_of_dead (dead queue)] at member
        cases member
    simpa using nowhere
  constructor
  case nodes => exact gone
  case mutexes =>
    intro mutex
    have gone : ¬ world.mutexes mutex = true := by
      rw [owned.locked.owned mutex]
      rintro ⟨queue, alive, -⟩
      rw [dead queue] at alive
      cases alive
    simpa using gone
  case buffers =>
    intro buffer
    rw [owned.buffered.owned buffer]
    simp [bufferOf, gone]

/-- Two queues without mutexes of their own yet. -/
private def bareRecords (_ : Bool) : WimpInstrQueue Nat :=
  { datamutex := 0, nextmutex := 0, lowpriomutex := 0 }

/--
Two nodes are queued, one of them moves to the other queue and back in front,
and is freed by its caller; the other one is freed with its queue.
-/
private def roundTrip : List (Action Bool Nat) :=
  [.create false 1 2 3, .create true 4 5 6, .malloc 0 [7], .malloc 1 [8],
    .malloc 2 [9], .add false { instruction := some 0, instructionBytes := 1 }
      (some 0),
    .add false { instruction := some 1, instructionBytes := 1 } (some 1),
    .add false { instruction := some 2, instructionBytes := 1 } none,
    .pop false, .addExisting true 0, .prepend false true, .pop false,
    .queueFree true, .nodeFree 0, .queueFree false, .bufferFree 2]

theorem owned_roundTrip :
    ∃ world lists,
      run (step 16) (empty bareRecords) roundTrip = some world ∧
        Owned world lists ∧
          ((∀ queue, world.alive queue = false) → world.popped = [] →
            GivenBack world) :=
  owned_of_admissible bareRecords (by decide) (by decide +kernel)

end Wimp.Instr.QueueLife
