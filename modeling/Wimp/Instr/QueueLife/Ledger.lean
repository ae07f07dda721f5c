import Wimp.Instr.QueueLife

/-!
# The ledger of the instruction queues

Every live node is in one live queue or with the caller who popped it, every
live buffer is that of one node or with the caller who got it, and every live
mutex is that of one live queue.  The calls which move and allocate keep the
ledger.
-/

namespace Wimp.Instr.QueueLife

open Wimp.Lib.ByteRegion
open Wimp.Lib.Chain
open Wimp.Instr.LinkedQueue

variable {Queue Mutex : Type} [DecidableEq Queue] [DecidableEq Mutex]

/-! ## One owner for everything -/

/-- The live mutexes are those of the queues, and of one queue each. -/
structure Locked (alive : Queue → Bool)
    (queues : Queue → WimpInstrQueue Mutex) (live : Mutex → Bool) :
    Prop where
  owned :
    ∀ mutex,
      live mutex = true ↔
        ∃ queue, alive queue = true ∧ mutex ∈ mutexesOf (queues queue)
  distinct :
    ∀ queue, alive queue = true → (mutexesOf (queues queue)).Nodup
  separate :
    ∀ first second, alive first = true → alive second = true →
      first ≠ second →
        (mutexesOf (queues first)).Disjoint (mutexesOf (queues second))

/-- A live buffer is that of one node, or with a caller. -/
structure Buffered (heap : Address → Option WimpInstrNode)
    (buffers : Address → Option Bytes) (loose : List Address) : Prop where
  owned :
    ∀ buffer,
      (buffers buffer).isSome ↔
        buffer ∈ loose ∨ ∃ node, bufferOf heap node = some buffer
  once : loose.Nodup
  apart : ∀ buffer ∈ loose, ¬ ∃ node, bufferOf heap node = some buffer
  own :
    ∀ first second buffer, bufferOf heap first = some buffer →
      bufferOf heap second = some buffer → first = second

/-- What is alive, and to whom it belongs. -/
structure Owned (world : World Queue Mutex)
    (lists : Queue → List Address) : Prop where
  linked : Linked (mask world.alive world.memory) lists
  /-- A node is in a queue or with its caller. -/
  nodes :
    ∀ node,
      (world.memory.heap node).isSome ↔
        node ∈ world.popped ∨ ∃ queue, node ∈ lists queue
  /-- It is not in two places. -/
  once : world.popped.Nodup
  apart : ∀ node ∈ world.popped, ¬ ∃ queue, node ∈ lists queue
  buffered : Buffered world.memory.heap world.buffers world.loose
  locked : Locked world.alive world.memory.queues world.mutexes

omit [DecidableEq Queue] [DecidableEq Mutex] in
/-- Queues may change places with their mutexes. -/
theorem Locked.move
    {alive : Queue → Bool} {queues after : Queue → WimpInstrQueue Mutex}
    {live : Mutex → Bool} (locked : Locked alive queues live)
    (places : Equiv.Perm Queue)
    (lives : ∀ queue, alive (places queue) = alive queue)
    (mutexes :
      ∀ queue,
        mutexesOf (after queue) = mutexesOf (queues (places queue))) :
    Locked alive after live := by
  constructor
  case owned =>
    intro mutex
    rw [locked.owned mutex]
    constructor
    · rintro ⟨queue, lived, member⟩
      refine ⟨places.symm queue, ?_, ?_⟩
      · rw [← lives, Equiv.apply_symm_apply]
        exact lived
      · rw [mutexes, Equiv.apply_symm_apply]
        exact member
    · rintro ⟨queue, lived, member⟩
      rw [mutexes] at member
      exact ⟨places queue, (lives queue).trans lived, member⟩
  case distinct =>
    intro queue lived
    rw [mutexes]
    exact locked.distinct (places queue) ((lives queue).trans lived)
  case separate =>
    intro first second left right different
    rw [mutexes, mutexes]
    exact
      locked.separate (places first) (places second)
        ((lives first).trans left) ((lives second).trans right)
        fun equal => different (places.injective equal)

section Calls

variable {world : World Queue Mutex} {lists : Queue → List Address}
variable {queue add : Queue} {fuel bound : Nat}

omit [DecidableEq Queue] [DecidableEq Mutex] in
theorem owned_empty (queues : Queue → WimpInstrQueue Mutex) :
    Owned (empty queues) fun _ => [] := by
  constructor
  case linked =>
    constructor
    case chain => exact fun _ => rfl
    case back => exact fun _ => rfl
    case apart => exact fun _ _ _ => List.disjoint_nil_left _
  case nodes => simp [empty]
  case once => exact List.nodup_nil
  case apart => nofun
  case buffered =>
    exact
      ⟨by simp [empty, bufferOf], List.nodup_nil, nofun,
        by simp [empty, bufferOf]⟩
  case locked => exact ⟨by simp [empty], nofun, nofun⟩

omit [DecidableEq Queue] [DecidableEq Mutex] in
/-- A dead queue holds nothing. -/
theorem Owned.nil_of_dead
    (owned : Owned world lists) (dead : world.alive queue = false) :
    lists queue = [] := by
  have back := owned.linked.back queue
  have nothing :
      ((mask world.alive world.memory).queues queue).backnode = none := by
    simp [mask, dead]
  rw [nothing] at back
  exact List.getLast?_eq_none_iff.mp back.symm

omit [DecidableEq Queue] [DecidableEq Mutex] in
theorem bufferOf_congr
    {memory next : Memory Queue Mutex} (same : SameInstrs memory next)
    (node : Address) : bufferOf next.heap node = bufferOf memory.heap node := by
  have instrs := same node
  rw [bufferOf, bufferOf]
  cases before : memory.heap node <;> cases after : next.heap node <;>
    simp_all

omit [DecidableEq Queue] [DecidableEq Mutex] in
theorem isSome_congr
    {memory next : Memory Queue Mutex} (same : SameInstrs memory next)
    (node : Address) :
    (next.heap node).isSome = (memory.heap node).isSome := by
  have equal := congrArg Option.isSome (same node)
  rwa [Option.isSome_map, Option.isSome_map] at equal

/-- The buffers depend on the instructions of the nodes only. -/
theorem Buffered.congr
    {heap after : Address → Option WimpInstrNode}
    {buffers : Address → Option Bytes} {loose : List Address}
    (buffered : Buffered heap buffers loose)
    (same : ∀ node, bufferOf after node = bufferOf heap node) :
    Buffered after buffers loose := by
  rcases buffered with ⟨owned, once, apart, own⟩
  constructor <;> simpa only [same]

omit [DecidableEq Queue] [DecidableEq Mutex] in
/--
Nodes change their places among the queues and the callers, and queues may
change their records.
-/
theorem Owned.move
    (owned : Owned world lists) {memory : Memory Queue Mutex}
    {after : Queue → List Address} {popped : List Address}
    (places : Equiv.Perm Queue)
    (linked : Linked (mask world.alive memory) after)
    (same : SameInstrs world.memory memory)
    (lives : ∀ queue, world.alive (places queue) = world.alive queue)
    (mutexes :
      ∀ queue,
        mutexesOf (memory.queues queue) =
          mutexesOf (world.memory.queues (places queue)))
    (kept :
      ∀ node,
        (node ∈ popped ∨ ∃ queue, node ∈ after queue) ↔
          node ∈ world.popped ∨ ∃ queue, node ∈ lists queue)
    (once : popped.Nodup)
    (apart : ∀ node ∈ popped, ¬ ∃ queue, node ∈ after queue) :
    Owned { world with memory, popped } after := by
  constructor
  case linked => exact linked
  case nodes =>
    intro node
    rw [kept node, ← owned.nodes node]
    show (memory.heap node).isSome = true ↔ _
    rw [isSome_congr same node]
  case once => exact once
  case apart => exact apart
  case buffered => exact owned.buffered.congr (bufferOf_congr same)
  case locked => exact owned.locked.move places lives mutexes

/-! ## Calls which move nodes -/

/-- What a call leaves behind. -/
def Leads (fuel bound : Nat) (world : World Queue Mutex)
    (action : Action Queue Mutex) : Prop :=
  ∃ next lists,
    step fuel world action = some next ∧ Owned next lists ∧
      Allocated next.memory (bound + 1)

omit [DecidableEq Queue] [DecidableEq Mutex] in
/-- No more nodes are alive than before. -/
theorem allocated_of_fewer
    {memory next : Memory Queue Mutex} (allocated : Allocated memory bound)
    (fewer :
      ∀ node, (next.heap node).isSome → (memory.heap node).isSome) :
    Allocated next (bound + 1) := by
  rcases allocated with ⟨live, card, all⟩
  exact ⟨live, by omega, fun node alive => all node (fewer node alive)⟩

/-- A node is in a replaced list or in one of the others. -/
theorem exists_mem_update_iff
    (lists : Queue → List Address) (queue : Queue) (list : List Address)
    (node : Address) :
    (∃ place, node ∈ Function.update lists queue list place) ↔
      node ∈ list ∨ ∃ other, other ≠ queue ∧ node ∈ lists other := by
  constructor
  · rintro ⟨place, member⟩
    by_cases here : place = queue
    · subst here
      exact .inl (by simpa using member)
    · exact .inr ⟨place, here, by simpa [here] using member⟩
  · rintro (member | ⟨other, away, member⟩)
    · exact ⟨queue, by simpa using member⟩
    · exact ⟨other, by simpa [away] using member⟩

/-- A node is in one list or in one of the others. -/
theorem exists_mem_iff
    (lists : Queue → List Address) (queue : Queue) (node : Address) :
    (∃ place, node ∈ lists place) ↔
      node ∈ lists queue ∨ ∃ other, other ≠ queue ∧ node ∈ lists other := by
  have split := exists_mem_update_iff lists queue (lists queue) node
  rwa [Function.update_eq_self] at split

/-- A list which takes another one in. -/
theorem exists_mem_join_iff
    (lists : Queue → List Address) (different : queue ≠ add)
    {list : List Address} {node : Address}
    (joined : node ∈ list ↔ node ∈ lists queue ∨ node ∈ lists add) :
    (∃ place,
        node ∈
          Function.update (Function.update lists queue list) add []
            place) ↔
      ∃ place, node ∈ lists place := by
  rw [exists_mem_update_iff]
  constructor
  · rintro (member | ⟨other, away, member⟩)
    · cases member
    · by_cases here : other = queue
      · subst here
        rw [Function.update_self, joined] at member
        rcases member with member | member
        · exact ⟨other, member⟩
        · exact ⟨add, member⟩
      · rw [Function.update_of_ne here] at member
        exact ⟨other, member⟩
  · rintro ⟨place, member⟩
    right
    by_cases front : place = queue
    · subst front
      exact ⟨place, different, by simp [joined, member]⟩
    by_cases behind : place = add
    · subst behind
      exact ⟨queue, different, by simp [joined, member]⟩
    · exact ⟨place, behind, by simpa [front] using member⟩

/-- A call which only moves nodes allocates nothing. -/
theorem leads_of_same
    (allocated : Allocated world.memory bound)
    {action : Action Queue Mutex} {next : World Queue Mutex}
    (after : Queue → List Address)
    (stepped : step fuel world action = some next)
    (owned : Owned next after)
    (same : SameInstrs world.memory next.memory) :
    Leads fuel bound world action := by
  refine
    ⟨next, after, stepped, owned,
      allocated_of_fewer allocated fun node alive => ?_⟩
  rwa [← isSome_congr same node]

theorem leads_addExisting
    (owned : Owned world lists) (allocated : Allocated world.memory bound)
    {node : Address} (alive : world.alive queue = true)
    (held : node ∈ world.popped) :
    Leads fuel bound world (.addExisting queue node) := by
  have outside : ∀ queue, node ∉ lists queue := fun queue member =>
    owned.apart node held ⟨queue, member⟩
  have live := (owned.nodes node).mpr (.inl held)
  rcases exists_addExisting owned.linked outside live queue with
    ⟨masked, joined, linked, same⟩
  rw [addExisting_mask _ alive] at joined
  rcases Option.map_eq_some_iff.mp joined with ⟨memory, joining, rfl⟩
  have same : SameInstrs world.memory memory := same
  have stepped :
      step fuel world (.addExisting queue node) =
        some
          { world with memory, popped := world.popped.erase node } := by
    simp [step, joining]
  refine leads_of_same allocated _ stepped
    (owned.move (Equiv.refl Queue) linked same (fun _ => rfl)
      (sameMutexes_addExisting joining) ?_ (owned.once.erase node) ?_) same
  · intro other
    rw [owned.once.mem_erase_iff, exists_mem_update_iff,
      exists_mem_iff lists queue, List.mem_append, List.mem_singleton]
    by_cases equal : other = node
    · simp [equal, held]
    · simp [equal]
  · intro other member
    rcases (owned.once.mem_erase_iff).mp member with ⟨different, member⟩
    have away := owned.apart other member
    rw [exists_mem_iff lists queue, not_or] at away
    rw [exists_mem_update_iff, List.mem_append, List.mem_singleton]
    exact not_or.mpr ⟨not_or.mpr ⟨away.1, different⟩, away.2⟩

theorem leads_pop
    (owned : Owned world lists) (allocated : Allocated world.memory bound)
    (alive : world.alive queue = true) :
    Leads fuel bound world (.pop queue) := by
  cases front : lists queue with
  | nil =>
      have popping := pop_of_nil owned.linked front
      rw [pop_mask _ alive] at popping
      rcases Option.map_eq_some_iff.mp popping with
        ⟨⟨memory, node⟩, popping, result⟩
      rw [Prod.mk.injEq] at result
      rcases result with ⟨masked, rfl⟩
      have heap : memory.heap = world.memory.heap := by
        simpa using congrArg Memory.heap masked
      have same : SameInstrs world.memory memory := fun node => by rw [heap]
      have stepped :
          step fuel world (.pop queue) = some { world with memory } := by
        simp [step, popping]
      have linked := owned.linked
      rw [← masked] at linked
      exact
        leads_of_same allocated _ stepped
          (owned.move (Equiv.refl Queue) linked same (fun _ => rfl)
            (sameMutexes_pop popping) (fun _ => Iff.rfl) owned.once
            owned.apart) same
  | cons node rest =>
      rcases exists_pop owned.linked front with
        ⟨masked, popping, linked, heap⟩
      rw [pop_mask _ alive] at popping
      rcases Option.map_eq_some_iff.mp popping with
        ⟨⟨memory, popped⟩, popping, result⟩
      rw [Prod.mk.injEq] at result
      rcases result with ⟨rfl, rfl⟩
      have heap : memory.heap = world.memory.heap := heap
      have distinct := (owned.linked.chain queue).nodup
      rw [front, List.nodup_cons] at distinct
      have fresh : node ∉ world.popped := by
        intro held
        apply owned.apart node held
        exact ⟨queue, by rw [front]; exact List.mem_cons_self ..⟩
      have elsewhere :
          ¬ ∃ other, other ≠ queue ∧ node ∈ lists other := by
        rintro ⟨other, away, member⟩
        apply owned.linked.apart other queue away member
        rw [front]
        exact List.mem_cons_self ..
      have same : SameInstrs world.memory memory := fun node => by rw [heap]
      have stepped :
          step fuel world (.pop queue) =
            some
              { world with memory, popped := world.popped ++ [node] } := by
        simp [step, popping]
      refine leads_of_same allocated _ stepped
        (owned.move (Equiv.refl Queue) linked same (fun _ => rfl)
          (sameMutexes_pop popping) ?_ ?_ ?_) same
      · intro other
        rw [exists_mem_update_iff, exists_mem_iff lists queue, front,
          List.mem_append, List.mem_singleton, List.mem_cons]
        tauto
      · rw [← List.concat_eq_append]
        exact owned.once.concat fresh
      · intro other member
        rw [exists_mem_update_iff]
        rcases List.mem_append.mp member with before | new
        · have away := owned.apart other before
          rw [exists_mem_iff lists queue, front, List.mem_cons] at away
          exact
            not_or.mpr
              ⟨fun member => away (.inl (.inr member)),
                fun found => away (.inr found)⟩
        · rw [List.mem_singleton.mp new]
          exact not_or.mpr ⟨distinct.1, elsewhere⟩

theorem leads_append
    (owned : Owned world lists) (allocated : Allocated world.memory bound)
    (enough : bound < fuel) (alive : world.alive queue = true)
    (aliveToo : world.alive add = true) (different : queue ≠ add) :
    Leads fuel bound world (.append queue add) := by
  have length := owned.linked.length_le allocated add
  rcases exists_appendLoop owned.linked different rfl
      (by omega : (lists add).length < fuel) with
    ⟨masked, looped, linked, same⟩
  rw [appendLoop_mask _ _ alive aliveToo] at looped
  rcases Option.map_eq_some_iff.mp looped with ⟨memory, looping, rfl⟩
  have same : SameInstrs world.memory memory := same
  have kept (node : Address) :=
    exists_mem_join_iff lists different
      (show node ∈ lists queue ++ lists add ↔ _ from List.mem_append)
  have stepped :
      step fuel world (.append queue add) = some { world with memory } := by
    simp [step, wimpInstrQueueAppendQueue, looping]
  refine leads_of_same allocated _ stepped
    (owned.move (Equiv.refl Queue) linked same (fun _ => rfl)
      (sameMutexes_appendLoop looping) ?_ owned.once ?_) same
  · intro node
    rw [kept node]
  · intro node member
    rw [kept node]
    exact owned.apart node member

theorem leads_prepend
    (owned : Owned world lists) (allocated : Allocated world.memory bound)
    (enough : bound < fuel) (alive : world.alive queue = true)
    (aliveToo : world.alive add = true) (different : queue ≠ add) :
    Leads fuel bound world (.prepend queue add) := by
  have length := owned.linked.length_le allocated queue
  rcases exists_prepend owned.linked different
      (by omega : (lists queue).length < fuel) with
    ⟨masked, prepended, linked, same⟩
  rw [prepend_mask _ _ alive aliveToo] at prepended
  rcases Option.map_eq_some_iff.mp prepended with ⟨memory, looping, rfl⟩
  have same : SameInstrs world.memory memory := same
  have kept (node : Address) :=
    exists_mem_join_iff lists different
      (show node ∈ lists add ++ lists queue ↔ _ from
        List.mem_append.trans or_comm)
  have stepped :
      step fuel world (.prepend queue add) = some { world with memory } := by
    simp [step, looping]
  refine leads_of_same allocated _ stepped
    (owned.move (Equiv.swap queue add) linked same ?_
      (sameMutexes_prepend looping) ?_ owned.once ?_) same
  · intro place
    rw [Equiv.swap_apply_def]
    split_ifs with front behind
    · rw [front, alive, aliveToo]
    · rw [behind, alive, aliveToo]
    · rfl
  · intro node
    rw [kept node]
  · intro node member
    rw [kept node]
    exact owned.apart node member

/-! ## Calls which allocate -/

/-- A new queue brings mutexes which no other queue has. -/
theorem Locked.create
    {alive : Queue → Bool} {queues : Queue → WimpInstrQueue Mutex}
    {live : Mutex → Bool} (locked : Locked alive queues live)
    (dead : alive queue = false) {record : WimpInstrQueue Mutex}
    (distinct : (mutexesOf record).Nodup)
    (fresh : ∀ mutex ∈ mutexesOf record, live mutex = false) :
    Locked (Function.update alive queue true)
      (Function.update queues queue record)
      fun mutex => mutex ∈ mutexesOf record || live mutex := by
  have other (place : Queue)
      (lives : Function.update alive queue true place = true)
      (away : place ≠ queue) : alive place = true := by
    rwa [Function.update_of_ne away] at lives
  have unused (place : Queue) (lives : alive place = true)
      (mutex : Mutex) (member : mutex ∈ mutexesOf (queues place)) :
      mutex ∉ mutexesOf record := by
    intro new
    have used := (locked.owned mutex).mpr ⟨place, lives, member⟩
    rw [fresh mutex new] at used
    cases used
  constructor
  case owned =>
    intro mutex
    rw [Bool.or_eq_true, locked.owned mutex, decide_eq_true_iff]
    constructor
    · rintro (new | ⟨place, lives, member⟩)
      · exact ⟨queue, by simp, by simpa using new⟩
      · have away : place ≠ queue := by
          rintro rfl
          rw [dead] at lives
          cases lives
        exact ⟨place, by simpa [away] using lives, by simpa [away]⟩
    · rintro ⟨place, lives, member⟩
      by_cases here : place = queue
      · subst here
        exact .inl (by simpa using member)
      · rw [Function.update_of_ne here] at member
        exact .inr ⟨place, other place lives here, member⟩
  case distinct =>
    intro place lives
    by_cases here : place = queue
    · subst here
      simpa using distinct
    · rw [Function.update_of_ne here]
      exact locked.distinct place (other place lives here)
  case separate =>
    intro first second left right different
    by_cases front : first = queue
    · subst front
      have away : second ≠ first := Ne.symm different
      rw [Function.update_self, Function.update_of_ne away]
      intro mutex new member
      exact unused second (other second right away) mutex member new
    by_cases back : second = queue
    · subst back
      rw [Function.update_self, Function.update_of_ne front]
      intro mutex member new
      exact unused first (other first left front) mutex member new
    · rw [Function.update_of_ne front, Function.update_of_ne back]
      exact
        locked.separate first second (other first left front)
          (other second right back) different

theorem leads_create
    (owned : Owned world lists) (allocated : Allocated world.memory bound)
    {datamutex nextmutex lowpriomutex : Mutex}
    (dead : world.alive queue = false)
    (distinct : [datamutex, nextmutex, lowpriomutex].Nodup)
    (fresh :
      ∀ mutex ∈ [datamutex, nextmutex, lowpriomutex],
        world.mutexes mutex = false) :
    Leads fuel bound world
      (.create queue datamutex nextmutex lowpriomutex) := by
  have nothing := owned.nil_of_dead dead
  refine leads_of_same allocated lists rfl ?_ fun _ => rfl
  constructor
  case linked =>
    have queues :
        (mask (Function.update world.alive queue true)
            (world.memory.setQueue queue
              (wimpCreateInstrQueue datamutex nextmutex
                lowpriomutex))).queues =
          Function.update (mask world.alive world.memory).queues queue
            (wimpCreateInstrQueue datamutex nextmutex lowpriomutex) := by
      funext place
      by_cases here : place = queue
      · subst here
        simp [mask, Memory.setQueue]
      · simp [mask, Memory.setQueue, here]
    have chain :
        Segment world.memory.heap WimpInstrNode.nextnode none [] none :=
      rfl
    rw [← Function.update_eq_self queue lists, nothing]
    exact
      owned.linked.of_queue queues (fun _ _ _ _ => rfl) chain rfl
        fun _ _ => List.disjoint_nil_left _
  case nodes => exact owned.nodes
  case once => exact owned.once
  case apart => exact owned.apart
  case buffered => exact owned.buffered
  case locked => exact owned.locked.create dead distinct fresh

/-- A new buffer is with its caller. -/
theorem Buffered.malloc
    {heap : Address → Option WimpInstrNode}
    {buffers : Address → Option Bytes} {loose : List Address}
    (buffered : Buffered heap buffers loose) {buffer : Address}
    (fresh : buffers buffer = none) (bytes : Bytes) :
    Buffered heap (Function.update buffers buffer (some bytes))
      (buffer :: loose) := by
  have unused := buffered.owned buffer
  simp only [fresh, Option.isSome_none, Bool.false_eq_true, false_iff,
    not_or] at unused
  constructor
  case owned =>
    intro other
    by_cases same : other = buffer
    · simp [same]
    · simpa [same] using buffered.owned other
  case once => exact List.nodup_cons.mpr ⟨unused.1, buffered.once⟩
  case apart =>
    intro other member
    rcases List.mem_cons.mp member with rfl | member
    · exact unused.2
    · exact buffered.apart other member
  case own => exact buffered.own

theorem leads_malloc
    (owned : Owned world lists) (allocated : Allocated world.memory bound)
    {buffer : Address} (fresh : world.buffers buffer = none)
    (bytes : Bytes) :
    Leads fuel bound world (.malloc buffer bytes) := by
  refine leads_of_same allocated lists rfl ?_ fun _ => rfl
  constructor
  case linked => exact owned.linked
  case nodes => exact owned.nodes
  case once => exact owned.once
  case apart => exact owned.apart
  case buffered => exact owned.buffered.malloc fresh bytes
  case locked => exact owned.locked

/-- A new node takes over a buffer of its caller. -/
theorem Buffered.takeOver
    {heap after : Address → Option WimpInstrNode}
    {buffers : Address → Option Bytes} {loose : List Address}
    (buffered : Buffered heap buffers loose) {node : Address}
    {instruction : Option Address} (fresh : bufferOf heap node = none)
    (carried :
      ∀ other,
        bufferOf after other =
          if other = node then instruction else bufferOf heap other)
    (held : ∀ buffer ∈ instruction, buffer ∈ loose) :
    Buffered after buffers (loose.filter (instruction ≠ some ·)) := by
  have carriers (buffer : Address) :
      (∃ other, bufferOf after other = some buffer) ↔
        instruction = some buffer ∨
          ∃ other, bufferOf heap other = some buffer := by
    constructor
    · rintro ⟨other, points⟩
      rw [carried] at points
      split_ifs at points
      · exact .inl points
      · exact .inr ⟨other, points⟩
    · rintro (points | ⟨other, points⟩)
      · exact ⟨node, by rw [carried, if_pos rfl, points]⟩
      · have away : other ≠ node := by
          rintro rfl
          rw [fresh] at points
          cases points
        exact ⟨other, by rw [carried, if_neg away, points]⟩
  have kept (buffer : Address) :
      buffer ∈ loose.filter (instruction ≠ some ·) ↔
        buffer ∈ loose ∧ instruction ≠ some buffer := by
    simp [List.mem_filter]
  constructor
  case owned =>
    intro buffer
    rw [buffered.owned, carriers, kept]
    by_cases taken : instruction = some buffer
    · simp [taken, held buffer taken]
    · simp [taken]
  case once => exact buffered.once.filter _
  case apart =>
    intro buffer member
    rcases (kept buffer).mp member with ⟨member, other⟩
    rw [carriers]
    exact not_or.mpr ⟨other, buffered.apart buffer member⟩
  case own =>
    intro first second buffer left right
    rw [carried] at left right
    split_ifs at left right with here there there
    · rw [here, there]
    · exact absurd ⟨second, right⟩
        (buffered.apart buffer (held buffer left))
    · exact absurd ⟨first, left⟩
        (buffered.apart buffer (held buffer right))
    · exact buffered.own first second buffer left right

theorem leads_add
    (owned : Owned world lists) (allocated : Allocated world.memory bound)
    {instr : WimpInstr} {block : Option Address}
    (alive : world.alive queue = true)
    (fresh : ∀ node ∈ block, world.memory.heap node = none)
    (held : ∀ buffer ∈ instr.instruction, buffer ∈ world.loose) :
    Leads fuel bound world (.add queue instr block) := by
  cases block with
  | none => exact leads_of_same allocated lists rfl owned fun _ => rfl
  | some node =>
      have free : world.memory.heap node = none := fresh node rfl
      have nowhere :
          ¬ (node ∈ world.popped ∨ ∃ queue, node ∈ lists queue) := by
        rw [← owned.nodes node, free]
        nofun
      rw [not_or] at nowhere
      have outside : ∀ queue, node ∉ lists queue := fun queue member =>
        nowhere.2 ⟨queue, member⟩
      rcases exists_link
          (owned.linked.setNode outside { instr, nextnode := none })
          outside (Function.update_self ..) rfl queue with
        ⟨masked, joined, linked, same⟩
      rw [mask_setNode, link_mask _ alive] at joined
      rcases Option.map_eq_some_iff.mp joined with ⟨memory, linking, rfl⟩
      have same :
          SameInstrs
            (world.memory.setNode node { instr, nextnode := none })
            memory := same
      have carried (other : Address) :
          bufferOf memory.heap other =
            if other = node then instr.instruction
            else bufferOf world.memory.heap other := by
        rw [bufferOf_congr same]
        by_cases equal : other = node
        · simp [bufferOf, Memory.setNode, equal]
        · simp [bufferOf, Memory.setNode, equal]
      have live (other : Address) :
          (memory.heap other).isSome ↔
            other = node ∨ (world.memory.heap other).isSome := by
        rw [isSome_congr same]
        by_cases equal : other = node
        · simp [Memory.setNode, equal]
        · simp [Memory.setNode, equal]
      have mutexes := sameMutexes_link linking
      have locked : Locked world.alive memory.queues world.mutexes :=
        owned.locked.move (Equiv.refl Queue) (fun _ => rfl) mutexes
      have after :
          Owned
            { world with
              memory
              loose := world.loose.filter (instr.instruction ≠ some ·) }
            (Function.update lists queue (lists queue ++ [node])) := by
        constructor
        case linked => exact linked
        case nodes =>
          intro other
          rw [live, owned.nodes, exists_mem_update_iff,
            exists_mem_iff lists queue, List.mem_append,
            List.mem_singleton]
          tauto
        case once => exact owned.once
        case apart =>
          intro other held
          have away := owned.apart other held
          rw [exists_mem_iff lists queue, not_or] at away
          rw [exists_mem_update_iff, List.mem_append, List.mem_singleton]
          refine not_or.mpr ⟨not_or.mpr ⟨away.1, ?_⟩, away.2⟩
          rintro rfl
          exact nowhere.1 held
        case buffered =>
          exact
            owned.buffered.takeOver (by rw [bufferOf, free]; rfl) carried held
        case locked => exact locked
      refine ⟨_, _, by simp [step, wimpInstrQueueAdd, linking], after, ?_⟩
      rcases allocated with ⟨nodes, card, all⟩
      refine ⟨insert node nodes, ?_, ?_⟩
      · exact (Finset.card_insert_le _ _).trans (by omega)
      · intro other alive
        rw [Finset.mem_insert]
        exact ((live other).mp alive).imp_right (all other)

end Calls

end Wimp.Instr.QueueLife
