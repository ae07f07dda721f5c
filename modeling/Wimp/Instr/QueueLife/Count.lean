import Wimp.Instr.QueueLife.Release
import Wimp.Instr.RoundTrip

/-!
# Counting queued instructions

`wimp_instr_get_instruction_count` walks from the first node of a queue to the
null pointer behind the last one, decodes every node and compares its name.
The comparison follows the decoded name even when it is the null pointer.
-/

namespace Wimp.Instr.QueueLife

open Wimp.Lib.ByteRegion
open Wimp.Lib.Chain
open Wimp.Lib.Runs
open Wimp.Instr.Codec
open Wimp.Instr.LinkedQueue

variable {Queue Mutex : Type} [DecidableEq Queue] [DecidableEq Mutex]

/--
The loop of `wimp_instr_get_instruction_count`, undefined when the fuel ends
in front of the queue.
-/
def countLoop (heap : Address → Option WimpInstrNode)
    (buffers : Address → Option Bytes) (instruction : CString) :
    Nat → Option Address → Nat → Option Nat
  | 0, _, _ => none
  | _ + 1, none, instrCount => some instrCount
  | fuel + 1, some current, instrCount => do
      let cell ← heap current
      -- Without a buffer the reader returns a null name.
      let address ← cell.instr.instruction
      let bytes ← buffers address
      let result ←
        wimpInstrGetFromBuffer (some bytes) cell.instr.instructionBytes
      let pointer ← result.instr
      let equal ←
        strcmpEq (bytes.drop pointer) (terminated instruction.val)
      countLoop heap buffers instruction fuel cell.nextnode
        (if equal then instrCount + 1 else instrCount)

/-- `wimp_instr_get_instruction_count`. -/
def wimpInstrGetInstructionCount (fuel : Nat) (world : World Queue Mutex)
    (queue : Queue) (instruction : CString) : Option Nat :=
  countLoop world.memory.heap world.buffers instruction fuel
    (world.memory.queues queue).nextnode 0

/-- The name in the buffer of a node which records the size of its buffer. -/
def nameOf (world : World Queue Mutex) (node : Address) : Option Bytes := do
  let cell ← world.memory.heap node
  let address ← cell.instr.instruction
  let bytes ← world.buffers address
  if bytes.length = cell.instr.instructionBytes then instrOf bytes else none

section Count

variable {world : World Queue Mutex} {start : Option Address}

omit [DecidableEq Queue] [DecidableEq Mutex] in
/-- A comparison with the name of a node. -/
theorem countLoop_of_name
    {instruction : CString} {node : Address} {cell : WimpInstrNode}
    {name : Bytes} (found : world.memory.heap node = some cell)
    (named : nameOf world node = some name) (fuel instrCount : Nat) :
    countLoop world.memory.heap world.buffers instruction (fuel + 1)
        (some node) instrCount =
      countLoop world.memory.heap world.buffers instruction fuel
        cell.nextnode
        (if name = instruction.val then instrCount + 1
        else instrCount) := by
  rcases Option.bind_eq_some_iff.mp named with ⟨_, same, named⟩
  rw [found, Option.some.injEq] at same
  subst same
  rcases Option.bind_eq_some_iff.mp named with ⟨address, points, named⟩
  rcases Option.bind_eq_some_iff.mp named with ⟨bytes, live, named⟩
  split_ifs at named with size
  rcases Option.bind_eq_some_iff.mp named with ⟨result, read, named⟩
  rcases Option.bind_eq_some_iff.mp named with ⟨pointer, within, text⟩
  rcases exists_terminated_of_cString text with ⟨free, after, split⟩
  have compared :=
    strcmpEq_terminated free instruction.property after []
  rw [List.append_nil, ← split] at compared
  rw [wimpInstrGetFromNode, size] at read
  simp only [countLoop, found, points, live, read, within, compared,
    Option.bind_eq_bind, Option.bind_some, decide_eq_true_eq]

omit [DecidableEq Queue] [DecidableEq Mutex] in
/-- The loop counts the nodes of its chain with the name. -/
theorem countLoop_eq
    {list : List Address} (instruction : CString) {fuel : Nat}
    (chain :
      Segment world.memory.heap WimpInstrNode.nextnode start list none)
    (named : ∀ node ∈ list, (nameOf world node).isSome)
    (enough : list.length < fuel) (instrCount : Nat) :
    countLoop world.memory.heap world.buffers instruction fuel start
        instrCount =
      some
        (instrCount +
          list.countP fun node =>
            nameOf world node = some instruction.val) := by
  induction list generalizing start fuel instrCount with
  | nil =>
      rcases Nat.exists_eq_succ_of_ne_zero (by omega : fuel ≠ 0) with
        ⟨fuel, rfl⟩
      rw [show start = none from chain]
      rfl
  | cons node rest induction =>
      rcases Nat.exists_eq_succ_of_ne_zero (by omega : fuel ≠ 0) with
        ⟨fuel, rfl⟩
      rcases chain with ⟨rfl, cell, found, tail⟩
      rcases Option.isSome_iff_exists.mp
        (named node (List.mem_cons_self ..)) with ⟨name, here⟩
      have others :=
        induction tail
          (fun other member => named other (List.mem_cons_of_mem _ member))
          (by simpa using enough)
      rw [countLoop_of_name found here, others, List.countP_cons, here]
      by_cases same : name = instruction.val
      · simp [same, Nat.add_assoc, Nat.add_comm]
      · simp [same]

end Count

/--
In every state which callers reach who keep to the discipline, the count for a
live queue is the number of its nodes with the name, when each of its nodes
has one.
-/
theorem count_of_admissible
    (queues : Queue → WimpInstrQueue Mutex) {fuel : Nat}
    {actions : List (Action Queue Mutex)}
    (enough : actions.length < fuel)
    (admissible :
      Along (step fuel) Admissible (empty queues) actions) :
    ∃ world lists,
      run (step fuel) (empty queues) actions = some world ∧
        Owned world lists ∧
          ∀ queue, world.alive queue = true →
            (∀ node ∈ lists queue, (nameOf world node).isSome) →
              ∀ instruction : CString,
                wimpInstrGetInstructionCount fuel world queue
                    instruction =
                  some
                    ((lists queue).countP fun node =>
                      nameOf world node = some instruction.val) := by
  have nothing : Allocated (empty queues).memory 0 :=
    ⟨∅, Nat.le_refl 0, fun _ alive => nomatch alive⟩
  rcases exists_run (owned_empty queues) nothing (by omega) admissible with
    ⟨world, lists, ran, owned, bounded⟩
  refine ⟨world, lists, ran, owned, ?_⟩
  intro queue alive named instruction
  have chain := owned.linked.chain queue
  have length := owned.linked.length_le bounded queue
  rw [mask_queues _ alive] at chain
  have counted :=
    countLoop_eq instruction chain named
      (by omega : (lists queue).length < fuel) 0
  rwa [Nat.zero_add] at counted

/-- A queue without mutexes of its own yet. -/
private def bareRecord (_ : Unit) : WimpInstrQueue Nat :=
  { datamutex := 0, nextmutex := 0, lowpriomutex := 0 }

/-- An instruction `x` is queued in front of an instruction `y`. -/
private def queuesTwo : List (Action Unit Nat) :=
  [.create () 1 2 3, .malloc 0 (instrBytes [97] [98] [120] []),
    .malloc 1 (instrBytes [97] [98] [121] []),
    .add () { instruction := some 0, instructionBytes := 14 } (some 0),
    .add () { instruction := some 1, instructionBytes := 14 } (some 1)]

private theorem seen_queuesTwo :
    (run (step 6) (empty bareRecord) queuesTwo).map (fun world =>
        ((world.alive (), (world.memory.queues ()).nextnode),
          [0, 1].map fun node =>
            ((world.memory.heap node).map WimpInstrNode.nextnode,
              nameOf world node))) =
      some
        ((true, some 0),
          [(some (some 1), some [120]), (some none, some [121])]) := by
  decide +kernel

/-- One of the two queued instructions is an `x`. -/
theorem count_queuesTwo :
    ∃ world,
      run (step 6) (empty bareRecord) queuesTwo = some world ∧
        wimpInstrGetInstructionCount 6 world () (.ofBytes [120]) =
          some 1 := by
  rcases count_of_admissible bareRecord (by decide : _ < 6)
      (by decide +kernel : Along (step 6) Admissible _ queuesTwo) with
    ⟨world, lists, ran, owned, counted⟩
  rcases Option.map_eq_some_iff.mp seen_queuesTwo with
    ⟨same, again, seen⟩
  rw [ran, Option.some.injEq] at again
  subst again
  simp only [Prod.mk.injEq, Option.map_eq_some_iff, List.map_cons,
    List.map_nil, List.cons.injEq, and_true] at seen
  rcases seen with
    ⟨⟨alive, start⟩, ⟨⟨first, firstHere, toSecond⟩, firstName⟩,
      ⟨second, secondHere, toEnd⟩, secondName⟩
  have chain := owned.linked.chain ()
  rw [mask_queues _ alive, mask_heap, start] at chain
  have both : lists () = [0, 1] := by
    apply chain.unique
    refine ⟨rfl, first, firstHere, toSecond, second, secondHere, toEnd⟩
  refine ⟨world, ran, ?_⟩
  rw [counted () alive _ (.ofBytes [120]), both]
  · simp [firstName, secondName, CString.ofBytes]
  · rw [both]
    simp [firstName, secondName]

end Wimp.Instr.QueueLife
