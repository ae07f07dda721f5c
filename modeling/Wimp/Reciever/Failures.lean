import Wimp.Reciever.Stream

/-!
# Failed receive calls

The loop looks at the result of a receive call in the idle state only.  In
the header loop and in the data loop it goes on with the zeroed buffer, and
with an error the unsigned size even exceeds every offset, so that the rest
of a header or of an instruction is read from zeros.

When the failures arrive at harmless places, every enqueued buffer is one of
the sent instructions, all of whose bytes were received, and the order is
kept.  One error inside an instruction is enough to enqueue a buffer nobody
sent.
-/

namespace Wimp.Reciever.Failures

open Wimp.Lib.ByteRegion
open Wimp.Lib.Runs
open Wimp.Instr.Codec
open Wimp.Reciever.Machine
open Wimp.Reciever.Stream

/--
The queue holds, in order, instructions which were sent and completely
received.
-/
def OnlySent (items : List Item) (bytes : Bytes) (queue : List Bytes) :
    Prop :=
  ∃ completed remaining,
    items = completed ++ remaining ∧ encode completed <+: bytes ∧
      queue.Sublist (instructions completed)

/-- In a run whose receive calls are harmless, nothing is forged. -/
theorem onlySent_of_safe
    {asserts : Bool} {processName : Bytes} {items : List Item}
    {inputs : List Input} {config : RecieverConfig}
    (framed : ∀ item ∈ items, item.Framed)
    (delivered : receivedBytes inputs <+: encode items)
    (safe : Along (step asserts processName) SafeReceive {} inputs)
    (ran : run (step asserts processName) {} inputs = some config) :
    OnlySent items (receivedBytes inputs) config.queue := by
  rcases delivered with ⟨left, stream⟩
  rcases completed_of_run framed safe ran stream with
    ⟨completed, remaining, rfl, aligned, sublist, -⟩
  exact ⟨completed, remaining, rfl,
    encode_completed_prefix stream aligned, sublist⟩

/-- Every buffer admitted by `OnlySent` is a sent instruction. -/
theorem OnlySent.mem
    {items : List Item} {bytes buffer : Bytes} {queue : List Bytes}
    (sent : OnlySent items bytes queue) (member : buffer ∈ queue) :
    buffer ∈ instructions items := by
  rcases sent with ⟨completed, remaining, rfl, -, sublist⟩
  rw [instructions_append]
  exact List.mem_append_left _ (sublist.subset member)

/-- An instruction `c` from `b` to `a` without arguments. -/
def shortInstruction : Instruction :=
  { source := [0x62], dest := [0x61], instr := [0x63], args := [] }

/-- The run which receives the instruction in two packets around a close. -/
def closedInside : List Input :=
  [.active true, .receive (.packet (shortInstruction.bytes.take 6)), .tau,
    .tau, .tau, .tau, .tau, .malloc (some (List.replicate 14 0)), .tau,
    .receive .closed, .tau,
    .receive (.packet (shortInstruction.bytes.drop 6)), .tau, .tau,
    .node true]

/-- The run in which an error strikes inside the instruction. -/
def errorInside : List Input :=
  [.active true, .receive (.packet (shortInstruction.bytes.take 6)), .tau,
    .tau, .tau, .tau, .tau, .malloc (some (List.replicate 14 0)), .tau,
    .receive .failed, .tau, .tau, .node true]

theorem onlySent_closedInside :
    ∃ config,
      run (step true [0x7a]) {} closedInside = some config ∧
        config.queue = [shortInstruction.bytes] ∧
        OnlySent [.instr shortInstruction] (receivedBytes closedInside)
          config.queue := by
  have queued :
      (run (step true [0x7a]) {} closedInside).map (·.queue) =
        some [shortInstruction.bytes] := by
    decide +kernel
  rcases Option.map_eq_some_iff.mp queued with ⟨config, ran, queue⟩
  exact ⟨config, ran, queue,
    onlySent_of_safe (by decide) (by decide +kernel) (by decide +kernel)
      ran⟩

/--
An error behind the first six bytes fills the rest of the instruction with
zeros, and the result is enqueued.
-/
theorem not_onlySent_errorInside :
    ∃ config,
      run (step true [0x7a]) {} errorInside = some config ∧
        receivedBytes errorInside <+: encode [.instr shortInstruction] ∧
        shortInstruction.total % 256 ≠ 0 ∧
        ¬ OnlySent [.instr shortInstruction] (receivedBytes errorInside)
          config.queue := by
  have queued :
      (run (step true [0x7a]) {} errorInside).map (·.queue) =
        some [shortInstruction.bytes.take 6 ++ List.replicate 8 0] := by
    decide +kernel
  rcases Option.map_eq_some_iff.mp queued with ⟨config, ran, queue⟩
  refine ⟨config, ran, by decide +kernel, by decide, ?_⟩
  intro sent
  have member :
      shortInstruction.bytes.take 6 ++ List.replicate 8 0 ∈
        instructions [.instr shortInstruction] := by
    apply sent.mem
    rw [queue]
    exact List.mem_singleton_self _
  revert member
  decide

end Wimp.Reciever.Failures
