import Wimp.Network.Wire

/-!
# What the streams carry

A stream carries complete instructions and, while a send is under way, the
beginning of one more.  The receiver at its end has enqueued the first of the
complete instructions, and none of it is left out, repeated or changed.  When
the receiver waits and has taken everything, it has enqueued all of them.
-/

namespace Wimp.Network.Wire

open Wimp.Lib.ByteRegion
open Wimp.Lib.Runs
open Wimp.Instr.Codec
open Wimp.Instr.RoundTrip
open Wimp.ProcessTable
open Wimp.Reciever.Machine (RecieverConfig Input wimpMessageBufferBytes)
open Wimp.Reciever.Stream
open Wimp.Reciever.Delivery
open Wimp.Server.Machine (HeaderCounts)
open Wimp.Server.Queues
open Wimp.Server.Health

/-! ## Instructions which can be sent -/

/-- The bytes of an instruction which a receiver can frame and decode. -/
def Sendable (bytes : Bytes) : Prop :=
  ∃ instruction : Instruction,
    Deliverable (.instr instruction) ∧ bytes = instruction.bytes

theorem Sendable.scanned {bytes : Bytes} (sendable : Sendable bytes) :
    Scanned bytes := by
  rcases sendable with
    ⟨instruction, ⟨sourceFree, destFree, instrFree, readable, -⟩, rfl⟩
  exact ⟨scannedInstr sourceFree destFree instrFree readable, rfl⟩

theorem Sendable.headerCounts
    {bytes : Bytes} (sendable : Sendable bytes) : HeaderCounts bytes := by
  rcases sendable with ⟨instruction, ⟨-, -, -, -, small, -⟩, rfl⟩
  exact headerCounts_instrBytes small

/-- A list of such bytes encodes a list of items. -/
theorem exists_items
    {buffers : List Bytes} (sendable : ∀ bytes ∈ buffers, Sendable bytes) :
    ∃ items,
      (∀ item ∈ items, Deliverable item) ∧
        instructions items = buffers ∧
        encode items = buffers.flatten ∧
        ∀ first rest, items = first ++ rest →
          instructions first <+: buffers := by
  have found :
      ∃ items,
        (∀ item ∈ items, Deliverable item) ∧
          instructions items = buffers ∧
          encode items = buffers.flatten := by
    induction buffers with
    | nil => exact ⟨[], by simp, rfl, rfl⟩
    | cons bytes rest induction =>
        rcases sendable bytes (List.mem_cons_self ..) with
          ⟨instruction, deliverable, rfl⟩
        rcases
          induction fun other member =>
            sendable other (List.mem_cons_of_mem _ member) with
          ⟨items, all, instrs, stream⟩
        refine ⟨.instr instruction :: items, ?_, ?_, ?_⟩
        · intro item member
          rcases List.mem_cons.mp member with rfl | later
          · exact deliverable
          · exact all item later
        · rw [← instrs]
          rfl
        · rw [encode_cons, stream]
          rfl
  rcases found with ⟨items, all, instrs, stream⟩
  refine ⟨items, all, instrs, stream, ?_⟩
  rintro first rest rfl
  rw [← instrs, instructions_append]
  exact List.prefix_append _ _

/-- Only such instructions are queued, and handed to connections. -/
abbrev Genuine (server : Server.Machine.Config) : Prop :=
  CarriesOnly Sendable server

/-! ## What a receiver enqueues -/

section Enqueued

variable {asserts : Bool} {processName : Bytes}
variable {reciever after : RecieverConfig} {input : Input}

/-- Only the step which appends an instruction changes the queue. -/
theorem queue_of_step
    (moved : Reciever.Machine.step asserts processName reciever input =
      some after) :
    after.queue =
      reciever.queue ++
        ((enqueued reciever input).filter Prod.snd).toList.map Prod.fst := by
  cases Reciever.Machine.step_cases moved with
  | deactivated control => simp [enqueued]
  | startPoll control state => simp [enqueued]
  | startHeader control state => simp [enqueued]
  | resumeData control state => simp [enqueued]
  | polled received control admissible size =>
      simp [enqueued, Reciever.Machine.wimpRecieverNextPacket]
  | polledNothing received control admissible size =>
      simp [enqueued, Reciever.Machine.wimpRecieverNextPacket]
  | headerByte read control available =>
      unfold Reciever.Machine.readHeaderByte
      split <;> simp [enqueued]
  | headerReceive read received control exhausted admissible =>
      unfold Reciever.Machine.readHeaderByte
      split <;> simp [enqueued, Reciever.Machine.wimpRecieverNextPacket]
  | headerChecked read control =>
      unfold Reciever.Machine.checkHeader
      dsimp only
      split_ifs <;> simp [enqueued]
  | allocated header block control admissible =>
      unfold Reciever.Machine.beginInstruction
      dsimp only
      split
      · simp [enqueued]
      · split <;> simp [enqueued]
  | copied control incomplete =>
      unfold Reciever.Machine.copyData
      dsimp only
      split <;> simp [enqueued]
  | finished control complete =>
      unfold Reciever.Machine.finishInstruction
      split <;> simp [enqueued]
  | refilled received control admissible =>
      simp [enqueued, Reciever.Machine.wimpRecieverNextPacket]
  | enqueued disconnect granted control =>
      cases instruction : reciever.state.instruction.instruction with
      | none =>
          simp [enqueued, Reciever.Machine.enqueueInstruction, instruction]
      | some bytes =>
          cases granted <;>
            simp [enqueued, Reciever.Machine.enqueueInstruction,
              instruction, Option.filter]

theorem queue_of_nothing
    (moved : Reciever.Machine.step asserts processName reciever input =
      some after)
    (nothing : enqueued reciever input = none) :
    after.queue = reciever.queue := by
  rw [queue_of_step moved, nothing]
  exact List.append_nil _

theorem queue_of_something
    {instruction : Bytes}
    (moved : Reciever.Machine.step asserts processName reciever input =
      some after)
    (something : enqueued reciever input = some (instruction, true)) :
    after.queue = reciever.queue ++ [instruction] := by
  rw [queue_of_step moved, something]
  rfl

end Enqueued

/-! ## Receivers at the end of a stream -/

/-- A stream of complete instructions, with at most a part of another. -/
def Carries (handed : List Bytes) (wire : Bytes) : Prop :=
  ∃ part,
    wire = handed.flatten ++ part ∧
      (part = [] ∨
        ∃ front, Sendable front ∧ part <+: front ∧
          part.length < front.length)

/-- A receiver which has taken the first bytes of a stream. -/
structure Recieving (asserts : Bool) (processName : Bytes)
    (reciever : RecieverConfig) (taken wire : Bytes)
    (inputs : List Input) : Prop where
  ran :
    run (Reciever.Machine.step asserts processName) {} inputs =
      some reciever
  granted : ∀ input ∈ inputs, Granted input
  taken_eq : (packets inputs).flatten = taken
  begins : taken <+: wire

variable {asserts : Bool} {processName : Bytes}
variable {reciever : RecieverConfig} {taken wire : Bytes}
variable {inputs : List Input}

/-- More bytes on a stream are not seen by its receiver. -/
theorem Recieving.extend
    (recieving :
      Recieving asserts processName reciever taken wire inputs)
    {longer : Bytes} (grows : wire <+: longer) :
    Recieving asserts processName reciever taken longer inputs :=
  ⟨recieving.ran, recieving.granted, recieving.taken_eq,
    recieving.begins.trans grows⟩

/-- A receiver goes on by one step. -/
theorem Recieving.step
    (recieving :
      Recieving asserts processName reciever taken wire inputs)
    {input : Input} {next : RecieverConfig} (granted : Granted input)
    (arrives : taken ++ received input <+: wire)
    (moved :
      Reciever.Machine.step asserts processName reciever input =
        some next) :
    Recieving asserts processName next (taken ++ received input) wire
      (inputs ++ [input]) where
  ran := run_concat_eq_some_iff.mpr ⟨reciever, recieving.ran, moved⟩
  granted other member := by
    rcases List.mem_append.mp member with before | last
    · exact recieving.granted other before
    · exact List.mem_singleton.mp last ▸ granted
  taken_eq := by
    rw [packets_concat, List.flatten_append, recieving.taken_eq,
      received_of_granted granted]
  begins := arrives

/-- A receiver serves every stream which begins with what it has taken. -/
theorem Recieving.served
    (recieving :
      Recieving asserts processName reciever taken wire inputs)
    (nameFree : NulFree processName) {items : List Item}
    (deliverable : ∀ item ∈ items, Deliverable item)
    {later : List Bytes} (stream : taken ++ later.flatten = encode items) :
    ∃ done remaining,
      Served processName (packets inputs ++ later) items inputs reciever
        done remaining later := by
  have whole :
      (packets inputs ++ later).flatten = encode items := by
    rw [List.flatten_append, recieving.taken_eq, stream]
  rcases
    served_of_run nameFree deliverable whole
      ⟨recieving.granted, List.prefix_append _ _⟩ recieving.ran with
    ⟨done, remaining, left, served⟩
  rcases List.append_cancel_left served.segmentation_eq with rfl
  exact ⟨done, remaining, served⟩

/-- What a receiver has enqueued comes from the bytes which it has taken. -/
theorem encode_prefix_of_served
    {items done remaining : List Item} {later : List Bytes}
    (stream : taken ++ later.flatten = encode items)
    (served :
      Served processName (packets inputs ++ later) items inputs reciever
        done remaining later) :
    encode done <+: taken := by
  have aligned := served.aligned
  rw [served.items_eq] at stream
  exact encode_completed_prefix stream aligned

/--
A receiver at the end of a stream serves some items, and those which it has
done are the first of the complete instructions.
-/
theorem Recieving.exists_served
    (recieving :
      Recieving asserts processName reciever taken wire inputs)
    (nameFree : NulFree processName) {handed : List Bytes}
    (sendable : ∀ bytes ∈ handed, Sendable bytes)
    (carries : Carries handed wire) :
    ∃ items done remaining later,
      (∀ item ∈ items, Deliverable item) ∧
        instructions done <+: handed ∧
        taken ++ later = encode items ∧ wire <+: encode items ∧
        Served processName (packets inputs ++ [later]) items inputs reciever
          done remaining [later] := by
  rcases exists_items sendable with
    ⟨items, deliverable, -, complete, prefixes⟩
  rcases carries with
    ⟨part, split, nothing | ⟨front, sent, begins, less⟩⟩
  · rw [nothing, List.append_nil, ← complete] at split
    rcases recieving.begins with ⟨later, whole⟩
    have stream : taken ++ [later].flatten = encode items := by
      rw [List.flatten_singleton, whole, split]
    rcases recieving.served nameFree deliverable stream with
      ⟨done, remaining, served⟩
    exact
      ⟨items, done, remaining, later, deliverable,
        prefixes done remaining served.items_eq, whole.trans split,
        split ▸ List.prefix_rfl, served⟩
  · -- the receiver may have begun with the part, and has not completed it
    rcases sent with ⟨instruction, last, rfl⟩
    have all :
        ∀ item ∈ items ++ [.instr instruction], Deliverable item := by
      intro item member
      rcases List.mem_append.mp member with before | single
      · exact deliverable item before
      · exact List.mem_singleton.mp single ▸ last
    have encoded :
        encode (items ++ [.instr instruction]) =
          handed.flatten ++ instruction.bytes := by
      rw [encode, List.flatMap_append, List.flatMap_singleton, ← encode,
        complete]
      rfl
    have onWire : wire <+: encode (items ++ [.instr instruction]) := by
      rw [encoded, split]
      exact (List.prefix_append_right_inj _).mpr begins
    rcases recieving.begins.trans onWire with ⟨later, whole⟩
    have stream :
        taken ++ [later].flatten =
          encode (items ++ [.instr instruction]) := by
      rw [List.flatten_singleton, whole]
    rcases recieving.served nameFree all stream with
      ⟨done, remaining, served⟩
    refine
      ⟨_, done, remaining, later, all, ?_, whole, onWire, served⟩
    rcases List.eq_nil_or_concat remaining with rfl | ⟨before, item, rfl⟩
    · have short :=
        ((encode_prefix_of_served stream served).trans
          recieving.begins).length_le
      have items_eq := served.items_eq
      rw [List.append_nil] at items_eq
      rw [← items_eq, encoded, split, List.length_append,
        List.length_append] at short
      omega
    · have items_eq := served.items_eq
      rw [List.concat_eq_append, ← List.append_assoc] at items_eq
      exact prefixes done before (List.append_inj_left' items_eq rfl)

/--
A receiver at the end of a stream has enqueued the first of the complete
instructions on it, and has not left its buffers.
-/
theorem Recieving.queue_prefix
    (recieving :
      Recieving asserts processName reciever taken wire inputs)
    (nameFree : NulFree processName) {handed : List Bytes}
    (sendable : ∀ bytes ∈ handed, Sendable bytes)
    (carries : Carries handed wire) :
    reciever.queue <+: handed ∧ reciever.control ≠ .fault ∧
      reciever.control ≠ .aborted := by
  rcases recieving.exists_served nameFree sendable carries with
    ⟨items, done, remaining, later, -, first, -, -, served⟩
  exact ⟨served.queue_eq ▸ first, served.sound⟩

/-- A receiver which goes on has enqueued no exit for its process. -/
theorem Recieving.noExit
    (recieving :
      Recieving asserts processName reciever taken wire inputs)
    (nameFree : NulFree processName) {handed : List Bytes}
    (sendable : ∀ bytes ∈ handed, Sendable bytes)
    (carries : Carries handed wire) {input : Input} {next : RecieverConfig}
    (moved :
      Reciever.Machine.step asserts processName reciever input =
        some next) :
    NoExit processName reciever.queue := by
  rcases recieving.exists_served nameFree sendable carries with
    ⟨items, done, remaining, later, -, -, -, -, served⟩
  apply served.tracked.running
  intro stopped
  unfold Reciever.Machine.step at moved
  rw [stopped] at moved
  cases moved

/-- A receiver stops only behind an exit instruction for its process. -/
theorem Recieving.stops
    (recieving :
      Recieving asserts processName reciever taken wire inputs)
    (nameFree : NulFree processName) {handed : List Bytes}
    (sendable : ∀ bytes ∈ handed, Sendable bytes)
    (carries : Carries handed wire)
    (stopped : reciever.control = .stopped) :
    ∃ instruction,
      Exits processName instruction ∧
        instruction.bytes ∈ reciever.queue := by
  rcases recieving.exists_served nameFree sendable carries with
    ⟨items, done, remaining, later, deliverable, -, -, -, served⟩
  rcases served.tracked.stopped stopped with ⟨earlier, last, queue, -, exit⟩
  have member : last ∈ reciever.queue := by
    rw [queue]
    exact List.mem_append_right _ (List.mem_singleton_self _)
  rcases served.decodes deliverable member with
    ⟨instruction, result, sent, rfl, -⟩
  refine ⟨instruction, ?_, member⟩
  rw [exitSignal_of_deliverable nameFree (deliverable _ sent),
    Option.some.injEq, decide_eq_true_iff] at exit
  exact exit

/--
A receiver which waits behind everything that a stream has accepted has
enqueued all of it.
-/
theorem Recieving.queue_eq
    (recieving :
      Recieving asserts processName reciever taken wire inputs)
    (nameFree : NulFree processName) {handed : List Bytes}
    (sendable : ∀ bytes ∈ handed, Sendable bytes)
    (complete : wire = handed.flatten) (used : taken = wire)
    (awaits : AwaitsPacket reciever) :
    reciever.queue = handed := by
  rcases exists_items sendable with
    ⟨items, deliverable, instrs, encoded, -⟩
  have stream : taken ++ [].flatten = encode items := by
    rw [used, complete, encoded, List.flatten_nil, List.append_nil]
  rcases recieving.served nameFree deliverable stream with
    ⟨done, remaining, served⟩
  have nothing :=
    served.remaining_eq_nil (List.append_nil _).symm awaits
  have items_eq := served.items_eq
  rw [nothing, List.append_nil] at items_eq
  rw [served.queue_eq, ← items_eq, instrs]

end Wimp.Network.Wire
