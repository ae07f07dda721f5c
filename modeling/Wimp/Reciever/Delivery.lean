import Wimp.Instr.RoundTrip
import Wimp.Reciever.Stream

/-!
# End-to-end delivery over one link

The environment of this module never fails: the active flag stays set, every
receive call returns the next packet of a fixed segmentation of the stream,
and every allocation succeeds.  Under such an environment the loop cannot get
stuck before the stream is used up, cannot run for ever without a new packet,
and enqueues exactly the sent instructions, up to and including the first one
which tells this process to exit.

The control flow is tracked by `Filled`, the exit test by `ExitTracked`, and
termination by the measure `work`; the bytes are tracked by `Aligned`.
-/

namespace Wimp.Reciever.Delivery

open Wimp.Lib.ByteRegion
open Wimp.Lib.Runs
open Wimp.Instr.Codec
open Wimp.Instr.RoundTrip
open Wimp.Reciever.Machine
open Wimp.Reciever.Window
open Wimp.Reciever.Stream

/-! ## What is sent -/

/-- The instruction tells the named process to exit. -/
def Exits (processName : Bytes) (instruction : Instruction) : Prop :=
  instruction.instr = wimpInstructionExit ∧
    instruction.dest = processName

instance (processName : Bytes) (instruction : Instruction) :
    Decidable (Exits processName instruction) :=
  inferInstanceAs (Decidable (_ ∧ _))

/-- The buffers a process should receive from a sequence of items. -/
def delivered (processName : Bytes) : List Item → List Bytes
  | [] => []
  | .ping :: rest => delivered processName rest
  | .instr instruction :: rest =>
      if Exits processName instruction then
        [instruction.bytes]
      else
        instruction.bytes :: delivered processName rest

/-- The instructions the receiver can frame and decode. -/
def Deliverable : Item → Prop
  | .ping => True
  | .instr instruction =>
      NulFree instruction.source ∧ NulFree instruction.dest ∧
        NulFree instruction.instr ∧
        Readable instruction.source instruction.dest instruction.instr
          instruction.args ∧
        instruction.total < 2 ^ 31 ∧
        instruction.total ≠ wimpRecieverPing

instance (item : Item) : Decidable (Deliverable item) :=
  match item with
  | .ping => inferInstanceAs (Decidable True)
  | .instr _ => inferInstanceAs (Decidable (_ ∧ _))

theorem Deliverable.framed {item : Item} (deliverable : Deliverable item) :
    item.Framed := by
  cases item with
  | ping => trivial
  | instr instruction => exact deliverable.2.2.2.2

/-! ## The exit test on a sent instruction -/

/-- A complete buffer, as the exit test sees it. -/
def completed (buffer : Bytes) : WimpInstr :=
  { instruction := some buffer, instructionBytes := buffer.length }

/-- The exit test is decided by the sent names. -/
theorem exitSignal_of_deliverable
    {processName : Bytes} {instruction : Instruction}
    (nameFree : NulFree processName)
    (deliverable : Deliverable (.instr instruction)) :
    exitSignal processName (completed instruction.bytes) =
      some (decide (Exits processName instruction)) := by
  rcases deliverable with
    ⟨sourceFree, destFree, instrFree, readable, small, -⟩
  rcases denotes_of_readable sourceFree destFree instrFree small readable with
    ⟨result, decoded, -, denotes⟩
  rcases Option.bind_eq_some_iff.mp denotes.dest_eq with
    ⟨dest, destPointer, destText⟩
  rcases Option.bind_eq_some_iff.mp denotes.instr_eq with
    ⟨instr, instrPointer, instrText⟩
  have exitText :
      cString (terminated wimpInstructionExit) =
        some wimpInstructionExit := by
    decide
  have nameText : cString (terminated processName) = some processName := by
    simpa using cString_terminated nameFree []
  have named := strcmpEq_of_cString instrText exitText
  have addressed := strcmpEq_of_cString destText nameText
  rw [← length_instrBytes] at decoded
  simp only [exitSignal, completed, Instruction.bytes, decoded,
    instrPointer, destPointer, named, addressed, Option.bind_eq_bind,
    Option.bind_some]
  by_cases exit : instruction.instr = wimpInstructionExit
  · simp [Exits, exit]
  · simp [Exits, exit]

/-! ## The granted environment -/

/-- The environment neither deactivates the receiver nor fails a call. -/
def Granted : Input → Prop
  | .tau => True
  | .active flag => flag = true
  | .receive (.packet bytes) => bytes ≠ []
  | .receive .closed => False
  | .receive .failed => False
  | .malloc block => block.isSome
  | .node granted => granted = true

/-- The packet which one step takes from the connection. -/
def packet : Input → List Bytes
  | .receive (.packet bytes) => [bytes]
  | _ => []

/-- The packets which a run takes from the connection. -/
def packets (inputs : List Input) : List Bytes :=
  inputs.flatMap packet

/-- A run whose environment serves a fixed segmentation, and never fails. -/
structure Serves (segmentation : List Bytes) (inputs : List Input) :
    Prop where
  granted : ∀ input ∈ inputs, Granted input
  in_order : packets inputs <+: segmentation

theorem received_of_granted {input : Input} (granted : Granted input) :
    received input = (packet input).flatten := by
  cases input with
  | receive received =>
      cases received with
      | packet bytes => simp [Stream.received, packet, Received.bytes]
      | closed => exact granted.elim
      | failed => exact granted.elim
  | tau => rfl
  | active flag => rfl
  | malloc block => rfl
  | node granted => rfl

/-! ## Filled windows -/

/-- Outside the idle state the last receive call returned a packet. -/
def Filled (config : RecieverConfig) : Prop :=
  match config.control with
  | .top =>
      config.state.state = .idle ∨ 0 < config.state.incomingSize
  | .poll => True
  | .stopped => True
  | .aborted => True
  | .fault => True
  | _ => 0 < config.state.incomingSize

/-- A granted receive call returns a packet. -/
theorem exists_packet_of_granted
    {received : Received} (granted : Granted (.receive received)) :
    ∃ byte rest, received = .packet (byte :: rest) := by
  cases received with
  | packet bytes =>
      rcases List.exists_cons_of_ne_nil granted with ⟨byte, rest, rfl⟩
      exact ⟨byte, rest, rfl⟩
  | closed => exact granted.elim
  | failed => exact granted.elim

/-- A granted receive call into a filled window does no harm. -/
theorem safeReceive_of_granted
    {config : RecieverConfig} {input : Input}
    (filled : Filled config) (granted : Granted input) :
    SafeReceive config input := by
  cases input with
  | receive received =>
      rcases exists_packet_of_granted granted with ⟨byte, rest, rfl⟩
      cases control : config.control with
      | header read =>
          simp only [Filled, control] at filled
          simp only [SafeReceive, Tolerates, control]
          exact Or.inr (iff_of_true filled (by simp [Received.size]))
      | refill => simp [SafeReceive, Tolerates, control]
      | _ => simp [SafeReceive, Tolerates, control]
  | _ => simp [SafeReceive]

/-! ## The work left -/

/-- The steps of the loop between two bytes of the stream, counted down. -/
def rank : Control → Nat
  | .checkHeader _ => 6
  | .allocate _ => 5
  | .data => 4
  | .refill => 3
  | .enqueue _ => 3
  | .top => 2
  | .poll => 1
  | .header _ => 1
  | .stopped => 0
  | .aborted => 0
  | .fault => 0

/--
A bound on the steps a run can still make.  Eight steps pay for a byte, and
two more for a packet.
-/
def work (left : List Bytes) (config : RecieverConfig) : Nat :=
  8 * ((unread config).length + left.flatten.length) + 2 * left.length +
    rank config.control

/-! ## The exit test over a run -/

/-- No enqueued instruction tells this process to exit. -/
def NoExit (processName : Bytes) (queue : List Bytes) : Prop :=
  ∀ buffer ∈ queue, exitSignal processName (completed buffer) ≠ some true

/-- The loop stops right behind the first exit instruction. -/
structure ExitTracked (processName : Bytes) (config : RecieverConfig) :
    Prop where
  stopped :
    config.control = .stopped →
      ∃ earlier last,
        config.queue = earlier ++ [last] ∧ NoExit processName earlier ∧
          exitSignal processName (completed last) = some true
  running : config.control ≠ .stopped → NoExit processName config.queue
  flagged :
    ∀ disconnect, config.control = .enqueue disconnect →
      exitSignal processName config.state.instruction = some disconnect

/-- Away from the end of an instruction the exit test plays no part. -/
theorem ExitTracked.congr
    {processName : Bytes} {config next : RecieverConfig}
    (tracked : ExitTracked processName config)
    (running : config.control ≠ .stopped)
    (queue : next.queue = config.queue)
    (control : next.control ≠ .stopped ∧
      ∀ disconnect, next.control ≠ .enqueue disconnect) :
    ExitTracked processName next where
  stopped := fun stopped => absurd stopped control.1
  running := fun _ => by rw [queue]; exact tracked.running running
  flagged := fun disconnect enqueue =>
    absurd enqueue (control.2 disconnect)

/-! ## One step -/

/-- What a granted step keeps, and what it uses up. -/
structure Progressed (processName : Bytes) (left : List Bytes)
    (config next : RecieverConfig) (input : Input) : Prop where
  filled : Filled next
  sound : next.control ≠ .fault ∧ next.control ≠ .aborted
  work_lt : work left next < work (packet input ++ left) config
  tracked : ExitTracked processName next

/-- A step which moves control only. -/
private theorem progressed_of_control
    {processName : Bytes} {left : List Bytes}
    {config : RecieverConfig} {control : Control} {input : Input}
    (filled : Filled { config with control := control })
    (sound : control ≠ .fault ∧ control ≠ .aborted)
    (ranked : rank control < rank config.control)
    (silent : packet input = [])
    (tracked : ExitTracked processName { config with control := control }) :
    Progressed processName left config { config with control := control }
      input where
  filled := filled
  sound := sound
  work_lt := by
    have window : unread { config with control := control } =
        unread config := rfl
    simp only [work, silent, List.nil_append, window]
    omega
  tracked := tracked

/-- The header loop takes one byte of the stream. -/
private theorem progressed_readHeaderByte
    {processName : Bytes} {left : List Bytes}
    {config window : RecieverConfig} {input : Input} {read : Bytes}
    {byte : UInt8} {rest : Bytes}
    (control : config.control = .header read)
    (unreadBytes : unread window = byte :: rest)
    (size : 0 < window.state.incomingSize)
    (queue : window.queue = config.queue)
    (paid :
      8 * (unread window).length + 8 * left.flatten.length +
          2 * left.length ≤
        8 * (unread config).length +
          8 * (packet input ++ left).flatten.length +
          2 * (packet input ++ left).length)
    (tracked : ExitTracked processName config) :
    Progressed processName left config (readHeaderByte window read)
      input := by
  have rest' := unread_readHeaderByte unreadBytes read
  have next := readHeaderByte_eq unreadBytes read
  have nextControl :
      (readHeaderByte window read).control = .header (read ++ [byte]) ∨
        (readHeaderByte window read).control =
          .checkHeader (read ++ [byte]) := by
    rw [next]
    simp only
    split_ifs
    · exact Or.inl rfl
    · exact Or.inr rfl
  have nextSize :
      (readHeaderByte window read).state.incomingSize =
        window.state.incomingSize := by
    rw [next]
  have nextQueue : (readHeaderByte window read).queue = config.queue := by
    rw [next]
    exact queue
  rw [unreadBytes, List.length_cons] at paid
  constructor
  case filled =>
    rcases nextControl with header | check
    · simp only [Filled, header, nextSize]
      exact size
    · simp only [Filled, check, nextSize]
      exact size
  case sound =>
    rcases nextControl with header | check
    · simp [header]
    · simp [check]
  case work_lt =>
    rcases nextControl with header | check
    · simp only [work, rest', header, control, rank]
      omega
    · simp only [work, rest', check, control, rank]
      omega
  case tracked =>
    refine tracked.congr (by simp [control]) nextQueue ?_
    rcases nextControl with header | check
    · simp [header]
    · simp [check]

private theorem progressed_headerChecked
    {asserts : Bool} {processName : Bytes} {left : List Bytes}
    {items : List Item} {config : RecieverConfig} {read : Bytes}
    (deliverable : ∀ item ∈ items, Deliverable item)
    (control : config.control = .checkHeader read)
    (filled : Filled config)
    (tracked : ExitTracked processName config)
    (aligned : Aligned left.flatten items config) :
    Progressed processName left config (checkHeader asserts config read)
      .tau := by
  simp only [Filled, control] at filled
  simp only [Aligned, control] at aligned
  rcases aligned with ⟨-, length, ⟨-, stream⟩ | ⟨size, -, -⟩⟩
  · rcases header_of_stream length stream with ⟨item, remaining, rfl, rfl, -⟩
    rw [checkHeader_of_framed asserts config
      (deliverable item (List.mem_cons_self ..)).framed]
    cases item with
    | ping =>
        exact progressed_of_control (Or.inr filled)
          (by simp [Item.afterHeader])
          (by simp [Item.afterHeader, control, rank]) rfl
          (tracked.congr (by simp [control]) rfl
            (by simp [Item.afterHeader]))
    | instr instruction =>
        exact progressed_of_control filled
          (by simp [Item.afterHeader])
          (by simp [Item.afterHeader, control, rank]) rfl
          (tracked.congr (by simp [control]) rfl
            (by simp [Item.afterHeader]))
  · omega

private theorem progressed_allocated
    {processName : Bytes} {left : List Bytes} {items : List Item}
    {config : RecieverConfig} {header : Int} {block : Option Bytes}
    (deliverable : ∀ item ∈ items, Deliverable item)
    (control : config.control = .allocate header)
    (admissible : BlockAdmissible header block)
    (granted : Granted (.malloc block))
    (filled : Filled config)
    (tracked : ExitTracked processName config)
    (aligned : Aligned left.flatten items config) :
    Progressed processName left config
      (beginInstruction config header block) (.malloc block) := by
  simp only [Filled, control] at filled
  simp only [Aligned, control] at aligned
  rcases aligned with ⟨instruction, remaining, rfl, rfl, -, -⟩
  rcases Option.isSome_iff_exists.mp granted with ⟨block, rfl⟩
  have framed := (deliverable _ (List.mem_cons_self ..)).framed
  have large := instruction.four_lt_total
  have small : instruction.total < 2 ^ 31 := framed.1
  rcases admissible block rfl with ⟨length, -⟩
  rw [toSizeT_natCast (by omega)] at length
  rw [beginInstruction_granted config length (by omega) small]
  constructor
  case filled => exact filled
  case sound => simp
  case work_lt =>
    simp only [work, control, rank, packet, List.nil_append, unread]
    omega
  case tracked => exact tracked.congr (by simp [control]) rfl (by simp)

private theorem progressed_copied
    {processName : Bytes} {left : List Bytes} {items : List Item}
    {config : RecieverConfig}
    (control : config.control = .data)
    (incomplete : config.state.instructionBytesRead ≠
      config.state.instruction.instructionBytes)
    (filled : Filled config)
    (tracked : ExitTracked processName config)
    (aligned : Aligned left.flatten items config) :
    Progressed processName left config (copyData config) .tau := by
  simp only [Filled, control] at filled
  simp only [Aligned, control] at aligned
  rcases aligned with ⟨instruction, remaining, buffer, data⟩
  rcases copyData_live data.window data.filling with
    ⟨moved, target, count, window, -, -, result, -, -⟩
  have readLe := data.filling.read_le
  rw [data.filling.instruction_eq] at incomplete
  have windowLength := congrArg List.length window
  rw [List.length_append] at windowLength
  have size :
      (copyData config).state.incomingSize = config.state.incomingSize := by
    rw [result]
  have queue : (copyData config).queue = config.queue := by rw [result]
  have nextControl :
      (copyData config).control =
        if config.state.instructionBytesRead + moved.length ≠
            buffer.length then .refill
        else .data := by
    rw [result]
  split_ifs at nextControl with unfinished
  · constructor
    case filled =>
      simp only [Filled, nextControl, size]
      exact filled
    case sound => simp [nextControl]
    case work_lt =>
      simp only [work, control, nextControl, rank, packet, List.nil_append]
      omega
    case tracked =>
      exact tracked.congr (by simp [control]) queue (by simp [nextControl])
  · -- the last bytes were copied, so at least one byte was
    simp only at incomplete
    constructor
    case filled =>
      simp only [Filled, nextControl, size]
      exact filled
    case sound => simp [nextControl]
    case work_lt =>
      simp only [work, control, nextControl, rank, packet, List.nil_append]
      omega
    case tracked =>
      exact tracked.congr (by simp [control]) queue (by simp [nextControl])

private theorem progressed_finished
    {processName : Bytes} {left : List Bytes} {items : List Item}
    {config : RecieverConfig}
    (nameFree : NulFree processName)
    (deliverable : ∀ item ∈ items, Deliverable item)
    (control : config.control = .data)
    (complete : config.state.instructionBytesRead =
      config.state.instruction.instructionBytes)
    (filled : Filled config)
    (tracked : ExitTracked processName config)
    (aligned : Aligned left.flatten items config) :
    Progressed processName left config
      (finishInstruction processName config) .tau := by
  simp only [Filled, control] at filled
  simp only [Aligned, control] at aligned
  rcases aligned with ⟨instruction, remaining, buffer, data⟩
  have stream := data.stream
  rw [complete, data.filling.instruction_eq, List.take_length] at stream
  have bytes : buffer = instruction.bytes :=
    List.append_inj_left stream
      (by rw [data.length_eq, Instruction.length_bytes])
  have known : Deliverable (.instr instruction) :=
    deliverable _ (by rw [data.items_eq]; exact List.mem_cons_self ..)
  have signal :
      exitSignal processName config.state.instruction =
        some (decide (Exits processName instruction)) := by
    rw [data.filling.instruction_eq, bytes]
    exact exitSignal_of_deliverable nameFree known
  have result :
      finishInstruction processName config =
        { config with
          control :=
            .enqueue (decide (Exits processName instruction)) } := by
    rw [finishInstruction, signal]
  rw [result]
  refine progressed_of_control filled (by simp)
    (by simp [control, rank]) rfl ?_
  constructor
  case stopped => simp
  case running =>
    intro _
    exact tracked.running (by simp [control])
  case flagged =>
    intro disconnect enqueue
    rw [Control.enqueue.injEq] at enqueue
    rw [← enqueue]
    exact signal

private theorem progressed_enqueued
    {processName : Bytes} {left : List Bytes} {items : List Item}
    {config : RecieverConfig} {disconnect granted : Bool}
    (control : config.control = .enqueue disconnect)
    (granting : Granted (.node granted))
    (filled : Filled config)
    (tracked : ExitTracked processName config)
    (aligned : Aligned left.flatten items config) :
    Progressed processName left config
      (enqueueInstruction config disconnect granted) (.node granted) := by
  simp only [Filled, control] at filled
  simp only [Aligned, control] at aligned
  rcases aligned with ⟨instruction, remaining, -, complete, -, -⟩
  have granted : granted = true := granting
  subst granted
  have signal := tracked.flagged disconnect control
  have earlier := tracked.running (by simp [control])
  have queue :
      (enqueueInstruction config disconnect true).queue =
        config.queue ++ [instruction.bytes] := by
    simp [enqueueInstruction, complete]
  rw [complete, ← Instruction.length_bytes] at signal
  constructor
  case filled =>
    cases disconnect with
    | true => trivial
    | false => exact Or.inr filled
  case sound =>
    cases disconnect <;> simp [enqueueInstruction]
  case work_lt =>
    have window : unread (enqueueInstruction config disconnect true) =
        unread config := rfl
    rw [work, work, window, control]
    cases disconnect with
    | true =>
        simp only [enqueueInstruction, rank, packet, List.nil_append,
          if_true]
        omega
    | false =>
        simp only [enqueueInstruction, rank, packet, List.nil_append,
          Bool.false_eq_true, if_false]
        omega
  case tracked =>
    cases disconnect with
    | true =>
        constructor
        case stopped =>
          intro _
          exact ⟨config.queue, instruction.bytes, queue, earlier, signal⟩
        case running => simp [enqueueInstruction]
        case flagged => simp [enqueueInstruction]
    | false =>
        constructor
        case stopped => simp [enqueueInstruction]
        case running =>
          intro _ buffer member
          rw [queue, List.mem_append, List.mem_singleton] at member
          rcases member with old | rfl
          · exact earlier buffer old
          · rw [completed, signal]
            simp
        case flagged => simp [enqueueInstruction]

/-- Every granted step makes progress. -/
theorem progressed_of_step
    {asserts : Bool} {processName : Bytes} {left : List Bytes}
    {items : List Item} {config next : RecieverConfig} {input : Input}
    (nameFree : NulFree processName)
    (deliverable : ∀ item ∈ items, Deliverable item)
    (granted : Granted input)
    (filled : Filled config)
    (tracked : ExitTracked processName config)
    (aligned : Aligned (packet input ++ left).flatten items config)
    (stepped : step asserts processName config input = some next) :
    Progressed processName left config next input := by
  cases step_cases stepped with
  | deactivated control => exact absurd granted (by simp [Granted])
  | startPoll control state =>
      exact progressed_of_control trivial (by simp)
        (by simp [control, rank]) rfl
        (tracked.congr (by simp [control]) rfl (by simp))
  | startHeader control state =>
      simp only [Filled, control, state, reduceCtorEq, false_or] at filled
      exact progressed_of_control filled (by simp)
        (by simp [control, rank]) rfl
        (tracked.congr (by simp [control]) rfl (by simp))
  | resumeData control state =>
      simp only [Aligned, control, state] at aligned
  | polled received control admissible size =>
      rcases exists_packet_of_granted granted with ⟨byte, rest, rfl⟩
      constructor
      case filled => exact size
      case sound => simp
      case work_lt =>
        have window :=
          unread_nextPacket config (.packet (byte :: rest))
        rw [work, work, control]
        simp only [unread, packet, rank, List.singleton_append,
          List.flatten_cons, List.length_append, List.length_cons]
          at window ⊢
        rw [window, Received.bytes, List.length_cons]
        omega
      case tracked =>
        exact tracked.congr (by simp [control]) rfl (by simp)
  | polledNothing received control admissible size =>
      rcases exists_packet_of_granted granted with ⟨byte, rest, rfl⟩
      simp only [Received.size, List.length_cons] at size
      omega
  | headerByte read control available =>
      simp only [Filled, control] at filled
      simp only [Aligned, control] at aligned
      rcases aligned with ⟨-, -, ⟨window, -, -⟩ | ⟨-, zeros, -⟩⟩
      · rw [exhausted_iff window] at available
        rcases List.exists_cons_of_ne_nil available with
          ⟨byte, rest, nonempty⟩
        exact progressed_readHeaderByte control nonempty filled rfl
          (by simp [packet]) tracked
      · have size := zeros.size_nonpos
        omega
  | headerReceive read received control exhausted admissible =>
      rcases exists_packet_of_granted granted with ⟨byte, rest, rfl⟩
      have window := unread_nextPacket config (.packet (byte :: rest))
      refine progressed_readHeaderByte control window ?_ rfl ?_ tracked
      · simp only [wimpRecieverNextPacket, Received.size, List.length_cons]
        omega
      · rw [window]
        simp only [packet, Received.bytes, List.singleton_append,
          List.flatten_cons, List.length_append, List.length_cons]
        omega
  | headerChecked read control =>
      exact progressed_headerChecked deliverable control filled tracked
        aligned
  | allocated header block control admissible =>
      exact progressed_allocated deliverable control admissible granted
        filled tracked aligned
  | copied control incomplete =>
      exact progressed_copied control incomplete filled tracked aligned
  | finished control complete =>
      exact progressed_finished nameFree deliverable control complete
        filled tracked aligned
  | refilled received control admissible =>
      rcases exists_packet_of_granted granted with ⟨byte, rest, rfl⟩
      constructor
      case filled =>
        simp only [Filled, wimpRecieverNextPacket, Received.size,
          List.length_cons]
        omega
      case sound => simp
      case work_lt =>
        have window :=
          unread_nextPacket config (.packet (byte :: rest))
        rw [work, work, control]
        simp only [unread, packet, rank, List.singleton_append,
          List.flatten_cons, List.length_append, List.length_cons]
          at window ⊢
        rw [window, Received.bytes, List.length_cons]
        omega
      case tracked =>
        exact tracked.congr (by simp [control]) rfl (by simp)
  | enqueued disconnect granted' control =>
      exact progressed_enqueued control granted filled tracked aligned

/-! ## Whole runs -/

/-- What is known about every state of a served run. -/
structure Served (processName : Bytes) (segmentation : List Bytes)
    (items : List Item) (inputs : List Input) (config : RecieverConfig)
    (done remaining : List Item) (left : List Bytes) : Prop where
  segmentation_eq : segmentation = packets inputs ++ left
  items_eq : items = done ++ remaining
  aligned : Aligned left.flatten remaining config
  queue_eq : config.queue = instructions done
  filled : Filled config
  tracked : ExitTracked processName config
  sound : config.control ≠ .fault ∧ config.control ≠ .aborted
  work_le : inputs.length + work left config ≤ work segmentation {}

theorem packets_concat (inputs : List Input) (input : Input) :
    packets (inputs ++ [input]) = packets inputs ++ packet input := by
  simp [packets]

/-- The invariants hold in every state of a served run. -/
theorem served_of_run
    {asserts : Bool} {processName : Bytes} {items : List Item}
    {segmentation : List Bytes} {inputs : List Input}
    {config : RecieverConfig}
    (nameFree : NulFree processName)
    (deliverable : ∀ item ∈ items, Deliverable item)
    (stream : segmentation.flatten = encode items)
    (serves : Serves segmentation inputs)
    (ran : run (step asserts processName) {} inputs = some config) :
    ∃ done remaining left,
      Served processName segmentation items inputs config done remaining
        left := by
  refine run_induction
    (motive := fun inputs config =>
      Serves segmentation inputs →
        ∃ done remaining left,
          Served processName segmentation items inputs config done
            remaining left)
    ?_ ?_ ran serves
  · intro _
    refine ⟨[], items, segmentation, ?_⟩
    constructor
    case segmentation_eq => rfl
    case items_eq => rfl
    case aligned => exact stream
    case queue_eq => rfl
    case filled => exact Or.inl rfl
    case tracked => constructor <;> simp [NoExit]
    case sound => simp
    case work_le => simp
  · intro inputs config input next earlier induction stepped serves
    rcases serves with ⟨granted, left, whole⟩
    rw [packets_concat, List.append_assoc] at whole
    have before : Serves segmentation inputs :=
      ⟨fun input member => granted input (List.mem_append_left _ member),
        packet input ++ left, whole⟩
    have grantedInput : Granted input :=
      granted input (List.mem_append_right _ (List.mem_singleton_self _))
    rcases induction before with ⟨done, remaining, ahead, served⟩
    obtain rfl : packet input ++ left = ahead :=
      List.append_cancel_left (whole.trans served.segmentation_eq)
    have remainingDeliverable : ∀ item ∈ remaining, Deliverable item := by
      intro item member
      refine deliverable item ?_
      rw [served.items_eq]
      exact List.mem_append_right _ member
    have progressed := progressed_of_step nameFree remainingDeliverable
      grantedInput served.filled served.tracked served.aligned stepped
    have aligned := served.aligned
    rw [List.flatten_append, ← received_of_granted grantedInput] at aligned
    rcases
      advanced_of_step
        (fun item member => (remainingDeliverable item member).framed)
        (safeReceive_of_granted served.filled grantedInput) aligned stepped with
      ⟨taken, rest, split, aligned, queued | ⟨refused, -⟩⟩
    · refine ⟨done ++ taken, rest, left, ?_⟩
      constructor
      case segmentation_eq =>
        rw [packets_concat, List.append_assoc, whole]
      case items_eq => rw [served.items_eq, split, List.append_assoc]
      case aligned => exact aligned
      case queue_eq => rw [queued, served.queue_eq, instructions_append]
      case filled => exact progressed.filled
      case tracked => exact progressed.tracked
      case sound => exact progressed.sound
      case work_le =>
        have workLt := progressed.work_lt
        have workLe := served.work_le
        rw [List.length_append, List.length_singleton]
        omega
    · rw [refused] at grantedInput
      exact absurd grantedInput (by simp [Granted])

/-! ## The delivered instructions -/

private theorem not_exits_of_noExit
    {processName : Bytes} {items : List Item}
    (nameFree : NulFree processName)
    (deliverable : ∀ item ∈ items, Deliverable item)
    (noExit : NoExit processName (instructions items))
    {instruction : Instruction} (member : .instr instruction ∈ items) :
    ¬ Exits processName instruction := by
  intro exits
  have signal :=
    exitSignal_of_deliverable nameFree (deliverable _ member)
  refine noExit instruction.bytes ?_ (signal.trans (by simp [exits]))
  exact List.mem_flatMap.mpr ⟨_, member, List.mem_singleton_self _⟩

/-- Without an exit instruction in front, delivery goes on. -/
theorem delivered_append
    {processName : Bytes} {done : List Item} (remaining : List Item)
    (noExit :
      ∀ instruction, .instr instruction ∈ done →
        ¬ Exits processName instruction) :
    delivered processName (done ++ remaining) =
      instructions done ++ delivered processName remaining := by
  induction done with
  | nil => rfl
  | cons item rest induction =>
      have tail := induction fun instruction member =>
        noExit instruction (List.mem_cons_of_mem _ member)
      cases item with
      | ping => exact tail
      | instr instruction =>
          have head := noExit instruction (List.mem_cons_self ..)
          rw [List.cons_append, delivered, if_neg head, tail]
          rfl

/-- Behind an exit instruction nothing is delivered. -/
theorem delivered_append_exit
    {processName : Bytes} {done : List Item} (remaining : List Item)
    (nameFree : NulFree processName)
    (deliverable : ∀ item ∈ done, Deliverable item)
    {earlier : List Bytes} {last : Bytes}
    (split : instructions done = earlier ++ [last])
    (noExit : NoExit processName earlier)
    (exit : exitSignal processName (completed last) = some true) :
    delivered processName (done ++ remaining) = earlier ++ [last] := by
  induction done generalizing earlier with
  | nil => simp [instructions] at split
  | cons item rest induction =>
      have tailDeliverable : ∀ item ∈ rest, Deliverable item :=
        fun item member => deliverable item (List.mem_cons_of_mem _ member)
      cases item with
      | ping => exact induction tailDeliverable split noExit
      | instr instruction =>
          have signal := exitSignal_of_deliverable nameFree
            (deliverable _ (List.mem_cons_self ..))
          have split' :
              instruction.bytes :: instructions rest =
                earlier ++ [last] :=
            split
          rw [List.cons_append, delivered]
          cases earlier with
          | nil =>
              rcases List.cons.inj split' with ⟨rfl, -⟩
              rw [signal, Option.some.injEq, decide_eq_true_iff] at exit
              rw [if_pos exit]
              rfl
          | cons first others =>
              rcases List.cons.inj split' with ⟨rfl, splitRest⟩
              have continues : ¬ Exits processName instruction := by
                intro exits
                exact noExit instruction.bytes (List.mem_cons_self ..)
                  (signal.trans (by simp [exits]))
              rw [if_neg continues,
                induction tailDeliverable splitRest fun buffer member =>
                  noExit buffer (List.mem_cons_of_mem _ member)]
              rfl

theorem eq_nil_of_length_encode_lt
    {items : List Item} (short : (encode items).length < 4) :
    items = [] := by
  cases items with
  | nil => rfl
  | cons item rest =>
      rw [encode_cons, Item.bytes] at short
      simp only [List.length_append, length_toLE] at short
      omega

/-! ## The end of a run -/

/-- The loop is blocked in a receive call. -/
def AwaitsPacket (config : RecieverConfig) : Prop :=
  match config.control with
  | .poll => True
  | .header _ => Exhausted config.state
  | .refill => True
  | _ => False

/-- The loop has stopped, or waits behind the last packet. -/
def Finished (segmentation : List Bytes) (inputs : List Input)
    (config : RecieverConfig) : Prop :=
  config.control = .stopped ∨
    packets inputs = segmentation ∧ AwaitsPacket config

section Served

variable {asserts : Bool} {processName : Bytes} {items : List Item}
variable {segmentation : List Bytes} {inputs : List Input}
variable {config : RecieverConfig} {done remaining : List Item}
variable {left : List Bytes}

/-- Behind the last packet nothing remains to be done. -/
theorem Served.remaining_eq_nil
    (served : Served processName segmentation items inputs config done
      remaining left)
    (used : packets inputs = segmentation)
    (awaits : AwaitsPacket config) :
    remaining = [] := by
  have empty : left = [] := by
    have split := served.segmentation_eq
    rw [used] at split
    exact List.self_eq_append_right.mp split
  have aligned := served.aligned
  rw [empty, List.flatten_nil] at aligned
  unfold AwaitsPacket at awaits
  split at awaits
  case h_1 control =>
    simp only [Aligned, control] at aligned
    exact eq_nil_of_length_encode_lt (by rw [← aligned.2]; simp)
  case h_2 read control =>
    simp only [Aligned, control] at aligned
    rcases aligned with ⟨-, short, ⟨window, -, stream⟩ | ⟨-, -, stream⟩⟩
    · rw [(exhausted_iff window).mp awaits, List.append_nil,
        List.append_nil] at stream
      exact eq_nil_of_length_encode_lt (by rw [← stream]; exact short)
    · exact eq_nil_of_length_encode_lt (by rw [← stream]; simp)
  case h_3 control =>
    -- inside an instruction the stream has not ended
    simp only [Aligned, control] at aligned
    rcases aligned with ⟨instruction, rest, buffer, data, exhausted, missing⟩
    have readLe := data.filling.read_le
    have lengths := congrArg List.length data.stream
    rw [exhausted] at lengths
    simp only [List.length_append, List.length_take, List.length_nil,
      Instruction.length_bytes, ← data.length_eq] at lengths
    omega
  case h_4 => exact awaits.elim

/-- While the loop runs, the rest of the stream is still to be delivered. -/
theorem Served.delivered_eq
    (nameFree : NulFree processName)
    (deliverable : ∀ item ∈ items, Deliverable item)
    (served : Served processName segmentation items inputs config done
      remaining left)
    (running : config.control ≠ .stopped) :
    delivered processName items =
      config.queue ++ delivered processName remaining := by
  have noExit := served.tracked.running running
  rw [served.queue_eq] at noExit ⊢
  rw [served.items_eq]
  refine delivered_append remaining fun instruction member => ?_
  refine not_exits_of_noExit nameFree ?_ noExit member
  intro item member
  refine deliverable item ?_
  rw [served.items_eq]
  exact List.mem_append_left _ member

/-- The loop stops with everything delivered. -/
theorem Served.delivered_eq_of_stopped
    (nameFree : NulFree processName)
    (deliverable : ∀ item ∈ items, Deliverable item)
    (served : Served processName segmentation items inputs config done
      remaining left)
    (stopped : config.control = .stopped) :
    config.queue = delivered processName items := by
  rcases served.tracked.stopped stopped with
    ⟨earlier, last, queue, noExit, exit⟩
  rw [queue, served.items_eq]
  rw [served.queue_eq] at queue
  refine (delivered_append_exit remaining nameFree ?_ queue noExit
    exit).symm
  intro item member
  refine deliverable item ?_
  rw [served.items_eq]
  exact List.mem_append_left _ member

/-- The loop stops only behind an exit instruction for this process. -/
theorem Served.exists_exit_of_stopped
    (nameFree : NulFree processName)
    (deliverable : ∀ item ∈ items, Deliverable item)
    (served : Served processName segmentation items inputs config done
      remaining left)
    (stopped : config.control = .stopped) :
    ∃ instruction,
      .instr instruction ∈ items ∧ Exits processName instruction := by
  rcases served.tracked.stopped stopped with ⟨earlier, last, queue, -, exit⟩
  have member : last ∈ instructions done := by
    rw [← served.queue_eq, queue]
    exact List.mem_append_right _ (List.mem_singleton_self _)
  rcases List.mem_flatMap.mp member with ⟨item, inDone, contributed⟩
  have inItems : item ∈ items := by
    rw [served.items_eq]
    exact List.mem_append_left _ inDone
  cases item with
  | ping => simp [Item.instructions] at contributed
  | instr instruction =>
      rcases List.mem_singleton.mp contributed with rfl
      refine ⟨instruction, inItems, ?_⟩
      rw [exitSignal_of_deliverable nameFree (deliverable _ inItems),
        Option.some.injEq, decide_eq_true_iff] at exit
      exact exit

/-- Unless the run is finished, the environment can serve another step. -/
theorem Served.exists_step
    (deliverable : ∀ item ∈ items, Deliverable item)
    (packeted :
      ∀ bytes ∈ segmentation,
        0 < bytes.length ∧ bytes.length ≤ wimpMessageBufferBytes)
    (serves : Serves segmentation inputs)
    (served : Served processName segmentation items inputs config done
      remaining left)
    (unfinished : ¬ Finished segmentation inputs config) :
    ∃ input,
      Serves segmentation (inputs ++ [input]) ∧
        (step asserts processName config input).isSome := by
  -- a step which takes no packet
  have silent :
      ∀ input, Granted input → packet input = [] →
        Serves segmentation (inputs ++ [input]) := by
    intro input granted nothing
    refine ⟨?_, ?_⟩
    · intro other member
      rcases List.mem_append.mp member with old | new
      · exact serves.granted other old
      · rw [List.mem_singleton.mp new]
        exact granted
    · rw [packets_concat, nothing, List.append_nil]
      exact serves.in_order
  -- a receive call, when a packet is left
  have receives :
      AwaitsPacket config →
        ∃ bytes,
          (Received.packet bytes).Admissible ∧
            Serves segmentation
              (inputs ++ [.receive (.packet bytes)]) := by
    intro awaits
    cases left with
    | nil =>
        refine absurd (Or.inr ⟨?_, awaits⟩) unfinished
        rw [served.segmentation_eq, List.append_nil]
    | cons bytes others =>
        have admissible := packeted bytes
          (by rw [served.segmentation_eq]; simp)
        refine ⟨bytes, admissible, ?_, ?_⟩
        · intro other member
          rcases List.mem_append.mp member with old | new
          · exact serves.granted other old
          · rw [List.mem_singleton.mp new]
            exact List.ne_nil_of_length_pos admissible.1
        · rw [packets_concat]
          exact ⟨others, by rw [served.segmentation_eq]; simp [packet]⟩
  have aligned := served.aligned
  cases control : config.control with
  | top =>
      refine ⟨.active true, silent _ rfl rfl, ?_⟩
      simp only [step, control]
      cases config.state.state <;> rfl
  | poll =>
      rcases receives (by simp [AwaitsPacket, control]) with
        ⟨bytes, admissible, serves⟩
      refine ⟨_, serves, ?_⟩
      simp only [step, control, if_pos admissible]
      split <;> rfl
  | header read =>
      by_cases exhausted : Exhausted config.state
      · rcases receives (by simpa [AwaitsPacket, control] using exhausted) with
          ⟨bytes, admissible, serves⟩
        refine ⟨_, serves, ?_⟩
        simp [step, control, exhausted, admissible]
      · exact ⟨.tau, silent _ trivial rfl,
          by simp [step, control, exhausted]⟩
  | checkHeader read =>
      exact ⟨.tau, silent _ trivial rfl, by simp [step, control]⟩
  | allocate header =>
      simp only [Aligned, control] at aligned
      rcases aligned with ⟨instruction, rest, split, rfl, -, -⟩
      have small : instruction.total < 2 ^ 31 :=
        (deliverable (.instr instruction)
          (by rw [served.items_eq, split]; simp)).framed.1
      refine
        ⟨.malloc (some (List.replicate instruction.total 0)),
          silent _ rfl rfl, ?_⟩
      have admissible :
          BlockAdmissible instruction.total
            (some (List.replicate instruction.total 0)) := by
        intro block granted
        rcases Option.some.inj granted with rfl
        rw [toSizeT_natCast (by omega), List.length_replicate, ptrdiffMax]
        omega
      simp [step, control, admissible]
  | data =>
      refine ⟨.tau, silent _ trivial rfl, ?_⟩
      simp only [step, control]
      split <;> rfl
  | refill =>
      rcases receives (by simp [AwaitsPacket, control]) with
        ⟨bytes, admissible, serves⟩
      exact ⟨_, serves, by simp [step, control, admissible]⟩
  | enqueue disconnect =>
      exact ⟨.node true, silent _ rfl rfl, by simp [step, control]⟩
  | stopped => exact absurd (Or.inl control) unfinished
  | aborted => exact absurd control served.sound.2
  | fault => exact absurd control served.sound.1

/-- Every enqueued buffer is a sent instruction and decodes to its names. -/
theorem Served.decodes
    (deliverable : ∀ item ∈ items, Deliverable item)
    (served : Served processName segmentation items inputs config done
      remaining left)
    {buffer : Bytes} (queued : buffer ∈ config.queue) :
    ∃ instruction result,
      .instr instruction ∈ items ∧ buffer = instruction.bytes ∧
        wimpInstrGetFromBuffer (some buffer) buffer.length =
          some result ∧
        Denotes buffer result instruction.source instruction.dest
          instruction.instr instruction.args := by
  rw [served.queue_eq] at queued
  rcases List.mem_flatMap.mp queued with ⟨item, inDone, contributed⟩
  have inItems : item ∈ items := by
    rw [served.items_eq]
    exact List.mem_append_left _ inDone
  cases item with
  | ping => simp [Item.instructions] at contributed
  | instr instruction =>
      rcases List.mem_singleton.mp contributed with rfl
      rcases deliverable _ inItems with
        ⟨sourceFree, destFree, instrFree, readable, small, -⟩
      rcases denotes_of_readable sourceFree destFree instrFree small
          readable with
        ⟨result, decoded, -, denotes⟩
      refine ⟨instruction, result, inItems, rfl, ?_, denotes⟩
      rw [Instruction.length_bytes]
      exact decoded

end Served

/-! ## Delivery -/

/-- The bytes a server hands over for an item. -/
inductive SentAs : Item → Bytes → Prop where
  | ping : SentAs .ping (toLE 4 wimpRecieverPing)
  | instr {instruction : Instruction} {malloc : Nat → Option Bytes}
      {block buffer : Bytes} {size : Nat}
      (granted : malloc instruction.total = some block)
      (blockSize : block.length = instruction.total)
      (bundled :
        wimpServerBundleInstr malloc instruction.source instruction.dest
          instruction.instr instruction.args =
            some ⟨some buffer, size⟩) :
      SentAs (.instr instruction) buffer

theorem SentAs.eq_bytes {item : Item} {bytes : Bytes}
    (sent : SentAs item bytes) :
    bytes = item.bytes := by
  cases sent with
  | ping => rfl
  | instr granted blockSize bundled =>
      rw [wimpServerBundleInstr_granted granted blockSize] at bundled
      simp only [Option.some.injEq, InstrBundle.mk.injEq] at bundled
      exact bundled.1.symm

theorem flatten_eq_encode {items : List Item} {buffers : List Bytes}
    (sent : List.Forall₂ SentAs items buffers) :
    buffers.flatten = encode items := by
  induction sent with
  | nil => rfl
  | cons head tail induction =>
      rw [List.flatten_cons, encode_cons, induction, head.eq_bytes]

/-- The receiver delivers a sequence of items cut into given packets. -/
structure Delivers (asserts : Bool) (processName : Bytes)
    (items : List Item) (segmentation : List Bytes) : Prop where
  /-- At every moment the queue holds the first instructions, unchanged. -/
  queue_prefix :
    ∀ inputs config, Serves segmentation inputs →
      run (step asserts processName) {} inputs = some config →
        config.queue <+: delivered processName items ∧
          config.control ≠ .fault ∧ config.control ≠ .aborted
  /-- Every enqueued buffer decodes to what was bundled. -/
  decodes :
    ∀ inputs config, Serves segmentation inputs →
      run (step asserts processName) {} inputs = some config →
        ∀ buffer ∈ config.queue,
          ∃ instruction result,
            .instr instruction ∈ items ∧ buffer = instruction.bytes ∧
              wimpInstrGetFromBuffer (some buffer) buffer.length =
                some result ∧
              Denotes buffer result instruction.source instruction.dest
                instruction.instr instruction.args
  /-- The loop makes a bounded number of steps. -/
  bounded :
    ∀ inputs config, Serves segmentation inputs →
      run (step asserts processName) {} inputs = some config →
        inputs.length ≤
          8 * (encode items).length + 2 * segmentation.length + 2
  /-- The loop is never stuck before the stream is used up. -/
  progress :
    ∀ inputs config, Serves segmentation inputs →
      run (step asserts processName) {} inputs = some config →
        ¬ Finished segmentation inputs config →
          ∃ input,
            Serves segmentation (inputs ++ [input]) ∧
              (step asserts processName config input).isSome
  /-- At the end everything was enqueued; an exit instruction stops. -/
  complete :
    ∀ inputs config, Serves segmentation inputs →
      run (step asserts processName) {} inputs = some config →
        Finished segmentation inputs config →
          config.queue = delivered processName items ∧
            (config.control = .stopped ↔
              ∃ instruction,
                .instr instruction ∈ items ∧
                  Exits processName instruction)

/--
Every segmentation of every sequence of pings and decodable instructions is
delivered.
-/
theorem delivers_of_sent
    {asserts : Bool} {processName : Bytes} {items : List Item}
    {buffers segmentation : List Bytes}
    (nameFree : NulFree processName)
    (deliverable : ∀ item ∈ items, Deliverable item)
    (sent : List.Forall₂ SentAs items buffers)
    (packeted :
      ∀ bytes ∈ segmentation,
        0 < bytes.length ∧ bytes.length ≤ wimpMessageBufferBytes)
    (stream : segmentation.flatten = buffers.flatten) :
    Delivers asserts processName items segmentation := by
  rw [flatten_eq_encode sent] at stream
  constructor
  case queue_prefix =>
    intro inputs config serves ran
    rcases served_of_run nameFree deliverable stream serves ran with
      ⟨done, remaining, left, served⟩
    refine ⟨?_, served.sound⟩
    by_cases stopped : config.control = .stopped
    · have everything :=
        served.delivered_eq_of_stopped nameFree deliverable stopped
      exact everything ▸ List.prefix_rfl
    · rw [served.delivered_eq nameFree deliverable stopped]
      exact List.prefix_append _ _
  case decodes =>
    intro inputs config serves ran buffer queued
    rcases served_of_run nameFree deliverable stream serves ran with
      ⟨done, remaining, left, served⟩
    exact served.decodes deliverable queued
  case bounded =>
    intro inputs config serves ran
    rcases served_of_run nameFree deliverable stream serves ran with
      ⟨done, remaining, left, served⟩
    have bound := served.work_le
    simp only [work, rank, unread, List.length_drop, List.length_take,
      stream, Int.toNat_zero] at bound
    omega
  case progress =>
    intro inputs config serves ran unfinished
    rcases served_of_run nameFree deliverable stream serves ran with
      ⟨done, remaining, left, served⟩
    exact served.exists_step deliverable packeted serves unfinished
  case complete =>
    intro inputs config serves ran finished
    rcases served_of_run nameFree deliverable stream serves ran with
      ⟨done, remaining, left, served⟩
    by_cases stopped : config.control = .stopped
    · exact
        ⟨served.delivered_eq_of_stopped nameFree deliverable stopped,
          iff_of_true stopped
            (served.exists_exit_of_stopped nameFree deliverable stopped)⟩
    · rcases finished.resolve_left stopped with ⟨used, awaits⟩
      have nothing := served.remaining_eq_nil used awaits
      have all := served.delivered_eq nameFree deliverable stopped
      rw [nothing, delivered, List.append_nil] at all
      refine ⟨all.symm, iff_of_false stopped ?_⟩
      rintro ⟨instruction, member, exits⟩
      rw [served.items_eq, nothing, List.append_nil] at member
      have noExit := served.tracked.running stopped
      rw [served.queue_eq] at noExit
      refine not_exits_of_noExit nameFree ?_ noExit member exits
      intro item inDone
      refine deliverable item ?_
      rw [served.items_eq]
      exact List.mem_append_left _ inDone

/-- An instruction `exit` from `b` to `a`. -/
def exitInstruction : Instruction :=
  { source := [0x62], dest := [0x61], instr := wimpInstructionExit,
    args := [] }

/-- A ping and an exit instruction in packets which cut both. -/
theorem delivers_pingExit :
    Delivers true [0x61] [.ping, .instr exitInstruction]
      [[0x70, 0x69], [0x6e, 0x67, 17, 0],
        exitInstruction.bytes.drop 2] := by
  have bundled :
      wimpServerBundleInstr (fun size => some (List.replicate size 0))
          exitInstruction.source exitInstruction.dest
          exitInstruction.instr exitInstruction.args =
        some ⟨some exitInstruction.bytes, exitInstruction.total⟩ :=
    wimpServerBundleInstr_granted rfl List.length_replicate
  have sent :
      List.Forall₂ SentAs [.ping, .instr exitInstruction]
        [toLE 4 wimpRecieverPing, exitInstruction.bytes] :=
    .cons .ping (.cons (.instr rfl List.length_replicate bundled) .nil)
  exact delivers_of_sent (by decide) (by decide) sent (by decide)
    (by decide)

end Wimp.Reciever.Delivery
