import Wimp.Instr.Codec
import Wimp.Lib.Runs

/-!
# The receiver loop

`wimp_reciever_recieve` reads the bytes of one connection and appends the
completed instructions to the incoming queue of its server.  The module
embeds the loop as a step function.  Its control points are the places where
the loop hands control to the environment (the active flag, a receive call,
an allocation) and the tests of the two inner loops; one step runs from one
control point to the next.

A step which would read or write outside an object, or through a `NULL`
pointer, ends in the control point `fault`.  Integer arithmetic follows the
source: the receive result is signed, the offsets are unsigned, and every
comparison between them converts the receive result.
-/

namespace Wimp.Reciever.Machine

open Wimp.Lib.ByteRegion
open Wimp.Instr.Codec

/-- `WIMP_MESSAGE_BUFFER_BYTES`. -/
def wimpMessageBufferBytes : Nat := 512

/-- `WIMP_RECIEVER_PING`. -/
def wimpRecieverPing : Nat := 0x676e6970

/-- No allocation exceeds `PTRDIFF_MAX`. -/
def ptrdiffMax : Nat := 2 ^ 63 - 1

/-- `enum RecieverState`. -/
inductive RecieverState where
  | idle
  | readingHeaders
  | readingData
deriving DecidableEq, Repr

/-- `WimpInstr`; the instruction pointer is `none` when it is `NULL`. -/
structure WimpInstr where
  instruction : Option Bytes := none
  instructionBytes : Nat := 0
deriving DecidableEq, Repr

/-- `WimpRecieverState`. -/
structure WimpRecieverState where
  incomingSize : Int := 0
  recOffset : Nat := 0
  state : RecieverState := .idle
  instruction : WimpInstr := {}
  instructionBytesRead : Nat := 0
deriving DecidableEq, Repr

/-- The outcome of one `p_socket_receive` call. -/
inductive Received where
  | packet (bytes : Bytes)
  | closed
  | failed
deriving DecidableEq, Repr

/-- The returned size. -/
def Received.size : Received → Int
  | .packet bytes => bytes.length
  | .closed => 0
  | .failed => -1

/-- The bytes written to the receive buffer. -/
def Received.bytes : Received → Bytes
  | .packet bytes => bytes
  | .closed => []
  | .failed => []

/-- A packet holds between one byte and a whole receive buffer. -/
def Received.Admissible : Received → Prop
  | .packet bytes =>
      0 < bytes.length ∧ bytes.length ≤ wimpMessageBufferBytes
  | .closed => True
  | .failed => True

instance (received : Received) : Decidable received.Admissible :=
  match received with
  | .packet _ => inferInstanceAs (Decidable (_ ∧ _))
  | .closed => inferInstanceAs (Decidable True)
  | .failed => inferInstanceAs (Decidable True)

/-- Where control stands in `wimp_reciever_recieve`. -/
inductive Control where
  | top
  | poll
  | header (read : Bytes)
  | checkHeader (read : Bytes)
  | allocate (header : Int)
  | data
  | refill
  | enqueue (disconnect : Bool)
  | stopped
  | aborted
  | fault
deriving DecidableEq, Repr

/-- The local state of the loop and the instructions it has enqueued. -/
structure RecieverConfig where
  control : Control := .top
  state : WimpRecieverState := {}
  recbuffer : Bytes := List.replicate wimpMessageBufferBytes 0
  queue : List Bytes := []
deriving DecidableEq, Repr

/-- What the environment contributes to a step. -/
inductive Input where
  | tau
  | active (flag : Bool)
  | receive (received : Received)
  | malloc (block : Option Bytes)
  | node (granted : Bool)
deriving DecidableEq, Repr

/-! ## The pieces of the loop -/

/-- `wimp_reciever_next_packet`. -/
def wimpRecieverNextPacket (config : RecieverConfig)
    (received : Received) : RecieverConfig :=
  { config with
    recbuffer :=
      received.bytes ++
        List.replicate
          (wimpMessageBufferBytes - received.bytes.length) 0
    state :=
      { config.state with
        incomingSize := received.size
        recOffset := 0 } }

/-- `state.rec_offset >= state.incoming_size`, compared as `size_t`. -/
def Exhausted (state : WimpRecieverState) : Prop :=
  toSizeT state.incomingSize ≤ state.recOffset

instance (state : WimpRecieverState) : Decidable (Exhausted state) :=
  inferInstanceAs (Decidable (_ ≤ _))

/-- `header_ptr[h_bytes_read] = recbuffer[state.rec_offset]`. -/
def readHeaderByte (config : RecieverConfig) (read : Bytes) :
    RecieverConfig :=
  match config.recbuffer[config.state.recOffset]? with
  | none => { config with control := .fault }
  | some byte =>
      { config with
        control :=
          if read.length + 1 < 4 then .header (read ++ [byte])
          else .checkHeader (read ++ [byte])
        state :=
          { config.state with recOffset := config.state.recOffset + 1 } }

/--
The tests on a completed header.  `asserts` tells whether the assertion that
the header has changed from `-1` is compiled in.
-/
def checkHeader (asserts : Bool) (config : RecieverConfig)
    (read : Bytes) : RecieverConfig :=
  let header := toInt32 (ofLE read)
  if asserts ∧ header = -1 then
    { config with control := .aborted }
  else if header = 0 then
    { config with
      control := .top
      state := { config.state with state := .idle } }
  else if header ≠ wimpRecieverPing then
    { config with control := .allocate header }
  else
    { config with control := .top }

/-- `wimp_reciever_allocateinstr`, given the block returned by `malloc`. -/
def wimpRecieverAllocateinstr (size : Int) (block : Option Bytes) :
    WimpInstr :=
  match block with
  | none => { instruction := none, instructionBytes := 0 }
  | some instruction =>
      { instruction := some instruction, instructionBytes := toSizeT size }

/-- A block which `malloc` can return for a request. -/
def BlockAdmissible (size : Int) (block : Option Bytes) : Prop :=
  ∀ bytes ∈ block,
    bytes.length = toSizeT size ∧ toSizeT size ≤ ptrdiffMax

instance (size : Int) (block : Option Bytes) :
    Decidable (BlockAdmissible size block) :=
  inferInstanceAs (Decidable (∀ bytes ∈ block, _))

/-- Start an instruction and copy its header into the new block. -/
def beginInstruction (config : RecieverConfig) (header : Int)
    (block : Option Bytes) : RecieverConfig :=
  let instruction := wimpRecieverAllocateinstr header block
  match instruction.instruction with
  | none => { config with control := .fault }
  | some target =>
      match splice target 0 (toLE 4 (header % 2 ^ 32).toNat) with
      | none => { config with control := .fault }
      | some target =>
          { config with
            control := .data
            state :=
              { config.state with
                instruction :=
                  { instruction with instruction := some target }
                state := .readingData
                instructionBytesRead := 4 } }

/-- `bytes_to_copy`. -/
def bytesToCopy (state : WimpRecieverState) : Nat :=
  let missing :=
    subSizeT state.instruction.instructionBytes
      state.instructionBytesRead
  if toSizeT state.incomingSize < addSizeT state.recOffset missing then
    subSizeT (toSizeT state.incomingSize) state.recOffset
  else
    missing

/-- One iteration of the data loop, up to the receive call. -/
def copyData (config : RecieverConfig) : RecieverConfig :=
  let state := config.state
  let count := bytesToCopy state
  let copied := do
    let target ← state.instruction.instruction
    let source ← slice config.recbuffer state.recOffset count
    splice target state.instructionBytesRead source
  match copied with
  | none => { config with control := .fault }
  | some target =>
      let bytesRead := addSizeT state.instructionBytesRead count
      { config with
        control :=
          if bytesRead ≠ state.instruction.instructionBytes then .refill
          else .data
        state :=
          { state with
            recOffset := addSizeT state.recOffset count
            instruction :=
              { state.instruction with instruction := some target }
            instructionBytesRead := bytesRead } }

/--
The test for the exit signal: an instruction named `exit` for this process.
Undefined when a pointer is `NULL` or a comparison leaves the buffer.
-/
def exitSignal (processName : Bytes) (instruction : WimpInstr) :
    Option Bool := do
  let result ←
    wimpInstrGetFromBuffer instruction.instruction
      instruction.instructionBytes
  let buffer ← instruction.instruction
  let instr ← result.instr
  let dest ← result.destProcess
  let named ← strcmpEq (buffer.drop instr) (terminated wimpInstructionExit)
  if named then
    strcmpEq (buffer.drop dest) (terminated processName)
  else
    some false

/-- Leave the data loop with a complete instruction. -/
def finishInstruction (processName : Bytes) (config : RecieverConfig) :
    RecieverConfig :=
  match exitSignal processName config.state.instruction with
  | none => { config with control := .fault }
  | some disconnect => { config with control := .enqueue disconnect }

/--
Append the instruction to the incoming queue, under its low-priority lock,
and go back to reading headers.  The result of `wimp_instr_queue_add` is
ignored, so an instruction whose node is not granted is lost.
-/
def enqueueInstruction (config : RecieverConfig)
    (disconnect granted : Bool) : RecieverConfig :=
  { config with
    control := if disconnect then .stopped else .top
    queue :=
      if granted then
        config.queue ++ config.state.instruction.instruction.toList
      else config.queue
    state :=
      { config.state with
        instruction := {}
        instructionBytesRead := 0
        state := .readingHeaders } }

/-- One step of `wimp_reciever_recieve`. -/
def step (asserts : Bool) (processName : Bytes)
    (config : RecieverConfig) (input : Input) : Option RecieverConfig :=
  match config.control with
  | .top =>
      match input with
      | .active false => some { config with control := .stopped }
      | .active true =>
          match config.state.state with
          | .idle => some { config with control := .poll }
          | .readingHeaders =>
              some { config with control := .header [] }
          | .readingData => some { config with control := .data }
      | _ => none
  | .poll =>
      match input with
      | .receive received =>
          if received.Admissible then
            let config := wimpRecieverNextPacket config received
            if config.state.incomingSize > 0 then
              some
                { config with
                  control := .header []
                  state := { config.state with state := .readingHeaders } }
            else
              some { config with control := .top }
          else none
      | _ => none
  | .header read =>
      match input with
      | .tau =>
          if Exhausted config.state then none
          else some (readHeaderByte config read)
      | .receive received =>
          if Exhausted config.state ∧ received.Admissible then
            some
              (readHeaderByte (wimpRecieverNextPacket config received) read)
          else none
      | _ => none
  | .checkHeader read =>
      match input with
      | .tau => some (checkHeader asserts config read)
      | _ => none
  | .allocate header =>
      match input with
      | .malloc block =>
          if BlockAdmissible header block then
            some (beginInstruction config header block)
          else none
      | _ => none
  | .data =>
      match input with
      | .tau =>
          if config.state.instructionBytesRead ≠
              config.state.instruction.instructionBytes then
            some (copyData config)
          else
            some (finishInstruction processName config)
      | _ => none
  | .refill =>
      match input with
      | .receive received =>
          if received.Admissible then
            some
              { wimpRecieverNextPacket config received with
                control := .data }
          else none
      | _ => none
  | .enqueue disconnect =>
      match input with
      | .node granted => some (enqueueInstruction config disconnect granted)
      | _ => none
  | .stopped => none
  | .aborted => none
  | .fault => none

/-! ## What a step can do -/

/-- The steps of the loop, one constructor for each branch of the source. -/
inductive Transition (asserts : Bool) (processName : Bytes)
    (config : RecieverConfig) : Input → RecieverConfig → Prop where
  | deactivated
      (control : config.control = .top) :
      Transition asserts processName config (.active false)
        { config with control := .stopped }
  | startPoll
      (control : config.control = .top)
      (state : config.state.state = .idle) :
      Transition asserts processName config (.active true)
        { config with control := .poll }
  | startHeader
      (control : config.control = .top)
      (state : config.state.state = .readingHeaders) :
      Transition asserts processName config (.active true)
        { config with control := .header [] }
  | resumeData
      (control : config.control = .top)
      (state : config.state.state = .readingData) :
      Transition asserts processName config (.active true)
        { config with control := .data }
  | polled (received : Received)
      (control : config.control = .poll)
      (admissible : received.Admissible)
      (size : 0 < received.size) :
      Transition asserts processName config (.receive received)
        { wimpRecieverNextPacket config received with
          control := .header []
          state :=
            { (wimpRecieverNextPacket config received).state with
              state := .readingHeaders } }
  | polledNothing (received : Received)
      (control : config.control = .poll)
      (admissible : received.Admissible)
      (size : received.size ≤ 0) :
      Transition asserts processName config (.receive received)
        { wimpRecieverNextPacket config received with control := .top }
  | headerByte (read : Bytes)
      (control : config.control = .header read)
      (available : ¬ Exhausted config.state) :
      Transition asserts processName config .tau
        (readHeaderByte config read)
  | headerReceive (read : Bytes) (received : Received)
      (control : config.control = .header read)
      (exhausted : Exhausted config.state)
      (admissible : received.Admissible) :
      Transition asserts processName config (.receive received)
        (readHeaderByte (wimpRecieverNextPacket config received) read)
  | headerChecked (read : Bytes)
      (control : config.control = .checkHeader read) :
      Transition asserts processName config .tau
        (checkHeader asserts config read)
  | allocated (header : Int) (block : Option Bytes)
      (control : config.control = .allocate header)
      (admissible : BlockAdmissible header block) :
      Transition asserts processName config (.malloc block)
        (beginInstruction config header block)
  | copied
      (control : config.control = .data)
      (incomplete : config.state.instructionBytesRead ≠
        config.state.instruction.instructionBytes) :
      Transition asserts processName config .tau (copyData config)
  | finished
      (control : config.control = .data)
      (complete : config.state.instructionBytesRead =
        config.state.instruction.instructionBytes) :
      Transition asserts processName config .tau
        (finishInstruction processName config)
  | refilled (received : Received)
      (control : config.control = .refill)
      (admissible : received.Admissible) :
      Transition asserts processName config (.receive received)
        { wimpRecieverNextPacket config received with control := .data }
  | enqueued (disconnect granted : Bool)
      (control : config.control = .enqueue disconnect) :
      Transition asserts processName config (.node granted)
        (enqueueInstruction config disconnect granted)

/-- Every step is one of the transitions. -/
theorem step_cases
    {asserts : Bool} {processName : Bytes} {config next : RecieverConfig}
    {input : Input}
    (stepped : step asserts processName config input = some next) :
    Transition asserts processName config input next := by
  unfold step at stepped
  split at stepped
  case h_1 control =>
    split at stepped
    · cases stepped
      exact .deactivated control
    · split at stepped
      case h_1 state =>
        cases stepped
        exact .startPoll control state
      case h_2 state =>
        cases stepped
        exact .startHeader control state
      case h_3 state =>
        cases stepped
        exact .resumeData control state
    · cases stepped
  case h_2 control =>
    split at stepped
    · rename_i received
      split_ifs at stepped with admissible
      dsimp only at stepped
      split_ifs at stepped with size
      · cases stepped
        exact .polled received control admissible size
      · cases stepped
        exact .polledNothing received control admissible (not_lt.mp size)
    · cases stepped
  case h_3 read control =>
    split at stepped
    · split_ifs at stepped with exhausted
      cases stepped
      exact .headerByte read control exhausted
    · split_ifs at stepped with ready
      cases stepped
      exact .headerReceive read _ control ready.1 ready.2
    · cases stepped
  case h_4 read control =>
    split at stepped
    · cases stepped
      exact .headerChecked read control
    · cases stepped
  case h_5 header control =>
    split at stepped
    · split_ifs at stepped with admissible
      cases stepped
      exact .allocated header _ control admissible
    · cases stepped
  case h_6 control =>
    split at stepped
    · split_ifs at stepped with incomplete
      · cases stepped
        exact .copied control incomplete
      · cases stepped
        exact .finished control (by simpa using incomplete)
    · cases stepped
  case h_7 control =>
    split at stepped
    · split_ifs at stepped with admissible
      cases stepped
      exact .refilled _ control admissible
    · cases stepped
  case h_8 disconnect control =>
    split at stepped
    · cases stepped
      exact .enqueued disconnect _ control
    · cases stepped
  case h_9 => cases stepped
  case h_10 => cases stepped
  case h_11 => cases stepped

end Wimp.Reciever.Machine
