import Wimp.Reciever.Machine

/-!
# The receive window

Between two receive calls the loop works on a window of the receive buffer:
the bytes from the current offset up to the size of the last packet.  As long
as that size came from a successful call, the window determines what the
header loop and the data loop do.  The lemmas below are the specifications of
the pieces of the loop in terms of the window; later modules use them instead
of the definitions.
-/

namespace Wimp.Reciever.Window

open Wimp.Lib.ByteRegion
open Wimp.Instr.Codec
open Wimp.Reciever.Machine

/-- The offset lies inside the part of the buffer filled by a packet. -/
structure Live (config : RecieverConfig) : Prop where
  buffer_length : config.recbuffer.length = wimpMessageBufferBytes
  size_le : config.state.incomingSize ≤ wimpMessageBufferBytes
  offset_le : (config.state.recOffset : Int) ≤ config.state.incomingSize

/-- The bytes of the last packet which have not been consumed. -/
def unread (config : RecieverConfig) : Bytes :=
  (config.recbuffer.take config.state.incomingSize.toNat).drop
    config.state.recOffset

theorem length_unread {config : RecieverConfig} (live : Live config) :
    ((unread config).length : Int) =
      config.state.incomingSize - config.state.recOffset := by
  have bufferLength := live.buffer_length
  have sizeLe := live.size_le
  have offsetLe := live.offset_le
  unfold wimpMessageBufferBytes at bufferLength sizeLe
  rw [unread, List.length_drop, List.length_take]
  omega

/-- The size of a live window converts to `size_t` unchanged. -/
theorem toSizeT_incomingSize
    {config : RecieverConfig} (live : Live config) :
    toSizeT config.state.incomingSize =
      config.state.incomingSize.toNat := by
  have sizeLe := live.size_le
  have offsetLe := live.offset_le
  unfold wimpMessageBufferBytes at sizeLe
  unfold toSizeT
  omega

theorem exhausted_iff {config : RecieverConfig} (live : Live config) :
    Exhausted config.state ↔ unread config = [] := by
  have length := length_unread live
  have offsetLe := live.offset_le
  rw [Exhausted, toSizeT_incomingSize live, ← List.length_eq_zero_iff]
  omega

/-- A window depends on the buffer, the size and the offset only. -/
theorem Live.congr {config next : RecieverConfig} (live : Live config)
    (buffer : next.recbuffer = config.recbuffer)
    (size : next.state.incomingSize = config.state.incomingSize)
    (offset : next.state.recOffset = config.state.recOffset) :
    Live next where
  buffer_length := by rw [buffer]; exact live.buffer_length
  size_le := by rw [size]; exact live.size_le
  offset_le := by rw [size, offset]; exact live.offset_le

/-! ## A new packet -/

theorem live_nextPacket
    (config : RecieverConfig) {received : Received}
    (admissible : received.Admissible) (notFailed : received ≠ .failed) :
    Live (wimpRecieverNextPacket config received) := by
  cases received with
  | packet bytes =>
      rcases admissible with ⟨-, fits⟩
      constructor
      case buffer_length =>
        simp only [wimpRecieverNextPacket, Received.bytes,
          List.length_append, List.length_replicate]
        omega
      case size_le =>
        simp only [wimpRecieverNextPacket, Received.size]
        omega
      case offset_le =>
        simp only [wimpRecieverNextPacket, Received.size]
        omega
  | closed =>
      constructor
      case buffer_length =>
        simp [wimpRecieverNextPacket, Received.bytes]
      case size_le =>
        simp [wimpRecieverNextPacket, Received.size, wimpMessageBufferBytes]
      case offset_le =>
        simp [wimpRecieverNextPacket, Received.size]
  | failed => exact absurd rfl notFailed

theorem unread_nextPacket
    (config : RecieverConfig) (received : Received) :
    unread (wimpRecieverNextPacket config received) = received.bytes := by
  cases received with
  | packet bytes =>
      simp [unread, wimpRecieverNextPacket, Received.bytes, Received.size]
  | closed =>
      simp [unread, wimpRecieverNextPacket, Received.bytes, Received.size]
  | failed =>
      simp [unread, wimpRecieverNextPacket, Received.bytes, Received.size]

/-! ## Reading one header byte -/

/-- The header loop takes the first byte of a nonempty window. -/
theorem readHeaderByte_eq
    {config : RecieverConfig} {byte : UInt8} {rest : Bytes}
    (window : unread config = byte :: rest) (read : Bytes) :
    readHeaderByte config read =
      { config with
        control :=
          if read.length + 1 < 4 then .header (read ++ [byte])
          else .checkHeader (read ++ [byte])
        state :=
          { config.state with
            recOffset := config.state.recOffset + 1 } } := by
  have first : (unread config)[0]? = some byte := by rw [window]; rfl
  rw [unread, List.getElem?_drop, List.getElem?_take] at first
  split_ifs at first with inside
  rw [Nat.add_zero] at first
  rw [readHeaderByte, first]

theorem live_readHeaderByte
    {config : RecieverConfig} {byte : UInt8} {rest : Bytes}
    (live : Live config) (window : unread config = byte :: rest)
    (read : Bytes) :
    Live (readHeaderByte config read) := by
  have length := length_unread live
  rw [window, List.length_cons] at length
  rw [readHeaderByte_eq window]
  constructor
  · exact live.buffer_length
  · exact live.size_le
  · simp only
    omega

theorem unread_readHeaderByte
    {config : RecieverConfig} {byte : UInt8} {rest : Bytes}
    (window : unread config = byte :: rest) (read : Bytes) :
    unread (readHeaderByte config read) = rest := by
  rw [readHeaderByte_eq window]
  have dropped := congrArg (List.drop 1) window
  rw [unread, List.drop_drop] at dropped
  exact dropped

/-! ## Starting an instruction -/

/-- A granted block of at least four bytes starts with the header. -/
theorem beginInstruction_granted
    (config : RecieverConfig) {size : Nat} {block : Bytes}
    (granted : block.length = size) (large : 4 ≤ size)
    (small : size < 2 ^ 31) :
    beginInstruction config size (some block) =
      { config with
        control := .data
        state :=
          { config.state with
            instruction :=
              { instruction := some (toLE 4 size ++ block.drop 4)
                instructionBytes := size }
            state := .readingData
            instructionBytesRead := 4 } } := by
  have header : ((size : Int) % 2 ^ 32).toNat = size := by omega
  have copied :
      splice block 0 (toLE 4 size) =
        some (toLE 4 size ++ block.drop 4) := by
    rw [splice, if_pos (by rw [length_toLE]; omega)]
    simp
  simp only [beginInstruction, wimpRecieverAllocateinstr, header, copied]
  rw [toSizeT_natCast (by omega)]

/-! ## Copying instruction bytes -/

/-- The data loop is filling a block of the size of the instruction. -/
structure Filling (config : RecieverConfig) (buffer : Bytes) : Prop where
  instruction_eq :
    config.state.instruction =
      { instruction := some buffer, instructionBytes := buffer.length }
  read_le : config.state.instructionBytesRead ≤ buffer.length
  size_le : buffer.length ≤ ptrdiffMax

/-- The copied count is bounded by the window and by the missing bytes. -/
theorem bytesToCopy_eq
    {config : RecieverConfig} {buffer : Bytes}
    (live : Live config) (filling : Filling config buffer) :
    bytesToCopy config.state =
      min (buffer.length - config.state.instructionBytesRead)
        (unread config).length := by
  have sizeLe := live.size_le
  have offsetLe := live.offset_le
  have length := length_unread live
  have readLe := filling.read_le
  have blockLe := filling.size_le
  unfold wimpMessageBufferBytes at sizeLe
  unfold ptrdiffMax at blockLe
  unfold bytesToCopy
  rw [filling.instruction_eq, toSizeT_incomingSize live]
  simp only
  rw [subSizeT_of_le readLe (by omega), addSizeT_of_lt (by omega)]
  split_ifs with beyond
  · rw [subSizeT_of_le (by omega) (by omega)]
    omega
  · omega

/-- One iteration of the data loop moves bytes from the window. -/
theorem copyData_live
    {config : RecieverConfig} {buffer : Bytes}
    (live : Live config) (filling : Filling config buffer) :
    ∃ moved target : Bytes,
      moved.length =
          min (buffer.length - config.state.instructionBytesRead)
            (unread config).length ∧
        unread config = moved ++ unread (copyData config) ∧
        target.length = buffer.length ∧
        target.take (config.state.instructionBytesRead + moved.length) =
          buffer.take config.state.instructionBytesRead ++ moved ∧
        copyData config =
          { config with
            control :=
              if config.state.instructionBytesRead + moved.length ≠
                  buffer.length then .refill
              else .data
            state :=
              { config.state with
                recOffset := config.state.recOffset + moved.length
                instruction :=
                  { instruction := some target
                    instructionBytes := buffer.length }
                instructionBytesRead :=
                  config.state.instructionBytesRead + moved.length } } ∧
        Filling (copyData config) target ∧ Live (copyData config) := by
  have bufferLength := live.buffer_length
  have sizeLe := live.size_le
  have offsetLe := live.offset_le
  have length := length_unread live
  have readLe := filling.read_le
  have blockLe := filling.size_le
  have count := bytesToCopy_eq live filling
  unfold wimpMessageBufferBytes at bufferLength sizeLe
  unfold ptrdiffMax at blockLe
  generalize moves : bytesToCopy config.state = moving at count
  have movedLength : ((unread config).take moving).length = moving := by
    rw [List.length_take]
    omega
  have sliced :
      slice config.recbuffer config.state.recOffset moving =
        some ((unread config).take moving) := by
    rw [slice, if_pos (by omega), unread, Option.some.injEq,
      List.take_drop, List.take_drop, List.take_take]
    congr 2
    omega
  have spliced :
      splice buffer config.state.instructionBytesRead
          ((unread config).take moving) =
        some
          (buffer.take config.state.instructionBytesRead ++
            (unread config).take moving ++
            buffer.drop (config.state.instructionBytesRead + moving)) := by
    rw [splice, movedLength, if_pos (by omega)]
  generalize targetEq :
    buffer.take config.state.instructionBytesRead ++
      (unread config).take moving ++
      buffer.drop (config.state.instructionBytesRead + moving) =
        target at spliced
  have targetLength := length_of_splice spliced
  have result :
      copyData config =
        { config with
          control :=
            if config.state.instructionBytesRead + moving ≠
                buffer.length then .refill
            else .data
          state :=
            { config.state with
              recOffset := config.state.recOffset + moving
              instruction :=
                { instruction := some target
                  instructionBytes := buffer.length }
              instructionBytesRead :=
                config.state.instructionBytesRead + moving } } := by
    simp only [copyData, moves, filling.instruction_eq, sliced, spliced,
      Option.bind_eq_bind, Option.bind_some]
    rw [addSizeT_of_lt (by omega), addSizeT_of_lt (by omega)]
  refine
    ⟨(unread config).take moving, target, by rw [movedLength, count],
      ?_, targetLength, ?_, by rw [movedLength, result], ?_, ?_⟩
  · have rest : unread (copyData config) = (unread config).drop moving := by
      rw [result, unread, unread, List.drop_drop]
    rw [rest, List.take_append_drop]
  · rw [movedLength, ← targetEq, List.take_left']
    rw [List.length_append, List.length_take, movedLength]
    omega
  · rw [result]
    constructor
    · rw [targetLength]
    · rw [targetLength]
      simp only
      omega
    · rw [targetLength]
      exact filling.size_le
  · rw [result]
    constructor
    · exact live.buffer_length
    · exact live.size_le
    · simp only
      omega

end Wimp.Reciever.Window
