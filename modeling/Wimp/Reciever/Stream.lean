import Wimp.Reciever.Window

/-!
# The receiver and the sent stream

A peer sends a sequence of instructions and pings over one connection.  The
invariant `Aligned` relates a configuration of the receiver loop to the part
of that sequence which is still to be enqueued and to the bytes which have
not been received yet, at every control point of the loop.

Receive calls may fail.  A failed call leaves the receive buffer zeroed, and
the loop goes on reading it; this does no harm as long as the zeros do not
meet the bytes of an instruction.  The condition `SafeReceive` on the state
before a receive call says when this is so, and the invariant is preserved by
every step which satisfies it.
-/

namespace Wimp.Reciever.Stream

open Wimp.Lib.ByteRegion
open Wimp.Lib.Runs
open Wimp.Instr.Codec
open Wimp.Reciever.Machine
open Wimp.Reciever.Window

/-! ## The sent sequence -/

/-- What a server sends over a connection. -/
inductive Item where
  | ping
  | instr (instruction : Instruction)
deriving DecidableEq, Repr

namespace Item

/-- The word a receiver takes for the header of the item. -/
def header : Item → Nat
  | .ping => wimpRecieverPing
  | .instr instruction => instruction.total

/-- The bytes behind the header. -/
def body : Item → Bytes
  | .ping => []
  | .instr instruction => instruction.body

/-- The bytes on the connection. -/
def bytes (item : Item) : Bytes :=
  toLE 4 item.header ++ item.body

/-- The buffers which the item contributes to the incoming queue. -/
def instructions : Item → List Bytes
  | .ping => []
  | .instr instruction => [instruction.bytes]

/-- The header of the item is recognised for what it is. -/
def Framed : Item → Prop
  | .ping => True
  | .instr instruction =>
      instruction.total < 2 ^ 31 ∧ instruction.total ≠ wimpRecieverPing

instance (item : Item) : Decidable item.Framed :=
  match item with
  | .ping => inferInstanceAs (Decidable True)
  | .instr _ => inferInstanceAs (Decidable (_ ∧ _))

theorem header_lt {item : Item} (framed : item.Framed) :
    item.header < 2 ^ 31 := by
  cases item with
  | ping => decide
  | instr instruction => exact framed.1

end Item

/-- The byte stream of a sequence of items. -/
def encode (items : List Item) : Bytes :=
  items.flatMap Item.bytes

/-- The instructions of a sequence, in order. -/
def instructions (items : List Item) : List Bytes :=
  items.flatMap Item.instructions

@[simp]
theorem encode_nil : encode [] = [] :=
  rfl

@[simp]
theorem encode_cons (item : Item) (items : List Item) :
    encode (item :: items) = item.bytes ++ encode items :=
  rfl

@[simp]
theorem instructions_append (first second : List Item) :
    instructions (first ++ second) =
      instructions first ++ instructions second :=
  List.flatMap_append

/-- The bytes which one step takes from the connection. -/
def received : Input → Bytes
  | .receive received => received.bytes
  | _ => []

/-- The bytes which a run takes from the connection. -/
def receivedBytes (inputs : List Input) : Bytes :=
  inputs.flatMap received

/-- Four bytes at the front of a stream are the header of its first item. -/
theorem header_of_stream
    {read rest : Bytes} {items : List Item}
    (length : read.length = 4) (stream : read ++ rest = encode items) :
    ∃ item remaining,
      items = item :: remaining ∧ read = toLE 4 item.header ∧
        rest = item.body ++ encode remaining := by
  cases items with
  | nil =>
      have empty := (List.append_eq_nil_iff.mp stream).1
      simp [empty] at length
  | cons item remaining =>
      rw [encode_cons, Item.bytes, List.append_assoc] at stream
      rcases List.append_inj stream (by rw [length, length_toLE]) with
        ⟨header, body⟩
      exact ⟨item, remaining, rfl, header, body⟩

/-! ## The alignment invariant -/

/-- The header loop reads zeros left behind by a failed receive call. -/
structure Blank (config : RecieverConfig) (read : Bytes) : Prop where
  size_nonpos : config.state.incomingSize ≤ 0
  size_ge : -1 ≤ config.state.incomingSize
  buffer_zero :
    config.recbuffer = List.replicate wimpMessageBufferBytes 0
  offset_le : config.state.recOffset ≤ read.length
  read_zero : read = List.replicate read.length 0

/-- Inside the header loop. -/
inductive HeaderAligned (read left : Bytes) (items : List Item)
    (config : RecieverConfig) : Prop where
  | live
      (window : Live config)
      (progress : read = [] ∨ 0 < config.state.incomingSize)
      (stream : read ++ (unread config ++ left) = encode items)
  | blank
      (nonempty : read ≠ [])
      (zeros : Blank config read)
      (stream : left = encode items)

/-- Behind the header loop. -/
inductive CheckAligned (read left : Bytes) (items : List Item)
    (config : RecieverConfig) : Prop where
  | live
      (window : Live config)
      (stream : read ++ (unread config ++ left) = encode items)
  | blank
      (size : config.state.incomingSize ≤ 0)
      (zeros : read = List.replicate 4 0)
      (stream : left = encode items)

/-- Inside the data loop. -/
structure DataAligned (left : Bytes) (items : List Item)
    (config : RecieverConfig) (instruction : Instruction)
    (remaining : List Item) (buffer : Bytes) : Prop where
  items_eq : items = .instr instruction :: remaining
  filling : Filling config buffer
  length_eq : buffer.length = instruction.total
  window : Live config
  stream :
    buffer.take config.state.instructionBytesRead ++
        (unread config ++ left) =
      instruction.bytes ++ encode remaining

/--
The items still to be enqueued, and the bytes still to be received, match
the configuration.
-/
def Aligned (left : Bytes) (items : List Item)
    (config : RecieverConfig) : Prop :=
  match config.control with
  | .top =>
      match config.state.state with
      | .idle => left = encode items
      | .readingHeaders =>
          Live config ∧ unread config ++ left = encode items
      | .readingData => False
  | .poll => config.state.state = .idle ∧ left = encode items
  | .header read =>
      config.state.state = .readingHeaders ∧ read.length < 4 ∧
        HeaderAligned read left items config
  | .checkHeader read =>
      config.state.state = .readingHeaders ∧ read.length = 4 ∧
        CheckAligned read left items config
  | .allocate header =>
      ∃ instruction remaining,
        items = .instr instruction :: remaining ∧
          header = instruction.total ∧ Live config ∧
          unread config ++ left = instruction.body ++ encode remaining
  | .data =>
      ∃ instruction remaining buffer,
        DataAligned left items config instruction remaining buffer
  | .refill =>
      ∃ instruction remaining buffer,
        DataAligned left items config instruction remaining buffer ∧
          unread config = [] ∧
          config.state.instructionBytesRead ≠ buffer.length
  | .enqueue _ =>
      ∃ instruction remaining,
        items = .instr instruction :: remaining ∧
          config.state.instruction =
            { instruction := some instruction.bytes
              instructionBytes := instruction.total } ∧
          Live config ∧ unread config ++ left = encode remaining
  | .stopped => left.length ≤ (encode items).length
  | .aborted => left.length ≤ (encode items).length
  | .fault => left.length ≤ (encode items).length

/-- The bytes still to be received belong to the items still to be done. -/
theorem length_le_of_aligned
    {left : Bytes} {items : List Item} {config : RecieverConfig}
    (aligned : Aligned left items config) :
    left.length ≤ (encode items).length := by
  unfold Aligned at aligned
  split at aligned
  case h_1 =>
    split at aligned
    · rw [aligned]
    · rw [← aligned.2, List.length_append]
      omega
    · exact aligned.elim
  case h_2 => rw [aligned.2]
  case h_3 =>
    rcases aligned with ⟨-, -, ⟨-, -, stream⟩ | ⟨-, -, stream⟩⟩
    · rw [← stream, List.length_append, List.length_append]
      omega
    · rw [stream]
  case h_4 =>
    rcases aligned with ⟨-, -, ⟨-, stream⟩ | ⟨-, -, stream⟩⟩
    · rw [← stream, List.length_append, List.length_append]
      omega
    · rw [stream]
  case h_5 =>
    rcases aligned with ⟨instruction, remaining, rfl, -, -, stream⟩
    have length := congrArg List.length stream
    rw [encode_cons, Item.bytes]
    simp only [List.length_append, Item.body] at length ⊢
    omega
  case h_6 =>
    rcases aligned with ⟨instruction, remaining, buffer, data⟩
    have length := congrArg List.length data.stream
    rw [data.items_eq, encode_cons]
    simp only [List.length_append, Item.bytes, Item.header, Item.body,
      Instruction.bytes_eq] at length ⊢
    omega
  case h_7 =>
    rcases aligned with ⟨instruction, remaining, buffer, data, -, -⟩
    have length := congrArg List.length data.stream
    rw [data.items_eq, encode_cons]
    simp only [List.length_append, Item.bytes, Item.header, Item.body,
      Instruction.bytes_eq] at length ⊢
    omega
  case h_8 =>
    rcases aligned with ⟨instruction, remaining, rfl, -, -, stream⟩
    rw [encode_cons, ← stream]
    simp only [List.length_append]
    omega
  case h_9 => exact aligned
  case h_10 => exact aligned
  case h_11 => exact aligned

/-! ## Harmless receive calls -/

/--
The results of a receive call which do no harm: inside a header which has
begun, packets continue packets and failures continue failures, and no call
fails with an error inside an instruction.
-/
def Tolerates (incomingSize : Int) (received : Received) : Control → Prop
  | .header read => read = [] ∨ (0 < incomingSize ↔ 0 < received.size)
  | .refill => received ≠ .failed
  | _ => True

instance (incomingSize : Int) (received : Received) (control : Control) :
    Decidable (Tolerates incomingSize received control) :=
  match control with
  | .header _ => inferInstanceAs (Decidable (_ ∨ (_ ↔ _)))
  | .refill => inferInstanceAs (Decidable (_ ≠ _))
  | .top | .poll | .checkHeader _ | .allocate _ | .data | .enqueue _
  | .stopped | .aborted | .fault => inferInstanceAs (Decidable True)

/-- A receive call does no harm where control stands. -/
def SafeReceive (config : RecieverConfig) : Input → Prop
  | .receive received =>
      Tolerates config.state.incomingSize received config.control
  | _ => True

instance (config : RecieverConfig) (input : Input) :
    Decidable (SafeReceive config input) :=
  match input with
  | .receive _ => inferInstanceAs (Decidable (Tolerates _ _ _))
  | .tau | .active _ | .malloc _ | .node _ =>
      inferInstanceAs (Decidable True)

/-! ## Preservation -/

/--
The outcome of one step: the items which it completes leave the front of the
sequence, and their instructions join the queue unless no node was granted.
-/
def Advanced (left : Bytes) (items : List Item)
    (config next : RecieverConfig) (input : Input) : Prop :=
  ∃ completed remaining,
    items = completed ++ remaining ∧ Aligned left remaining next ∧
      (next.queue = config.queue ++ instructions completed ∨
        input = .node false ∧ next.queue = config.queue)

/-- A step which completes no item. -/
private theorem advanced_of_aligned
    {left : Bytes} {items : List Item} {config next : RecieverConfig}
    {input : Input} (aligned : Aligned left items next)
    (queue : next.queue = config.queue) :
    Advanced left items config next input :=
  ⟨[], items, rfl, aligned, Or.inl (by rw [queue]; simp [instructions])⟩

/-- Reading a byte of a live header keeps the stream in place. -/
private theorem aligned_readHeaderByte
    {config : RecieverConfig} {read left : Bytes} {items : List Item}
    {byte : UInt8} {rest : Bytes}
    (state : config.state.state = .readingHeaders)
    (short : read.length < 4) (live : Live config)
    (window : unread config = byte :: rest)
    (stream : read ++ (unread config ++ left) = encode items) :
    Aligned left items (readHeaderByte config read) := by
  have live' := live_readHeaderByte live window read
  have rest' := unread_readHeaderByte window read
  have size := length_unread live
  have offset := live.offset_le
  rw [window, List.length_cons] at size
  have moved :
      (read ++ [byte]) ++
          (unread (readHeaderByte config read) ++ left) =
        encode items := by
    rw [rest', ← stream, window]
    simp
  rw [readHeaderByte_eq window] at live' moved ⊢
  rcases Nat.lt_or_ge (read.length + 1) 4 with more | done
  · rw [if_pos more] at live' moved ⊢
    exact
      ⟨state, by simpa using more,
        .live live' (Or.inr (by simp only; omega)) moved⟩
  · rw [if_neg (by omega)] at live' moved ⊢
    have length : (read ++ [byte]).length = 4 := by
      rw [List.length_append, List.length_singleton]
      omega
    exact ⟨state, length, .live live' moved⟩

/-- Reading a zero left behind by a failed call keeps the stream in place. -/
private theorem aligned_readHeaderByte_blank
    {config : RecieverConfig} {read left : Bytes} {items : List Item}
    (state : config.state.state = .readingHeaders)
    (short : read.length < 4) (zeros : Blank config read)
    (stream : left = encode items) :
    Aligned left items (readHeaderByte config read) := by
  rcases zeros with ⟨sizeNonpos, sizeGe, bufferZero, offsetLe, readZero⟩
  have byteAt : config.recbuffer[config.state.recOffset]? = some 0 := by
    rw [bufferZero, List.getElem?_replicate, if_pos]
    unfold wimpMessageBufferBytes
    omega
  have extended :
      read ++ [0] = List.replicate (read.length + 1) 0 := by
    rw [List.replicate_succ', ← readZero]
  rw [readHeaderByte, byteAt]
  rcases Nat.lt_or_ge (read.length + 1) 4 with more | done
  · simp only [if_pos more]
    refine ⟨state, by simpa using more, .blank (by simp) ?_ stream⟩
    constructor
    · exact sizeNonpos
    · exact sizeGe
    · exact bufferZero
    · rw [List.length_append, List.length_singleton]
      simp only
      omega
    · rw [List.length_append, List.length_singleton]
      exact extended
  · have length : read.length + 1 = 4 := by omega
    simp only [if_neg (not_lt.mpr done)]
    refine ⟨state, by simpa using length, .blank sizeNonpos ?_ stream⟩
    rw [extended, length]

/-- A failed receive call leaves a zeroed buffer behind. -/
private theorem blank_nextPacket
    (config : RecieverConfig) {received : Received} (read : Bytes)
    (size : received.size ≤ 0)
    (readZero : read = List.replicate read.length 0) :
    Blank (wimpRecieverNextPacket config received) read ∧
      received.bytes = [] := by
  cases received with
  | packet bytes =>
      have empty : bytes = [] := by
        simp only [Received.size] at size
        exact List.length_eq_zero_iff.mp (by omega)
      subst empty
      refine ⟨⟨size, ?_, ?_, Nat.zero_le _, readZero⟩, rfl⟩
      · simp [wimpRecieverNextPacket, Received.size]
      · simp [wimpRecieverNextPacket, Received.bytes]
  | closed =>
      refine ⟨⟨size, ?_, ?_, Nat.zero_le _, readZero⟩, rfl⟩
      · simp [wimpRecieverNextPacket, Received.size]
      · simp [wimpRecieverNextPacket, Received.bytes]
  | failed =>
      refine ⟨⟨size, ?_, ?_, Nat.zero_le _, readZero⟩, rfl⟩
      · simp [wimpRecieverNextPacket, Received.size]
      · simp [wimpRecieverNextPacket, Received.bytes]

/-- A call of positive size is a packet, and its window is not empty. -/
private theorem live_of_size_pos
    (config : RecieverConfig) {received : Received}
    (admissible : received.Admissible) (size : 0 < received.size) :
    Live (wimpRecieverNextPacket config received) ∧
      ∃ byte rest, received.bytes = byte :: rest := by
  have notFailed : received ≠ .failed := by
    rintro rfl
    simp [Received.size] at size
  refine ⟨live_nextPacket config admissible notFailed, ?_⟩
  cases received with
  | packet bytes =>
      cases bytes with
      | nil => simp [Received.size] at size
      | cons byte rest => exact ⟨byte, rest, rfl⟩
  | closed => simp [Received.size] at size
  | failed => exact absurd rfl notFailed

private theorem aligned_polled
    {config : RecieverConfig} {received : Received} {left : Bytes}
    {items : List Item}
    (control : config.control = .poll)
    (admissible : received.Admissible) (size : 0 < received.size)
    (aligned : Aligned (received.bytes ++ left) items config) :
    Aligned left items
      { wimpRecieverNextPacket config received with
        control := .header []
        state :=
          { (wimpRecieverNextPacket config received).state with
            state := .readingHeaders } } := by
  simp only [Aligned, control] at aligned
  have window := (live_of_size_pos config admissible size).1
  refine
    ⟨rfl, by decide, .live (window.congr rfl rfl rfl) (Or.inl rfl) ?_⟩
  change [] ++ (unread (wimpRecieverNextPacket config received) ++ left) =
    encode items
  rw [unread_nextPacket, List.nil_append]
  exact aligned.2

private theorem aligned_polledNothing
    {config : RecieverConfig} {received : Received} {left : Bytes}
    {items : List Item}
    (control : config.control = .poll)
    (size : received.size ≤ 0)
    (aligned : Aligned (received.bytes ++ left) items config) :
    Aligned left items
      { wimpRecieverNextPacket config received with control := .top } := by
  simp only [Aligned, control] at aligned
  have empty :=
    (blank_nextPacket config [] size rfl).2
  rw [empty, List.nil_append] at aligned
  simp only [Aligned, wimpRecieverNextPacket, aligned.1]
  exact aligned.2

private theorem aligned_headerReceive
    {config : RecieverConfig} {received : Received} {left read : Bytes}
    {items : List Item}
    (control : config.control = .header read)
    (exhausted : Exhausted config.state)
    (admissible : received.Admissible)
    (safe : SafeReceive config (.receive received))
    (aligned : Aligned (received.bytes ++ left) items config) :
    Aligned left items
      (readHeaderByte (wimpRecieverNextPacket config received) read) := by
  simp only [Aligned, control] at aligned
  simp only [SafeReceive, Tolerates, control] at safe
  rcases aligned with ⟨state, short, header⟩
  rcases Int.lt_or_le 0 received.size with size | size
  · rcases live_of_size_pos config admissible size with
      ⟨window, byte, rest, bytes⟩
    refine aligned_readHeaderByte state short window
      (by rw [unread_nextPacket, bytes]) ?_
    rw [unread_nextPacket]
    cases header with
    | live before progress stream =>
        rw [(exhausted_iff before).mp exhausted, List.nil_append] at stream
        exact stream
    | blank nonempty zeros stream =>
        have nonpos := zeros.size_nonpos
        have positive := (safe.resolve_left nonempty).mpr size
        omega
  · cases header with
    | live before progress stream =>
        have fresh : read = [] := by
          rcases safe with fresh | same
          · exact fresh
          · exact progress.resolve_right fun positive => by
              have := same.mp positive
              omega
        subst fresh
        rcases blank_nextPacket config [] size rfl with ⟨zeros, empty⟩
        rw [(exhausted_iff before).mp exhausted, empty] at stream
        exact aligned_readHeaderByte_blank state short zeros stream
    | blank nonempty zeros stream =>
        rcases blank_nextPacket config _ size zeros.read_zero with
          ⟨zeros', empty⟩
        rw [empty, List.nil_append] at stream
        exact aligned_readHeaderByte_blank state short zeros' stream

private theorem aligned_headerByte
    {config : RecieverConfig} {left read : Bytes} {items : List Item}
    (control : config.control = .header read)
    (available : ¬ Exhausted config.state)
    (aligned : Aligned left items config) :
    Aligned left items (readHeaderByte config read) := by
  simp only [Aligned, control] at aligned
  rcases aligned with ⟨state, short, header⟩
  cases header with
  | live window progress stream =>
      rw [exhausted_iff window] at available
      rcases List.exists_cons_of_ne_nil available with ⟨byte, rest, nonempty⟩
      exact aligned_readHeaderByte state short window nonempty stream
  | blank nonempty zeros stream =>
      exact aligned_readHeaderByte_blank state short zeros stream

/-- The word read from the header of a framed item. -/
private theorem toInt32_header {item : Item} (framed : item.Framed) :
    toInt32 (ofLE (toLE 4 item.header)) = item.header := by
  have small := Item.header_lt framed
  rw [ofLE_toLE_of_lt (by omega), toInt32_of_lt small]

/-- Where the tests on the header of a framed item lead. -/
def Item.afterHeader : Item → Control
  | .ping => .top
  | .instr instruction => .allocate instruction.total

/-- The header of a framed item passes the tests for what it is. -/
theorem checkHeader_of_framed
    (asserts : Bool) (config : RecieverConfig)
    {item : Item} (framed : item.Framed) :
    checkHeader asserts config (toLE 4 item.header) =
      { config with control := item.afterHeader } := by
  cases item with
  | ping =>
      have word : toInt32 (ofLE (toLE 4 Item.ping.header)) =
          wimpRecieverPing :=
        toInt32_header framed
      simp only [checkHeader, word, Item.afterHeader]
      rw [if_neg (by simp [wimpRecieverPing]),
        if_neg (by simp [wimpRecieverPing]), if_neg (by simp)]
  | instr instruction =>
      have large := instruction.four_lt_total
      have word : toInt32 (ofLE (toLE 4 (Item.instr instruction).header)) =
          instruction.total :=
        toInt32_header framed
      simp only [checkHeader, word, Item.afterHeader]
      rw [if_neg (by omega), if_neg (by omega),
        if_pos (by exact_mod_cast framed.2)]

private theorem advanced_headerChecked
    {asserts : Bool} {config : RecieverConfig} {left read : Bytes}
    {items : List Item}
    (framed : ∀ item ∈ items, item.Framed)
    (control : config.control = .checkHeader read)
    (aligned : Aligned left items config) :
    Advanced left items config (checkHeader asserts config read) .tau := by
  simp only [Aligned, control] at aligned
  rcases aligned with ⟨state, length, ⟨window, stream⟩ | ⟨-, zeros, stream⟩⟩
  · rcases header_of_stream length stream with
      ⟨item, remaining, rfl, rfl, rest⟩
    have itemFramed := framed item (List.mem_cons_self ..)
    rw [checkHeader_of_framed asserts config itemFramed]
    cases item with
    | ping =>
        refine ⟨[.ping], remaining, rfl, ?_, Or.inl ?_⟩
        · simp only [Aligned, Item.afterHeader, state]
          exact ⟨window.congr rfl rfl rfl, rest⟩
        · simp [instructions, Item.instructions]
    | instr instruction =>
        exact advanced_of_aligned
          ⟨instruction, remaining, rfl, rfl, window.congr rfl rfl rfl,
            rest⟩ rfl
  · have word : toInt32 (ofLE read) = 0 := by
      rw [zeros]
      decide
    have result :
        checkHeader asserts config read =
          { config with
            control := .top
            state := { config.state with state := .idle } } := by
      simp only [checkHeader, word]
      rw [if_neg (by simp), if_pos trivial]
    rw [result]
    exact advanced_of_aligned stream rfl

private theorem advanced_allocated
    {config : RecieverConfig} {left : Bytes} {items : List Item}
    {header : Int} {block : Option Bytes}
    (framed : ∀ item ∈ items, item.Framed)
    (control : config.control = .allocate header)
    (admissible : BlockAdmissible header block)
    (aligned : Aligned left items config) :
    Advanced left items config (beginInstruction config header block)
      (.malloc block) := by
  have covered := length_le_of_aligned aligned
  simp only [Aligned, control] at aligned
  rcases aligned with ⟨instruction, remaining, rfl, rfl, window, stream⟩
  have small : instruction.total < 2 ^ 31 :=
    (framed _ (List.mem_cons_self ..)).1
  have large := instruction.four_lt_total
  cases block with
  | none =>
      exact advanced_of_aligned covered rfl
  | some block =>
      rcases admissible block rfl with ⟨length, -⟩
      rw [toSizeT_natCast (by omega)] at length
      have result :=
        beginInstruction_granted config length (by omega) small
      have filled :
          (toLE 4 instruction.total ++ block.drop 4).length =
            instruction.total := by
        rw [List.length_append, length_toLE, List.length_drop]
        omega
      rw [result]
      refine advanced_of_aligned ?_ rfl
      refine ⟨instruction, remaining,
        toLE 4 instruction.total ++ block.drop 4, rfl, ?_, filled,
        window.congr rfl rfl rfl, ?_⟩
      · constructor
        · rw [filled]
        · rw [filled]
          simp only
          omega
        · rw [filled, ptrdiffMax]
          omega
      · change
          (toLE 4 instruction.total ++ block.drop 4).take 4 ++
              (unread config ++ left) =
            instruction.bytes ++ encode remaining
        rw [List.take_left' (length_toLE 4 _), stream,
          Instruction.bytes_eq, List.append_assoc]

private theorem advanced_copied
    {config : RecieverConfig} {left : Bytes} {items : List Item}
    (control : config.control = .data)
    (aligned : Aligned left items config) :
    Advanced left items config (copyData config) .tau := by
  simp only [Aligned, control] at aligned
  rcases aligned with ⟨instruction, remaining, buffer, data⟩
  obtain ⟨moved, target, count, window, targetLength, taken, result,
    filling, live⟩ := copyData_live data.window data.filling
  have readLe := data.filling.read_le
  have bytesRead :
      (copyData config).state.instructionBytesRead =
        config.state.instructionBytesRead + moved.length := by
    rw [result]
  have next : DataAligned left items (copyData config) instruction
      remaining target := by
    constructor
    case items_eq => exact data.items_eq
    case filling => exact filling
    case length_eq => rw [targetLength, data.length_eq]
    case window => exact live
    case stream =>
      rw [bytesRead, taken, ← data.stream, window]
      simp only [List.append_assoc]
  have queue : (copyData config).queue = config.queue := by rw [result]
  refine advanced_of_aligned ?_ queue
  have controls :
      (copyData config).control =
        if config.state.instructionBytesRead + moved.length ≠
            buffer.length then .refill
        else .data := by
    rw [result]
  unfold Aligned
  rw [controls]
  split_ifs with unfinished
  · refine ⟨instruction, remaining, target, next, ?_, ?_⟩
    · have length := congrArg List.length window
      rw [List.length_append] at length
      exact List.length_eq_zero_iff.mp (by omega)
    · rw [bytesRead, targetLength]
      exact unfinished
  · exact ⟨instruction, remaining, target, next⟩

private theorem advanced_finished
    {processName : Bytes} {config : RecieverConfig} {left : Bytes}
    {items : List Item}
    (control : config.control = .data)
    (complete : config.state.instructionBytesRead =
      config.state.instruction.instructionBytes)
    (aligned : Aligned left items config) :
    Advanced left items config (finishInstruction processName config)
      .tau := by
  have covered := length_le_of_aligned aligned
  simp only [Aligned, control] at aligned
  rcases aligned with ⟨instruction, remaining, buffer, data⟩
  have whole : config.state.instructionBytesRead = buffer.length := by
    rw [complete, data.filling.instruction_eq]
  have stream := data.stream
  rw [whole, List.take_length] at stream
  rcases
    List.append_inj stream
      (by rw [data.length_eq, Instruction.length_bytes]) with ⟨bytes, rest⟩
  cases signal : exitSignal processName config.state.instruction with
  | none =>
      have result : finishInstruction processName config =
          { config with control := .fault } := by
        rw [finishInstruction, signal]
      rw [result]
      exact advanced_of_aligned covered rfl
  | some disconnect =>
      have result : finishInstruction processName config =
          { config with control := .enqueue disconnect } := by
        rw [finishInstruction, signal]
      rw [result]
      refine advanced_of_aligned ?_ rfl
      refine ⟨instruction, remaining, data.items_eq, ?_,
        data.window.congr rfl rfl rfl, rest⟩
      rw [data.filling.instruction_eq, data.length_eq, bytes]

private theorem advanced_refilled
    {config : RecieverConfig} {received : Received} {left : Bytes}
    {items : List Item}
    (control : config.control = .refill)
    (admissible : received.Admissible)
    (safe : SafeReceive config (.receive received))
    (aligned : Aligned (received.bytes ++ left) items config) :
    Advanced left items config
      { wimpRecieverNextPacket config received with control := .data }
      (.receive received) := by
  simp only [Aligned, control] at aligned
  simp only [SafeReceive, Tolerates, control] at safe
  rcases aligned with ⟨instruction, remaining, buffer, data, exhausted, -⟩
  have live := live_nextPacket config admissible safe
  refine advanced_of_aligned ?_ rfl
  refine ⟨instruction, remaining, buffer, data.items_eq, ?_,
    data.length_eq, live.congr rfl rfl rfl, ?_⟩
  · exact ⟨data.filling.instruction_eq, data.filling.read_le,
      data.filling.size_le⟩
  · change
      buffer.take config.state.instructionBytesRead ++
          (unread (wimpRecieverNextPacket config received) ++ left) = _
    rw [unread_nextPacket, ← data.stream, exhausted, List.nil_append]

private theorem advanced_enqueued
    {config : RecieverConfig} {disconnect granted : Bool} {left : Bytes}
    {items : List Item}
    (control : config.control = .enqueue disconnect)
    (aligned : Aligned left items config) :
    Advanced left items config
      (enqueueInstruction config disconnect granted) (.node granted) := by
  simp only [Aligned, control] at aligned
  rcases aligned with ⟨instruction, remaining, rfl, complete, window, stream⟩
  refine ⟨[.instr instruction], remaining, rfl, ?_, ?_⟩
  · cases disconnect with
    | true =>
        have length := congrArg List.length stream
        rw [List.length_append] at length
        change left.length ≤ (encode remaining).length
        omega
    | false => exact ⟨window.congr rfl rfl rfl, stream⟩
  · cases granted with
    | true =>
        left
        simp [enqueueInstruction, complete, instructions,
          Item.instructions]
    | false => exact Or.inr ⟨rfl, rfl⟩

/-- Every harmless step keeps the configuration aligned. -/
theorem advanced_of_step
    {asserts : Bool} {processName left : Bytes} {items : List Item}
    {config next : RecieverConfig} {input : Input}
    (framed : ∀ item ∈ items, item.Framed)
    (safe : SafeReceive config input)
    (aligned : Aligned (received input ++ left) items config)
    (stepped : step asserts processName config input = some next) :
    Advanced left items config next input := by
  have covered := length_le_of_aligned aligned
  cases step_cases stepped with
  | deactivated control =>
      exact advanced_of_aligned covered rfl
  | startPoll control state =>
      simp only [Aligned, control, state] at aligned
      exact advanced_of_aligned ⟨state, aligned⟩ rfl
  | startHeader control state =>
      simp only [Aligned, control, state] at aligned
      exact advanced_of_aligned
        ⟨state, by decide,
          .live (aligned.1.congr rfl rfl rfl) (Or.inl rfl) aligned.2⟩ rfl
  | resumeData control state =>
      simp only [Aligned, control, state] at aligned
  | polled received control admissible size =>
      exact advanced_of_aligned
        (aligned_polled control admissible size aligned) rfl
  | polledNothing received control admissible size =>
      exact advanced_of_aligned
        (aligned_polledNothing control size aligned) rfl
  | headerByte read control available =>
      refine advanced_of_aligned
        (aligned_headerByte control available aligned) ?_
      unfold readHeaderByte
      split <;> rfl
  | headerReceive read received control exhausted admissible =>
      refine advanced_of_aligned
        (aligned_headerReceive control exhausted admissible safe aligned) ?_
      unfold readHeaderByte
      split <;> rfl
  | headerChecked read control =>
      exact advanced_headerChecked framed control aligned
  | allocated header block control admissible =>
      exact advanced_allocated framed control admissible aligned
  | copied control incomplete =>
      exact advanced_copied control aligned
  | finished control complete =>
      exact advanced_finished control complete aligned
  | refilled received control admissible =>
      exact advanced_refilled control admissible safe aligned
  | enqueued disconnect granted control =>
      exact advanced_enqueued control aligned

/-! ## Whole runs -/

theorem receivedBytes_concat (inputs : List Input) (input : Input) :
    receivedBytes (inputs ++ [input]) =
      receivedBytes inputs ++ received input := by
  simp [receivedBytes]

/-- The items completed by a run, and the alignment of the rest. -/
theorem completed_of_run
    {asserts : Bool} {processName : Bytes} {items : List Item}
    {inputs : List Input} {config : RecieverConfig}
    (framed : ∀ item ∈ items, item.Framed)
    (safe : Along (step asserts processName) SafeReceive {} inputs)
    (ran : run (step asserts processName) {} inputs = some config)
    {left : Bytes}
    (stream : receivedBytes inputs ++ left = encode items) :
    ∃ completed remaining,
      items = completed ++ remaining ∧ Aligned left remaining config ∧
        config.queue.Sublist (instructions completed) ∧
        (.node false ∉ inputs → config.queue = instructions completed) := by
  refine run_induction_along
    (motive := fun inputs config =>
      ∀ left, receivedBytes inputs ++ left = encode items →
        ∃ completed remaining,
          items = completed ++ remaining ∧ Aligned left remaining config ∧
            config.queue.Sublist (instructions completed) ∧
            (.node false ∉ inputs →
              config.queue = instructions completed))
    ?_ ?_ safe ran left stream
  · intro left stream
    exact ⟨[], items, rfl, stream, by simp [instructions],
      fun _ => rfl⟩
  · intro inputs config input next induction safe stepped left stream
    rw [receivedBytes_concat, List.append_assoc] at stream
    rcases induction (received input ++ left) stream with
      ⟨completed, remaining, rfl, aligned, sublist, lossless⟩
    have remainingFramed : ∀ item ∈ remaining, item.Framed :=
      fun item member => framed item (List.mem_append_right _ member)
    rcases advanced_of_step remainingFramed safe aligned stepped with
      ⟨taken, rest, rfl, aligned, queued | ⟨lost, queued⟩⟩
    · refine ⟨completed ++ taken, rest, by simp, aligned, ?_, ?_⟩
      · rw [queued, instructions_append]
        exact sublist.append_right _
      · intro granted
        rw [queued, instructions_append,
          lossless fun member => granted (List.mem_append_left _ member)]
    · refine ⟨completed ++ taken, rest, by simp, aligned, ?_, ?_⟩
      · rw [queued, instructions_append]
        exact sublist.trans (List.sublist_append_left _ _)
      · intro granted
        exact absurd (List.mem_append_right _ (by simp [lost])) granted

/-- Items are completed from received bytes only. -/
theorem encode_completed_prefix
    {completed remaining : List Item} {bytes left : Bytes}
    {config : RecieverConfig}
    (stream : bytes ++ left = encode (completed ++ remaining))
    (aligned : Aligned left remaining config) :
    encode completed <+: bytes := by
  have covered := length_le_of_aligned aligned
  have split :
      encode (completed ++ remaining) =
        encode completed ++ encode remaining :=
    List.flatMap_append
  have lengths := congrArg List.length stream
  rw [split] at stream lengths
  simp only [List.length_append] at lengths
  have received : bytes <+: encode completed ++ encode remaining := by
    rw [← stream]
    exact List.prefix_append _ _
  exact List.prefix_of_prefix_length_le (List.prefix_append _ _) received
    (by omega)

end Wimp.Reciever.Stream
