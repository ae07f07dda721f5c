import Wimp.Reciever.Bounds

/-!
# The receiver after its peer has closed

Once the peer has closed, every receive call returns zero at once.  Only the
idle state looks at this result.  The header loop completes the header from
the cleared buffer, and the data loop asks for the next packet again and
again, so that the receiver never looks at its active flag any more.

The module says in which states of the loop this happens, whatever was
received before.
-/

namespace Wimp.Reciever.Closing

open Wimp.Lib.ByteRegion
open Wimp.Lib.Runs
open Wimp.Instr.Codec
open Wimp.Reciever.Machine
open Wimp.Reciever.Window
open Wimp.Reciever.Bounds

/-! ## Running on without a peer -/

/-- Everything besides the peer which the loop depends on. -/
structure Environment where
  asserts : Bool
  processName : Bytes
  malloc : Int → Option Bytes
  /-- Whether `wimp_instr_queue_add` gets its node. -/
  granted : Bool
  admissible : ∀ size, BlockAdmissible size (malloc size)

variable (environment : Environment)

/-- What a state waits for, when the peer has closed. -/
def closedInput (config : RecieverConfig) : Input :=
  match config.control with
  | .top => .active true
  | .poll | .refill => .receive .closed
  | .header _ =>
      if Exhausted config.state then .receive .closed else .tau
  | .allocate header => .malloc (environment.malloc header)
  | .enqueue _ => .node environment.granted
  | .checkHeader _ | .data | .stopped | .aborted | .fault => .tau

/-- One step of the loop, when the peer has closed. -/
def closedStep (config : RecieverConfig) : Option RecieverConfig :=
  step environment.asserts environment.processName config
    (closedInput environment config)

/-- A number of such steps. -/
def closedRun : Nat → RecieverConfig → Option RecieverConfig
  | 0, config => some config
  | count + 1, config =>
      (closedStep environment config).bind (closedRun count)

/-- The loop is at its test of the active flag, or was left for good. -/
def AtCheck (config : RecieverConfig) : Prop :=
  config.control = .top ∨ config.control = .stopped

instance (config : RecieverConfig) : Decidable (AtCheck config) :=
  inferInstanceAs (Decidable (_ ∨ _))

/-- The loop gets to its test of the active flag in finitely many steps. -/
def ReachesCheck (config : RecieverConfig) : Prop :=
  ∃ count next,
    closedRun environment count config = some next ∧ AtCheck next

/-- Every other control point is away from the test. -/
theorem not_atCheck
    {config : RecieverConfig} {control : Control}
    (at_control : config.control = control) (notTop : control ≠ .top)
    (notStopped : control ≠ .stopped) :
    ¬ AtCheck config := by
  rintro (top | stopped)
  · exact notTop (at_control.symm.trans top)
  · exact notStopped (at_control.symm.trans stopped)

variable {environment}

theorem reachesCheck_of_atCheck
    {config : RecieverConfig} (check : AtCheck config) :
    ReachesCheck environment config :=
  ⟨0, config, rfl, check⟩

/-- Away from the test, the next step decides. -/
theorem reachesCheck_iff_of_step
    {config next : RecieverConfig} (away : ¬ AtCheck config)
    (stepped : closedStep environment config = some next) :
    ReachesCheck environment config ↔ ReachesCheck environment next := by
  constructor
  · rintro ⟨count, final, ran, check⟩
    cases count with
    | zero =>
        cases ran
        exact absurd check away
    | succ count =>
        rw [closedRun, stepped, Option.bind_some] at ran
        exact ⟨count, final, ran, check⟩
  · rintro ⟨count, final, ran, check⟩
    refine ⟨count + 1, final, ?_, check⟩
    rw [closedRun, stepped, Option.bind_some, ran]

/-- A set of states away from the test which no step leaves is a trap. -/
theorem not_reachesCheck_of_trapped
    {trap : RecieverConfig → Prop}
    (away : ∀ config, trap config → ¬ AtCheck config)
    (kept :
      ∀ config next, trap config →
        closedStep environment config = some next → trap next)
    {config : RecieverConfig} (trapped : trap config) :
    ¬ ReachesCheck environment config := by
  rintro ⟨count, final, ran, check⟩
  induction count generalizing config with
  | zero =>
      rw [closedRun, Option.some.injEq] at ran
      rw [← ran] at check
      exact away config trapped check
  | succ count induction =>
      rw [closedRun, Option.bind_eq_some_iff] at ran
      rcases ran with ⟨next, stepped, ran⟩
      exact induction (kept config next trapped stepped) ran

/-- A crash is no return. -/
theorem not_reachesCheck_of_fault
    {config : RecieverConfig}
    (crashed : config.control = .fault ∨ config.control = .aborted) :
    ¬ ReachesCheck environment config := by
  refine
    @not_reachesCheck_of_trapped environment
      (fun config =>
        config.control = .fault ∨ config.control = .aborted)
      ?_ ?_ config crashed
  · rintro config (fault | aborted) (top | stopped)
    all_goals simp_all
  · rintro config next (fault | aborted) stepped
    all_goals simp [closedStep, step, *] at stepped

/-! ## All states of the loop -/

/-- What holds at each control point, whatever was received. -/
def Held (config : RecieverConfig) : Prop :=
  match config.control with
  | .top | .poll => config.state.state ≠ .readingData
  | .header read =>
      config.state.state ≠ .readingData ∧ read.length < 4
  | .checkHeader read =>
      config.state.state ≠ .readingData ∧ read.length = 4
  | .allocate header => -2 ^ 31 ≤ header ∧ header < 2 ^ 31
  | .data => ∃ buffer, Filling config buffer
  | .refill =>
      ∃ buffer, Filling config buffer ∧
        config.state.instructionBytesRead ≠ buffer.length
  | _ => True

/-- The invariant of all runs, failed receive calls included. -/
structure Sane (config : RecieverConfig) : Prop where
  buffer_length : config.recbuffer.length = wimpMessageBufferBytes
  size_le : config.state.incomingSize ≤ wimpMessageBufferBytes
  le_size : -1 ≤ config.state.incomingSize
  offset_le : config.state.recOffset ≤ wimpMessageBufferBytes
  held : config.control = .fault ∨ Held config

theorem sane_start : Sane {} := by
  refine ⟨by simp, ?_, ?_, ?_, Or.inr ?_⟩
  · decide
  · decide
  · decide
  · show RecieverState.idle ≠ .readingData
    decide

/-- A receive call leaves the buffer and its bounds in order. -/
theorem sane_nextPacket
    (config : RecieverConfig) {received : Received}
    (admissible : received.Admissible) :
    (wimpRecieverNextPacket config received).recbuffer.length =
        wimpMessageBufferBytes ∧
      received.size ≤ wimpMessageBufferBytes ∧ -1 ≤ received.size := by
  cases received with
  | packet bytes =>
      have fits := admissible.2
      refine ⟨?_, ?_, ?_⟩
      · simp only [wimpRecieverNextPacket, Received.bytes,
          List.length_append, List.length_replicate]
        omega
      · show (bytes.length : Int) ≤ _
        omega
      · show -1 ≤ (bytes.length : Int)
        omega
  | closed =>
      refine ⟨?_, by decide, by decide⟩
      simp [wimpRecieverNextPacket, Received.bytes]
  | failed =>
      refine ⟨?_, by decide, by decide⟩
      simp [wimpRecieverNextPacket, Received.bytes]

theorem sane_readHeaderByte
    {config : RecieverConfig} {read : Bytes}
    (bufferLength : config.recbuffer.length = wimpMessageBufferBytes)
    (sizeLe : config.state.incomingSize ≤ wimpMessageBufferBytes)
    (leSize : -1 ≤ config.state.incomingSize)
    (offsetLe : config.state.recOffset ≤ wimpMessageBufferBytes)
    (state : config.state.state ≠ .readingData)
    (short : read.length < 4) :
    Sane (readHeaderByte config read) := by
  unfold readHeaderByte
  split
  · exact ⟨bufferLength, sizeLe, leSize, offsetLe, Or.inl rfl⟩
  · rename_i byte found
    have inside := (List.getElem?_eq_some_iff.mp found).choose
    rw [bufferLength] at inside
    refine ⟨bufferLength, sizeLe, leSize, inside, Or.inr ?_⟩
    by_cases more : read.length + 1 < 4
    · simp only [if_pos more, Held, List.length_append,
        List.length_singleton]
      exact ⟨state, more⟩
    · simp only [if_neg more, Held, List.length_append,
        List.length_singleton]
      exact ⟨state, by omega⟩

theorem sane_beginInstruction
    {config : RecieverConfig} {header : Int} {block : Option Bytes}
    (sane : Sane config) (admissible : BlockAdmissible header block) :
    Sane (beginInstruction config header block) := by
  rcases sane with ⟨bufferLength, sizeLe, leSize, offsetLe, -⟩
  cases block with
  | none => exact ⟨bufferLength, sizeLe, leSize, offsetLe, Or.inl rfl⟩
  | some block =>
      rcases admissible block rfl with ⟨length, fits⟩
      simp only [beginInstruction, wimpRecieverAllocateinstr]
      split
      · exact ⟨bufferLength, sizeLe, leSize, offsetLe, Or.inl rfl⟩
      · rename_i target spliced
        have targetLength := length_of_splice spliced
        have room : 4 ≤ block.length := by
          unfold splice at spliced
          split_ifs at spliced with inside
          rw [length_toLE] at inside
          omega
        refine ⟨bufferLength, sizeLe, leSize, offsetLe, Or.inr ?_⟩
        refine ⟨target, ?_, ?_, ?_⟩
        · simp only [targetLength, length]
        · rw [targetLength]
          exact room
        · rw [targetLength, length]
          exact fits

theorem sane_copyData
    {config : RecieverConfig} {buffer : Bytes}
    (sane : Sane config) (filling : Filling config buffer) :
    Sane (copyData config) := by
  rcases sane with ⟨bufferLength, sizeLe, leSize, offsetLe, -⟩
  unfold copyData
  dsimp only
  split
  · exact ⟨bufferLength, sizeLe, leSize, offsetLe, Or.inl rfl⟩
  · rename_i target copied
    simp only [filling.instruction_eq, Option.bind_eq_bind,
      Option.bind_some, Option.bind_eq_some_iff] at copied
    rcases copied with ⟨source, sliced, spliced⟩
    have targetLength := length_of_splice spliced
    have blockLe := filling.size_le
    have sourceLength :
        source.length = bytesToCopy config.state := by
      rcases (slice_eq_some_iff _ _ _ _).mp sliced with
        ⟨-, -, -, -, length⟩
      exact length
    have inside :
        config.state.recOffset + bytesToCopy config.state ≤
          wimpMessageBufferBytes := by
      rw [← bufferLength]
      unfold slice at sliced
      split_ifs at sliced with inside
      exact inside
    have fits :
        config.state.instructionBytesRead + bytesToCopy config.state ≤
          buffer.length := by
      unfold splice at spliced
      split_ifs at spliced with inside
      rw [sourceLength] at inside
      exact inside
    unfold wimpMessageBufferBytes at inside
    unfold ptrdiffMax at blockLe
    have offsetSum :
        addSizeT config.state.recOffset (bytesToCopy config.state) =
          config.state.recOffset + bytesToCopy config.state :=
      addSizeT_of_lt (by omega)
    have readSum :
        addSizeT config.state.instructionBytesRead
            (bytesToCopy config.state) =
          config.state.instructionBytesRead + bytesToCopy config.state :=
      addSizeT_of_lt (by omega)
    have next : Filling
        { config with
          state :=
            { config.state with
              recOffset :=
                addSizeT config.state.recOffset (bytesToCopy config.state)
              instruction :=
                { config.state.instruction with
                  instruction := some target }
              instructionBytesRead :=
                addSizeT config.state.instructionBytesRead
                  (bytesToCopy config.state) } }
        target := by
      refine ⟨?_, ?_, ?_⟩
      · simp only [filling.instruction_eq, targetLength]
      · rw [targetLength, readSum]
        exact fits
      · rw [targetLength]
        exact filling.size_le
    refine ⟨bufferLength, sizeLe, leSize, ?_, Or.inr ?_⟩
    · rw [offsetSum]
      exact inside
    · unfold Held
      by_cases complete :
          addSizeT config.state.instructionBytesRead
              (bytesToCopy config.state) =
            config.state.instruction.instructionBytes
      · simp only [complete, ne_eq, not_true_eq_false, if_false]
        refine ⟨target, next.instruction_eq, ?_, next.size_le⟩
        have bound := next.read_le
        simp only [complete] at bound
        exact bound
      · simp only [ne_eq, complete, not_false_eq_true, if_true]
        refine
          ⟨target, ⟨next.instruction_eq, next.read_le, next.size_le⟩, ?_⟩
        rw [filling.instruction_eq] at complete
        rw [targetLength]
        exact complete

/-- Every step keeps the invariant. -/
theorem sane_of_step
    {asserts : Bool} {processName : Bytes} {config next : RecieverConfig}
    {input : Input} (sane : Sane config)
    (stepped : step asserts processName config input = some next) :
    Sane next := by
  have whole := sane
  rcases sane with ⟨bufferLength, sizeLe, leSize, offsetLe, held⟩
  have atControl (notFault : config.control ≠ .fault) : Held config :=
    held.resolve_left notFault
  cases step_cases stepped with
  | deactivated control =>
      exact ⟨bufferLength, sizeLe, leSize, offsetLe, Or.inr trivial⟩
  | startPoll control state =>
      refine ⟨bufferLength, sizeLe, leSize, offsetLe, Or.inr ?_⟩
      show config.state.state ≠ _
      rw [state]
      decide
  | startHeader control state =>
      refine ⟨bufferLength, sizeLe, leSize, offsetLe, Or.inr ⟨?_, ?_⟩⟩
      · show config.state.state ≠ _
        rw [state]
        decide
      · show 0 < 4
        omega
  | resumeData control state =>
      have held := atControl (by rw [control]; decide)
      simp only [Held, control] at held
      exact absurd state held
  | polled received control admissible size =>
      rcases sane_nextPacket config admissible with ⟨length, upper, lower⟩
      refine
        ⟨length, upper, lower, Nat.zero_le _, Or.inr ⟨?_, ?_⟩⟩
      · show RecieverState.readingHeaders ≠ .readingData
        decide
      · show 0 < 4
        omega
  | polledNothing received control admissible size =>
      have held := atControl (by rw [control]; decide)
      simp only [Held, control] at held
      rcases sane_nextPacket config admissible with ⟨length, upper, lower⟩
      exact ⟨length, upper, lower, Nat.zero_le _, Or.inr held⟩
  | headerByte read control available =>
      have held := atControl (by rw [control]; exact Control.noConfusion)
      simp only [Held, control] at held
      exact
        sane_readHeaderByte bufferLength sizeLe leSize offsetLe held.1
          held.2
  | headerReceive read received control exhausted admissible =>
      have held := atControl (by rw [control]; exact Control.noConfusion)
      simp only [Held, control] at held
      rcases sane_nextPacket config admissible with ⟨length, upper, lower⟩
      exact
        sane_readHeaderByte length upper lower (Nat.zero_le _) held.1
          held.2
  | headerChecked read control =>
      have held := atControl (by rw [control]; exact Control.noConfusion)
      simp only [Held, control] at held
      have lower := le_toInt32 (ofLE read)
      have upper := toInt32_lt (ofLE read)
      unfold checkHeader
      dsimp only
      split_ifs
      · exact ⟨bufferLength, sizeLe, leSize, offsetLe, Or.inr trivial⟩
      · refine ⟨bufferLength, sizeLe, leSize, offsetLe, Or.inr ?_⟩
        show RecieverState.idle ≠ .readingData
        decide
      · exact
          ⟨bufferLength, sizeLe, leSize, offsetLe, Or.inr ⟨lower, upper⟩⟩
      · exact ⟨bufferLength, sizeLe, leSize, offsetLe, Or.inr held.1⟩
  | allocated header block control admissible =>
      exact sane_beginInstruction whole admissible
  | copied control incomplete =>
      have filled := atControl (by rw [control]; decide)
      simp only [Held, control] at filled
      rcases filled with ⟨buffer, filling⟩
      exact sane_copyData whole filling
  | finished control complete =>
      unfold finishInstruction
      split
      · exact ⟨bufferLength, sizeLe, leSize, offsetLe, Or.inl rfl⟩
      · exact ⟨bufferLength, sizeLe, leSize, offsetLe, Or.inr trivial⟩
  | refilled received control admissible =>
      have filled := atControl (by rw [control]; decide)
      simp only [Held, control] at filled
      rcases filled with ⟨buffer, filling, -⟩
      rcases sane_nextPacket config admissible with ⟨length, upper, lower⟩
      refine ⟨length, upper, lower, Nat.zero_le _, Or.inr ?_⟩
      exact
        ⟨buffer, filling.instruction_eq, filling.read_le, filling.size_le⟩
  | enqueued disconnect granted control =>
      refine ⟨bufferLength, sizeLe, leSize, offsetLe, Or.inr ?_⟩
      cases disconnect with
      | true => trivial
      | false =>
          show RecieverState.readingHeaders ≠ .readingData
          decide

/-! ## What is there when the peer closes -/

/-- The bytes which are read before the next receive call. -/
def available (config : RecieverConfig) : Bytes :=
  (config.recbuffer.drop config.state.recOffset).take
    (toSizeT config.state.incomingSize - config.state.recOffset)

/--
The instruction announced by a header gets its block, and all of its body is
there, in a shape which the reader scans.
-/
def BodyThere (malloc : Int → Option Bytes) (header : Int) (rest : Bytes) :
    Prop :=
  (malloc header).isSome ∧ 4 ≤ header ∧ header ≤ 4 + rest.length ∧
    Scanned (toLE 4 header.toNat ++ rest.take (header.toNat - 4))

instance (malloc : Int → Option Bytes) (header : Int) (rest : Bytes) :
    Decidable (BodyThere malloc header rest) :=
  inferInstanceAs (Decidable (_ ∧ _ ∧ _ ∧ _))

/-- The header is an end of data, a ping, or followed by its body. -/
def WordReturns (malloc : Int → Option Bytes) (word rest : Bytes) : Prop :=
  toInt32 (ofLE word) = 0 ∨ toInt32 (ofLE word) = wimpRecieverPing ∨
    BodyThere malloc (toInt32 (ofLE word)) rest

instance (malloc : Int → Option Bytes) (word rest : Bytes) :
    Decidable (WordReturns malloc word rest) :=
  inferInstanceAs (Decidable (_ ∨ _ ∨ _))

/--
A header which is there as a whole does the same; one which is cut off is zero
as far as it goes, and the last receive call did not fail.
-/
def HeaderReturns (malloc : Int → Option Bytes) (incomingSize : Int)
    (bytes : Bytes) : Prop :=
  if 4 ≤ bytes.length then
    WordReturns malloc (bytes.take 4) (bytes.drop 4)
  else incomingSize ≠ -1 ∧ ∀ byte ∈ bytes, byte = 0

instance (malloc : Int → Option Bytes) (incomingSize : Int)
    (bytes : Bytes) :
    Decidable (HeaderReturns malloc incomingSize bytes) :=
  inferInstanceAs
    (Decidable
      (if 4 ≤ bytes.length then
        WordReturns malloc (bytes.take 4) (bytes.drop 4)
      else incomingSize ≠ -1 ∧ ∀ byte ∈ bytes, byte = 0))

/-- The missing bytes of an instruction are there, as the reader scans it. -/
def DataReturns (buffer : Bytes) (read : Nat) (rest : Bytes) : Prop :=
  buffer.length - read ≤ rest.length ∧
    Scanned (buffer.take read ++ rest.take (buffer.length - read))

instance (buffer : Bytes) (read : Nat) (rest : Bytes) :
    Decidable (DataReturns buffer read rest) :=
  inferInstanceAs (Decidable (_ ∧ _))

/--
The condition on the state in which the peer closes: what is begun can be
finished from the bytes which are there.
-/
def Returns (malloc : Int → Option Bytes) (config : RecieverConfig) : Prop :=
  match config.control with
  | .top | .poll | .enqueue _ | .stopped => True
  | .header read =>
      HeaderReturns malloc config.state.incomingSize
        (read ++ available config)
  | .checkHeader read => WordReturns malloc read (available config)
  | .allocate header => BodyThere malloc header (available config)
  | .data =>
      ∀ buffer ∈ config.state.instruction.instruction,
        DataReturns buffer config.state.instructionBytesRead
          (available config)
  | .refill | .aborted | .fault => False

theorem length_available
    {config : RecieverConfig} (sane : Sane config) :
    (available config).length =
      min (toSizeT config.state.incomingSize - config.state.recOffset)
        (wimpMessageBufferBytes - config.state.recOffset) := by
  rw [available, List.length_take, List.length_drop, sane.buffer_length]

/-- The receive result as the `size_t` it is compared with. -/
theorem toSizeT_cases
    {config : RecieverConfig} (sane : Sane config) :
    config.state.incomingSize = -1 ∧
        toSizeT config.state.incomingSize = 2 ^ 64 - 1 ∨
      0 ≤ config.state.incomingSize ∧
        (toSizeT config.state.incomingSize : Int) =
          config.state.incomingSize := by
  have upper := sane.size_le
  have lower := sane.le_size
  unfold wimpMessageBufferBytes at upper
  unfold toSizeT
  omega

/-! ## The data loop -/

/-- A complete instruction is enqueued when the reader scans it. -/
theorem reachesCheck_of_complete
    {config : RecieverConfig} {buffer : Bytes}
    (control : config.control = .data)
    (filling : Filling config buffer)
    (complete : config.state.instructionBytesRead = buffer.length) :
    ReachesCheck environment config ↔ Scanned buffer := by
  have away := not_atCheck control (by simp) (by simp)
  have stepped :
      closedStep environment config =
        some (finishInstruction environment.processName config) := by
    simp only [closedStep, step, closedInput, control,
      filling.instruction_eq, complete, ne_eq, not_true_eq_false, if_false]
  rw [reachesCheck_iff_of_step away stepped,
    ← exitSignal_isSome_iff environment.processName buffer]
  unfold finishInstruction
  rw [filling.instruction_eq]
  cases signal :
      exitSignal environment.processName
        { instruction := some buffer, instructionBytes := buffer.length } with
  | none =>
      refine iff_of_false ?_ (by simp)
      exact not_reachesCheck_of_fault (Or.inl rfl)
  | some disconnect =>
      refine iff_of_true ?_ rfl
      have enqueued :
          closedStep environment
              { config with control := .enqueue disconnect } =
            some
              (enqueueInstruction
                { config with control := .enqueue disconnect } disconnect
                environment.granted) := rfl
      have awayToo :
          ¬ AtCheck { config with control := .enqueue disconnect } :=
        not_atCheck rfl (by simp) (by simp)
      refine (reachesCheck_iff_of_step awayToo enqueued).mpr ?_
      apply reachesCheck_of_atCheck
      cases disconnect with
      | true => exact Or.inr rfl
      | false => exact Or.inl rfl

/-- An instruction all of whose bytes are there is completed. -/
theorem reachesCheck_of_fits
    {config : RecieverConfig} {buffer : Bytes} (sane : Sane config)
    (control : config.control = .data)
    (filling : Filling config buffer)
    (incomplete : config.state.instructionBytesRead ≠ buffer.length)
    (fits :
      buffer.length - config.state.instructionBytesRead ≤
        (available config).length) :
    ReachesCheck environment config ↔
      Scanned
        (buffer.take config.state.instructionBytesRead ++
          (available config).take
            (buffer.length - config.state.instructionBytesRead)) := by
  have readLe := filling.read_le
  have blockLe := filling.size_le
  have offsetLe := sane.offset_le
  have bufferLength := sane.buffer_length
  have room := length_available sane
  have sizeCases := toSizeT_cases sane
  unfold ptrdiffMax at blockLe
  unfold wimpMessageBufferBytes at room offsetLe bufferLength
  generalize missingEq :
    buffer.length - config.state.instructionBytesRead = missing at *
  have count : bytesToCopy config.state = missing := by
    unfold bytesToCopy
    rw [filling.instruction_eq]
    simp only
    rw [subSizeT_of_le readLe (by omega), missingEq,
      addSizeT_of_lt (by omega), if_neg (by omega)]
  have source :
      slice config.recbuffer config.state.recOffset missing =
        some ((available config).take missing) := by
    rw [slice, if_pos (by omega), available, List.take_take,
      Nat.min_eq_left (by omega)]
  have sourceLength : ((available config).take missing).length = missing := by
    rw [List.length_take]
    omega
  have copied :
      splice buffer config.state.instructionBytesRead
          ((available config).take missing) =
        some
          (buffer.take config.state.instructionBytesRead ++
            (available config).take missing) := by
    rw [splice, if_pos (by omega), sourceLength,
      List.drop_of_length_le (by omega), List.append_nil]
  generalize targetEq :
    buffer.take config.state.instructionBytesRead ++
      (available config).take missing = target at copied ⊢
  have targetLength := length_of_splice copied
  have whole :
      addSizeT config.state.instructionBytesRead missing =
        buffer.length := by
    rw [addSizeT_of_lt (by omega)]
    omega
  have stepped :
      closedStep environment config = some (copyData config) := by
    simp only [closedStep, step, closedInput, control,
      filling.instruction_eq, ne_eq, incomplete, not_false_eq_true, if_true]
  have away := not_atCheck control (by simp) (by simp)
  rw [reachesCheck_iff_of_step away stepped]
  have result :
      copyData config =
        { config with
          control := .data
          state :=
            { config.state with
              recOffset := addSizeT config.state.recOffset missing
              instruction :=
                { instruction := some target
                  instructionBytes := buffer.length }
              instructionBytesRead := buffer.length } } := by
    simp only [copyData, count, filling.instruction_eq, source, copied,
      Option.bind_eq_bind, Option.bind_some, whole, ne_eq,
      not_true_eq_false, if_false]
  rw [result]
  apply reachesCheck_of_complete rfl
  · refine ⟨?_, ?_, ?_⟩
    · simp only [targetLength]
    · rw [targetLength]
    · rw [targetLength]
      exact filling.size_le
  · rw [targetLength]

/-- The data loop with nothing to read, and nothing to come. -/
def Waiting (config : RecieverConfig) : Prop :=
  config.recbuffer.length = wimpMessageBufferBytes ∧
    (∃ buffer, Filling config buffer ∧
      config.state.instructionBytesRead ≠ buffer.length) ∧
    (config.control = .refill ∨
      config.control = .data ∧ config.state.incomingSize = 0 ∧
        config.state.recOffset = 0)

/-- The data loop asks for the next packet forever. -/
theorem not_reachesCheck_of_waiting
    {config : RecieverConfig} (waiting : Waiting config) :
    ¬ ReachesCheck environment config := by
  refine
    @not_reachesCheck_of_trapped environment Waiting ?_ ?_ config waiting
  · rintro config ⟨-, -, refill | ⟨data, -⟩⟩ (top | stopped)
    all_goals simp_all
  · rintro config next ⟨bufferLength, ⟨buffer, filling, incomplete⟩,
      refill | ⟨data, size, offset⟩⟩ stepped
    · have empty :
          closedStep environment config =
            some
              { wimpRecieverNextPacket config .closed with
                control := .data } := by
        simp only [closedStep, step, closedInput, refill]
        exact if_pos trivial
      rw [empty, Option.some.injEq] at stepped
      subst stepped
      refine ⟨?_, ⟨buffer, ⟨?_, ?_, ?_⟩, incomplete⟩,
        Or.inr ⟨rfl, rfl, rfl⟩⟩
      · exact (@sane_nextPacket config .closed trivial).1
      · exact filling.instruction_eq
      · exact filling.read_le
      · exact filling.size_le
    · have live : Live config := by
        refine ⟨bufferLength, ?_, ?_⟩
        · rw [size]
          decide
        · rw [size, offset]
          decide
      have nothing : unread config = [] := by
        rw [unread, size]
        exact List.drop_nil
      rcases copyData_live live filling with
        ⟨moved, target, movedLength, -, targetLength, -, result, refilled,
          -⟩
      rw [nothing, List.length_nil, Nat.min_zero] at movedLength
      have copied :
          closedStep environment config = some (copyData config) := by
        simp only [closedStep, step, closedInput, data,
          filling.instruction_eq, ne_eq, incomplete, not_false_eq_true,
          if_true]
      rw [copied, Option.some.injEq] at stepped
      subst stepped
      have control : (copyData config).control = .refill := by
        rw [result]
        show (if _ then Control.refill else Control.data) = _
        rw [if_pos (by rw [movedLength]; exact incomplete)]
      have read :
          (copyData config).state.instructionBytesRead ≠
            target.length := by
        rw [result, targetLength]
        show config.state.instructionBytesRead + moved.length ≠ _
        rw [movedLength]
        exact incomplete
      refine ⟨?_, ⟨target, refilled, read⟩, Or.inl control⟩
      rw [result]
      exact bufferLength

/-- An instruction part of which is missing is never completed. -/
theorem not_reachesCheck_of_short
    {config : RecieverConfig} {buffer : Bytes} (sane : Sane config)
    (control : config.control = .data)
    (filling : Filling config buffer)
    (short :
      (available config).length <
        buffer.length - config.state.instructionBytesRead) :
    ¬ ReachesCheck environment config := by
  have readLe := filling.read_le
  have blockLe := filling.size_le
  have offsetLe := sane.offset_le
  have bufferLength := sane.buffer_length
  have sizeLe := sane.size_le
  have room := length_available sane
  have sizeCases := toSizeT_cases sane
  have stepped :
      closedStep environment config = some (copyData config) := by
    have incomplete :
        config.state.instructionBytesRead ≠ buffer.length := by
      omega
    simp only [closedStep, step, closedInput, control,
      filling.instruction_eq, ne_eq, incomplete, not_false_eq_true, if_true]
  have away := not_atCheck control (by simp) (by simp)
  rw [reachesCheck_iff_of_step away stepped]
  by_cases ordered :
      (config.state.recOffset : Int) ≤ config.state.incomingSize
  · -- the window is copied, and the next packet is asked for
    have live : Live config := ⟨bufferLength, sizeLe, ordered⟩
    have window := length_unread live
    unfold wimpMessageBufferBytes at room sizeLe
    rcases copyData_live live filling with
      ⟨moved, target, movedLength, -, targetLength, -, result, refilled,
        -⟩
    have missing :
        config.state.instructionBytesRead + moved.length ≠
          buffer.length := by
      omega
    apply not_reachesCheck_of_waiting
    refine ⟨?_, ⟨target, refilled, ?_⟩, Or.inl ?_⟩
    · rw [result]
      exact bufferLength
    · rw [result, targetLength]
      exact missing
    · rw [result]
      exact if_pos missing
  · -- the count of bytes to copy exceeds the receive buffer
    apply not_reachesCheck_of_fault
    left
    unfold ptrdiffMax at blockLe
    unfold wimpMessageBufferBytes at room offsetLe bufferLength
    have count :
        config.recbuffer.length <
          config.state.recOffset + bytesToCopy config.state := by
      unfold bytesToCopy
      rw [filling.instruction_eq]
      simp only
      rw [subSizeT_of_le readLe (by omega), addSizeT_of_lt (by omega)]
      split_ifs with beyond
      · unfold subSizeT toSizeT
        omega
      · omega
    have outside :=
      (slice_eq_none_iff config.recbuffer config.state.recOffset
        (bytesToCopy config.state)).mpr count
    simp only [copyData, filling.instruction_eq, Option.bind_eq_bind,
      Option.bind_some, outside, Option.bind_none]

/-- The data loop returns exactly when the rest of its instruction is there. -/
theorem reachesCheck_data
    {config : RecieverConfig} {buffer : Bytes} (sane : Sane config)
    (control : config.control = .data)
    (filling : Filling config buffer) :
    ReachesCheck environment config ↔
      DataReturns buffer config.state.instructionBytesRead
        (available config) := by
  by_cases fits :
      buffer.length - config.state.instructionBytesRead ≤
        (available config).length
  · rw [DataReturns, and_iff_right fits]
    by_cases complete :
        config.state.instructionBytesRead = buffer.length
    · rw [reachesCheck_of_complete control filling complete, complete,
        Nat.sub_self, List.take_zero, List.append_nil, List.take_length]
    · exact reachesCheck_of_fits sane control filling complete fits
  · refine iff_of_false ?_ fun returns => fits returns.1
    exact
      not_reachesCheck_of_short sane control filling (Nat.lt_of_not_le fits)

/-! ## Headers -/

/-- A started instruction returns exactly when its body is there. -/
theorem reachesCheck_allocate
    {config : RecieverConfig} {header : Int} (sane : Sane config)
    (control : config.control = .allocate header) :
    ReachesCheck environment config ↔
      BodyThere environment.malloc header (available config) := by
  have away := not_atCheck control (by simp) (by simp)
  have admissible := environment.admissible header
  have stepped :
      closedStep environment config =
        some
          (beginInstruction config header
            (environment.malloc header)) := by
    simp only [closedStep, step, closedInput, control]
    exact if_pos admissible
  have bounds : -2 ^ 31 ≤ header ∧ header < 2 ^ 31 := by
    rcases sane.held with fault | held
    · rw [control] at fault
      cases fault
    · simp only [Held, control] at held
      exact held
  rw [reachesCheck_iff_of_step away stepped, BodyThere]
  cases allocated : environment.malloc header with
  | none =>
      refine iff_of_false ?_ (by simp)
      exact not_reachesCheck_of_fault (Or.inl rfl)
  | some block =>
      rcases admissible block allocated with ⟨length, fits⟩
      by_cases large : 4 ≤ header
      · rcases Int.eq_ofNat_of_zero_le (by omega : 0 ≤ header) with
          ⟨size, rfl⟩
        rw [toSizeT_natCast (by omega)] at length fits
        have begun :=
          beginInstruction_granted config length (by omega) (by omega)
        have next := sane_of_step sane stepped
        rw [allocated, begun] at next
        rw [begun]
        have filling :
            Filling
              { config with
                control := .data
                state :=
                  { config.state with
                    instruction :=
                      { instruction := some (toLE 4 size ++ block.drop 4)
                        instructionBytes := size }
                    state := .readingData
                    instructionBytesRead := 4 } }
              (toLE 4 size ++ block.drop 4) := by
          have total : (toLE 4 size ++ block.drop 4).length = size := by
            rw [List.length_append, length_toLE, List.length_drop]
            omega
          refine ⟨?_, ?_, ?_⟩
          · rw [total]
          · rw [total]
            show 4 ≤ size
            omega
          · rw [total]
            exact fits
        rw [reachesCheck_data next rfl filling, DataReturns]
        have total : (toLE 4 size ++ block.drop 4).length = size := by
          rw [List.length_append, length_toLE, List.length_drop]
          omega
        have start : (toLE 4 size ++ block.drop 4).take 4 = toLE 4 size :=
          List.take_left' (length_toLE 4 size)
        simp only [total, start, Option.isSome_some, true_and, large,
          Int.toNat_natCast]
        constructor
        · rintro ⟨enough, scanned⟩
          refine ⟨?_, scanned⟩
          change size - 4 ≤ (available config).length at enough
          omega
        · rintro ⟨enough, scanned⟩
          refine ⟨?_, scanned⟩
          show size - 4 ≤ (available config).length
          omega
      · refine iff_of_false ?_ fun there => large there.2.1
        apply not_reachesCheck_of_fault
        left
        have short : ¬ 0 + 4 ≤ block.length := by
          unfold toSizeT at length fits
          unfold ptrdiffMax at fits
          omega
        simp only [beginInstruction, wimpRecieverAllocateinstr, splice,
          length_toLE, if_neg short]

/-- A checked header returns as it says. -/
theorem reachesCheck_checkHeader
    {config : RecieverConfig} {read : Bytes} (sane : Sane config)
    (control : config.control = .checkHeader read) :
    ReachesCheck environment config ↔
      WordReturns environment.malloc read (available config) := by
  have away := not_atCheck control (by simp) (by simp)
  have stepped :
      closedStep environment config =
        some (checkHeader environment.asserts config read) := by
    simp only [closedStep, step, closedInput, control]
  have next := sane_of_step sane stepped
  rw [reachesCheck_iff_of_step away stepped, WordReturns]
  unfold checkHeader at next ⊢
  dsimp only at next ⊢
  split_ifs at next ⊢ with unchanged zero notPing
  · refine iff_of_false (not_reachesCheck_of_fault (Or.inr rfl)) ?_
    rw [unchanged.2]
    rintro (zero | ping | there)
    · cases zero
    · revert ping
      decide
    · exact absurd there.2.1 (by decide)
  · exact
      iff_of_true (reachesCheck_of_atCheck (Or.inl rfl)) (Or.inl zero)
  · rw [reachesCheck_allocate next rfl]
    constructor
    · exact fun there => Or.inr (Or.inr there)
    · rintro (isZero | ping | there)
      · exact absurd isZero zero
      · exact absurd ping notPing
      · exact there
  · refine iff_of_true (reachesCheck_of_atCheck (Or.inl rfl)) ?_
    exact Or.inr (Or.inl (Decidable.not_not.mp notPing))

/-- What the reader scans has four bytes and three nonempty strings. -/
theorem length_of_scanned {buffer : Bytes} (scanned : Scanned buffer) :
    4 < buffer.length := by
  rcases scanned with ⟨cut, rfl⟩
  rw [ScannedBuffer.bytes, List.length_append, cut.header_length,
    List.length_append, length_terminated]
  omega

/-- A header which ends with a byte read from nothing is zero, or fatal. -/
theorem wordReturns_padded_iff
    (malloc : Int → Option Bytes) {read : Bytes} (three : read.length = 3) :
    WordReturns malloc (read ++ [0]) [] ↔ ∀ byte ∈ read, byte = 0 := by
  rcases List.length_eq_three.mp three with ⟨first, second, third, rfl⟩
  have firstLt := first.toNat_lt
  have secondLt := second.toNat_lt
  have thirdLt := third.toNat_lt
  have value :
      ofLE ([first, second, third] ++ [0]) =
        first.toNat + 256 * (second.toNat + 256 * third.toNat) := by
    simp [ofLE]
  have small : ofLE ([first, second, third] ++ [0]) < 2 ^ 31 := by
    rw [value]
    omega
  rw [WordReturns, toInt32_of_lt small, value]
  constructor
  · rintro (zero | ping | ⟨-, large, upper, scanned⟩)
    · have zeros :
          first.toNat = 0 ∧ second.toNat = 0 ∧ third.toNat = 0 := by
        omega
      intro byte member
      rw [← UInt8.toNat_inj]
      simp only [List.mem_cons, List.not_mem_nil, or_false] at member
      rcases member with rfl | rfl | rfl
      · exact zeros.1
      · exact zeros.2.1
      · exact zeros.2.2
    · unfold wimpRecieverPing at ping
      omega
    · have long := length_of_scanned scanned
      rw [List.take_nil, List.append_nil, length_toLE] at long
      omega
  · intro zeros
    left
    simp only [List.mem_cons, List.not_mem_nil, or_false, forall_eq_or_imp,
      forall_eq] at zeros
    rcases zeros with ⟨rfl, rfl, rfl⟩
    rfl

/-- Without a byte to read, the header goes on from the cleared buffer. -/
theorem closedStep_header_empty
    {config : RecieverConfig} {read : Bytes}
    (control : config.control = .header read)
    (exhausted : Exhausted config.state) :
    closedStep environment config =
      some
        { wimpRecieverNextPacket config .closed with
          control :=
            if read.length + 1 < 4 then .header (read ++ [0])
            else .checkHeader (read ++ [0])
          state :=
            { (wimpRecieverNextPacket config .closed).state with
              recOffset := 1 } } := by
  have admissible : Received.closed.Admissible := trivial
  simp only [closedStep, step, closedInput, control, and_self, exhausted,
    admissible, if_true]
  rfl

/-- A byte which is there is read. -/
theorem closedStep_header_cons
    {config : RecieverConfig} {read rest : Bytes} {byte : UInt8}
    (control : config.control = .header read)
    (window : available config = byte :: rest) :
    ∃ next,
      closedStep environment config = some next ∧
        next.control =
          (if read.length + 1 < 4 then .header (read ++ [byte])
          else .checkHeader (read ++ [byte])) ∧
        next.state.incomingSize = config.state.incomingSize ∧
        available next = rest := by
  have found : config.recbuffer[config.state.recOffset]? = some byte := by
    have first : (available config)[0]? = some byte := by
      rw [window]
      rfl
    rw [available, List.getElem?_take] at first
    split_ifs at first
    rw [List.getElem?_drop, Nat.add_zero] at first
    exact first
  have before :
      config.state.recOffset < toSizeT config.state.incomingSize := by
    have length := congrArg List.length window
    rw [available, List.length_take, List.length_cons] at length
    omega
  have unexhausted : ¬ Exhausted config.state := Nat.not_le.mpr before
  have stepped :
      closedStep environment config = some (readHeaderByte config read) := by
    simp only [closedStep, step, closedInput, control, unexhausted,
      if_false]
  refine ⟨_, stepped, ?_, ?_, ?_⟩
  · simp only [readHeaderByte, found]
  · simp only [readHeaderByte, found]
  · have tail :
        config.recbuffer.drop config.state.recOffset =
          byte :: config.recbuffer.drop (config.state.recOffset + 1) := by
      rcases List.getElem?_eq_some_iff.mp found with ⟨inside, same⟩
      rw [List.drop_eq_getElem_cons inside, same]
    have more :
        toSizeT config.state.incomingSize - config.state.recOffset =
          toSizeT config.state.incomingSize -
            (config.state.recOffset + 1) + 1 := by
      omega
    rw [available, tail, more, List.take_succ_cons, List.cons.injEq]
      at window
    simp only [available, readHeaderByte, found]
    exact window.2

/-- A header returns as its bytes say. -/
theorem reachesCheck_header
    {config : RecieverConfig} {read : Bytes} (sane : Sane config)
    (control : config.control = .header read) :
    ReachesCheck environment config ↔
      HeaderReturns environment.malloc config.state.incomingSize
        (read ++ available config) := by
  have short : read.length < 4 := by
    rcases sane.held with fault | held
    · rw [control] at fault
      cases fault
    · simp only [Held, control] at held
      exact held.2
  -- the induction is on the number of bytes which are missing
  induction missing : 4 - read.length generalizing config read with
  | zero => omega
  | succ count induction =>
      have away := not_atCheck control (by simp) (by simp)
      have room := length_available sane
      have sizeCases := toSizeT_cases sane
      have offsetLe := sane.offset_le
      have bufferLength := sane.buffer_length
      have sizeLe := sane.size_le
      unfold wimpMessageBufferBytes at room offsetLe bufferLength sizeLe
      cases window : available config with
      | cons byte rest =>
          rcases @closedStep_header_cons environment config read rest byte
            control window with ⟨next, stepped, follows, size, tail⟩
          have nextSane := sane_of_step sane stepped
          rw [reachesCheck_iff_of_step away stepped]
          by_cases more : read.length + 1 < 4
          · rw [if_pos more] at follows
            have length : (read ++ [byte]).length = read.length + 1 := by
              rw [List.length_append, List.length_singleton]
            have later :=
              induction nextSane follows (by omega) (by omega)
            rw [size, tail, List.append_assoc, List.singleton_append]
              at later
            exact later
          · rw [if_neg more] at follows
            have length : (read ++ [byte]).length = 4 := by
              rw [List.length_append, List.length_singleton]
              omega
            have split : read ++ byte :: rest = read ++ [byte] ++ rest := by
              rw [List.append_assoc, List.singleton_append]
            rw [reachesCheck_checkHeader nextSane follows, tail, split,
              HeaderReturns, if_pos (by rw [List.length_append]; omega),
              List.take_left' length, List.drop_left' length]
      | nil =>
          rw [window, List.length_nil] at room
          rw [List.append_nil, HeaderReturns, if_neg (by omega)]
          by_cases exhausted : Exhausted config.state
          · have stepped :=
              @closedStep_header_empty environment config read control
                exhausted
            have nextSane := sane_of_step sane stepped
            have working : config.state.incomingSize ≠ -1 := by
              unfold Exhausted at exhausted
              omega
            rw [reachesCheck_iff_of_step away stepped,
              and_iff_right working]
            by_cases more : read.length + 1 < 4
            · rw [if_pos more] at nextSane ⊢
              have length : (read ++ [0]).length = read.length + 1 := by
                rw [List.length_append, List.length_singleton]
              have later := induction nextSane rfl (by omega) (by omega)
              change _ ↔ HeaderReturns _ 0 (read ++ [0] ++ []) at later
              rw [List.append_nil, HeaderReturns, if_neg (by omega)]
                at later
              refine later.trans ?_
              simp [or_imp]
            · rw [if_neg more] at nextSane ⊢
              rw [reachesCheck_checkHeader nextSane rfl]
              exact
                wordReturns_padded_iff environment.malloc (by omega)
          · -- the buffer ends, and the failed call is not looked at
            have failed : config.state.incomingSize = -1 := by
              unfold Exhausted at exhausted
              omega
            have outside :
                config.recbuffer[config.state.recOffset]? = none := by
              unfold Exhausted at exhausted
              rw [List.getElem?_eq_none_iff]
              omega
            have stepped :
                closedStep environment config =
                  some (readHeaderByte config read) := by
              simp only [closedStep, step, closedInput, control, exhausted,
                if_false]
            rw [reachesCheck_iff_of_step away stepped]
            refine iff_of_false ?_ fun returns => returns.1 failed
            apply not_reachesCheck_of_fault
            left
            simp only [readHeaderByte, outside]

/-! ## The whole loop -/

/-- Every state which the loop reaches is in order. -/
theorem sane_of_run
    {asserts : Bool} {processName : Bytes} {inputs : List Input}
    {config : RecieverConfig}
    (ran : run (step asserts processName) {} inputs = some config) :
    Sane config :=
  run_invariant (fun _ _ _ sane stepped => sane_of_step sane stepped)
    sane_start ran

/--
When the peer closes in a state which the loop has reached, the loop gets back
to its test of the active flag exactly when it can finish what it has begun
from the bytes which are there.
-/
theorem reachesCheck_iff
    (environment : Environment) {inputs : List Input}
    {config : RecieverConfig}
    (ran :
      run (step environment.asserts environment.processName) {} inputs =
        some config) :
    ReachesCheck environment config ↔
      Returns environment.malloc config := by
  have sane := sane_of_run ran
  cases control : config.control with
  | top =>
      simp only [Returns, control, iff_true]
      exact reachesCheck_of_atCheck (Or.inl control)
  | stopped =>
      simp only [Returns, control, iff_true]
      exact reachesCheck_of_atCheck (Or.inr control)
  | poll =>
      simp only [Returns, control, iff_true]
      have away := not_atCheck control (by simp) (by simp)
      have stepped :
          closedStep environment config =
            some
              { wimpRecieverNextPacket config .closed with
                control := .top } := by
        simp only [closedStep, step, closedInput, control]
        rfl
      refine (reachesCheck_iff_of_step away stepped).mpr ?_
      exact reachesCheck_of_atCheck (Or.inl rfl)
  | header read =>
      simp only [Returns, control]
      exact reachesCheck_header sane control
  | checkHeader read =>
      simp only [Returns, control]
      exact reachesCheck_checkHeader sane control
  | allocate header =>
      simp only [Returns, control]
      exact reachesCheck_allocate sane control
  | data =>
      simp only [Returns, control]
      rcases sane.held with fault | held
      · rw [control] at fault
        cases fault
      · simp only [Held, control] at held
        rcases held with ⟨buffer, filling⟩
        rw [reachesCheck_data sane control filling,
          filling.instruction_eq]
        simp
  | refill =>
      simp only [Returns, control, iff_false]
      rcases sane.held with fault | held
      · rw [control] at fault
        cases fault
      · simp only [Held, control] at held
        exact
          not_reachesCheck_of_waiting
            ⟨sane.buffer_length, held, Or.inl control⟩
  | enqueue disconnect =>
      simp only [Returns, control, iff_true]
      have away := not_atCheck control (by simp) (by simp)
      have stepped :
          closedStep environment config =
            some
              (enqueueInstruction config disconnect
                environment.granted) := by
        simp only [closedStep, step, closedInput, control]
      refine (reachesCheck_iff_of_step away stepped).mpr ?_
      apply reachesCheck_of_atCheck
      cases disconnect with
      | true => exact Or.inr rfl
      | false => exact Or.inl rfl
  | aborted =>
      simp only [Returns, control, iff_false]
      exact not_reachesCheck_of_fault (Or.inr control)
  | fault =>
      simp only [Returns, control, iff_false]
      exact not_reachesCheck_of_fault (Or.inl control)

/-- A process `z` whose allocations succeed. -/
def plainEnvironment : Environment where
  asserts := true
  processName := [0x7a]
  malloc size :=
    if 0 ≤ size ∧ toSizeT size ≤ ptrdiffMax then
      some (List.replicate (toSizeT size) 0)
    else none
  granted := true
  admissible := by
    intro size block granted
    rw [Option.mem_def] at granted
    split_ifs at granted with fits
    cases granted
    exact ⟨List.length_replicate .., fits.2⟩

/-- The peer closes behind the instruction `c` from `b` to `a`. -/
theorem reachesCheck_behind :
    ∃ config,
      run (step true [0x7a]) {}
          [.active true,
            .receive
              (.packet (instrBytes [0x62] [0x61] [0x63] []))] =
          some config ∧
        ReachesCheck plainEnvironment config := by
  have there :
      (run (step true [0x7a]) {}
          [.active true,
            .receive
              (.packet (instrBytes [0x62] [0x61] [0x63] []))]).map
          (fun config =>
            decide
              (config.control = .header [] ∧
                HeaderReturns plainEnvironment.malloc
                  config.state.incomingSize ([] ++ available config))) =
        some true := by
    decide +kernel
  rcases Option.map_eq_some_iff.mp there with ⟨config, ran, holds⟩
  rcases of_decide_eq_true holds with ⟨control, returns⟩
  refine ⟨config, ran, (reachesCheck_iff plainEnvironment ran).mpr ?_⟩
  simp only [Returns, control]
  exact returns

/-- The peer closes behind the first byte of the body. -/
theorem not_reachesCheck_inside :
    ∃ config,
      run (step true [0x7a]) {}
          [.active true,
            .receive
              (.packet ((instrBytes [0x62] [0x61] [0x63] []).take 5)),
            .tau, .tau, .tau, .tau, .tau,
            .malloc (some (List.replicate 14 0)), .tau] =
          some config ∧
        ¬ ReachesCheck plainEnvironment config := by
  have waiting :
      (run (step true [0x7a]) {}
          [.active true,
            .receive
              (.packet ((instrBytes [0x62] [0x61] [0x63] []).take 5)),
            .tau, .tau, .tau, .tau, .tau,
            .malloc (some (List.replicate 14 0)), .tau]).map
          (·.control) =
        some .refill := by
    decide +kernel
  rcases Option.map_eq_some_iff.mp waiting with ⟨config, ran, control⟩
  have sane := sane_of_run ran
  rcases sane.held with fault | held
  · rw [control] at fault
    cases fault
  · simp only [Held, control] at held
    exact
      ⟨config, ran,
        not_reachesCheck_of_waiting
          ⟨sane.buffer_length, held, Or.inl control⟩⟩

end Wimp.Reciever.Closing
