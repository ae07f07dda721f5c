import Wimp.Reciever.Window

/-!
# The receiver on arbitrary bytes

The loop trusts the header of an instruction: it allocates that many bytes,
writes the four bytes of the header without looking at the result, and hands
the completed buffer to the reader and to `strcmp`.  `Guarded` collects the
tests which the loop leaves out.  The window arithmetic needs none of them:
for every stream and every cutting into packets the offsets stay inside the
receive buffer and the copies inside the instruction, and a step leaves an
object precisely when one of the missing tests would have failed.
-/

namespace Wimp.Reciever.Bounds

open Wimp.Lib.ByteRegion
open Wimp.Lib.Runs
open Wimp.Instr.Codec
open Wimp.Reciever.Machine
open Wimp.Reciever.Window

/-- Receive calls return packets. -/
def OnlyPackets : Input → Prop
  | .receive (.packet _) => True
  | .receive _ => False
  | _ => True

instance (input : Input) : Decidable (OnlyPackets input) :=
  match input with
  | .receive (.packet _) => inferInstanceAs (Decidable True)
  | .receive .closed => inferInstanceAs (Decidable False)
  | .receive .failed => inferInstanceAs (Decidable False)
  | .tau => inferInstanceAs (Decidable True)
  | .active _ => inferInstanceAs (Decidable True)
  | .malloc _ => inferInstanceAs (Decidable True)
  | .node _ => inferInstanceAs (Decidable True)

/--
The tests the loop leaves out: a header counts itself, its allocation
succeeds, and a completed instruction has the shape the reader scans.
-/
def Guarded (config : RecieverConfig) (input : Input) : Prop :=
  match config.control, input with
  | .allocate header, .malloc block => 4 ≤ header ∧ block.isSome
  | .data, .tau =>
      config.state.instructionBytesRead =
          config.state.instruction.instructionBytes →
        ∀ buffer ∈ config.state.instruction.instruction, Scanned buffer
  | _, _ => True

instance (config : RecieverConfig) (input : Input) :
    Decidable (Guarded config input) := by
  unfold Guarded
  split <;> infer_instance

/-- No access has left its object, and the next copy will not either. -/
structure MemorySafe (config : RecieverConfig) : Prop where
  no_fault : config.control ≠ .fault
  buffer_length : config.recbuffer.length = wimpMessageBufferBytes
  copy_le :
    config.control = .data →
      config.state.instructionBytesRead ≤
          config.state.instruction.instructionBytes ∧
        bytesToCopy config.state ≤
          config.state.instruction.instructionBytes -
            config.state.instructionBytesRead

/-! ## The invariant -/

/-- What holds at each control point, whatever the peer has sent. -/
def Contained (config : RecieverConfig) : Prop :=
  match config.control with
  | .top =>
      config.state.state = .idle ∨
        config.state.state = .readingHeaders ∧ Live config
  | .header read =>
      config.state.state = .readingHeaders ∧ read.length < 4 ∧ Live config
  | .checkHeader _ => config.state.state = .readingHeaders ∧ Live config
  | .allocate header =>
      -2 ^ 31 ≤ header ∧ header < 2 ^ 31 ∧ Live config
  | .data => Live config ∧ ∃ buffer, Filling config buffer
  | .refill => ∃ buffer, Filling config buffer
  | .enqueue _ => Live config
  | .fault => False
  | _ => True

/-- The invariant, with the size of the receive buffer. -/
structure Invariant (config : RecieverConfig) : Prop where
  buffer_length : config.recbuffer.length = wimpMessageBufferBytes
  contained : Contained config

theorem memorySafe_of_invariant
    {config : RecieverConfig} (invariant : Invariant config) :
    MemorySafe config where
  no_fault := fun fault => by
    have contained := invariant.contained
    simp [Contained, fault] at contained
  buffer_length := invariant.buffer_length
  copy_le := fun control => by
    have contained := invariant.contained
    simp only [Contained, control] at contained
    rcases contained with ⟨live, buffer, filling⟩
    have count := bytesToCopy_eq live filling
    have readLe := filling.read_le
    rw [filling.instruction_eq]
    exact ⟨readLe, by rw [count]; exact Nat.min_le_left _ _⟩

/-! ## Preservation -/

/-- A packet fills the window and the receive buffer. -/
private theorem window_of_packet
    (config : RecieverConfig) {received : Received}
    (packet : OnlyPackets (.receive received))
    (admissible : received.Admissible) :
    Live (wimpRecieverNextPacket config received) ∧
      ∃ byte rest,
        unread (wimpRecieverNextPacket config received) =
          byte :: rest := by
  cases received with
  | packet bytes =>
      refine ⟨live_nextPacket config admissible (by simp), ?_⟩
      rw [unread_nextPacket]
      exact List.exists_cons_of_ne_nil
        (List.ne_nil_of_length_pos admissible.1)
  | closed => exact packet.elim
  | failed => exact packet.elim

/-- Reading a byte of a nonempty window keeps the invariant. -/
private theorem invariant_readHeaderByte
    {config : RecieverConfig} {read : Bytes} {byte : UInt8} {rest : Bytes}
    (live : Live config) (state : config.state.state = .readingHeaders)
    (short : read.length < 4) (window : unread config = byte :: rest) :
    Invariant (readHeaderByte config read) := by
  have next := live_readHeaderByte live window read
  refine ⟨next.buffer_length, ?_⟩
  rw [readHeaderByte_eq window] at next ⊢
  rcases Nat.lt_or_ge (read.length + 1) 4 with more | done
  · rw [if_pos more] at next ⊢
    exact ⟨state, by simpa using more, next⟩
  · rw [if_neg (by omega)] at next ⊢
    exact ⟨state, next⟩

private theorem invariant_headerChecked
    {config : RecieverConfig} {read : Bytes} (asserts : Bool)
    (live : Live config) (state : config.state.state = .readingHeaders) :
    Invariant (checkHeader asserts config read) := by
  have upper := toInt32_lt (ofLE read)
  have lower := le_toInt32 (ofLE read)
  simp only [checkHeader]
  split_ifs
  · exact ⟨live.buffer_length, trivial⟩
  · exact ⟨live.buffer_length, Or.inl rfl⟩
  · exact ⟨live.buffer_length, lower, upper, live.congr rfl rfl rfl⟩
  · exact ⟨live.buffer_length, Or.inr ⟨state, live.congr rfl rfl rfl⟩⟩

private theorem invariant_allocated
    {config : RecieverConfig} {header : Int} {block : Option Bytes}
    (live : Live config) (upper : header < 2 ^ 31)
    (admissible : BlockAdmissible header block)
    (guarded : 4 ≤ header ∧ block.isSome) :
    Invariant (beginInstruction config header block) := by
  rcases guarded with ⟨large, granted⟩
  rcases Option.isSome_iff_exists.mp granted with ⟨block, rfl⟩
  rcases Int.eq_ofNat_of_zero_le (a := header) (by omega) with ⟨size, rfl⟩
  rcases admissible block rfl with ⟨length, fits⟩
  rw [toSizeT_natCast (by omega)] at length fits
  have filled : (toLE 4 size ++ block.drop 4).length = size := by
    rw [List.length_append, length_toLE, List.length_drop]
    omega
  rw [beginInstruction_granted config length (by omega) (by omega)]
  refine
    ⟨live.buffer_length, live.congr rfl rfl rfl,
      toLE 4 size ++ block.drop 4, ?_⟩
  constructor
  case instruction_eq => rw [filled]
  case read_le =>
    rw [filled]
    simp only
    omega
  case size_le => rw [filled]; exact fits

private theorem invariant_copied
    {config : RecieverConfig} {buffer : Bytes}
    (live : Live config) (filling : Filling config buffer) :
    Invariant (copyData config) := by
  rcases copyData_live live filling with
    ⟨moved, target, -, -, -, -, result, next, live⟩
  have control :
      (copyData config).control =
        if config.state.instructionBytesRead + moved.length ≠
            buffer.length then .refill
        else .data := by
    rw [result]
  refine ⟨live.buffer_length, ?_⟩
  unfold Contained
  rw [control]
  split_ifs
  · exact ⟨target, next⟩
  · exact ⟨live, target, next⟩

/-- The exit test stays inside a scanned buffer. -/
theorem exitSignal_isSome_iff
    (processName buffer : Bytes) :
    (exitSignal processName
        { instruction := some buffer
          instructionBytes := buffer.length }).isSome ↔
      Scanned buffer := by
  constructor
  · intro defined
    rcases Option.isSome_iff_exists.mp defined with ⟨disconnect, signal⟩
    simp only [exitSignal, Option.bind_eq_bind,
      Option.bind_eq_some_iff] at signal
    rcases signal with ⟨result, decoded, -, -, instr, pointer, -⟩
    rw [scanned_iff]
    refine ⟨fun zero => ?_, by rw [decoded]; rfl⟩
    rw [wimpInstrGetFromBuffer_of_head_zero _ zero, Option.some.injEq]
      at decoded
    simp [← decoded] at pointer
  · rintro ⟨cut, rfl⟩
    have nul :
        ∀ before field after : Bytes,
          0 ∈ (before ++ (terminated field ++ after)).drop
            before.length := by
      intro before field after
      rw [List.drop_left]
      simp [terminated]
    have instrNul : 0 ∈ cut.bytes.drop cut.instrStart := by
      have member := nul
        (cut.header ++ terminated cut.dest ++ terminated cut.source)
        cut.instr cut.rest
      simpa only [ScannedBuffer.bytes, ScannedBuffer.instrStart,
        ScannedBuffer.sourceStart, List.append_assoc, List.length_append,
        length_terminated, cut.header_length, Nat.add_assoc] using member
    have destNul : 0 ∈ cut.bytes.drop 4 := by
      have member := nul cut.header cut.dest
        (terminated cut.source ++ (terminated cut.instr ++ cut.rest))
      simpa only [ScannedBuffer.bytes, cut.header_length] using member
    have named :=
      strcmpEq_isSome instrNul
        (show 0 ∈ terminated wimpInstructionExit by decide)
    have addressed :=
      strcmpEq_isSome destNul
        (show 0 ∈ terminated processName by simp [terminated])
    rcases Option.isSome_iff_exists.mp named with ⟨isNamed, namedEq⟩
    simp only [exitSignal, wimpInstrGetFromBuffer_scanned,
      ScannedBuffer.decoded, Option.bind_eq_bind, Option.bind_some,
      namedEq]
    split_ifs
    · exact addressed
    · rfl

/-- A step whose missing tests would pass keeps the invariant. -/
theorem invariant_of_step
    {asserts : Bool} {processName : Bytes} {config next : RecieverConfig}
    {input : Input}
    (packet : OnlyPackets input) (guarded : Guarded config input)
    (invariant : Invariant config)
    (stepped : step asserts processName config input = some next) :
    Invariant next := by
  rcases invariant with ⟨bufferLength, contained⟩
  cases step_cases stepped with
  | deactivated control => exact ⟨bufferLength, trivial⟩
  | startPoll control state => exact ⟨bufferLength, trivial⟩
  | startHeader control state =>
      simp only [Contained, control, state, reduceCtorEq, false_or,
        true_and] at contained
      exact
        ⟨bufferLength, state, by decide, contained.congr rfl rfl rfl⟩
  | resumeData control state =>
      simp [Contained, control, state] at contained
  | polled received control admissible size =>
      have live := (window_of_packet config packet admissible).1
      exact
        ⟨live.buffer_length, rfl, by decide, live.congr rfl rfl rfl⟩
  | polledNothing received control admissible size =>
      have live := (window_of_packet config packet admissible).1
      rcases (window_of_packet config packet admissible).2 with
        ⟨byte, rest, window⟩
      have length := length_unread live
      rw [window, List.length_cons] at length
      simp only [wimpRecieverNextPacket] at length
      omega
  | headerByte read control available =>
      simp only [Contained, control] at contained
      rcases contained with ⟨state, short, live⟩
      rw [exhausted_iff live] at available
      rcases List.exists_cons_of_ne_nil available with ⟨byte, rest, window⟩
      exact invariant_readHeaderByte live state short window
  | headerReceive read received control exhausted admissible =>
      simp only [Contained, control] at contained
      rcases contained with ⟨state, short, -⟩
      rcases window_of_packet config packet admissible with
        ⟨live, byte, rest, window⟩
      exact invariant_readHeaderByte live state short window
  | headerChecked read control =>
      simp only [Contained, control] at contained
      exact invariant_headerChecked asserts contained.2 contained.1
  | allocated header block control admissible =>
      simp only [Contained, control] at contained
      simp only [Guarded, control] at guarded
      exact invariant_allocated contained.2.2 contained.2.1 admissible
        guarded
  | copied control incomplete =>
      simp only [Contained, control] at contained
      rcases contained with ⟨live, buffer, filling⟩
      exact invariant_copied live filling
  | finished control complete =>
      simp only [Contained, control] at contained
      rcases contained with ⟨live, buffer, filling⟩
      simp only [Guarded, control] at guarded
      have scanned := guarded complete buffer
        (by rw [filling.instruction_eq]; rfl)
      rcases Option.isSome_iff_exists.mp
        ((exitSignal_isSome_iff processName buffer).mpr scanned) with
        ⟨disconnect, signal⟩
      rw [finishInstruction, filling.instruction_eq, signal]
      exact ⟨live.buffer_length, live.congr rfl rfl rfl⟩
  | refilled received control admissible =>
      simp only [Contained, control] at contained
      rcases contained with ⟨buffer, filling⟩
      have live := (window_of_packet config packet admissible).1
      exact
        ⟨live.buffer_length, live.congr rfl rfl rfl, buffer,
          filling.instruction_eq, filling.read_le, filling.size_le⟩
  | enqueued disconnect granted control =>
      simp only [Contained, control] at contained
      refine ⟨bufferLength, ?_⟩
      cases disconnect with
      | true => trivial
      | false => exact Or.inr ⟨rfl, contained.congr rfl rfl rfl⟩

/-- A step one of whose missing tests would fail leaves an object. -/
theorem fault_of_unguarded
    {asserts : Bool} {processName : Bytes} {config next : RecieverConfig}
    {input : Input}
    (unguarded : ¬ Guarded config input) (invariant : Invariant config)
    (stepped : step asserts processName config input = some next) :
    next.control = .fault := by
  have contained := invariant.contained
  cases step_cases stepped with
  | allocated header block control admissible =>
      simp only [Contained, control] at contained
      simp only [Guarded, control, not_and] at unguarded
      cases block with
      | none => rfl
      | some block =>
          have small : header < 4 := by
            by_contra large
            exact unguarded (by omega) rfl
          rcases admissible block rfl with ⟨length, fits⟩
          unfold toSizeT at length fits
          unfold ptrdiffMax at fits
          have short : ¬ 0 + 4 ≤ block.length := by omega
          simp only [beginInstruction, wimpRecieverAllocateinstr, splice,
            length_toLE, if_neg short]
  | finished control complete =>
      simp only [Contained, control] at contained
      rcases contained with ⟨live, buffer, filling⟩
      simp only [Guarded, control, filling.instruction_eq] at unguarded
      have unscanned : ¬ Scanned buffer := by
        intro scanned
        refine unguarded fun _ other member => ?_
        rcases Option.some.inj member with rfl
        exact scanned
      rw [← exitSignal_isSome_iff processName, Option.not_isSome_iff_eq_none]
        at unscanned
      rw [finishInstruction, filling.instruction_eq, unscanned]
  | copied control incomplete =>
      simp only [Guarded, control] at unguarded
      exact absurd (fun complete => absurd complete incomplete) unguarded
  | deactivated control => simp [Guarded, control] at unguarded
  | startPoll control state => simp [Guarded, control] at unguarded
  | startHeader control state => simp [Guarded, control] at unguarded
  | resumeData control state => simp [Guarded, control] at unguarded
  | polled received control => simp [Guarded, control] at unguarded
  | polledNothing received control => simp [Guarded, control] at unguarded
  | headerByte read control => simp [Guarded, control] at unguarded
  | headerReceive read received control =>
      simp [Guarded, control] at unguarded
  | headerChecked read control => simp [Guarded, control] at unguarded
  | refilled received control => simp [Guarded, control] at unguarded
  | enqueued disconnect granted control =>
      simp [Guarded, control] at unguarded

/-! ## Whole runs -/

/-- The invariant holds along every guarded run over packets. -/
theorem invariant_of_run
    {asserts : Bool} {processName : Bytes} {inputs : List Input}
    {config : RecieverConfig}
    (packets : ∀ input ∈ inputs, OnlyPackets input)
    (guarded : Along (step asserts processName) Guarded {} inputs)
    (ran : run (step asserts processName) {} inputs = some config) :
    Invariant config := by
  refine run_induction_along
    (motive := fun inputs config =>
      (∀ input ∈ inputs, OnlyPackets input) → Invariant config)
    ?_ ?_ guarded ran packets
  · intro _
    exact ⟨by simp, Or.inl rfl⟩
  · intro inputs config input next induction guarded stepped packets
    have earlier := induction fun input member =>
      packets input (List.mem_append_left _ member)
    exact invariant_of_step
      (packets input
        (List.mem_append_right _ (List.mem_singleton_self _)))
      guarded earlier stepped

/--
In a run over packets whose missing tests would all pass, every access stays
inside its object; and behind such a run, the next step leaves an object
exactly when one of its missing tests would fail.
-/
theorem memorySafe_of_guarded
    {asserts : Bool} {processName : Bytes} {inputs : List Input}
    {config : RecieverConfig}
    (packets : ∀ input ∈ inputs, OnlyPackets input)
    (guarded : Along (step asserts processName) Guarded {} inputs)
    (ran : run (step asserts processName) {} inputs = some config) :
    MemorySafe config ∧
      ∀ input next, OnlyPackets input →
        step asserts processName config input = some next →
          (next.control ≠ .fault ↔ Guarded config input) := by
  have invariant := invariant_of_run packets guarded ran
  refine ⟨memorySafe_of_invariant invariant, ?_⟩
  intro input next packet stepped
  constructor
  · intro safe
    by_contra unguarded
    exact safe (fault_of_unguarded unguarded invariant stepped)
  · intro guarded
    exact (memorySafe_of_invariant
      (invariant_of_step packet guarded invariant stepped)).no_fault

/-- The instruction `c` from `b` to `a`, cut inside its body. -/
def twoPackets : List Input :=
  let bytes := instrBytes [0x62] [0x61] [0x63] []
  [.active true, .receive (.packet (bytes.take 6)), .tau, .tau, .tau, .tau,
    .tau, .malloc (some (List.replicate 14 0)), .tau,
    .receive (.packet (bytes.drop 6)), .tau, .tau, .node true]

theorem memorySafe_twoPackets :
    ∃ config,
      run (step true [0x7a]) {} twoPackets = some config ∧
        MemorySafe config := by
  rcases
    Option.isSome_iff_exists.mp
      (show (run (step true [0x7a]) {} twoPackets).isSome by
        decide +kernel) with
    ⟨config, ran⟩
  exact ⟨config, ran,
    (memorySafe_of_guarded (by decide +kernel) (by decide +kernel)
      ran).1⟩

/-- The header `1` allocates one byte, and four bytes are written to it. -/
theorem not_memorySafe_header :
    ∃ config,
      run (step true [0x7a]) {}
          [.active true, .receive (.packet [1, 0, 0, 0]), .tau, .tau, .tau,
            .tau, .tau, .malloc (some [0])] = some config ∧
        ¬ MemorySafe config := by
  have faulted :
      (run (step true [0x7a]) {}
          [.active true, .receive (.packet [1, 0, 0, 0]), .tau, .tau, .tau,
            .tau, .tau, .malloc (some [0])]).map (·.control) =
        some .fault := by
    decide +kernel
  rcases Option.map_eq_some_iff.mp faulted with ⟨config, ran, fault⟩
  exact ⟨config, ran, fun safe => safe.no_fault fault⟩

end Wimp.Reciever.Bounds
