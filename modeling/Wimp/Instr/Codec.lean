import Wimp.Lib.ByteRegion

/-!
# The instruction format

An instruction travels as one run of bytes

`TOTAL_BYTES-DESTPROCESS\0-SOURCEPROCESS\0-INSTRUCTION\0-ARG_BYTES-ARGS`

with both counts stored as 32-bit words.  This module embeds the writer
`wimp_server_bundle_instr` and the reader `wimp_instr_get_from_buffer`.

The reader keeps one offset and advances it by three scans; each scan stops
behind a NUL or at the end of the buffer.  Every scan but the first starts
one byte behind the previous stop, and the first starts one byte behind the
destination, so a scan never looks at the first byte of its own field.  The
structure `ScannedBuffer` records exactly what such a pass sees.  The main
result is that the reader stays inside a buffer with a nonzero first byte
precisely when the buffer has that shape.
-/

namespace Wimp.Instr.Codec

open Wimp.Lib.ByteRegion

/-- `WIMP_INSTRUCTION_DEST_OFFSET`. -/
def wimpInstructionDestOffset : Nat := 4

/-- `WIMP_INSTRUCTION_EXIT`, the text `exit`. -/
def wimpInstructionExit : Bytes := [0x65, 0x78, 0x69, 0x74]

/-! ## Writing an instruction -/

/-- The buffer handed over by the writer, `NULL` when `malloc` failed. -/
structure InstrBundle where
  instr : Option Bytes
  size : Nat
deriving DecidableEq, Repr

/-- The formatted size of an instruction. -/
def totalBytes (process dest instr args : Bytes) : Nat :=
  4 + (process.length + 1) + (dest.length + 1) + (instr.length + 1) +
    4 + args.length

/-- The format of an instruction, field by field. -/
def instrBytes (process dest instr args : Bytes) : Bytes :=
  toLE 4 (totalBytes process dest instr args) ++
    (terminated dest ++ (terminated process ++ (terminated instr ++
      (toLE 4 args.length ++ args))))

@[simp]
theorem length_instrBytes (process dest instr args : Bytes) :
    (instrBytes process dest instr args).length =
      totalBytes process dest instr args := by
  simp only [instrBytes, totalBytes, List.length_append, length_toLE,
    length_terminated]
  omega

/-- The names and arguments of one instruction. -/
structure Instruction where
  source : Bytes
  dest : Bytes
  instr : Bytes
  args : Bytes
deriving DecidableEq, Repr

namespace Instruction

/-- The formatted size. -/
def total (instruction : Instruction) : Nat :=
  totalBytes instruction.source instruction.dest instruction.instr
    instruction.args

/-- The formatted bytes. -/
def bytes (instruction : Instruction) : Bytes :=
  instrBytes instruction.source instruction.dest instruction.instr
    instruction.args

/-- The formatted bytes behind the total size. -/
def body (instruction : Instruction) : Bytes :=
  terminated instruction.dest ++ (terminated instruction.source ++
    (terminated instruction.instr ++
      (toLE 4 instruction.args.length ++ instruction.args)))

theorem bytes_eq (instruction : Instruction) :
    instruction.bytes = toLE 4 instruction.total ++ instruction.body :=
  rfl

@[simp]
theorem length_bytes (instruction : Instruction) :
    instruction.bytes.length = instruction.total :=
  length_instrBytes _ _ _ _

/-- Even an instruction without any text has a header and a body. -/
theorem four_lt_total (instruction : Instruction) :
    4 < instruction.total := by
  unfold total totalBytes
  omega

end Instruction

/--
`wimp_server_bundle_instr`.  `malloc` yields the uninitialised bytes of a
fresh block; the outer `none` is a `memcpy` outside that block.
-/
def wimpServerBundleInstr (malloc : Nat → Option Bytes)
    (process dest instr args : Bytes) : Option InstrBundle := do
  let total := totalBytes process dest instr args
  match malloc total with
  | none => return ⟨none, 0⟩
  | some instrbuff =>
      let offset := 0
      let instrbuff ← splice instrbuff offset (toLE 4 total)
      let offset := offset + 4
      let instrbuff ← splice instrbuff offset (terminated dest)
      let offset := offset + (dest.length + 1)
      let instrbuff ← splice instrbuff offset (terminated process)
      let offset := offset + (process.length + 1)
      let instrbuff ← splice instrbuff offset (terminated instr)
      let offset := offset + (instr.length + 1)
      let instrbuff ← splice instrbuff offset (toLE 4 args.length)
      let offset := offset + 4
      let instrbuff ←
        if args.length > 0 then splice instrbuff offset args
        else some instrbuff
      return ⟨some instrbuff, total⟩

/-- Copies at the running offset lay the fields out one behind the other. -/
private theorem splice_next
    {written free source : Bytes} {offset : Nat}
    (atEnd : offset = written.length)
    (fits : source.length ≤ free.length) :
    splice (written ++ free) offset source =
      some ((written ++ source) ++ free.drop source.length) := by
  subst atEnd
  exact splice_append written source free fits

/-- When the block is granted, the writer fills all of it with the format. -/
theorem wimpServerBundleInstr_granted
    {malloc : Nat → Option Bytes} {process dest instr args block : Bytes}
    (granted :
      malloc (totalBytes process dest instr args) = some block)
    (blockSize : block.length = totalBytes process dest instr args) :
    wimpServerBundleInstr malloc process dest instr args =
      some
        ⟨some (instrBytes process dest instr args),
          totalBytes process dest instr args⟩ := by
  have room := blockSize
  unfold totalBytes at room
  rw [wimpServerBundleInstr, granted]
  have first :=
    splice_append [] (toLE 4 (totalBytes process dest instr args)) block
      (by rw [length_toLE]; omega)
  rw [List.nil_append, List.length_nil] at first
  simp only [first, Option.bind_eq_bind, Option.bind_some, Option.pure_def]
  rw [splice_next (by simp)
    (by simp only [length_terminated, length_toLE, List.length_drop]; omega)]
  simp only [Option.bind_some]
  rw [splice_next (by simp)
    (by simp only [length_terminated, length_toLE, List.length_drop]; omega)]
  simp only [Option.bind_some]
  rw [splice_next
    (by simp only [length_terminated, length_toLE, List.length_append]; simp)
    (by simp only [length_terminated, length_toLE, List.length_drop]; omega)]
  simp only [Option.bind_some]
  rw [splice_next
    (by simp only [length_terminated, length_toLE, List.length_append]; simp)
    (by simp only [length_terminated, length_toLE, List.length_drop]; omega)]
  simp only [Option.bind_some]
  split_ifs with nonempty
  · rw [splice_next
      (by simp only [length_terminated, length_toLE, List.length_append]; simp)
      (by simp only [length_terminated, length_toLE, List.length_drop]; omega)]
    simp only [Option.bind_some, List.drop_drop]
    rw [List.drop_eq_nil_of_le
      (by simp only [length_terminated, length_toLE]; omega)]
    simp [instrBytes]
  · have empty : args = [] := List.length_eq_zero_iff.mp (by omega)
    subst empty
    simp only [List.drop_drop]
    rw [List.drop_eq_nil_of_le
      (by
        simp only [length_terminated, length_toLE]
        simp only [List.length_nil] at room
        omega)]
    simp [instrBytes]

/-! ## Reading an instruction -/

/--
`WimpInstrMeta`.  The pointers are offsets into the decoded buffer, and
`none` is the `NULL` pointer.
-/
structure WimpInstrMeta where
  sourceProcess : Option Nat := none
  destProcess : Option Nat := none
  instr : Option Nat := none
  args : Option Nat := none
  totalBytes : Nat := 0
  argBytes : Int := 0
  instrBytes : Int := 0
deriving DecidableEq, Repr

/--
The loop `while (current_char != '\0' && offset < buffsize)`, where
`remaining` is `buffsize - offset`.
-/
def scanLoop (buffer : Bytes) : Nat → UInt8 → Nat → Option Nat
  | 0, _, offset => some offset
  | remaining + 1, currentChar, offset =>
      if currentChar = 0 then
        some offset
      else do
        let next ← buffer[offset]?
        scanLoop buffer remaining next (offset + 1)

/-- One scan, entered with `current_char = ' '`. -/
def scan (buffer : Bytes) (buffsize offset : Nat) : Option Nat :=
  scanLoop buffer (buffsize - offset) 0x20 offset

/--
`wimp_instr_get_from_buffer`; the outer `none` is an access outside the
buffer.
-/
def wimpInstrGetFromBuffer (buffer : Option Bytes) (buffsize : Nat) :
    Option WimpInstrMeta :=
  match buffer with
  | none => some {}
  | some buffer => do
      let first ← buffer[0]?
      if first = 0 then
        -- taken for a ping packet
        return {}
      let sourceStart ←
        scan buffer buffsize (wimpInstructionDestOffset + 1)
      let instrStart ← scan buffer buffsize (sourceStart + 1)
      let argStart ← scan buffer buffsize (instrStart + 1)
      let argBytes ← int32At buffer argStart
      let total ← int32At buffer 0
      return {
        destProcess := some wimpInstructionDestOffset
        sourceProcess := some sourceStart
        instr := some instrStart
        instrBytes := toInt32 (argStart - instrStart)
        argBytes := argBytes
        args := if argBytes ≠ 0 then some (argStart + 4) else none
        totalBytes := toSizeT total
      }

/-- `wimp_instr_get_from_node`: the whole buffer of the node is decoded. -/
def wimpInstrGetFromNode (instruction : Bytes) : Option WimpInstrMeta :=
  wimpInstrGetFromBuffer (some instruction) instruction.length

/-! ### What a scan sees -/

/-- The number of bytes a scan consumes from the bytes in front of it. -/
def scanLength : Bytes → Nat
  | [] => 0
  | byte :: rest => if byte = 0 then 1 else scanLength rest + 1

theorem scanLoop_eq
    (buffer : Bytes) (remaining offset : Nat) (currentChar : UInt8)
    (toEnd : remaining = buffer.length - offset)
    (running : currentChar ≠ 0) :
    scanLoop buffer remaining currentChar offset =
      some (offset + scanLength (buffer.drop offset)) := by
  induction remaining generalizing offset currentChar with
  | zero =>
      rw [List.drop_eq_nil_of_le (by omega)]
      rfl
  | succ remaining induction =>
      have inside : offset < buffer.length := by omega
      have next : buffer[offset]? = some buffer[offset] :=
        List.getElem?_eq_getElem inside
      rw [scanLoop, if_neg running, List.drop_eq_getElem_cons inside,
        scanLength]
      simp only [next, Option.bind_eq_bind, Option.bind_some]
      by_cases stops : buffer[offset] = 0
      · rw [if_pos stops, stops]
        cases remaining with
        | zero => rfl
        | succ remaining => simp [scanLoop]
      · rw [if_neg stops,
          induction (offset + 1) buffer[offset] (by omega) stops]
        congr 1
        omega

/-- A scan over the whole buffer is always defined. -/
theorem scan_eq (buffer : Bytes) (offset : Nat) :
    scan buffer buffer.length offset =
      some (offset + scanLength (buffer.drop offset)) :=
  scanLoop_eq buffer _ offset 0x20 rfl (by decide)

theorem scanLength_terminated
    {text : Bytes} (nulFree : NulFree text) (after : Bytes) :
    scanLength (terminated text ++ after) = text.length + 1 := by
  induction text with
  | nil => simp [terminated, scanLength]
  | cons byte rest induction =>
      rw [nulFree_cons_iff] at nulFree
      have tail := induction nulFree.2
      simp only [terminated, List.append_assoc, List.cons_append] at tail ⊢
      rw [scanLength, if_neg nulFree.1, tail]
      rfl

/-- A scan which stops before the end of the buffer stopped behind a NUL. -/
theorem exists_terminated_of_scanLength_lt
    {bytes : Bytes} (stopped : scanLength bytes < bytes.length) :
    ∃ text after,
      bytes = terminated text ++ after ∧ NulFree text ∧
        scanLength bytes = text.length + 1 := by
  induction bytes with
  | nil => simp [scanLength] at stopped
  | cons byte rest induction =>
      rw [scanLength] at stopped ⊢
      by_cases zero : byte = 0
      · subst zero
        exact ⟨[], rest, by simp [terminated], nulFree_nil, by simp⟩
      · rw [if_neg zero] at stopped ⊢
        rw [List.length_cons] at stopped
        rcases induction (by omega) with ⟨text, after, split, nulFree, length⟩
        refine ⟨byte :: text, after, ?_, ?_, ?_⟩
        · rw [split]
          simp [terminated]
        · rw [nulFree_cons_iff]
          exact ⟨zero, nulFree⟩
        · rw [length]
          rfl

/-! ### The buffers the reader stays inside of -/

/--
A field as the reader recognises it: nonempty, and free of NUL behind its
first byte, which no scan looks at.
-/
def ScannedField (field : Bytes) : Prop :=
  field ≠ [] ∧ NulFree field.tail

instance (field : Bytes) : Decidable (ScannedField field) :=
  inferInstanceAs (Decidable (_ ∧ _))

/-- A nonempty string is recognised. -/
theorem scannedField_of_nulFree
    {field : Bytes} (nonempty : field ≠ []) (nulFree : NulFree field) :
    ScannedField field :=
  ⟨nonempty, fun member => nulFree (List.mem_of_mem_tail member)⟩

/-- A buffer cut at the places where the three scans of the reader stop. -/
structure ScannedBuffer where
  header : Bytes
  dest : Bytes
  source : Bytes
  instr : Bytes
  rest : Bytes
  header_length : header.length = 4
  header_first : header.head? ≠ some 0
  dest_scanned : ScannedField dest
  source_scanned : ScannedField source
  instr_scanned : ScannedField instr
  rest_length : 4 ≤ rest.length

namespace ScannedBuffer

/-- The buffer that was cut. -/
def bytes (cut : ScannedBuffer) : Bytes :=
  cut.header ++ (terminated cut.dest ++ (terminated cut.source ++
    (terminated cut.instr ++ cut.rest)))

/-- Offset of the source string. -/
def sourceStart (cut : ScannedBuffer) : Nat :=
  4 + (cut.dest.length + 1)

/-- Offset of the instruction string. -/
def instrStart (cut : ScannedBuffer) : Nat :=
  cut.sourceStart + (cut.source.length + 1)

/-- Offset of the argument size. -/
def argStart (cut : ScannedBuffer) : Nat :=
  cut.instrStart + (cut.instr.length + 1)

/-- What the reader returns for the buffer. -/
def decoded (cut : ScannedBuffer) : WimpInstrMeta :=
  let argBytes := toInt32 (ofLE (cut.rest.take 4))
  { destProcess := some 4
    sourceProcess := some cut.sourceStart
    instr := some cut.instrStart
    instrBytes := toInt32 (cut.instr.length + 1)
    argBytes := argBytes
    args := if argBytes ≠ 0 then some (cut.argStart + 4) else none
    totalBytes := toSizeT (toInt32 (ofLE cut.header)) }

end ScannedBuffer

/-- A scan entered at the second byte of a field stops behind the field. -/
private theorem scan_field
    {before field after buffer : Bytes} {offset : Nat}
    (scanned : ScannedField field)
    (split : buffer = before ++ (terminated field ++ after))
    (entered : offset = before.length + 1) :
    scan buffer buffer.length offset =
      some (before.length + (field.length + 1)) := by
  rcases scanned with ⟨nonempty, tailFree⟩
  cases field with
  | nil => exact absurd rfl nonempty
  | cons first tail =>
      have dropped :
          buffer.drop offset = terminated tail ++ after := by
        rw [split, entered, ← List.drop_drop, List.drop_left]
        simp [terminated]
      have consumed : scanLength (terminated tail ++ after) =
          tail.length + 1 :=
        scanLength_terminated tailFree after
      rw [scan_eq, dropped, consumed, entered]
      congr 1
      simp only [List.length_cons]
      omega

/-! ### The scans of a buffer which was cut -/

theorem ScannedBuffer.scan_dest (cut : ScannedBuffer) :
    scan cut.bytes cut.bytes.length (wimpInstructionDestOffset + 1) =
      some cut.sourceStart := by
  have stopped := scan_field cut.dest_scanned
    (show cut.bytes = cut.header ++ _ from rfl)
    (show wimpInstructionDestOffset + 1 = _ by
      rw [cut.header_length, wimpInstructionDestOffset])
  rw [stopped, cut.header_length, sourceStart]

theorem ScannedBuffer.scan_source (cut : ScannedBuffer) :
    scan cut.bytes cut.bytes.length (cut.sourceStart + 1) =
      some cut.instrStart := by
  have split :
      cut.bytes =
        (cut.header ++ terminated cut.dest) ++
          (terminated cut.source ++ (terminated cut.instr ++ cut.rest)) := by
    rw [bytes, List.append_assoc]
  have before :
      (cut.header ++ terminated cut.dest).length = cut.sourceStart := by
    rw [List.length_append, cut.header_length, length_terminated,
      sourceStart]
  have stopped := scan_field cut.source_scanned split
    (show cut.sourceStart + 1 = _ by rw [before])
  rw [stopped, before, instrStart]

/-- The bytes in front of the instruction string. -/
theorem ScannedBuffer.length_before_instr (cut : ScannedBuffer) :
    (cut.header ++ terminated cut.dest ++ terminated cut.source).length =
      cut.instrStart := by
  simp only [List.length_append, cut.header_length, length_terminated,
    instrStart, sourceStart]

theorem ScannedBuffer.scan_instr (cut : ScannedBuffer) :
    scan cut.bytes cut.bytes.length (cut.instrStart + 1) =
      some cut.argStart := by
  have split :
      cut.bytes =
        (cut.header ++ terminated cut.dest ++ terminated cut.source) ++
          (terminated cut.instr ++ cut.rest) := by
    simp only [bytes, List.append_assoc]
  have stopped := scan_field cut.instr_scanned split
    (show cut.instrStart + 1 = _ by rw [cut.length_before_instr])
  rw [stopped, cut.length_before_instr, argStart]

/-- The argument size is read in front of the rest. -/
theorem ScannedBuffer.int32At_argStart (cut : ScannedBuffer) :
    int32At cut.bytes cut.argStart =
      some (toInt32 (ofLE (cut.rest.take 4))) := by
  have split :
      cut.bytes =
        (cut.header ++ terminated cut.dest ++ terminated cut.source ++
          terminated cut.instr) ++ cut.rest := by
    simp only [bytes, List.append_assoc]
  have before :
      (cut.header ++ terminated cut.dest ++ terminated cut.source ++
        terminated cut.instr).length = cut.argStart := by
    rw [List.length_append, cut.length_before_instr, length_terminated,
      argStart]
  rw [split, ← before]
  exact int32At_append _ _ cut.rest_length

/-- The total size is read from the header. -/
theorem ScannedBuffer.int32At_header (cut : ScannedBuffer) :
    int32At cut.bytes 0 = some (toInt32 (ofLE cut.header)) := by
  have large : 4 ≤ cut.bytes.length := by
    rw [bytes, List.length_append, cut.header_length]
    omega
  have read := int32At_append [] cut.bytes large
  have word : cut.bytes.take 4 = cut.header := by
    rw [bytes, ← cut.header_length, List.take_left]
  rw [word] at read
  exact read

/-- The reader is defined on a buffer of the scanned shape. -/
theorem wimpInstrGetFromBuffer_scanned (cut : ScannedBuffer) :
    wimpInstrGetFromBuffer (some cut.bytes) cut.bytes.length =
      some cut.decoded := by
  have first :
      ∃ first, cut.bytes[0]? = some first ∧ first ≠ 0 := by
    have length := cut.header_length
    have nonzero := cut.header_first
    rw [ScannedBuffer.bytes]
    cases header : cut.header with
    | nil => simp [header] at length
    | cons first tail =>
        refine ⟨first, rfl, ?_⟩
        rw [header] at nonzero
        simpa using nonzero
  rcases first with ⟨first, firstByte, firstNonzero⟩
  have counted :
      cut.argStart - cut.instrStart = cut.instr.length + 1 := by
    rw [ScannedBuffer.argStart]
    omega
  simp only [wimpInstrGetFromBuffer, firstByte, firstNonzero,
    cut.scan_dest, cut.scan_source, cut.scan_instr, cut.int32At_argStart,
    cut.int32At_header, counted, Option.bind_eq_bind, Option.bind_some,
    Option.pure_def, if_false]
  rfl

/-- The bytes from a scanned position on, cut where the scan stops. -/
private theorem exists_field_of_scan
    {buffer before : Bytes} {stop : Nat}
    (isPrefix : before <+: buffer)
    (scanned : scan buffer buffer.length (before.length + 1) = some stop)
    (inside : stop < buffer.length) :
    ∃ field, ScannedField field ∧
      before ++ terminated field <+: buffer ∧
        stop = before.length + (field.length + 1) := by
  rcases isPrefix with ⟨tail, rfl⟩
  rw [scan_eq, Option.some.injEq] at scanned
  cases tail with
  | nil =>
      simp only [List.append_nil] at inside scanned
      omega
  | cons first rest =>
      have dropped :
          (before ++ first :: rest).drop (before.length + 1) = rest := by
        rw [← List.drop_drop, List.drop_left]
        rfl
      rw [dropped] at scanned
      simp only [List.length_append, List.length_cons] at inside
      rcases
        exists_terminated_of_scanLength_lt
          (show scanLength rest < rest.length by omega) with
        ⟨text, after, split, nulFree, length⟩
      refine ⟨first :: text, ⟨by simp, nulFree⟩, ?_, ?_⟩
      · exact ⟨after, by rw [split]; simp [terminated]⟩
      · rw [List.length_cons]
        omega

/-- A decoded buffer which does not start with a zero byte was scanned. -/
theorem exists_scannedBuffer
    {buffer : Bytes} {result : WimpInstrMeta}
    (firstNonzero : buffer.head? ≠ some 0)
    (defined :
      wimpInstrGetFromBuffer (some buffer) buffer.length = some result) :
    ∃ cut : ScannedBuffer, cut.bytes = buffer := by
  rw [wimpInstrGetFromBuffer] at defined
  simp only [wimpInstructionDestOffset, Option.bind_eq_bind,
    Option.bind_eq_some_iff] at defined
  rcases defined with ⟨first, firstByte, defined⟩
  rw [← List.head?_eq_getElem?] at firstByte
  rw [if_neg
    (fun zero => firstNonzero (by rw [firstByte, zero]))] at defined
  simp only [Option.bind_eq_some_iff] at defined
  obtain ⟨sourceStart, destScan, instrStart, sourceScan, argStart,
    instrScan, argBytes, argWord, -⟩ := defined
  have argInside : argStart + 4 ≤ buffer.length := by
    by_contra outside
    rw [int32At_eq_none (by omega)] at argWord
    simp at argWord
  have destStop := destScan
  have sourceStop := sourceScan
  have instrStop := instrScan
  rw [scan_eq, Option.some.injEq] at destStop sourceStop instrStop
  have headerLength : (buffer.take 4).length = 4 := by
    rw [List.length_take]
    omega
  rcases
    exists_field_of_scan (List.take_prefix 4 buffer)
      (by rw [headerLength]; exact destScan)
      (by omega) with ⟨dest, destScanned, destPrefix, destEnd⟩
  have sourceEntry :
      sourceStart = (buffer.take 4 ++ terminated dest).length := by
    rw [List.length_append, length_terminated, destEnd]
  rcases
    exists_field_of_scan destPrefix (by rw [← sourceEntry]; exact sourceScan)
      (by omega) with ⟨source, sourceScanned, sourcePrefix, sourceEnd⟩
  have instrEntry :
      instrStart =
        (buffer.take 4 ++ terminated dest ++ terminated source).length := by
    rw [List.length_append, length_terminated, sourceEnd]
  rcases
    exists_field_of_scan sourcePrefix
      (by rw [← instrEntry]; exact instrScan) (by omega) with
    ⟨instr, instrScanned, ⟨rest, instrPrefix⟩, instrEnd⟩
  have lengths := congrArg List.length instrPrefix
  rw [List.length_append, List.length_append, length_terminated] at lengths
  refine
    ⟨{ header := buffer.take 4, dest, source, instr, rest
       header_length := headerLength
       header_first := ?_
       dest_scanned := destScanned
       source_scanned := sourceScanned
       instr_scanned := instrScanned
       rest_length := by omega }, ?_⟩
  · rw [List.head?_take]
    simpa using firstNonzero
  · simpa [ScannedBuffer.bytes] using instrPrefix

/-- The reader takes a buffer with a zero first byte for a ping. -/
theorem wimpInstrGetFromBuffer_of_head_zero
    {buffer : Bytes} (buffsize : Nat) (zero : buffer.head? = some 0) :
    wimpInstrGetFromBuffer (some buffer) buffsize = some {} := by
  rw [List.head?_eq_getElem?] at zero
  rw [wimpInstrGetFromBuffer]
  simp [zero]

/--
The reader stays inside a buffer exactly when it starts with a zero byte or
has the scanned shape.
-/
theorem wimpInstrGetFromBuffer_isSome_iff (buffer : Bytes) :
    (wimpInstrGetFromBuffer (some buffer) buffer.length).isSome ↔
      buffer.head? = some 0 ∨
        ∃ cut : ScannedBuffer, cut.bytes = buffer := by
  constructor
  · intro defined
    rcases Option.isSome_iff_exists.mp defined with ⟨result, equal⟩
    rcases eq_or_ne buffer.head? (some 0) with zero | nonzero
    · exact Or.inl zero
    · exact Or.inr (exists_scannedBuffer nonzero equal)
  · rintro (zero | ⟨cut, rfl⟩)
    · rw [wimpInstrGetFromBuffer_of_head_zero _ zero]
      rfl
    · rw [wimpInstrGetFromBuffer_scanned]
      rfl

/--
A reader which returns a destination found it behind the total size, and
returns the stored total size.
-/
theorem header_of_read
    {buffer : Bytes} {buffsize : Nat} {result : WimpInstrMeta}
    (read : wimpInstrGetFromBuffer (some buffer) buffsize = some result)
    {pointer : Nat} (points : result.destProcess = some pointer) :
    pointer = wimpInstructionDestOffset ∧
      ∃ total,
        int32At buffer 0 = some total ∧
          result.totalBytes = toSizeT total := by
  simp only [wimpInstrGetFromBuffer, Option.bind_eq_bind,
    Option.bind_eq_some_iff] at read
  rcases read with ⟨first, -, read⟩
  split_ifs at read with zero
  · rw [Option.pure_def, Option.some.injEq] at read
    simp [← read] at points
  · simp only [Option.bind_eq_some_iff] at read
    rcases read with ⟨_, -, _, -, _, -, _, -, total, word, returned⟩
    rw [Option.pure_def, Option.some.injEq] at returned
    rw [← returned, Option.some.injEq] at points
    exact ⟨points.symm, total, word, by rw [← returned]⟩

/-- The destination written into an instruction. -/
def destOf (buffer : Bytes) : Option Bytes :=
  cString (buffer.drop wimpInstructionDestOffset)

/-- The name of an instruction, as the reader of its node finds it. -/
def instrOf (buffer : Bytes) : Option Bytes := do
  let result ← wimpInstrGetFromNode buffer
  let pointer ← result.instr
  cString (buffer.drop pointer)

/-- The buffer has the shape which the reader scans. -/
def Scanned (buffer : Bytes) : Prop :=
  ∃ cut : ScannedBuffer, cut.bytes = buffer

theorem scanned_iff (buffer : Bytes) :
    Scanned buffer ↔
      buffer.head? ≠ some 0 ∧
        (wimpInstrGetFromBuffer (some buffer) buffer.length).isSome := by
  constructor
  · rintro ⟨cut, rfl⟩
    refine ⟨?_, by rw [wimpInstrGetFromBuffer_scanned]; rfl⟩
    rw [ScannedBuffer.bytes, List.head?_append]
    cases header : cut.header.head? with
    | none =>
        have length := cut.header_length
        rw [List.head?_eq_none_iff] at header
        simp [header] at length
    | some first =>
        have nonzero := cut.header_first
        rw [header] at nonzero
        exact nonzero
  · rintro ⟨nonzero, defined⟩
    exact ((wimpInstrGetFromBuffer_isSome_iff buffer).mp defined).resolve_left
      nonzero

instance (buffer : Bytes) : Decidable (Scanned buffer) :=
  decidable_of_iff _ (scanned_iff buffer).symm

end Wimp.Instr.Codec
