import Wimp.Instr.Codec

/-!
# Where a decoded instruction lies

The reader trusts the argument size which it reads, and a scan skips the
first byte of the string it is in.  A decoded instruction lies inside its
buffer when the size does; its strings follow each other without a gap when
none of them is empty.
-/

namespace Wimp.Instr.Bounds

open Wimp.Lib.ByteRegion
open Wimp.Instr.Codec

/-! ## The parts of a decoded instruction -/

/-- The offset behind the string at an offset, terminator included. -/
def stringEnd (buffer : Bytes) (start : Nat) : Option Nat :=
  (cString (buffer.drop start)).map fun text => start + (text.length + 1)

/-- The offset at which the reader takes the argument size. -/
def sizeOffset (buffer : Bytes) : Option Nat := do
  let sourceStart ←
    scan buffer buffer.length (wimpInstructionDestOffset + 1)
  let instrStart ← scan buffer buffer.length (sourceStart + 1)
  scan buffer buffer.length (instrStart + 1)

/--
The strings behind the three pointers end where the next part begins or, when
`follows` allows it, in front of it.  The argument size comes behind them, and
then as many bytes as it says, up to the end of the buffer at most.
-/
def LaidOut (follows : Nat → Nat → Prop) (buffer : Bytes)
    (result : WimpInstrMeta) : Prop :=
  ∃ dest source instr size destEnd sourceEnd instrEnd,
    result.destProcess = some dest ∧
    result.sourceProcess = some source ∧
    result.instr = some instr ∧
    sizeOffset buffer = some size ∧
    stringEnd buffer dest = some destEnd ∧ follows destEnd source ∧
    stringEnd buffer source = some sourceEnd ∧ follows sourceEnd instr ∧
    stringEnd buffer instr = some instrEnd ∧ follows instrEnd size ∧
    int32At buffer size = some result.argBytes ∧
    (result.argBytes ≠ 0 → result.args = some (size + 4)) ∧
    0 ≤ result.argBytes ∧ size + 4 + result.argBytes ≤ buffer.length

/--
The reader stays inside the buffer, and so does the instruction which it
returns.
-/
def StaysInside (follows : Nat → Nat → Prop) (buffer : Bytes) : Prop :=
  ∃ result,
    wimpInstrGetFromBuffer (some buffer) buffer.length = some result ∧
      (result.instr.isSome → LaidOut follows buffer result)

end Wimp.Instr.Bounds

namespace Wimp.Instr.Codec.ScannedBuffer

open Wimp.Lib.ByteRegion

/-! ## Conditions on the buffer -/

/-- The stored argument size. -/
def argSize (cut : ScannedBuffer) : Int :=
  toInt32 (ofLE (cut.rest.take 4))

/-- There are as many bytes behind the argument size as it says. -/
def FitsArguments (cut : ScannedBuffer) : Prop :=
  0 ≤ cut.argSize ∧ 4 + cut.argSize ≤ cut.rest.length

instance (cut : ScannedBuffer) : Decidable cut.FitsArguments :=
  inferInstanceAs (Decidable (_ ∧ _))

/-- No string starts with the terminator. -/
def Plain (cut : ScannedBuffer) : Prop :=
  NulFree cut.dest ∧ NulFree cut.source ∧ NulFree cut.instr

instance (cut : ScannedBuffer) : Decidable cut.Plain :=
  inferInstanceAs (Decidable (_ ∧ _))

theorem argBytes_decoded (cut : ScannedBuffer) :
    cut.decoded.argBytes = cut.argSize := by
  rw [decoded, argSize]

theorem args_decoded (cut : ScannedBuffer) :
    cut.decoded.args =
      if cut.argSize ≠ 0 then some (cut.argStart + 4) else none := by
  rw [decoded, argSize]

end Wimp.Instr.Codec.ScannedBuffer

namespace Wimp.Instr.Bounds

open Wimp.Lib.ByteRegion
open Wimp.Instr.Codec

/-! ## The strings of a buffer which was cut -/

/--
A scanned field is read as a string, which ends with the field unless the
field starts with a terminator.
-/
theorem stringEnd_field
    {field : Bytes} (scanned : ScannedField field)
    (before after : Bytes) :
    ∃ stop,
      stringEnd (before ++ (terminated field ++ after)) before.length =
          some stop ∧
        stop ≤ before.length + (field.length + 1) ∧
        (stop = before.length + (field.length + 1) ↔ NulFree field) := by
  rw [stringEnd, List.drop_left]
  rcases scanned with ⟨nonempty, tailFree⟩
  cases field with
  | nil => exact absurd rfl nonempty
  | cons first tail =>
      by_cases zero : first = 0
      · have read :
            cString (terminated (first :: tail) ++ after) = some [] := by
          rw [terminated, List.cons_append, List.cons_append, cString,
            if_pos zero]
        refine ⟨before.length + 1, by rw [read]; rfl, ?_, ?_⟩
        · rw [List.length_cons]
          omega
        · apply iff_of_false
          · rw [List.length_cons]
            omega
          · rw [nulFree_cons_iff]
            exact fun free => free.1 zero
      · have free : NulFree (first :: tail) :=
          (nulFree_cons_iff first tail).mpr ⟨zero, tailFree⟩
        rw [cString_terminated free]
        exact ⟨_, rfl, Nat.le_refl _, iff_of_true rfl free⟩

theorem stringEnd_dest (cut : ScannedBuffer) :
    ∃ stop,
      stringEnd cut.bytes wimpInstructionDestOffset = some stop ∧
        stop ≤ cut.sourceStart ∧
        (stop = cut.sourceStart ↔ NulFree cut.dest) := by
  have found :=
    stringEnd_field cut.dest_scanned cut.header
      (terminated cut.source ++ (terminated cut.instr ++ cut.rest))
  rw [cut.header_length] at found
  exact found

theorem stringEnd_source (cut : ScannedBuffer) :
    ∃ stop,
      stringEnd cut.bytes cut.sourceStart = some stop ∧
        stop ≤ cut.instrStart ∧
        (stop = cut.instrStart ↔ NulFree cut.source) := by
  have found :=
    stringEnd_field cut.source_scanned (cut.header ++ terminated cut.dest)
      (terminated cut.instr ++ cut.rest)
  rw [List.length_append, cut.header_length, length_terminated,
    List.append_assoc] at found
  exact found

theorem stringEnd_instr (cut : ScannedBuffer) :
    ∃ stop,
      stringEnd cut.bytes cut.instrStart = some stop ∧
        stop ≤ cut.argStart ∧
        (stop = cut.argStart ↔ NulFree cut.instr) := by
  have found :=
    stringEnd_field cut.instr_scanned
      (cut.header ++ terminated cut.dest ++ terminated cut.source) cut.rest
  rw [cut.length_before_instr, List.append_assoc, List.append_assoc]
    at found
  exact found

theorem sizeOffset_bytes (cut : ScannedBuffer) :
    sizeOffset cut.bytes = some cut.argStart := by
  simp only [sizeOffset, cut.scan_dest, cut.scan_source, cut.scan_instr,
    Option.bind_eq_bind, Option.bind_some]

theorem length_bytes (cut : ScannedBuffer) :
    cut.bytes.length = cut.argStart + cut.rest.length := by
  simp only [ScannedBuffer.bytes, ScannedBuffer.argStart,
    ScannedBuffer.instrStart, ScannedBuffer.sourceStart,
    List.length_append, length_terminated, cut.header_length]
  omega

/-! ## The instruction of a buffer which was cut -/

/-- The instruction of a buffer which was cut, in terms of the cut. -/
theorem laidOut_decoded_iff
    (follows : Nat → Nat → Prop) (cut : ScannedBuffer)
    {destEnd sourceEnd instrEnd : Nat}
    (dest :
      stringEnd cut.bytes wimpInstructionDestOffset = some destEnd)
    (source : stringEnd cut.bytes cut.sourceStart = some sourceEnd)
    (instr : stringEnd cut.bytes cut.instrStart = some instrEnd) :
    LaidOut follows cut.bytes cut.decoded ↔
      cut.FitsArguments ∧
        follows destEnd cut.sourceStart ∧
        follows sourceEnd cut.instrStart ∧
        follows instrEnd cut.argStart := by
  have length := length_bytes cut
  constructor
  · rintro ⟨destStart, sourceStart, instrStart, size, destStop, sourceStop,
      instrStop, atDest, atSource, atInstr, atSize, destString, destNext,
      sourceString, sourceNext, instrString, instrNext, -, -, nonneg,
      fits⟩
    cases atDest
    cases atSource
    cases atInstr
    rw [sizeOffset_bytes] at atSize
    cases atSize
    rw [show 4 = wimpInstructionDestOffset from rfl, dest] at destString
    cases destString
    rw [source] at sourceString
    cases sourceString
    rw [instr] at instrString
    cases instrString
    rw [cut.argBytes_decoded] at nonneg fits
    refine ⟨⟨nonneg, ?_⟩, destNext, sourceNext, instrNext⟩
    omega
  · rintro ⟨⟨nonneg, fits⟩, destNext, sourceNext, instrNext⟩
    refine ⟨_, _, _, _, _, _, _, rfl, rfl, rfl, sizeOffset_bytes cut, dest,
      destNext, source, sourceNext, instr, instrNext, ?_, ?_, ?_, ?_⟩
    · rw [cut.argBytes_decoded]
      exact cut.int32At_argStart
    · rw [cut.argBytes_decoded]
      intro nonzero
      rw [cut.args_decoded, if_pos nonzero]
    · rw [cut.argBytes_decoded]
      exact nonneg
    · rw [cut.argBytes_decoded]
      omega

/-- The instruction is inside the buffer when its arguments fit. -/
theorem laidOut_le_iff (cut : ScannedBuffer) :
    LaidOut (· ≤ ·) cut.bytes cut.decoded ↔ cut.FitsArguments := by
  rcases stringEnd_dest cut with ⟨destEnd, dest, destNext, -⟩
  rcases stringEnd_source cut with ⟨sourceEnd, source, sourceNext, -⟩
  rcases stringEnd_instr cut with ⟨instrEnd, instr, instrNext, -⟩
  rw [laidOut_decoded_iff _ cut dest source instr]
  exact and_iff_left ⟨destNext, sourceNext, instrNext⟩

/-- Its strings follow each other without a gap when they are plain. -/
theorem laidOut_eq_iff (cut : ScannedBuffer) :
    LaidOut (· = ·) cut.bytes cut.decoded ↔
      cut.FitsArguments ∧ cut.Plain := by
  rcases stringEnd_dest cut with ⟨destEnd, dest, -, destNext⟩
  rcases stringEnd_source cut with ⟨sourceEnd, source, -, sourceNext⟩
  rcases stringEnd_instr cut with ⟨instrEnd, instr, -, instrNext⟩
  rw [laidOut_decoded_iff _ cut dest source instr, destNext, sourceNext,
    instrNext, ScannedBuffer.Plain]

/-! ## The reader -/

/--
The reader keeps to its buffer when it is a ping, or when the buffer can be
cut and the instruction in it is laid out.
-/
theorem staysInside_iff_laidOut
    (follows : Nat → Nat → Prop) (buffer : Bytes) :
    StaysInside follows buffer ↔
      buffer.head? = some 0 ∨
        ∃ cut : ScannedBuffer,
          cut.bytes = buffer ∧ LaidOut follows cut.bytes cut.decoded := by
  constructor
  · rintro ⟨result, defined, inside⟩
    rcases eq_or_ne buffer.head? (some 0) with zero | nonzero
    · exact Or.inl zero
    · right
      rcases exists_scannedBuffer nonzero defined with ⟨cut, rfl⟩
      rw [wimpInstrGetFromBuffer_scanned] at defined
      cases defined
      exact ⟨cut, rfl, inside rfl⟩
  · rintro (zero | ⟨cut, rfl, inside⟩)
    · refine ⟨{}, wimpInstrGetFromBuffer_of_head_zero _ zero, ?_⟩
      intro instr
      cases instr
    · exact
        ⟨cut.decoded, wimpInstrGetFromBuffer_scanned cut, fun _ => inside⟩

/--
The reader stays inside its buffer exactly when the buffer starts with a zero
byte, or is a header, three scanned strings and an argument size between zero
and the number of bytes behind it.  The parts follow each other without a gap
exactly when, besides, none of the strings starts with its terminator.
-/
theorem staysInside_iff (buffer : Bytes) :
    (StaysInside (· ≤ ·) buffer ↔
      buffer.head? = some 0 ∨
        ∃ cut : ScannedBuffer, cut.bytes = buffer ∧ cut.FitsArguments) ∧
    (StaysInside (· = ·) buffer ↔
      buffer.head? = some 0 ∨
        ∃ cut : ScannedBuffer,
          cut.bytes = buffer ∧ cut.FitsArguments ∧ cut.Plain) := by
  simp only [staysInside_iff_laidOut, laidOut_le_iff, laidOut_eq_iff,
    and_self]

/-- The size five is read in front of no bytes at all. -/
theorem not_staysInside_short :
    ¬ StaysInside (· ≤ ·) [15, 0, 0, 0, 97, 0, 98, 0, 120, 0, 5, 0, 0, 0] ∧
      ¬ StaysInside (· = ·)
        [15, 0, 0, 0, 97, 0, 98, 0, 120, 0, 5, 0, 0, 0] := by
  have decoded :
      wimpInstrGetFromBuffer
          (some [15, 0, 0, 0, 97, 0, 98, 0, 120, 0, 5, 0, 0, 0]) 14 =
        some
          { destProcess := some 4
            sourceProcess := some 6
            instr := some 8
            args := some 14
            totalBytes := 15
            argBytes := 5
            instrBytes := 2 } := by
    decide +kernel
  have outside (follows : Nat → Nat → Prop) :
      ¬ StaysInside follows
        [15, 0, 0, 0, 97, 0, 98, 0, 120, 0, 5, 0, 0, 0] := by
    rintro ⟨result, same, inside⟩
    rw [show List.length _ = 14 from rfl, decoded] at same
    cases same
    rcases inside rfl with ⟨-, -, -, size, -, -, -, -, -, -, -, -, -, -, -,
      -, -, -, args, -, fits⟩
    have place := args (by decide)
    cases place
    revert fits
    decide
  exact ⟨outside _, outside _⟩

end Wimp.Instr.Bounds
