import Wimp.Instr.Codec

/-!
# Round trip of the instruction format

The reader recovers a written instruction when its total size is not a
multiple of 256 and none of its three strings is empty, and on no other
instruction.

The first condition comes from the ping test, which looks at the low byte of
the total size only.  The second comes from the scans, which start behind the
first byte of the field they are to skip: on an empty field that byte is the
terminator, and the reader runs into the next field.  Counting the NUL bytes
in front of the argument size shows that no later coincidence repairs this.
-/

namespace Wimp.Instr.RoundTrip

open Wimp.Lib.ByteRegion
open Wimp.Instr.Codec

/-- The decoded pointers and sizes describe the given instruction. -/
structure Denotes (buffer : Bytes) (result : WimpInstrMeta)
    (source dest instr args : Bytes) : Prop where
  dest_eq :
    (result.destProcess.bind fun pointer => cString (buffer.drop pointer)) =
      some dest
  source_eq :
    (result.sourceProcess.bind fun pointer =>
      cString (buffer.drop pointer)) = some source
  instr_eq :
    (result.instr.bind fun pointer => cString (buffer.drop pointer)) =
      some instr
  totalBytes_eq : result.totalBytes = buffer.length
  argBytes_eq : result.argBytes = args.length
  args_null : result.args = none ↔ args = []
  args_copy :
    ∀ pointer, result.args = some pointer →
      slice buffer pointer args.length = some args

/-- The written instruction is recovered by the reader. -/
def RoundTrips (malloc : Nat → Option Bytes)
    (source dest instr args : Bytes) : Prop :=
  ∃ buffer size result,
    wimpServerBundleInstr malloc source dest instr args =
        some ⟨some buffer, size⟩ ∧
      wimpInstrGetFromBuffer (some buffer) size = some result ∧
      result.totalBytes = totalBytes source dest instr args ∧
      Denotes buffer result source dest instr args

/-- The instructions whose format the reader recovers. -/
structure Readable (source dest instr args : Bytes) : Prop where
  total_mod : totalBytes source dest instr args % 256 ≠ 0
  dest_ne : dest ≠ []
  source_ne : source ≠ []
  instr_ne : instr ≠ []

theorem readable_iff (source dest instr args : Bytes) :
    Readable source dest instr args ↔
      totalBytes source dest instr args % 256 ≠ 0 ∧
        dest ≠ [] ∧ source ≠ [] ∧ instr ≠ [] :=
  ⟨fun readable =>
    ⟨readable.total_mod, readable.dest_ne, readable.source_ne,
      readable.instr_ne⟩,
    fun ⟨total, dest, source, instr⟩ => ⟨total, dest, source, instr⟩⟩

instance (source dest instr args : Bytes) :
    Decidable (Readable source dest instr args) :=
  decidable_of_iff _ (readable_iff source dest instr args).symm

/-- The first byte of the format is the low byte of the total size. -/
theorem head?_instrBytes (source dest instr args : Bytes) :
    (instrBytes source dest instr args).head? = some 0 ↔
      totalBytes source dest instr args % 256 = 0 := by
  simp only [instrBytes, toLE, List.cons_append, List.head?_cons,
    Option.some.injEq]
  rw [← UInt8.toNat_inj, UInt8.toNat_ofNat']
  rfl

/-- The cut of a readable instruction. -/
def scannedInstr {source dest instr args : Bytes}
    (sourceFree : NulFree source) (destFree : NulFree dest)
    (instrFree : NulFree instr)
    (readable : Readable source dest instr args) : ScannedBuffer where
  header := toLE 4 (totalBytes source dest instr args)
  dest := dest
  source := source
  instr := instr
  rest := toLE 4 args.length ++ args
  header_length := length_toLE 4 _
  header_first := fun zero =>
    readable.total_mod
      ((head?_instrBytes source dest instr args).mp
        (by rw [instrBytes, List.head?_append, zero]; rfl))
  dest_scanned := scannedField_of_nulFree readable.dest_ne destFree
  source_scanned := scannedField_of_nulFree readable.source_ne sourceFree
  instr_scanned := scannedField_of_nulFree readable.instr_ne instrFree
  rest_length := by simp

/-- The string at the end of a prefix of known length. -/
private theorem cString_drop
    {before text after buffer : Bytes} {pointer : Nat}
    (nulFree : NulFree text)
    (split : buffer = before ++ (terminated text ++ after))
    (position : pointer = before.length) :
    cString (buffer.drop pointer) = some text := by
  rw [split, position, List.drop_left, cString_terminated nulFree]

/-- A readable instruction of admissible size is recovered. -/
theorem denotes_of_readable
    {source dest instr args : Bytes}
    (sourceFree : NulFree source) (destFree : NulFree dest)
    (instrFree : NulFree instr)
    (small : totalBytes source dest instr args < 2 ^ 31)
    (readable : Readable source dest instr args) :
    ∃ result,
      wimpInstrGetFromBuffer (some (instrBytes source dest instr args))
          (totalBytes source dest instr args) = some result ∧
        result.destProcess = some 4 ∧
        Denotes (instrBytes source dest instr args) result
          source dest instr args := by
  have decoded := wimpInstrGetFromBuffer_scanned
    (scannedInstr sourceFree destFree instrFree readable)
  have bytes :
      (scannedInstr sourceFree destFree instrFree readable).bytes =
        instrBytes source dest instr args := rfl
  rw [bytes, length_instrBytes] at decoded
  refine ⟨_, decoded, rfl, ?_⟩
  have argSize : args.length < 2 ^ 31 := by
    unfold totalBytes at small
    omega
  have argWord :
      toInt32 (ofLE ((toLE 4 args.length ++ args).take 4)) =
        args.length := by
    rw [List.take_left' (length_toLE 4 _),
      ofLE_toLE_of_lt (by omega), toInt32_of_lt argSize]
  have totalWord :
      toSizeT (toInt32 (ofLE
        (toLE 4 (totalBytes source dest instr args)))) =
          totalBytes source dest instr args := by
    rw [ofLE_toLE_of_lt (by omega), toInt32_of_lt small,
      toSizeT_natCast (by omega)]
  simp only [ScannedBuffer.decoded, ScannedBuffer.sourceStart,
    ScannedBuffer.instrStart, ScannedBuffer.argStart, scannedInstr,
    argWord, totalWord]
  constructor
  case dest_eq =>
    exact cString_drop destFree rfl (length_toLE 4 _).symm
  case source_eq =>
    have split :
        instrBytes source dest instr args =
          (toLE 4 (totalBytes source dest instr args) ++
              terminated dest) ++
            (terminated source ++ (terminated instr ++
              (toLE 4 args.length ++ args))) := by
      simp only [instrBytes, List.append_assoc]
    apply cString_drop sourceFree split
    rw [List.length_append, length_toLE, length_terminated]
  case instr_eq =>
    have split :
        instrBytes source dest instr args =
          (toLE 4 (totalBytes source dest instr args) ++
              terminated dest ++ terminated source) ++
            (terminated instr ++ (toLE 4 args.length ++ args)) := by
      simp only [instrBytes, List.append_assoc]
    apply cString_drop instrFree split
    rw [List.length_append, List.length_append, length_toLE,
      length_terminated, length_terminated]
  case totalBytes_eq =>
    exact (length_instrBytes source dest instr args).symm
  case argBytes_eq =>
    rfl
  case args_null =>
    cases args with
    | nil => simp
    | cons byte rest =>
        simp only [List.length_cons, ne_eq, reduceCtorEq, iff_false]
        split_ifs with zero
        · omega
        · simp
  case args_copy =>
    intro pointer points
    split_ifs at points with zero
    rw [Option.some.injEq] at points
    rw [slice_eq_some_iff]
    refine
      ⟨toLE 4 (totalBytes source dest instr args) ++ terminated dest ++
        terminated source ++ terminated instr ++ toLE 4 args.length,
        [], ?_, ?_, rfl⟩
    · simp only [instrBytes, List.append_assoc, List.append_nil]
    · simp only [List.length_append, length_toLE, length_terminated,
        ← points]

/-! ## No other instruction is recovered -/

private theorem count_terminated (field : Bytes) :
    (terminated field).count 0 = field.count 0 + 1 := by
  simp [terminated, List.count_append]

private theorem count_eq_zero {field : Bytes} (nulFree : NulFree field) :
    field.count 0 = 0 :=
  List.count_eq_zero.mpr nulFree

/--
A cut whose argument size does not lie behind the written one is the cut of
the written fields.
-/
theorem fields_eq_of_cut
    {source dest instr args : Bytes}
    (sourceFree : NulFree source) (destFree : NulFree dest)
    (instrFree : NulFree instr)
    (cut : ScannedBuffer)
    (bytes : cut.bytes = instrBytes source dest instr args)
    (position : 4 + args.length ≤ cut.rest.length) :
    cut.dest = dest ∧ cut.source = source ∧ cut.instr = instr := by
  rw [ScannedBuffer.bytes, instrBytes] at bytes
  have behindHeader := List.append_inj_right bytes
    (by rw [cut.header_length, length_toLE])
  -- the scanned strings form a prefix of the written strings
  have lengths := congrArg List.length behindHeader
  have scanned :
      terminated cut.dest ++ terminated cut.source ++
          terminated cut.instr <+:
        terminated dest ++ (terminated source ++ (terminated instr ++
          (toLE 4 args.length ++ args))) := by
    rw [← behindHeader]
    exact ⟨cut.rest, by simp⟩
  have isPrefix :
      terminated cut.dest ++ terminated cut.source ++
          terminated cut.instr <+:
        terminated dest ++ terminated source ++ terminated instr := by
    apply List.prefix_of_prefix_length_le scanned
    · exact ⟨toLE 4 args.length ++ args, by simp⟩
    · simp only [List.length_append, length_terminated, length_toLE]
        at lengths ⊢
      omega
  have counted := isPrefix.sublist.count_le 0
  simp only [List.count_append, count_terminated, count_eq_zero destFree,
    count_eq_zero sourceFree, count_eq_zero instrFree] at counted
  have destScanFree : NulFree cut.dest :=
    List.count_eq_zero.mp (by omega)
  have sourceScanFree : NulFree cut.source :=
    List.count_eq_zero.mp (by omega)
  have instrScanFree : NulFree cut.instr :=
    List.count_eq_zero.mp (by omega)
  rcases terminated_append_inj destScanFree destFree behindHeader with
    ⟨destEqual, behindDest⟩
  rcases terminated_append_inj sourceScanFree sourceFree behindDest with
    ⟨sourceEqual, behindSource⟩
  rcases terminated_append_inj instrScanFree instrFree behindSource with
    ⟨instrEqual, -⟩
  exact ⟨destEqual, sourceEqual, instrEqual⟩

/-- The scanned argument size lies where the recovered arguments fit. -/
theorem rest_length_of_denotes
    {source dest instr args : Bytes} (cut : ScannedBuffer)
    (denotes : Denotes cut.bytes cut.decoded source dest instr args) :
    4 + args.length ≤ cut.rest.length := by
  have restLength := cut.rest_length
  rcases eq_or_ne args [] with empty | nonempty
  · rw [empty, List.length_nil]
    omega
  · have points : cut.decoded.args = some (cut.argStart + 4) := by
      have present : cut.decoded.args ≠ none :=
        fun null => nonempty (denotes.args_null.mp null)
      simp only [ScannedBuffer.decoded] at present ⊢
      split_ifs at present ⊢ with zero
      · rfl
      · exact absurd rfl present
    have copied := denotes.args_copy _ points
    by_contra short
    have outside : slice cut.bytes (cut.argStart + 4) args.length = none := by
      rw [slice_eq_none_iff]
      have headerLength := cut.header_length
      simp only [ScannedBuffer.bytes, ScannedBuffer.argStart,
        ScannedBuffer.instrStart, ScannedBuffer.sourceStart,
        List.length_append, length_terminated]
      omega
    rw [outside] at copied
    simp at copied

/-- An instruction which is recovered is readable. -/
theorem readable_of_denotes
    {source dest instr args : Bytes} {result : WimpInstrMeta}
    (sourceFree : NulFree source) (destFree : NulFree dest)
    (instrFree : NulFree instr)
    (decoded :
      wimpInstrGetFromBuffer (some (instrBytes source dest instr args))
        (totalBytes source dest instr args) = some result)
    (denotes : Denotes (instrBytes source dest instr args) result
      source dest instr args) :
    Readable source dest instr args := by
  have firstNonzero :
      (instrBytes source dest instr args).head? ≠ some 0 := by
    intro zero
    rw [wimpInstrGetFromBuffer_of_head_zero _ zero, Option.some.injEq]
      at decoded
    have pointer := denotes.dest_eq
    rw [← decoded] at pointer
    simp at pointer
  rw [← length_instrBytes] at decoded
  rcases exists_scannedBuffer firstNonzero decoded with ⟨cut, bytes⟩
  rw [← bytes, wimpInstrGetFromBuffer_scanned, Option.some.injEq]
    at decoded
  rw [← bytes, ← decoded] at denotes
  rcases
    fields_eq_of_cut sourceFree destFree instrFree cut bytes
      (rest_length_of_denotes cut denotes) with
    ⟨destEqual, sourceEqual, instrEqual⟩
  constructor
  · intro zero
    exact firstNonzero ((head?_instrBytes _ _ _ _).mpr zero)
  · rw [← destEqual]
    exact cut.dest_scanned.1
  · rw [← sourceEqual]
    exact cut.source_scanned.1
  · rw [← instrEqual]
    exact cut.instr_scanned.1

/--
The codec round trip holds exactly for nonempty strings and a total size
which is not a multiple of 256.
-/
theorem roundTrips_iff
    {malloc : Nat → Option Bytes} {source dest instr args block : Bytes}
    (granted : malloc (totalBytes source dest instr args) = some block)
    (blockSize : block.length = totalBytes source dest instr args)
    (sourceFree : NulFree source) (destFree : NulFree dest)
    (instrFree : NulFree instr)
    (small : totalBytes source dest instr args < 2 ^ 31) :
    RoundTrips malloc source dest instr args ↔
      totalBytes source dest instr args % 256 ≠ 0 ∧
        dest ≠ [] ∧ source ≠ [] ∧ instr ≠ [] := by
  have written := wimpServerBundleInstr_granted granted blockSize
  rw [← readable_iff]
  constructor
  · rintro ⟨buffer, size, result, bundled, decoded, -, denotes⟩
    rw [written] at bundled
    simp only [Option.some.injEq, InstrBundle.mk.injEq] at bundled
    rcases bundled with ⟨rfl, rfl⟩
    exact readable_of_denotes sourceFree destFree instrFree decoded denotes
  · intro readable
    rcases denotes_of_readable sourceFree destFree instrFree small readable with
      ⟨result, decoded, -, denotes⟩
    refine ⟨_, _, result, written, decoded, ?_, denotes⟩
    rw [denotes.totalBytes_eq, length_instrBytes]

/-- A small readable instruction is recovered. -/
theorem roundTrips_short :
    RoundTrips (fun size => some (List.replicate size 0))
      [0x61] [0x62] [0x63] [] :=
  (roundTrips_iff rfl (by decide) (by decide) (by decide) (by decide)
    (by decide)).mpr (by decide)

/--
An instruction with one-byte strings and 242 argument bytes is 256 bytes
long; its first byte is zero and the reader returns no strings at all.
-/
theorem not_roundTrips_256 :
    ¬ RoundTrips (fun size => some (List.replicate size 0))
      [0x61] [0x62] [0x63] (List.replicate 242 0) := by
  rintro ⟨buffer, size, result, bundled, decoded, -, denotes⟩
  rw [wimpServerBundleInstr_granted rfl (by simp)] at bundled
  simp only [Option.some.injEq, InstrBundle.mk.injEq] at bundled
  rcases bundled with ⟨rfl, rfl⟩
  rw [wimpInstrGetFromBuffer_of_head_zero _
    ((head?_instrBytes _ _ _ _).mpr
      (by rw [totalBytes, List.length_replicate]; rfl)),
    Option.some.injEq] at decoded
  have pointer := denotes.dest_eq
  rw [← decoded] at pointer
  simp at pointer

end Wimp.Instr.RoundTrip
