import Wimp.Log.Bounds

/-!
# The log of a child and the log of a master

The same call of the log function ends in `vfprintf` in a process without a
parent and in `format_string` in the others.  The two agree on a zeroed buffer
with room for the text exactly when the cursor passes the length of every text
with another text behind it, and no letter is printed for `%X`.
-/

namespace Wimp.Log

open Wimp.Lib.ByteRegion
open Wimp.Lib.Cursor

/--
`format_string` leaves in a zeroed buffer what `vfprintf` prints of the same
call, and returns its length.
-/
def PrintsAlike (buffsize : Nat) (format : CString) (arg : List VarArg) :
    Prop :=
  ∃ after text,
    formatString (List.replicate buffsize 0) format buffsize arg =
        some (after, text.length) ∧
      cString after = some text ∧
      vfprintf format.val arg = some text

/-! ## The calls which agree -/

namespace Item

/--
The width of the item is the length of its text: a signed number is not the
least one, and an unsigned number is below `2^31`, or its distance to `2^32`
has nine digits.
-/
def WellCounted : Item → Prop
  | decimal value => value.toInt ≠ -2 ^ 31
  | integer value => value.toInt ≠ -2 ^ 31
  | unsigned value => value.toNat < 2 ^ 31 ∨ NineBelow value
  | _ => True

/-- The item prints no letter in upper case. -/
def Letterless : Item → Prop
  | upperHex value => ∀ digit ∈ Nat.toDigits 16 value.toNat, digit.isDigit
  | _ => True

/-- The item does not print a terminator. -/
def Voiced : Item → Prop
  | char value => charByte value ≠ 0
  | _ => True

instance : DecidablePred WellCounted := fun item =>
  match item with
  | decimal value => inferInstanceAs (Decidable (value.toInt ≠ -2 ^ 31))
  | integer value => inferInstanceAs (Decidable (value.toInt ≠ -2 ^ 31))
  | unsigned value =>
      inferInstanceAs (Decidable (value.toNat < 2 ^ 31 ∨ NineBelow value))
  | literal _ => inferInstanceAs (Decidable True)
  | percent => inferInstanceAs (Decidable True)
  | oct _ => inferInstanceAs (Decidable True)
  | hex _ => inferInstanceAs (Decidable True)
  | upperHex _ => inferInstanceAs (Decidable True)
  | char _ => inferInstanceAs (Decidable True)
  | string _ => inferInstanceAs (Decidable True)

end Item

/-- Only empty texts follow a text whose width is wrong. -/
def WellCounted (items : List Item) : Prop :=
  items.Pairwise fun item later => item.WellCounted ∨ later.rendering = []

instance (items : List Item) : Decidable (WellCounted items) :=
  inferInstanceAs (Decidable (List.Pairwise _ items))

/-- The width is right exactly for the numbers above. -/
theorem measured_iff {item : Item} (voiced : item.Voiced) :
    item.piece.Measured ↔ item.WellCounted := by
  cases item with
  | decimal value => exact getCharWidthDec_decimal_iff value
  | integer value => exact getCharWidthDec_decimal_iff value
  | unsigned value => exact getCharWidthDec_unsigned_iff value
  | oct value => exact iff_of_true (getCharWidthOct_eq value) trivial
  | hex value => exact iff_of_true (getCharWidthHex_eq value) trivial
  | upperHex value => exact iff_of_true (getCharWidthHex_eq value) trivial
  | char value =>
      have nonzero : charByte value ≠ 0 := voiced
      rw [Item.piece, dif_pos nonzero]
      exact iff_of_true rfl trivial
  | _ => exact iff_of_true rfl trivial

/-! ## The texts of the items -/

theorem digitChar_toUpper_iff {value : Nat} (small : value < 16) :
    ascii (Nat.digitChar value).toUpper = ascii (Nat.digitChar value) ↔
      (Nat.digitChar value).isDigit := by
  interval_cases value <;> decide

/-- The two cases agree exactly on numbers without letters. -/
theorem hexText_eq_upperHexText_iff (value : BitVec 32) :
    hexText value = upperHexText value ↔
      (Item.upperHex value).Letterless := by
  have each : ∀ digit ∈ Nat.toDigits 16 value.toNat,
      (ascii digit = ascii digit.toUpper ↔ digit.isDigit) := by
    intro digit member
    rcases exists_digitChar_of_mem (by decide) member with
      ⟨number, small, rfl⟩
    rw [eq_comm, digitChar_toUpper_iff small]
  show List.map _ _ = List.map _ _ ↔ ∀ digit ∈ _, Char.isDigit digit
  rw [List.map_inj_left]
  exact forall₂_congr each

/-- The formatter and `vfprintf` print texts of the same length. -/
theorem length_text_piece {item : Item} (voiced : item.Voiced) :
    item.piece.text.length = item.rendering.length := by
  cases item with
  | upperHex value =>
      show (List.map _ _).length = (List.map _ _).length
      rw [List.length_map, List.length_map]
  | char value =>
      have nonzero : charByte value ≠ 0 := voiced
      rw [Item.piece, dif_pos nonzero]
      rfl
  | _ => rfl

/-- The texts differ in the case of the letters alone. -/
theorem text_piece_eq_iff {item : Item} (voiced : item.Voiced) :
    item.piece.text = item.rendering ↔ item.Letterless := by
  cases item with
  | upperHex value => exact hexText_eq_upperHexText_iff value
  | char value =>
      have nonzero : charByte value ≠ 0 := voiced
      rw [Item.piece, dif_pos nonzero]
      exact iff_of_true rfl trivial
  | _ => exact iff_of_true rfl trivial

/-- Nothing is printed by copying nothing. -/
theorem written_eq_nil {item : Item} (voiced : item.Voiced)
    (empty : item.piece.text = []) :
    item.piece.written = [] := by
  cases item with
  | decimal value => exact absurd empty (decimalText_ne_nil value)
  | integer value => exact absurd empty (decimalText_ne_nil value)
  | oct value => exact absurd empty (digits_ne_nil _ _)
  | hex value => exact absurd empty (digits_ne_nil _ _)
  | upperHex value => exact absurd empty (digits_ne_nil _ _)
  | unsigned value => exact absurd empty (digits_ne_nil _ _)
  | char value =>
      have nonzero : charByte value ≠ 0 := voiced
      rw [Item.piece, dif_pos nonzero] at empty
      cases empty
  | literal character => exact empty
  | percent => exact empty
  | string text => exact empty

/-! ## Whole calls -/

section Calls

variable {items : List Item} (voiced : ∀ item ∈ items, item.Voiced)

include voiced

theorem length_content :
    (content (items.map Item.piece)).length = (renderingOf items).length := by
  rw [content, renderingOf, List.flatMap_map, List.length_flatMap,
    List.length_flatMap]
  congr 1
  apply List.map_congr_left
  intro item member
  exact length_text_piece (voiced item member)

/-- Texts of the same lengths agree only one by one. -/
theorem content_eq_iff :
    content (items.map Item.piece) = renderingOf items ↔
      ∀ item ∈ items, item.Letterless := by
  induction items with
  | nil => simp [renderingOf]
  | cons item rest induction =>
      have head := voiced item List.mem_cons_self
      have tail : ∀ later ∈ rest, later.Voiced := fun later member =>
        voiced later (List.mem_cons_of_mem _ member)
      rw [List.map_cons, content_cons, renderingOf, List.flatMap_cons,
        List.append_eq_append_iff_of_size_eq_left (length_text_piece head),
        text_piece_eq_iff head, List.forall_mem_cons]
      exact and_congr_right' (induction tail)

theorem sounds_items : Sounds (items.map Item.piece) := by
  intro piece member empty
  rcases List.mem_map.mp member with ⟨item, inside, rfl⟩
  exact written_eq_nil (voiced item inside) empty

/-- The texts are put down flush exactly when the widths are right. -/
theorem flush_items_iff :
    Flush (items.map Item.piece) ↔ WellCounted items := by
  rw [Flush, List.pairwise_map]
  apply List.Pairwise.iff_of_mem
  intro item later member memberLater
  have lengths := length_text_piece (voiced later memberLater)
  rw [measured_iff (voiced item member), ← List.length_eq_zero_iff, lengths,
    List.length_eq_zero_iff]

end Calls

/-- A buffer with a text in front of zeroes. -/
def zeroedBehind (text : Bytes) (size : Nat) : Bytes :=
  text ++ List.replicate (size - text.length) 0

/-- A string in front of zeroes is read back. -/
theorem cString_zeroedBehind
    {text : Bytes} (nulFree : NulFree text) {size : Nat}
    (room : text.length < size) :
    cString (zeroedBehind text size) = some text := by
  have more : size - text.length = size - text.length - 1 + 1 := by omega
  have split :
      zeroedBehind text size =
        terminated text ++ List.replicate (size - text.length - 1) 0 := by
    rw [zeroedBehind, more, List.replicate_succ, terminated,
      List.append_assoc]
    rfl
  rw [split]
  exact cString_terminated nulFree _

/-- A flush sequence of texts is left in front of zeroes. -/
theorem lay_zeroed
    {size : Nat} {pieces : List Piece} (flush : Flush pieces)
    (sounds : Sounds pieces) (room : (content pieces).length + 1 < size) :
    lay (size - 1) (List.replicate size 0) 0 pieces =
      some (zeroedBehind (content pieces) size) :=
  @lay_of_flush _ size [] _ flush sounds
    (by rw [List.length_nil]; omega) (by rw [List.length_nil]; omega)

theorem clearFrom_replicate (bound size : Nat) :
    ClearFrom bound (List.replicate size 0) := by
  intro i byte behind at_i
  exact List.eq_of_mem_replicate (List.mem_of_getElem? at_i)

theorem nulFree_content (pieces : List Piece) : NulFree (content pieces) := by
  intro zero
  rcases List.mem_flatMap.mp zero with ⟨piece, member, inside⟩
  exact piece.nulFree_text inside

/--
On a zeroed buffer with room for the text, `format_string` and `vfprintf`
agree exactly when only empty texts follow one whose width is wrong, and no
`%X` prints a letter.
-/
theorem printsAlike_iff
    {buffsize : Nat} {items : List Item}
    (sizeT : buffsize < 2 ^ 64)
    (room : (renderingOf items).length + 12 < buffsize)
    (voiced : ∀ item ∈ items, item.Voiced) :
    PrintsAlike buffsize (formatText items) (argsOf items) ↔
      WellCounted items ∧ ∀ item ∈ items, item.Letterless := by
  have limit : subSizeT buffsize 1 = buffsize - 1 :=
    subSizeT_of_le (by omega) sizeT
  have lengths := length_content voiced
  have readable :
      cString (zeroedBehind (content (items.map Item.piece)) buffsize) =
        some (content (items.map Item.piece)) :=
    cString_zeroedBehind (nulFree_content _) (by omega)
  unfold PrintsAlike
  rw [formatString_formatText, vfprintf_formatText, limit]
  constructor
  · rintro ⟨after, text, formatted, left, printed⟩
    rw [Option.some.injEq] at printed
    subst printed
    rcases Option.bind_eq_some_iff.mp formatted with ⟨buffer, written, rest⟩
    rcases Option.map_eq_some_iff.mp rest with ⟨found, read, result⟩
    rcases Prod.mk.inj result with ⟨rfl, same⟩
    have flush : Flush (items.map Item.piece) :=
      flush_of_length (clearFrom_replicate 0 buffsize) written left
        (by omega)
    refine ⟨(flush_items_iff voiced).mp flush, ?_⟩
    rw [lay_zeroed flush (sounds_items voiced) (by omega),
      Option.some.injEq] at written
    rw [← written, readable, Option.some.injEq] at left
    exact (content_eq_iff voiced).mp left
  · rintro ⟨wellCounted, letterless⟩
    have same := (content_eq_iff voiced).mpr letterless
    have flush := (flush_items_iff voiced).mpr wellCounted
    refine
      ⟨zeroedBehind (content (items.map Item.piece)) buffsize,
        renderingOf items, ?_, ?_, rfl⟩
    · rw [lay_zeroed flush (sounds_items voiced) (by omega),
        Option.bind_some, readable, Option.map_some, lengths]
    · rw [readable, same]

/-- A letter and a small number print alike. -/
theorem printsAlike_short :
    PrintsAlike 64 (formatText [.unsigned 7, .string (.ofBytes [97])])
      (argsOf [.unsigned 7, .string (.ofBytes [97])]) := by
  apply (printsAlike_iff (by decide) (by decide +kernel) ?_).mpr
  · refine ⟨by decide +kernel, ?_⟩
    exact List.forall_mem_cons.mpr
      ⟨trivial, List.forall_mem_singleton.mpr trivial⟩
  · exact List.forall_mem_cons.mpr
      ⟨trivial, List.forall_mem_singleton.mpr trivial⟩

/--
A number in the upper half of the unsigned numbers is overwritten by the text
behind it.
-/
theorem not_printsAlike_unsigned :
    (∀ item ∈ [Item.unsigned 4294967295, .string (.ofBytes [97])],
      item.Voiced) ∧
      (renderingOf
        [.unsigned 4294967295, .string (.ofBytes [97])]).length + 12 < 64 ∧
      ¬ PrintsAlike 64
          (formatText [.unsigned 4294967295, .string (.ofBytes [97])])
          (argsOf [.unsigned 4294967295, .string (.ofBytes [97])]) := by
  refine ⟨?_, by decide +kernel, ?_⟩
  · exact List.forall_mem_cons.mpr
      ⟨trivial, List.forall_mem_singleton.mpr trivial⟩
  · rintro ⟨after, text, formatted, left, printed⟩
    have returned :
        (formatString (List.replicate 64 0)
            (formatText [.unsigned 4294967295, .string (.ofBytes [97])]) 64
            (argsOf [.unsigned 4294967295, .string (.ofBytes [97])])).map
              Prod.snd = some 10 := by
      decide +kernel
    have length :
        (vfprintf
            (formatText [.unsigned 4294967295, .string (.ofBytes [97])]).val
            (argsOf [.unsigned 4294967295, .string (.ofBytes [97])])).map
              List.length = some 11 := by
      decide +kernel
    rw [formatted, Option.map_some, Option.some.injEq] at returned
    rw [printed, Option.map_some, Option.some.injEq] at length
    omega

/--
What a process without a parent prints, a process with a parent hands over
behind its tag.
-/
theorem logged_alike
    {processName : CString} {items : List Item} (parent : CString)
    (str : Bytes)
    (room : tagBytes processName + (renderingOf items).length + 1 <
      maximumLogBytes)
    (voiced : ∀ item ∈ items, item.Voiced)
    (wellCounted : WellCounted items)
    (letterless : ∀ item ∈ items, item.Letterless) :
    ∃ text,
      wimpLogInternal none str (formatText items) (argsOf items) =
          some (str, .printed text) ∧
        wimpLogInternal (some ⟨processName, some parent⟩)
            (List.replicate maximumLogBytes 0) (formatText items)
            (argsOf items) =
          some (List.replicate maximumLogBytes 0,
            .added parent.val wimpInstructionLog
              (tagText processName ++ terminated text)) := by
  have lengths := length_content voiced
  have flush := (flush_items_iff voiced).mpr wellCounted
  have same := (content_eq_iff voiced).mpr letterless
  refine ⟨renderingOf items, ?_, ?_⟩
  · show (vfprintf (formatText items).val (argsOf items)).map _ = _
    rw [vfprintf_formatText]
    rfl
  · have free : NulFree (renderingOf items) := by
      rw [← same]
      exact nulFree_content _
    rw [wimpLogInternal_of_tag (by omega), laidBehind,
      lay_zeroed flush (sounds_items voiced) (by omega), Option.bind_some,
      same, cString_zeroedBehind free (by omega), Option.map_some]

end Wimp.Log
