import Wimp.Log.Widths
import Wimp.Lib.Cursor

/-!
# Formats and their arguments

A format with matching arguments is a sequence of items: literal characters,
and conversions which carry their argument.  Over such a sequence the loop of
`format_string` is a writer with a cursor, and `vfprintf` prints one rendering
after the other.
-/

namespace Wimp.Log

open Wimp.Lib.ByteRegion
open Wimp.Lib.Cursor

/-- A character which a format prints as it is. -/
abbrev Literal :=
  { character : UInt8 // character ≠ 0 ∧ character ≠ ascii '%' }

/-- A literal character, or a conversion with its argument. -/
inductive Item where
  | literal (character : Literal)
  | percent
  | decimal (value : BitVec 32)
  | integer (value : BitVec 32)
  | oct (value : BitVec 32)
  | hex (value : BitVec 32)
  | upperHex (value : BitVec 32)
  | unsigned (value : BitVec 32)
  | char (value : BitVec 32)
  | string (text : CString)

namespace Item

/-- The item in the format. -/
def format : Item → Bytes
  | literal character => [character.val]
  | percent => [ascii '%', ascii '%']
  | decimal _ => [ascii '%', ascii 'd']
  | integer _ => [ascii '%', ascii 'i']
  | oct _ => [ascii '%', ascii 'o']
  | hex _ => [ascii '%', ascii 'x']
  | upperHex _ => [ascii '%', ascii 'X']
  | unsigned _ => [ascii '%', ascii 'u']
  | char _ => [ascii '%', ascii 'c']
  | string _ => [ascii '%', ascii 's']

/-- The arguments of the item. -/
def args : Item → List VarArg
  | literal _ => []
  | percent => []
  | decimal value => [.int value]
  | integer value => [.int value]
  | oct value => [.int value]
  | hex value => [.int value]
  | upperHex value => [.int value]
  | unsigned value => [.int value]
  | char value => [.int value]
  | string text => [.string text]

/-- The text `vfprintf` prints for the item. -/
def rendering : Item → Bytes
  | literal character => [character.val]
  | percent => [ascii '%']
  | decimal value => decimalText value
  | integer value => decimalText value
  | oct value => octText value
  | hex value => hexText value
  | upperHex value => upperHexText value
  | unsigned value => unsignedText value
  | char value => [charByte value]
  | string text => text.val

end Item

/-- The format of a sequence of items. -/
def formatOf (items : List Item) : Bytes :=
  items.flatMap Item.format

/-- The arguments of a sequence of items. -/
def argsOf (items : List Item) : List VarArg :=
  items.flatMap Item.args

/-- The text of a sequence of items. -/
def renderingOf (items : List Item) : Bytes :=
  items.flatMap Item.rendering

theorem nulFree_format (item : Item) : NulFree item.format := by
  cases item with
  | literal character =>
      intro zero
      exact character.property.1 (List.mem_singleton.mp zero).symm
  | _ =>
      simp only [Item.format]
      decide

/-- A format is a string. -/
theorem nulFree_formatOf (items : List Item) : NulFree (formatOf items) := by
  intro zero
  rcases List.mem_flatMap.mp zero with ⟨item, member, inside⟩
  exact nulFree_format item inside

/-- The format of a sequence of items, as the callers hand it over. -/
def formatText (items : List Item) : CString :=
  ⟨formatOf items, nulFree_formatOf items⟩

/-! ## The printed text -/

/-- One item in front of a format. -/
theorem vfprintf_item
    (item : Item) (rest : Bytes) (arg : List VarArg) :
    vfprintf (item.format ++ rest) (item.args ++ arg) =
      (vfprintf rest arg).map (item.rendering ++ ·) := by
  cases item with
  | literal character =>
      show vfprintf (character.val :: rest) arg = _
      rw [vfprintf.eq_def]
      exact if_neg character.property.2
  | _ => rfl

/-- `vfprintf` prints the items one after the other. -/
theorem vfprintf_formatText (items : List Item) :
    vfprintf (formatText items).val (argsOf items) =
      some (renderingOf items) := by
  show vfprintf (formatOf items) (argsOf items) = _
  induction items with
  | nil => rfl
  | cons item rest induction =>
      rw [formatOf, argsOf, List.flatMap_cons, List.flatMap_cons,
        vfprintf_item, ← formatOf, ← argsOf, induction]
      rfl

/-! ## The formatter as a writer -/

theorem nulFree_singleton {byte : UInt8} (nonzero : byte ≠ 0) :
    NulFree [byte] := by
  intro zero
  exact nonzero (List.mem_singleton.mp zero).symm

theorem nulFree_decimalText (value : BitVec 32) :
    NulFree (decimalText value) := by
  have free := @nulFree_digits 10 (by decide) (by decide)
    value.toInt.natAbs
  unfold decimalText
  split_ifs
  · exact (nulFree_cons_iff _ _).mpr ⟨by decide, free⟩
  · exact free

theorem decimalText_ne_nil (value : BitVec 32) : decimalText value ≠ [] := by
  unfold decimalText
  split_ifs
  · exact List.cons_ne_nil _ _
  · exact digits_ne_nil _ _

namespace Item

/-- The way `format_string` lays the item down. -/
def piece : Item → Piece
  | literal character =>
      .copied ⟨[character.val], nulFree_singleton character.property.1⟩
  | percent => .copied ⟨[ascii '%'], nulFree_singleton (by decide)⟩
  | decimal value =>
      .printed ⟨decimalText value, nulFree_decimalText value⟩
        (getCharWidthDec value)
        ((getCharWidthDec_decimal_le value).trans (Nat.le_succ _))
  | integer value =>
      .printed ⟨decimalText value, nulFree_decimalText value⟩
        (getCharWidthDec value)
        ((getCharWidthDec_decimal_le value).trans (Nat.le_succ _))
  | oct value =>
      .printed
        ⟨octText value, nulFree_digits (by decide) (by decide) value.toNat⟩
        (getCharWidthOct value)
        ((getCharWidthOct_eq value).le.trans (Nat.le_succ _))
  | hex value =>
      .printed
        ⟨hexText value, nulFree_digits (by decide) (by decide) value.toNat⟩
        (getCharWidthHex value)
        ((getCharWidthHex_eq value).le.trans (Nat.le_succ _))
  | upperHex value =>
      .printed
        ⟨hexText value, nulFree_digits (by decide) (by decide) value.toNat⟩
        (getCharWidthHex value)
        ((getCharWidthHex_eq value).le.trans (Nat.le_succ _))
  | unsigned value =>
      .printed
        ⟨unsignedText value,
          nulFree_digits (by decide) (by decide) value.toNat⟩
        (getCharWidthDec value) (getCharWidthDec_unsigned_le value)
  | char value =>
      if nonzero : charByte value ≠ 0 then
        .copied ⟨[charByte value], nulFree_singleton nonzero⟩
      else
        .printed ⟨[], nulFree_nil⟩ 1 (Nat.le_refl 1)
  | string text => .copied text

end Item

/-- A character is laid down as it is, the terminator included. -/
theorem piece_char (value : BitVec 32) :
    (Item.char value).piece.written = [charByte value] ∧
      (Item.char value).piece.advance = 1 := by
  by_cases nonzero : charByte value ≠ 0
  · rw [Item.piece, dif_pos nonzero]
    exact ⟨rfl, rfl⟩
  · rw [Item.piece, dif_neg nonzero, Decidable.not_not.mp nonzero]
    exact ⟨rfl, rfl⟩

/-- Behind a `%`, the item is laid down at the offset. -/
theorem formatSpecifier_item
    {item : Item} {specifier : UInt8}
    (conversion : item.format = [ascii '%', specifier])
    (behind : Bytes) (str : Bytes) (offset : Nat) (arg : List VarArg) :
    formatSpecifier specifier behind ⟨str, offset, item.args ++ arg⟩ =
      (splice str offset item.piece.written).map fun next =>
        ⟨next, offset + item.piece.advance, arg⟩ := by
  cases item with
  | literal character =>
      have lengths := congrArg List.length conversion
      cases lengths
  | char value =>
      cases conversion
      rcases piece_char value with ⟨written, advance⟩
      rw [written, advance]
      rfl
  | _ =>
      cases conversion
      rfl

/-- One item in front of a format. -/
theorem formatLoop_item
    (buffsize : Nat) (item : Item) (rest str : Bytes) (offset : Nat)
    (arg : List VarArg) :
    formatLoop buffsize (item.format ++ rest)
        ⟨str, offset, item.args ++ arg⟩ =
      if subSizeT buffsize 1 ≤ offset then some str
      else
        (splice str offset item.piece.written).bind fun next =>
          formatLoop buffsize rest
            ⟨next, offset + item.piece.advance, arg⟩ := by
  cases item with
  | literal character =>
      show formatLoop buffsize (character.val :: rest) ⟨str, offset, arg⟩ = _
      rw [formatLoop.eq_def]
      dsimp only
      rw [if_neg character.property.2, Formatting.put, Option.bind_map]
      rfl
  | _ =>
      simp only [Item.format, List.cons_append, List.nil_append]
      rw [formatLoop.eq_def]
      dsimp only
      rw [if_pos rfl, formatSpecifier_item rfl, Option.bind_map]
      rfl

/-- Over a sequence of items, the loop is a writer. -/
theorem formatLoop_formatOf
    (buffsize : Nat) (items : List Item) (str : Bytes) (offset : Nat) :
    formatLoop buffsize (formatOf items) ⟨str, offset, argsOf items⟩ =
      lay (subSizeT buffsize 1) str offset (items.map Item.piece) := by
  induction items generalizing str offset with
  | nil => rfl
  | cons item rest induction =>
      rw [formatOf, argsOf, List.flatMap_cons, List.flatMap_cons,
        formatLoop_item, List.map_cons, lay]
      split_ifs
      · rfl
      · congr 1
        funext next
        exact induction next _

/-- `format_string` over a sequence of items. -/
theorem formatString_formatText
    (str : Bytes) (items : List Item) (buffsize : Nat) :
    formatString str (formatText items) buffsize (argsOf items) =
      (lay (subSizeT buffsize 1) str 0 (items.map Item.piece)).bind
        fun after => (cString after).map fun text =>
          (after, text.length) := by
  rw [formatString, ← formatLoop_formatOf]
  rfl

end Wimp.Log
