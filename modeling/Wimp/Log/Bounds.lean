import Wimp.Log.Items

/-!
# The static buffer of the log function

A process with a parent puts its tag and its text into a static buffer of
`MAXIMUM_LOG_BYTES` bytes.  The length of the tag is not looked at, and
`format_string` looks at its offset in front of every part of the format but
never at the length of the part.  A call stays inside the buffer, with a
terminator behind its text, exactly when every part which is started inside
ends inside.
-/

namespace Wimp.Log

open Wimp.Lib.ByteRegion
open Wimp.Lib.Cursor

/--
The log function of a process with a parent reads and writes nothing outside
its static buffer, and hands over a text with a terminator.
-/
def StaysInBuffer (processName parent : CString) (items : List Item) :
    Prop :=
  ∃ str args,
    wimpLogInternal (some ⟨processName, some parent⟩)
        (List.replicate maximumLogBytes 0) (formatText items)
        (argsOf items) =
      some (str, .added parent.val wimpInstructionLog args) ∧
    0 ∈ args

/-! ## The calls which stay inside -/

/-- The bytes of the tag in front of a text. -/
def tagBytes (processName : CString) : Nat :=
  processName.val.length + 3

namespace Item

/-- The bytes written for the item, `sprintf`'s terminator included. -/
def extent : Item → Nat
  | literal _ => 1
  | percent => 1
  | decimal value => (decimalText value).length + 1
  | integer value => (decimalText value).length + 1
  | oct value => (octText value).length + 1
  | hex value => (hexText value).length + 1
  | upperHex value => (hexText value).length + 1
  | unsigned value => (unsignedText value).length + 1
  | char _ => 1
  | string text => text.val.length

/-- The bytes by which the offset moves, with the widths of the code. -/
def width : Item → Nat
  | literal _ => 1
  | percent => 1
  | decimal value => getCharWidthDec value
  | integer value => getCharWidthDec value
  | oct value => getCharWidthOct value
  | hex value => getCharWidthHex value
  | upperHex value => getCharWidthHex value
  | unsigned value => getCharWidthDec value
  | char _ => 1
  | string text => text.val.length

/-- A NUL character, or an unsigned number whose width is too large. -/
def LeavesTerminator : Item → Prop
  | char value => charByte value = 0
  | unsigned value => (unsignedText value).length < getCharWidthDec value
  | _ => False

end Item

/-- The offset in the static buffer behind the tag and some items. -/
def offsetBehind (processName : CString) (items : List Item) : Nat :=
  tagBytes processName + (items.map Item.width).sum

/--
The tag leaves a byte, every item which starts in front of the last byte of
the buffer ends inside the buffer, and a string which ends at the very last
byte has an item in front of it which left a terminator.
-/
structure FitsBuffer (processName : CString) (items : List Item) :
    Prop where
  tag : tagBytes processName < maximumLogBytes
  ends : ∀ before item after, items = before ++ item :: after →
    offsetBehind processName before + 1 < maximumLogBytes →
      offsetBehind processName before + item.extent ≤ maximumLogBytes
  terminated : ∀ before text after,
    items = before ++ .string text :: after →
      offsetBehind processName before + 1 < maximumLogBytes →
        offsetBehind processName before + text.val.length =
            maximumLogBytes →
          ∃ item ∈ before, item.LeavesTerminator

/-! ## The items as pieces -/

theorem length_written (item : Item) :
    item.piece.written.length = item.extent := by
  cases item with
  | char value => rw [(piece_char value).1]; rfl
  | literal character => rfl
  | percent => rfl
  | string text => rfl
  | _ => exact length_terminated _

theorem advance_piece (item : Item) : item.piece.advance = item.width := by
  cases item with
  | char value => exact (piece_char value).2
  | _ => rfl

theorem distance_map (items : List Item) :
    distance (items.map Item.piece) = (items.map Item.width).sum := by
  rw [distance, List.map_map]
  congr 1
  apply List.map_congr_left
  intro item member
  exact advance_piece item

/-- A terminator in the middle of a printed text is left by a wide count. -/
theorem zero_mem_take_terminated_iff
    {text : Bytes} (nulFree : NulFree text) (count : Nat) :
    0 ∈ (terminated text).take count ↔ text.length < count := by
  rcases Nat.lt_or_ge text.length count with beyond | within
  · refine iff_of_true ?_ beyond
    rw [List.take_of_length_le (by rw [length_terminated]; omega)]
    simp [Wimp.Lib.ByteRegion.terminated]
  · refine iff_of_false ?_ (Nat.not_lt.mpr within)
    rw [Wimp.Lib.ByteRegion.terminated,
      List.take_append_of_le_length within]
    intro zero
    exact nulFree (List.mem_of_mem_take zero)

/-- A text whose width is not too large leaves no terminator. -/
theorem not_zero_mem_kept
    {text : CString} {advance : Nat}
    (within : advance ≤ text.val.length + 1)
    (small : advance ≤ text.val.length) :
    ¬ 0 ∈ (Piece.printed text advance within).kept := by
  intro zero
  have beyond := (zero_mem_take_terminated_iff text.property advance).mp zero
  omega

/-- The offset passes a terminator behind two kinds of items alone. -/
theorem zero_mem_kept_iff (item : Item) :
    0 ∈ item.piece.kept ↔ item.LeavesTerminator := by
  have plain : ∀ text : CString, ¬ 0 ∈ (Piece.copied text).kept :=
    fun text zero => text.property (List.mem_of_mem_take zero)
  cases item with
  | literal character => exact iff_of_false (plain _) not_false
  | percent => exact iff_of_false (plain _) not_false
  | string text => exact iff_of_false (plain _) not_false
  | char value =>
      rcases piece_char value with ⟨written, advance⟩
      rw [Piece.kept, written, advance]
      show 0 ∈ [charByte value] ↔ charByte value = 0
      rw [List.mem_singleton, eq_comm]
  | unsigned value =>
      exact zero_mem_take_terminated_iff
        (nulFree_digits (by decide) (by decide) value.toNat) _
  | decimal value =>
      exact iff_of_false
        (not_zero_mem_kept _ (getCharWidthDec_decimal_le value)) not_false
  | integer value =>
      exact iff_of_false
        (not_zero_mem_kept _ (getCharWidthDec_decimal_le value)) not_false
  | oct value =>
      exact iff_of_false
        (not_zero_mem_kept _ (getCharWidthOct_eq value).le) not_false
  | hex value =>
      exact iff_of_false
        (not_zero_mem_kept _ (getCharWidthHex_eq value).le) not_false
  | upperHex value =>
      exact iff_of_false
        (not_zero_mem_kept _ (getCharWidthHex_eq value).le) not_false

/-! ## The tag -/

/-- The bytes of the tag. -/
def tagText (processName : CString) : Bytes :=
  [ascii '['] ++ processName.val ++ [ascii ']'] ++ [ascii ' ']

theorem length_tagText (processName : CString) :
    (tagText processName).length = tagBytes processName := by
  simp only [tagText, tagBytes, List.length_append, List.length_singleton]
  omega

/-- A copy at the start of the zeroes. -/
theorem splice_zeroes
    (front source : Bytes) {room offset : Nat}
    (place : offset = front.length) (fits : source.length ≤ room) :
    splice (front ++ List.replicate room 0) offset source =
      some (front ++ source ++
        List.replicate (room - source.length) 0) := by
  rw [place, splice_append _ _ _ (by rw [List.length_replicate]; omega),
    List.drop_replicate]

/-- The tag lies in front of zeroes when the buffer has room for it. -/
theorem logTag_of_fits
    {processName : CString} {size : Nat}
    (fits : tagBytes processName ≤ size) :
    logTag (List.replicate size 0) processName =
      some (tagText processName ++
        List.replicate (size - tagBytes processName) 0,
        tagBytes processName) := by
  unfold tagBytes at fits
  have bracket := @splice_zeroes [] [ascii '['] size 0 rfl
    (by rw [List.length_singleton]; omega)
  have name := @splice_zeroes [ascii '['] processName.val (size - 1) 1 rfl
    (by omega)
  have close := @splice_zeroes ([ascii '['] ++ processName.val) [ascii ']']
    (size - 1 - processName.val.length) (processName.val.length + 1)
    (by rw [List.length_append, List.length_singleton]; omega)
    (by rw [List.length_singleton]; omega)
  have blank := @splice_zeroes
    ([ascii '['] ++ processName.val ++ [ascii ']']) [ascii ' ']
    (size - 1 - processName.val.length - 1) (processName.val.length + 2)
    (by
      rw [List.length_append, List.length_append, List.length_singleton,
        List.length_singleton]
      omega)
    (by rw [List.length_singleton]; omega)
  have rest :
      size - 1 - processName.val.length - 1 - 1 =
        size - tagBytes processName := by
    unfold tagBytes
    omega
  rw [List.length_singleton] at bracket close blank
  rw [List.nil_append, List.nil_append] at bracket
  rw [rest] at blank
  simp only [logTag, bracket, name, close, blank, Option.bind_eq_bind,
    Option.bind_some]
  rfl

/-- A tag which is put down has room in the buffer. -/
theorem fits_of_logTag
    {processName : CString} {str : Bytes} {result : Bytes × Nat}
    (tagged : logTag str processName = some result) :
    tagBytes processName ≤ str.length := by
  unfold logTag at tagged
  simp only [Option.bind_eq_bind, Option.bind_eq_some_iff] at tagged
  rcases tagged with
    ⟨first, bracket, second, name, third, close, last, blank, -⟩
  have inside : processName.val.length + 2 + 1 ≤ third.length := by
    unfold splice at blank
    split_ifs at blank with inside
    exact inside
  rw [length_of_splice close, length_of_splice name,
    length_of_splice bracket] at inside
  exact inside

/-! ## Whole calls -/

/-- The buffer behind the tag, with the items laid down in it. -/
def laidBehind (processName : CString) (items : List Item) :
    Option Bytes :=
  lay (maximumLogBytes - tagBytes processName - 1)
    (List.replicate (maximumLogBytes - tagBytes processName) 0) 0
    (items.map Item.piece)

theorem length_of_laidBehind
    {processName : CString} {items : List Item} {after : Bytes}
    (laid : laidBehind processName items = some after) :
    after.length = maximumLogBytes - tagBytes processName := by
  rw [length_of_lay laid, List.length_replicate]

/-- The bytes which are handed over end with the terminator of the text. -/
theorem slice_handed
    {processName : CString} {after text : Bytes}
    (sized : after.length = maximumLogBytes - tagBytes processName)
    (readable : cString after = some text) :
    slice (tagText processName ++ after) 0
        (addSizeT (text.length + 1) (tagBytes processName)) =
      some (tagText processName ++ terminated text) := by
  have inside := length_lt_of_cString readable
  have bound : maximumLogBytes < 2 ^ 64 := by decide
  rcases exists_terminated_of_cString readable with ⟨-, behind, rfl⟩
  have count :
      addSizeT (text.length + 1) (tagBytes processName) =
        (tagText processName ++ terminated text).length := by
    rw [addSizeT_of_lt (by omega), List.length_append, length_tagText,
      length_terminated, Nat.add_comm]
  rw [count, ← List.append_assoc]
  exact slice_append [] _ behind

/-- A call behind a tag which leaves a byte. -/
theorem wimpLogInternal_of_tag
    {processName : CString} (tag : tagBytes processName < maximumLogBytes)
    (parent : CString) (items : List Item) :
    wimpLogInternal (some ⟨processName, some parent⟩)
        (List.replicate maximumLogBytes 0) (formatText items)
        (argsOf items) =
      (laidBehind processName items).bind fun after =>
        (cString after).map fun text =>
          (List.replicate maximumLogBytes 0,
            .added parent.val wimpInstructionLog
              (tagText processName ++ terminated text)) := by
  have tagged := logTag_of_fits tag.le
  have budget :
      subSizeT maximumLogBytes (tagBytes processName) =
        maximumLogBytes - tagBytes processName :=
    subSizeT_of_le tag.le (by decide)
  have limit :
      subSizeT (maximumLogBytes - tagBytes processName) 1 =
        maximumLogBytes - tagBytes processName - 1 := by
    apply subSizeT_of_le
    · omega
    · have bound : maximumLogBytes < 2 ^ 64 := by decide
      omega
  show wimpLogChild _ processName parent _ _ = _
  rw [wimpLogChild, tagged]
  simp only [Option.bind_eq_bind, Option.bind_some]
  rw [← length_tagText, List.drop_left, length_tagText, budget,
    formatString_formatText, limit, ← length_tagText, List.take_left,
    length_tagText, ← laidBehind]
  cases laid : laidBehind processName items with
  | none => rfl
  | some after =>
      cases readable : cString after with
      | none =>
          simp only [Option.bind_some, readable]
          rfl
      | some text =>
          simp only [Option.bind_some, readable, Option.map_some,
            slice_handed (length_of_laidBehind laid) readable]
          rfl

/-- Without a byte behind the tag, no call stays inside the buffer. -/
theorem tag_of_logged
    {processName parent : CString} {items : List Item}
    {result : Bytes × Logged}
    (logged : wimpLogInternal (some ⟨processName, some parent⟩)
      (List.replicate maximumLogBytes 0) (formatText items)
      (argsOf items) = some result) :
    tagBytes processName < maximumLogBytes := by
  change wimpLogChild _ processName parent _ _ = _ at logged
  rw [wimpLogChild, Option.bind_eq_bind] at logged
  rcases Option.bind_eq_some_iff.mp logged with ⟨tagged, put, rest⟩
  have room := fits_of_logTag put
  rw [List.length_replicate] at room
  rcases Nat.lt_or_eq_of_le room with fits | full
  · exact fits
  · -- Nothing is left for the terminator `strlen` looks for.
    rw [logTag_of_fits room, Option.some.injEq] at put
    subst put
    rcases Option.bind_eq_some_iff.mp rest with ⟨formatted, text, -⟩
    rw [formatString_formatText] at text
    rcases Option.bind_eq_some_iff.mp text with ⟨after, laid, read⟩
    rcases Option.map_eq_some_iff.mp read with ⟨found, readable, -⟩
    have shorter := length_lt_of_cString readable
    rw [length_of_lay laid, full, Nat.sub_self, ← full, List.replicate_zero,
      List.append_nil, ← length_tagText, List.drop_length] at shorter
    exact absurd shorter (Nat.not_lt_zero _)

/-- A call stays inside when its items do, and leave a terminator. -/
theorem staysInBuffer_iff_laid
    (processName parent : CString) (items : List Item) :
    StaysInBuffer processName parent items ↔
      tagBytes processName < maximumLogBytes ∧
        ∃ after, laidBehind processName items = some after ∧
          0 ∈ after := by
  constructor
  · rintro ⟨str, args, logged, zero⟩
    have tag := tag_of_logged logged
    rw [wimpLogInternal_of_tag tag] at logged
    rcases Option.bind_eq_some_iff.mp logged with ⟨after, laid, rest⟩
    rcases Option.map_eq_some_iff.mp rest with ⟨text, readable, -⟩
    exact
      ⟨tag, after, laid,
        (isSome_cString_iff after).mp (Option.isSome_of_eq_some readable)⟩
  · rintro ⟨tag, after, laid, zero⟩
    rcases Option.isSome_iff_exists.mp ((isSome_cString_iff after).mpr zero)
      with ⟨text, readable⟩
    refine
      ⟨List.replicate maximumLogBytes 0,
        tagText processName ++ terminated text, ?_, ?_⟩
    · rw [wimpLogInternal_of_tag tag, laid, Option.bind_some, readable,
        Option.map_some]
    · simp [Wimp.Lib.ByteRegion.terminated]

/-! ## The exact condition -/

/-- The pieces of the items are cut where the items are. -/
theorem forall_cut_map_iff
    (items : List Item) (holds : List Piece → Piece → Prop) :
    (∀ before piece after,
        items.map Item.piece = before ++ piece :: after →
          holds before piece) ↔
      ∀ before item after, items = before ++ item :: after →
        holds (before.map Item.piece) item.piece := by
  constructor
  · rintro every before item after rfl
    exact every _ _ (after.map Item.piece)
      (by rw [List.map_append, List.map_cons])
  · intro every before piece after split
    rcases List.map_eq_append_iff.mp split with
      ⟨front, behind, rfl, rfl, rest⟩
    rcases List.map_eq_cons_iff.mp rest with ⟨item, tail, rfl, rfl, rfl⟩
    exact every front item tail rfl

/-- A copied text of more than a character is a string. -/
theorem exists_string_of_copied
    {item : Item} {text : CString} (copied : item.piece = .copied text) :
    text.val.length = 1 ∨ item = .string text := by
  cases item with
  | literal character => cases copied; exact Or.inl rfl
  | percent => cases copied; exact Or.inl rfl
  | string text => cases copied; exact Or.inr rfl
  | char value =>
      have length := (piece_char value).1
      rw [copied] at length
      exact Or.inl (congrArg List.length length)
  | _ => cases copied

theorem reached_iff
    {processName : CString} (tag : tagBytes processName < maximumLogBytes)
    (before : List Item) :
    Reached (maximumLogBytes - tagBytes processName - 1) 0
        (before.map Item.piece) ↔
      offsetBehind processName before + 1 < maximumLogBytes := by
  rw [Reached, distance_map, offsetBehind]
  omega

/-- The items are laid down when each of them ends inside the buffer. -/
theorem isSome_laidBehind_iff
    {processName : CString} (tag : tagBytes processName < maximumLogBytes)
    (items : List Item) :
    (laidBehind processName items).isSome ↔
      ∀ before item after, items = before ++ item :: after →
        offsetBehind processName before + 1 < maximumLogBytes →
          offsetBehind processName before + item.extent ≤
            maximumLogBytes := by
  rw [laidBehind, isSome_lay_iff, forall_cut_map_iff items
    (fun before piece => Reached _ 0 before → _ ≤ _)]
  apply forall_congr'
  intro before
  apply forall_congr'
  intro item
  apply forall_congr'
  intro after
  rw [reached_iff tag, distance_map, length_written, List.length_replicate,
    offsetBehind]
  apply imp_congr_right
  intro split
  apply imp_congr_right
  intro front
  omega

/-- A terminator is left unless a string fills the buffer without one. -/
theorem zero_mem_laidBehind_iff
    {processName : CString} (tag : tagBytes processName < maximumLogBytes)
    {items : List Item} {after : Bytes}
    (laid : laidBehind processName items = some after) :
    0 ∈ after ↔
      ∀ before text rest, items = before ++ .string text :: rest →
        offsetBehind processName before + 1 < maximumLogBytes →
          offsetBehind processName before + text.val.length =
              maximumLogBytes →
            ∃ item ∈ before, item.LeavesTerminator := by
  have budget :
      maximumLogBytes - tagBytes processName =
        maximumLogBytes - tagBytes processName - 1 + 1 := by
    omega
  have left : ∀ before : List Item,
      0 ∈ (List.replicate (maximumLogBytes - tagBytes processName)
          (0 : UInt8)).take 0 ++ passed (before.map Item.piece) ↔
        ∃ item ∈ before, item.LeavesTerminator := by
    intro before
    rw [List.take_zero, List.nil_append, passed, List.flatMap_map,
      List.mem_flatMap]
    apply exists_congr
    intro item
    rw [zero_mem_kept_iff]
  rw [zero_mem_lay_iff (by rw [List.length_replicate]; exact budget)
    (by rw [List.getElem?_replicate]; exact if_pos (by omega)) laid]
  constructor
  · rintro every before text rest rfl front ending
    apply (left before).mp
    apply every _ text (rest.map Item.piece)
      (by rw [List.map_append, List.map_cons]; rfl)
      ((reached_iff tag before).mpr front)
    rw [distance_map]
    unfold offsetBehind at ending
    omega
  · intro every before text rest split reached ending
    rcases List.map_eq_append_iff.mp split with
      ⟨front, behind, rfl, rfl, tail⟩
    rcases List.map_eq_cons_iff.mp tail with ⟨item, others, rfl, copied, -⟩
    have start := (reached_iff tag front).mp reached
    rw [distance_map] at ending
    rcases exists_string_of_copied copied with single | rfl
    · unfold offsetBehind at start
      omega
    · apply (left front).mpr
      apply every front text others rfl start
      unfold offsetBehind
      omega

/-- Fitting items are laid down with a string in front of a terminator. -/
theorem exists_text_of_fits
    {processName : CString} {items : List Item}
    (fits : FitsBuffer processName items) :
    ∃ after text, laidBehind processName items = some after ∧
      cString after = some text := by
  rcases Option.isSome_iff_exists.mp
    ((isSome_laidBehind_iff fits.tag items).mpr fits.ends) with
    ⟨after, laid⟩
  have zero := (zero_mem_laidBehind_iff fits.tag laid).mpr fits.terminated
  rcases Option.isSome_iff_exists.mp ((isSome_cString_iff after).mpr zero)
    with ⟨text, readable⟩
  exact ⟨after, text, laid, readable⟩

/--
A call of the log function by a process with a parent stays inside the static
buffer, with a terminator behind the text it hands over, exactly when its tag
leaves a byte, every item which starts in front of the last byte ends inside,
and a string up to the very last byte follows a terminator.
-/
theorem staysInBuffer_iff
    (processName parent : CString) (items : List Item) :
    StaysInBuffer processName parent items ↔
      FitsBuffer processName items := by
  rw [staysInBuffer_iff_laid]
  constructor
  · rintro ⟨tag, after, laid, zero⟩
    exact
      { tag := tag
        ends :=
          (isSome_laidBehind_iff tag items).mp (Option.isSome_of_eq_some laid)
        terminated := (zero_mem_laidBehind_iff tag laid).mp zero }
  · intro fits
    rcases exists_text_of_fits fits with ⟨after, text, laid, readable⟩
    exact
      ⟨fits.tag, after, laid,
        (isSome_cString_iff after).mp (Option.isSome_of_eq_some readable)⟩

/-- A text as long as the whole buffer, as a child's log may be. -/
def fullText : CString :=
  ⟨List.replicate maximumLogBytes (ascii 'a'), fun zero => by
    have letter := List.eq_of_mem_replicate zero
    exact absurd letter (by decide)⟩

/-- A process which forwards a full log overruns its static buffer. -/
theorem not_staysInBuffer_forwarded :
    ¬ StaysInBuffer (.ofBytes [0x63]) (.ofBytes [0x6d])
        [.string fullText] := by
  rw [staysInBuffer_iff_laid]
  rintro ⟨tag, after, laid, -⟩
  have inside :=
    (isSome_laidBehind_iff tag _).mp (Option.isSome_of_eq_some laid) []
      (.string fullText) [] rfl (by decide)
  have length : (Item.string fullText).extent = maximumLogBytes :=
    List.length_replicate
  have start : offsetBehind (.ofBytes [0x63]) [] = 4 := by decide
  omega

/-! ## One call after the other -/

theorem width_le_extent (item : Item) : item.width ≤ item.extent := by
  rw [← advance_piece, ← length_written]
  exact item.piece.advance_le_written

theorem sum_width_le (items : List Item) :
    (items.map Item.width).sum ≤ (items.map Item.extent).sum := by
  induction items with
  | nil => exact Nat.le_refl 0
  | cons item rest induction =>
      rw [List.map_cons, List.map_cons, List.sum_cons, List.sum_cons]
      exact Nat.add_le_add (width_le_extent item) induction

/-- A call whose bytes together leave a byte of the buffer fits. -/
theorem fitsBuffer_of_short
    {processName : CString} {items : List Item}
    (short : tagBytes processName + (items.map Item.extent).sum <
      maximumLogBytes) :
    FitsBuffer processName items := by
  have below : ∀ before item after, items = before ++ item :: after →
      offsetBehind processName before + item.extent < maximumLogBytes := by
    rintro before item after rfl
    have moved := sum_width_le before
    rw [List.map_append, List.map_cons, List.sum_append, List.sum_cons]
      at short
    unfold offsetBehind
    omega
  refine ⟨by omega, ?_, ?_⟩
  · intro before item after split front
    exact (below before item after split).le
  · intro before text after split front ending
    have inside := below before (.string text) after split
    exact absurd ending inside.ne

/-- The calls of one process, with what each of them hands over. -/
def logCalls (server : Option WimpServer) (str : Bytes) :
    List (List Item) → Option (Bytes × List Logged)
  | [] => some (str, [])
  | items :: rest =>
      (wimpLogInternal server str (formatText items) (argsOf items)).bind
        fun (next, logged) =>
          (logCalls server next rest).map fun (last, later) =>
            (last, logged :: later)

/-- Fitting calls leave the buffer zeroed for the next one. -/
theorem exists_logCalls_of_fits
    {processName : CString} (parent : CString) {calls : List (List Item)}
    (fits : ∀ items ∈ calls, FitsBuffer processName items) :
    ∃ texts : List CString,
      logCalls (some ⟨processName, some parent⟩)
          (List.replicate maximumLogBytes 0) calls =
        some (List.replicate maximumLogBytes 0,
          texts.map fun text =>
            .added parent.val wimpInstructionLog
              (tagText processName ++ terminated text.val)) := by
  induction calls with
  | nil => exact ⟨[], rfl⟩
  | cons items rest induction =>
      have head := fits items List.mem_cons_self
      rcases induction fun later member =>
        fits later (List.mem_cons_of_mem _ member) with ⟨texts, run⟩
      rcases exists_text_of_fits head with ⟨after, text, laid, readable⟩
      have nulFree := (exists_terminated_of_cString readable).1
      refine ⟨⟨text, nulFree⟩ :: texts, ?_⟩
      rw [logCalls, wimpLogInternal_of_tag head.tag, laid, Option.bind_some,
        readable, Option.map_some, Option.bind_some]
      show Option.map _ (logCalls _ (List.replicate maximumLogBytes 0) rest) =
        _
      rw [run]
      rfl

end Wimp.Log
