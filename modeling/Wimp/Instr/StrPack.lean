import Wimp.Lib.ByteRegion

/-!
# Packs of strings

Several strings are sent as the arguments of one instruction in a single
block.  The block starts with its size, the number of strings and an offset
for each of them; the offsets count from the end of this header, so that they
stay valid wherever the block is copied to.

Each string gets room for its terminator and one more byte, which stays zero.
-/

namespace Wimp.Instr.StrPack

open Wimp.Lib.ByteRegion

/-- `WIMP_STR_PACK_MAX_STRINGS`. -/
def wimpStrPackMaxStrings : Nat := 8

/-- `sizeof(struct _WimpStrPack)`. -/
def sizeofWimpStrPack : Nat := 80

/-- The offset of the member `str_count`. -/
def strCountOffset : Nat := 8

/-- The offset of the member `strings`. -/
def stringsOffset : Nat := 16

/-- The `size_t` stored at an offset. -/
def sizeTAt (object : Bytes) (offset : Nat) : Option Nat :=
  (slice object offset 8).map ofLE

/-! ## Packing -/

/-- The first loop of `wimp_instr_pack_strings`: the sizes and their total. -/
def sizeLoop : List CString → Nat → List Nat × Nat
  | [], totalBytes => ([], totalBytes)
  | text :: rest, totalBytes =>
      let size := addSizeT text.val.length 2
      let (sizes, totalBytes) := sizeLoop rest (addSizeT totalBytes size)
      (size :: sizes, totalBytes)

/-- The second loop, from the string with the given index on. -/
def copyLoop : Bytes → Nat → Nat → List (CString × Nat) → Option Bytes
  | pack, _, _, [] => some pack
  | pack, offset, i, (text, size) :: rest => do
      let source ← slice (terminated text.val) 0 (subSizeT size 1)
      let pack ← splice pack (sizeofWimpStrPack + offset) source
      let pack ← splice pack (stringsOffset + 8 * i) (toLE 8 offset)
      copyLoop pack (addSizeT offset size) (i + 1) rest

/--
`wimp_instr_pack_strings`.  The outer `none` is a failed assertion or an
access outside an object, the inner one the `NULL` pointer.
-/
def wimpInstrPackStrings (malloc : Nat → Option Bytes)
    (strings : List CString) : Option (Option Bytes) :=
  if strings.length ≤ wimpStrPackMaxStrings then
    let (sizes, totalBytes) := sizeLoop strings sizeofWimpStrPack
    match malloc totalBytes with
    | none => some none
    | some pack => do
        let pack ← splice pack 0 (List.replicate totalBytes 0)
        let pack ← copyLoop pack 0 0 (strings.zip sizes)
        let pack ← splice pack 0 (toLE 8 totalBytes)
        let pack ← splice pack strCountOffset (toLE 8 strings.length)
        return some pack
  else none

/--
`wimp_instr_pack_get_string` for the pack at an offset of the memory; `none`
is a failed assertion or an access outside the memory.
-/
def wimpInstrPackGetString (memory : Bytes) (pack : Nat) (index : Int) :
    Option Nat := do
  if index < wimpStrPackMaxStrings then
    let place := (pack + stringsOffset : Int) + 8 * index
    if place < 0 then none
    else
      let offset ← sizeTAt memory place.toNat
      return pack + sizeofWimpStrPack + offset
  else none

/-! ## The format -/

/-- A string with the room it gets. -/
def content (text : CString) : Bytes :=
  terminated text.val ++ [0]

/-- The strings of a pack. -/
def contents (strings : List CString) : Bytes :=
  strings.flatMap content

/-- The offsets of strings which start at a given one. -/
def offsetsFrom (offset : Nat) : List CString → List Nat
  | [] => []
  | text :: rest =>
      offset :: offsetsFrom (offset + (content text).length) rest

/-- The stored offsets. -/
def offsetWords (offsets : List Nat) : Bytes :=
  offsets.flatMap (toLE 8)

/-- Bytes which `memset` cleared. -/
abbrev zeros (count : Nat) : Bytes :=
  List.replicate count 0

/--
A block while it is filled: the strings which are in it, the number of slots
for offsets which are free, and the number of bytes at the end.
-/
def filled (header : Bytes) (strings : List CString)
    (slots free : Nat) : Bytes :=
  header ++ (offsetWords (offsetsFrom 0 strings) ++ (zeros (8 * slots) ++
    (contents strings ++ zeros free)))

/-- The size of a pack. -/
def packSize (strings : List CString) : Nat :=
  sizeofWimpStrPack + (contents strings).length

/-- The bytes of a pack. -/
def packBytes (strings : List CString) : Bytes :=
  filled (toLE 8 (packSize strings) ++ toLE 8 strings.length) strings
    (wimpStrPackMaxStrings - strings.length) 0

@[simp]
theorem length_content (text : CString) :
    (content text).length = text.val.length + 2 := by
  rw [content, List.length_append, length_terminated]
  rfl

@[simp]
theorem contents_append (first second : List CString) :
    contents (first ++ second) = contents first ++ contents second :=
  List.flatMap_append

theorem contents_cons (text : CString) (rest : List CString) :
    contents (text :: rest) = content text ++ contents rest :=
  List.flatMap_cons

@[simp]
theorem length_offsetWords (offsets : List Nat) :
    (offsetWords offsets).length = 8 * offsets.length := by
  induction offsets with
  | nil => rfl
  | cons offset rest induction =>
      rw [offsetWords, List.flatMap_cons, List.length_append, length_toLE,
        List.length_cons]
      change 8 + (offsetWords rest).length = _
      omega

@[simp]
theorem length_offsetsFrom (offset : Nat) (strings : List CString) :
    (offsetsFrom offset strings).length = strings.length := by
  induction strings generalizing offset with
  | nil => rfl
  | cons text rest induction =>
      rw [offsetsFrom, List.length_cons, induction, List.length_cons]

theorem offsetsFrom_append
    (offset : Nat) (first second : List CString) :
    offsetsFrom offset (first ++ second) =
      offsetsFrom offset first ++
        offsetsFrom (offset + (contents first).length) second := by
  induction first generalizing offset with
  | nil => rfl
  | cons text rest induction =>
      rw [List.cons_append, offsetsFrom, induction, offsetsFrom,
        contents_cons, List.length_append, List.cons_append,
        Nat.add_assoc]

/-- The stored offsets of a pack with a string in the middle of it. -/
theorem offsetWords_split
    (before after : List CString) (text : CString) :
    offsetWords (offsetsFrom 0 (before ++ text :: after)) =
      offsetWords (offsetsFrom 0 before) ++
        (toLE 8 (contents before).length ++
          offsetWords
            (offsetsFrom
              ((contents before).length + (content text).length) after)) := by
  rw [offsetsFrom_append, offsetsFrom, Nat.zero_add, offsetWords,
    List.flatMap_append, List.flatMap_cons]
  rfl

/-! ## The loops -/

theorem sizeLoop_eq
    {strings : List CString} {totalBytes : Nat}
    (small : totalBytes + (contents strings).length < 2 ^ 64) :
    sizeLoop strings totalBytes =
      (strings.map fun text => (content text).length,
        totalBytes + (contents strings).length) := by
  induction strings generalizing totalBytes with
  | nil => rfl
  | cons text rest induction =>
      rw [contents_cons, List.length_append, length_content] at small
      have size :
          addSizeT text.val.length 2 = (content text).length := by
        rw [addSizeT_of_lt (by omega), length_content]
      have total :
          addSizeT totalBytes (content text).length =
            totalBytes + (content text).length := by
        rw [addSizeT_of_lt (by rw [length_content]; omega)]
      rw [sizeLoop, size, total,
        induction (by rw [length_content]; omega), List.map_cons,
        contents_cons, List.length_append, Nat.add_assoc]

/-- One round of the second loop puts the next string into the block. -/
theorem copyLoop_step
    {header : Bytes} (headerLength : header.length = stringsOffset)
    {before rest : List CString} {text : CString} {slots free : Nat}
    (all : before.length + (slots + 1) = wimpStrPackMaxStrings)
    (small :
      (contents before).length + (content text).length < 2 ^ 64) :
    copyLoop
        (filled header before (slots + 1) ((content text).length + free))
        (contents before).length before.length
        ((text :: rest).zip
          ((text :: rest).map fun text => (content text).length)) =
      copyLoop (filled header (before ++ [text]) slots free)
        (contents (before ++ [text])).length (before ++ [text]).length
        (rest.zip (rest.map fun text => (content text).length)) := by
  rw [wimpStrPackMaxStrings] at all
  rw [stringsOffset] at headerLength
  have source :
      slice (terminated text.val) 0
          (subSizeT (content text).length 1) =
        some (terminated text.val) := by
    rw [length_content] at small ⊢
    rw [subSizeT_of_le (by omega) (by omega), slice, if_pos]
    · rw [List.drop_zero, List.take_of_length_le]
      rw [length_terminated]
      omega
    · rw [length_terminated]
      omega
  have room :
      zeros ((content text).length + free) =
        zeros (text.val.length + 1) ++ ([0] ++ zeros free) := by
    rw [length_content]
    show zeros _ = zeros _ ++ (zeros 1 ++ zeros free)
    rw [List.replicate_append_replicate, List.replicate_append_replicate]
    congr 1
    omega
  have copied :
      splice
          (filled header before (slots + 1)
            ((content text).length + free))
          (sizeofWimpStrPack + (contents before).length)
          (terminated text.val) =
        some
          (header ++ (offsetWords (offsetsFrom 0 before) ++
            (zeros (8 * (slots + 1)) ++
              (contents before ++ (content text ++ zeros free))))) := by
    have spliced :=
      splice_middle
        (header ++ (offsetWords (offsetsFrom 0 before) ++
          (zeros (8 * (slots + 1)) ++ contents before)))
        ([0] ++ zeros free)
        (show
          (terminated text.val).length =
            (zeros (text.val.length + 1)).length by
          rw [length_terminated, List.length_replicate])
    have place :
        (header ++ (offsetWords (offsetsFrom 0 before) ++
          (zeros (8 * (slots + 1)) ++ contents before))).length =
          sizeofWimpStrPack + (contents before).length := by
      simp only [List.length_append, List.length_replicate,
        length_offsetWords, length_offsetsFrom, headerLength,
        sizeofWimpStrPack]
      omega
    rw [place] at spliced
    simp only [List.append_assoc] at spliced
    rw [filled, room, spliced, content]
    simp only [List.append_assoc]
  have stored :
      splice
          (header ++ (offsetWords (offsetsFrom 0 before) ++
            (zeros (8 * (slots + 1)) ++
              (contents before ++ (content text ++ zeros free)))))
          (stringsOffset + 8 * before.length)
          (toLE 8 (contents before).length) =
        some (filled header (before ++ [text]) slots free) := by
    have spliced :=
      splice_middle (header ++ offsetWords (offsetsFrom 0 before))
        (zeros (8 * slots) ++
          (contents before ++ (content text ++ zeros free)))
        (show (toLE 8 (contents before).length).length =
            (zeros 8).length by
          rw [length_toLE, List.length_replicate])
    have place :
        (header ++ offsetWords (offsetsFrom 0 before)).length =
          stringsOffset + 8 * before.length := by
      rw [List.length_append, length_offsetWords, length_offsetsFrom,
        headerLength, stringsOffset]
    have slot :
        zeros (8 * (slots + 1)) = zeros 8 ++ zeros (8 * slots) := by
      rw [List.replicate_append_replicate]
      congr 1
      omega
    rw [place] at spliced
    rw [slot, filled, offsetWords_split, contents_append, contents_cons]
    simp only [List.append_assoc] at spliced ⊢
    rw [spliced]
    simp [offsetWords, offsetsFrom, contents]
  have moved :
      addSizeT (contents before).length (content text).length =
        (contents (before ++ [text])).length := by
    rw [addSizeT_of_lt small, contents_append, List.length_append,
      contents_cons, List.length_append]
    rfl
  rw [List.map_cons, List.zip_cons_cons, copyLoop, source]
  simp only [Option.bind_eq_bind, Option.bind_some, copied, stored, moved,
    List.length_append, List.length_singleton]

/-- The second loop puts all strings into the block. -/
theorem copyLoop_eq
    {header : Bytes} (headerLength : header.length = stringsOffset)
    {before strings : List CString} {slots : Nat}
    (all :
      before.length + (strings.length + slots) = wimpStrPackMaxStrings)
    (small :
      (contents before).length + (contents strings).length < 2 ^ 64) :
    copyLoop
        (filled header before (strings.length + slots)
          (contents strings).length)
        (contents before).length before.length
        (strings.zip (strings.map fun text => (content text).length)) =
      some (filled header (before ++ strings) slots 0) := by
  induction strings generalizing before with
  | nil =>
      rw [List.append_nil, List.length_nil, Nat.zero_add]
      rfl
  | cons text rest induction =>
      rw [contents_cons, List.length_append] at small ⊢
      rw [List.length_cons] at all ⊢
      have step :=
        @copyLoop_step header headerLength before rest text
          (rest.length + slots) (contents rest).length (by omega)
          (by omega)
      rw [show rest.length + 1 + slots = rest.length + slots + 1 by omega,
        step, induction]
      · rw [List.append_assoc, List.singleton_append]
      · rw [List.length_append, List.length_singleton]
        omega
      · rw [contents_append, List.length_append, contents_cons,
          List.length_append]
        change _ + (_ + 0) + _ < _
        omega

theorem length_filled
    {header : Bytes} (headerLength : header.length = stringsOffset)
    {strings : List CString} {slots free : Nat}
    (all : strings.length + slots = wimpStrPackMaxStrings) :
    (filled header strings slots free).length =
      packSize strings + free := by
  rw [stringsOffset] at headerLength
  rw [wimpStrPackMaxStrings] at all
  simp only [filled, List.length_append, List.length_replicate,
    length_offsetWords, length_offsetsFrom, headerLength, packSize,
    sizeofWimpStrPack]
  omega

theorem length_packBytes
    {strings : List CString}
    (few : strings.length ≤ wimpStrPackMaxStrings) :
    (packBytes strings).length = packSize strings := by
  rw [packBytes, length_filled, Nat.add_zero]
  · rw [List.length_append, length_toLE, length_toLE, stringsOffset]
  · omega

/-- The header is written over the cleared bytes in front of the offsets. -/
theorem splice_header
    (strings : List CString) (slots first second : Nat) :
    ((splice (filled (zeros 16) strings slots 0) 0 (toLE 8 first)).bind
        fun pack => splice pack strCountOffset (toLE 8 second)) =
      some (filled (toLE 8 first ++ toLE 8 second) strings slots 0) := by
  have cleared (count : Nat) : (zeros 8).length = (toLE 8 count).length := by
    rw [List.length_replicate, length_toLE]
  have split : zeros 16 = zeros 8 ++ zeros 8 := by
    rw [List.replicate_append_replicate]
  have begun := splice_middle [] (zeros 8 ++ (offsetWords
    (offsetsFrom 0 strings) ++ (zeros (8 * slots) ++
      (contents strings ++ zeros 0)))) (cleared first).symm
  have ended := splice_middle (toLE 8 first) (offsetWords
    (offsetsFrom 0 strings) ++ (zeros (8 * slots) ++
      (contents strings ++ zeros 0))) (cleared second).symm
  rw [List.nil_append, List.nil_append, List.length_nil] at begun
  rw [length_toLE] at ended
  rw [filled, split, List.append_assoc, begun, Option.bind_some,
    strCountOffset, ended, filled, List.append_assoc]

/-- When the block is granted, all of it is filled with the format. -/
theorem wimpInstrPackStrings_granted
    {malloc : Nat → Option Bytes} {strings : List CString} {block : Bytes}
    (few : strings.length ≤ wimpStrPackMaxStrings)
    (small : packSize strings < 2 ^ 64)
    (granted : malloc (packSize strings) = some block)
    (blockSize : block.length = packSize strings) :
    wimpInstrPackStrings malloc strings = some (some (packBytes strings)) := by
  have sizes :
      sizeLoop strings sizeofWimpStrPack =
        (strings.map fun text => (content text).length,
          packSize strings) :=
    sizeLoop_eq small
  have cleared :
      splice block 0 (zeros (packSize strings)) =
        some
          (filled (zeros 16) [] wimpStrPackMaxStrings
            (contents strings).length) := by
    have whole :=
      splice_middle [] [] (show
        (zeros (packSize strings)).length = block.length by
          rw [List.length_replicate, blockSize])
    simp only [List.append_nil, List.nil_append, List.length_nil] at whole
    rw [whole, filled]
    show some _ = some (zeros 16 ++ (zeros 0 ++ (zeros 64 ++
      (zeros 0 ++ zeros (contents strings).length))))
    simp only [List.replicate_append_replicate]
    congr 2
    rw [packSize, sizeofWimpStrPack]
    omega
  have copied :=
    @copyLoop_eq (zeros 16) (List.length_replicate ..) [] strings
      (wimpStrPackMaxStrings - strings.length)
      (by rw [List.length_nil, Nat.zero_add, Nat.add_sub_cancel' few])
      (by
        rw [packSize] at small
        show 0 + _ < _
        omega)
  rw [Nat.add_sub_cancel' few, List.nil_append] at copied
  have filledHeader :=
    splice_header strings (wimpStrPackMaxStrings - strings.length)
      (packSize strings) strings.length
  rw [wimpInstrPackStrings, if_pos few, sizes]
  show (match malloc (packSize strings) with
    | none => some none
    | some pack => _) = _
  rw [granted]
  show ((splice block 0 (zeros (packSize strings))).bind _) = _
  rw [cleared, Option.bind_some]
  change ((copyLoop _ 0 0 _).bind _) = _
  rw [show copyLoop _ 0 0 _ = _ from copied, Option.bind_some]
  rw [Option.bind_eq_some_iff] at filledHeader
  rcases filledHeader with ⟨pack, begun, ended⟩
  simp only [Option.bind_eq_bind, begun, Option.bind_some]
  rw [ended]
  rfl

/-! ## Reading a copy -/

theorem sizeTAt_append
    (before after : Bytes) {value : Nat} (small : value < 2 ^ 64) :
    sizeTAt (before ++ (toLE 8 value ++ after)) before.length =
      some value := by
  have read := slice_append before (toLE 8 value) after
  rw [length_toLE] at read
  rw [sizeTAt, read, Option.map_some, ofLE_toLE_of_lt (by omega)]

/-- The offset of a string is read from wherever the pack lies. -/
theorem wimpInstrPackGetString_append
    (before after : Bytes) {first rest : List CString} {text : CString}
    (few :
      (first ++ text :: rest).length ≤ wimpStrPackMaxStrings)
    (small : packSize (first ++ text :: rest) < 2 ^ 64) :
    wimpInstrPackGetString
        (before ++ (packBytes (first ++ text :: rest) ++ after))
        before.length first.length =
      some
        (before.length + sizeofWimpStrPack + (contents first).length) := by
  have offsetSmall : (contents first).length < 2 ^ 64 := by
    rw [packSize, contents_append, List.length_append] at small
    omega
  have below : (first.length : Int) < wimpStrPackMaxStrings := by
    rw [List.length_append, List.length_cons] at few
    omega
  have place :
      ((before.length + stringsOffset : Int) + 8 * first.length).toNat =
        (before ++ (toLE 8 (packSize (first ++ text :: rest)) ++
          (toLE 8 (first ++ text :: rest).length ++
            offsetWords (offsetsFrom 0 first)))).length := by
    simp only [List.length_append, length_toLE, length_offsetWords,
      length_offsetsFrom, stringsOffset]
    omega
  have nonneg :
      ¬ (before.length + stringsOffset : Int) + 8 * first.length < 0 := by
    omega
  have read :
      sizeTAt (before ++ (packBytes (first ++ text :: rest) ++ after))
          ((before.length + stringsOffset : Int) +
            8 * first.length).toNat =
        some (contents first).length := by
    rw [place, packBytes, filled, offsetWords_split]
    have found :=
      sizeTAt_append
        (before ++ (toLE 8 (packSize (first ++ text :: rest)) ++
          (toLE 8 (first ++ text :: rest).length ++
            offsetWords (offsetsFrom 0 first))))
        (offsetWords
            (offsetsFrom
              ((contents first).length + (content text).length) rest) ++
          (zeros (8 * (wimpStrPackMaxStrings -
              (first ++ text :: rest).length)) ++
            (contents (first ++ text :: rest) ++ (zeros 0 ++ after))))
        offsetSmall
    simp only [List.append_assoc] at found ⊢
    exact found
  simp only [wimpInstrPackGetString, if_pos below, if_neg nonneg, read,
    Option.bind_eq_bind, Option.bind_some, Option.pure_def]

/-- Behind its offset, a string is read as a whole. -/
theorem cString_packBytes
    (before after : Bytes) {first rest : List CString} {text : CString}
    (few :
      (first ++ text :: rest).length ≤ wimpStrPackMaxStrings) :
    cString
        ((before ++ (packBytes (first ++ text :: rest) ++ after)).drop
          (before.length + sizeofWimpStrPack + (contents first).length)) =
      some text.val := by
  have place :
      before.length + sizeofWimpStrPack + (contents first).length =
        (before ++ (toLE 8 (packSize (first ++ text :: rest)) ++
          (toLE 8 (first ++ text :: rest).length ++
            (offsetWords (offsetsFrom 0 (first ++ text :: rest)) ++
              (zeros (8 * (wimpStrPackMaxStrings -
                (first ++ text :: rest).length)) ++
                  contents first))))).length := by
    rw [wimpStrPackMaxStrings] at few
    simp only [List.length_append, length_toLE, length_offsetWords,
      length_offsetsFrom, List.length_replicate, sizeofWimpStrPack,
      wimpStrPackMaxStrings] at few ⊢
    omega
  have split :
      before ++ (packBytes (first ++ text :: rest) ++ after) =
        (before ++ (toLE 8 (packSize (first ++ text :: rest)) ++
          (toLE 8 (first ++ text :: rest).length ++
            (offsetWords (offsetsFrom 0 (first ++ text :: rest)) ++
              (zeros (8 * (wimpStrPackMaxStrings -
                (first ++ text :: rest).length)) ++
                  contents first))))) ++
          (terminated text.val ++
            ([0] ++ (contents rest ++ (zeros 0 ++ after)))) := by
    simp only [packBytes, filled, contents_append, contents_cons, content,
      List.append_assoc]
  rw [split, place, List.drop_left]
  exact cString_terminated text.property _

/-! ## Packs survive copying -/

/--
What is expected of a pack: it knows its size and the number of its strings,
and every copy of its first `pack_size` bytes yields the strings, each inside
the copy and none of them meeting another.
-/
structure Survives (strings : List CString) (pack : Bytes) : Prop where
  knowsSize : sizeTAt pack 0 = some pack.length
  knowsCount : sizeTAt pack strCountOffset = some strings.length
  string :
    ∀ size, sizeTAt pack 0 = some size →
      ∀ (before after : Bytes) (i : Nat) (text : CString),
        strings[i]? = some text →
        ∃ pointer,
          wimpInstrPackGetString (before ++ (pack.take size ++ after))
              before.length i = some pointer ∧
            cString ((before ++ (pack.take size ++ after)).drop pointer) =
              some text.val ∧
            before.length ≤ pointer ∧
            pointer + (text.val.length + 1) ≤ before.length + size
  apart :
    ∀ size, sizeTAt pack 0 = some size →
      ∀ (before after : Bytes) (i j : Nat) (first second : CString)
        (pointer other : Nat),
        i ≠ j → strings[i]? = some first → strings[j]? = some second →
        wimpInstrPackGetString (before ++ (pack.take size ++ after))
            before.length i = some pointer →
        wimpInstrPackGetString (before ++ (pack.take size ++ after))
            before.length j = some other →
        pointer + (first.val.length + 1) ≤ other ∨
          other + (second.val.length + 1) ≤ pointer

/-- The strings in front of a later one end before it. -/
theorem length_contents_take
    {strings : List CString} {i j : Nat} {text : CString}
    (found : strings[i]? = some text) (later : i < j) :
    (contents (strings.take i)).length + (text.val.length + 2) ≤
      (contents (strings.take j)).length := by
  have split : strings.take (i + 1) = strings.take i ++ [text] := by
    rw [List.take_add_one, found]
    rfl
  have start : strings.take (i + 1) <+: strings.take j :=
    List.take_prefix_take_left later
  rcases start with ⟨rest, same⟩
  rw [← same, split, contents_append, contents_append, List.length_append,
    List.length_append, contents_cons, List.length_append, length_content]
  omega

/-- The string with a given index, wherever the pack lies. -/
theorem getString_of_getElem?
    (before after : Bytes) {strings : List CString} {i : Nat}
    {text : CString} (few : strings.length ≤ wimpStrPackMaxStrings)
    (small : packSize strings < 2 ^ 64)
    (found : strings[i]? = some text) :
    wimpInstrPackGetString (before ++ (packBytes strings ++ after))
        before.length i =
        some
          (before.length + sizeofWimpStrPack +
            (contents (strings.take i)).length) ∧
      cString
          ((before ++ (packBytes strings ++ after)).drop
            (before.length + sizeofWimpStrPack +
              (contents (strings.take i)).length)) =
        some text.val := by
  have within : i < strings.length :=
    (List.getElem?_eq_some_iff.mp found).choose
  have split :
      strings.take i ++ text :: strings.drop (i + 1) = strings := by
    rw [← (List.getElem?_eq_some_iff.mp found).choose_spec,
      List.getElem_cons_drop, List.take_append_drop]
  have index : (strings.take i).length = i := by
    rw [List.length_take]
    omega
  have read :=
    @wimpInstrPackGetString_append before after (strings.take i)
      (strings.drop (i + 1)) text (by rw [split]; exact few)
      (by rw [split]; exact small)
  have whole :=
    @cString_packBytes before after (strings.take i)
      (strings.drop (i + 1)) text (by rw [split]; exact few)
  rw [split] at read whole
  rw [index] at read
  exact ⟨read, whole⟩

/--
A pack of at most eight strings is filled without leaving its block, and the
strings survive every copy of the block.
-/
theorem packStrings_survives
    {malloc : Nat → Option Bytes} {strings : List CString} {block : Bytes}
    (few : strings.length ≤ wimpStrPackMaxStrings)
    (small : packSize strings < 2 ^ 64)
    (granted : malloc (packSize strings) = some block)
    (blockSize : block.length = packSize strings) :
    ∃ pack,
      wimpInstrPackStrings malloc strings = some (some pack) ∧
        pack.length = block.length ∧ Survives strings pack := by
  have length := length_packBytes few
  have stored :
      sizeTAt (packBytes strings) 0 = some (packBytes strings).length := by
    rw [length]
    have read := sizeTAt_append [] (toLE 8 strings.length ++
      (offsetWords (offsetsFrom 0 strings) ++
        (zeros (8 * (wimpStrPackMaxStrings - strings.length)) ++
          (contents strings ++ zeros 0)))) small
    rw [packBytes, filled, List.append_assoc]
    exact read
  have whole {size : Nat} (read : sizeTAt (packBytes strings) 0 = some size) :
      size = packSize strings ∧
        (packBytes strings).take size = packBytes strings := by
    rw [stored] at read
    cases read
    exact ⟨length, List.take_length⟩
  refine
    ⟨packBytes strings,
      wimpInstrPackStrings_granted few small granted blockSize,
      by rw [length, blockSize], ?_⟩
  constructor
  case knowsSize => exact stored
  case knowsCount =>
    have read := sizeTAt_append (toLE 8 (packSize strings))
      (offsetWords (offsetsFrom 0 strings) ++
        (zeros (8 * (wimpStrPackMaxStrings - strings.length)) ++
          (contents strings ++ zeros 0)))
      (show strings.length < 2 ^ 64 by
        rw [wimpStrPackMaxStrings] at few
        omega)
    rw [length_toLE] at read
    rw [packBytes, filled, List.append_assoc, strCountOffset]
    exact read
  case string =>
    intro size read before after i text found
    rcases whole read with ⟨total, copied⟩
    rcases getString_of_getElem? before after few small found with
      ⟨pointer, string⟩
    rw [copied]
    refine ⟨_, pointer, string, by omega, ?_⟩
    have within : i < strings.length :=
      (List.getElem?_eq_some_iff.mp found).choose
    have room := length_contents_take found within
    rw [List.take_length] at room
    rw [total, packSize]
    omega
  case apart =>
    intro size read before after i j first second pointer other different
      atFirst atSecond gotFirst gotSecond
    rw [(whole read).2] at gotFirst gotSecond
    rw [(getString_of_getElem? before after few small atFirst).1]
      at gotFirst
    rw [(getString_of_getElem? before after few small atSecond).1]
      at gotSecond
    cases gotFirst
    cases gotSecond
    rcases Nat.lt_or_gt_of_ne different with earlier | later
    · left
      have room := length_contents_take atFirst earlier
      omega
    · right
      have room := length_contents_take atSecond later
      omega

/-- An empty string and a longer one. -/
theorem packStrings_survives_two :
    ∃ pack,
      wimpInstrPackStrings (fun size => some (List.replicate size 7))
          [.ofBytes [], .ofBytes [97, 98]] = some (some pack) ∧
        pack.length = (List.replicate 86 (7 : UInt8)).length ∧
        Survives [.ofBytes [], .ofBytes [97, 98]] pack :=
  packStrings_survives (by decide) (by decide) rfl rfl

end Wimp.Instr.StrPack
