import Mathlib.Data.List.Basic
import Mathlib.Data.List.TakeWhile
import Mathlib.Tactic.Ring

/-!
# Byte regions, little-endian words and NUL-terminated strings

A memory object is a finite list of bytes, and a pointer into it is an offset.
Every access is partial: reading or writing outside the object returns `none`,
so the absence of an out-of-bounds access is a statement about definedness.

The module fixes the little-endian encoding of unsigned words, the two's
complement conversions between the machine integer types, block copies, and
the reading of NUL-terminated strings, together with the laws which recover
a field from a concatenation of fields.
-/

namespace Wimp.Lib.ByteRegion

/-- A memory object, or a run of bytes copied between two objects. -/
abbrev Bytes := List UInt8

/-! ## Machine integers -/

/-- Conversion of an unsigned value to a 32-bit signed integer. -/
def toInt32 (value : Nat) : Int :=
  Int.bmod value (2 ^ 32)

/-- Conversion of a signed value to an unsigned 64-bit integer. -/
def toSizeT (value : Int) : Nat :=
  (value % 2 ^ 64).toNat

/-- Addition of unsigned 64-bit integers. -/
def addSizeT (left right : Nat) : Nat :=
  (left + right) % 2 ^ 64

/-- Subtraction of unsigned 64-bit integers. -/
def subSizeT (left right : Nat) : Nat :=
  toSizeT ((left : Int) - right)

/-- Addition of signed 32-bit integers. -/
def addInt32 (left right : Int) : Int :=
  Int.bmod (left + right) (2 ^ 32)

theorem toInt32_of_lt
    {value : Nat} (small : value < 2 ^ 31) :
    toInt32 value = value := by
  unfold toInt32
  rw [Int.bmod_eq_of_le]
  · omega
  · omega

theorem toInt32_lt (value : Nat) : toInt32 value < 2 ^ 31 := by
  have bound := Int.bmod_lt (x := value) (m := 2 ^ 32) (by decide)
  unfold toInt32
  omega

theorem le_toInt32 (value : Nat) : -2 ^ 31 ≤ toInt32 value := by
  have bound := Int.le_bmod (x := value) (m := 2 ^ 32) (by decide)
  unfold toInt32
  omega

theorem toSizeT_natCast
    {value : Nat} (small : value < 2 ^ 64) :
    toSizeT value = value := by
  unfold toSizeT
  omega

theorem toSizeT_lt (value : Int) : toSizeT value < 2 ^ 64 := by
  unfold toSizeT
  omega

theorem addInt32_of_fits
    {left right : Int} (lower : -2 ^ 31 ≤ left + right)
    (upper : left + right < 2 ^ 31) :
    addInt32 left right = left + right := by
  unfold addInt32
  rw [Int.bmod_eq_of_le]
  · omega
  · omega

theorem addSizeT_of_lt
    {left right : Nat} (small : left + right < 2 ^ 64) :
    addSizeT left right = left + right :=
  Nat.mod_eq_of_lt small

theorem subSizeT_of_le
    {left right : Nat} (ordered : right ≤ left) (small : left < 2 ^ 64) :
    subSizeT left right = left - right := by
  unfold subSizeT toSizeT
  omega

/-! ## Little-endian words -/

/-- The low `width` bytes of a value, least significant byte first. -/
def toLE : Nat → Nat → Bytes
  | 0, _ => []
  | width + 1, value =>
      UInt8.ofNat value :: toLE width (value / 256)

/-- The unsigned value of a little-endian byte sequence. -/
def ofLE : Bytes → Nat
  | [] => 0
  | byte :: rest => byte.toNat + 256 * ofLE rest

@[simp]
theorem length_toLE (width value : Nat) :
    (toLE width value).length = width := by
  induction width generalizing value with
  | zero => rfl
  | succ width induction => simp [toLE, induction]

theorem ofLE_toLE (width value : Nat) :
    ofLE (toLE width value) = value % 256 ^ width := by
  induction width generalizing value with
  | zero => simp [toLE, ofLE, Nat.mod_one]
  | succ width induction =>
      have split :
          value % 256 ^ (width + 1) =
            value % 256 + 256 * (value / 256 % 256 ^ width) := by
        rw [Nat.pow_succ', Nat.mod_mul]
      rw [toLE, ofLE, induction, UInt8.toNat_ofNat', split]

theorem ofLE_toLE_of_lt
    {width value : Nat} (small : value < 256 ^ width) :
    ofLE (toLE width value) = value := by
  rw [ofLE_toLE, Nat.mod_eq_of_lt small]

theorem ofLE_lt (bytes : Bytes) :
    ofLE bytes < 256 ^ bytes.length := by
  induction bytes with
  | nil => simp [ofLE]
  | cons byte rest induction =>
      have byteBound : byte.toNat < 256 := byte.toNat_lt
      rw [ofLE, List.length_cons, Nat.pow_succ']
      omega

theorem toLE_ofLE (bytes : Bytes) :
    toLE bytes.length (ofLE bytes) = bytes := by
  induction bytes with
  | nil => rfl
  | cons byte rest induction =>
      have byteBound : byte.toNat < 256 := byte.toNat_lt
      have quotient : (byte.toNat + 256 * ofLE rest) / 256 = ofLE rest := by
        omega
      rw [List.length_cons, toLE, ofLE, quotient, induction]
      congr 1
      apply UInt8.toNat_inj.mp
      rw [UInt8.toNat_ofNat']
      omega

/-! ## Block reads and copies -/

/-- The `count` bytes at `offset`, when they lie inside the object. -/
def slice (object : Bytes) (offset count : Nat) : Option Bytes :=
  if offset + count ≤ object.length then
    some ((object.drop offset).take count)
  else
    none

/-- The signed 32-bit word stored at `offset`. -/
def int32At (object : Bytes) (offset : Nat) : Option Int :=
  (slice object offset 4).map fun word => toInt32 (ofLE word)

/-- The object after copying `source` to `offset`, when the copy fits. -/
def splice (object : Bytes) (offset : Nat) (source : Bytes) :
    Option Bytes :=
  if offset + source.length ≤ object.length then
    some
      (object.take offset ++ source ++
        object.drop (offset + source.length))
  else
    none

theorem slice_append
    (before middle after : Bytes) :
    slice (before ++ (middle ++ after)) before.length middle.length =
      some middle := by
  unfold slice
  rw [if_pos (by simp)]
  simp

/-- A word starting right after `before` is read from what follows. -/
theorem int32At_append
    (before after : Bytes) (large : 4 ≤ after.length) :
    int32At (before ++ after) before.length =
      some (toInt32 (ofLE (after.take 4))) := by
  unfold int32At slice
  rw [if_pos (by simp only [List.length_append]; omega)]
  simp

theorem int32At_eq_none
    {object : Bytes} {offset : Nat}
    (outside : object.length < offset + 4) :
    int32At object offset = none := by
  unfold int32At slice
  rw [if_neg (by omega)]
  rfl

theorem slice_eq_some_iff
    (object : Bytes) (offset count : Nat) (result : Bytes) :
    slice object offset count = some result ↔
      ∃ before after,
        object = before ++ (result ++ after) ∧
          before.length = offset ∧ result.length = count := by
  constructor
  · intro sliced
    unfold slice at sliced
    split_ifs at sliced with inside
    simp only [Option.some.injEq] at sliced
    subst sliced
    refine
      ⟨object.take offset, object.drop (offset + count), ?_, ?_, ?_⟩
    · rw [← List.drop_drop, List.take_append_drop, List.take_append_drop]
    · rw [List.length_take]
      omega
    · rw [List.length_take, List.length_drop]
      omega
  · rintro ⟨before, after, rfl, rfl, rfl⟩
    exact slice_append before result after

theorem slice_eq_none_iff
    (object : Bytes) (offset count : Nat) :
    slice object offset count = none ↔
      object.length < offset + count := by
  unfold slice
  split_ifs with inside
  · simp only [false_iff]
    omega
  · simp only [true_iff]
    omega

@[simp]
theorem length_of_splice
    {object source result : Bytes} {offset : Nat}
    (copied : splice object offset source = some result) :
    result.length = object.length := by
  unfold splice at copied
  split_ifs at copied with inside
  simp only [Option.some.injEq] at copied
  subst copied
  simp only [List.length_append, List.length_take, List.length_drop]
  omega

/-- A copy at the end of the written part extends the written part. -/
theorem splice_append
    (written source free : Bytes)
    (fits : source.length ≤ free.length) :
    splice (written ++ free) written.length source =
      some ((written ++ source) ++ free.drop source.length) := by
  unfold splice
  rw [if_pos (by simp only [List.length_append]; omega)]
  simp

/-- A copy over a part of equal length replaces that part. -/
theorem splice_middle
    (before after : Bytes) {old source : Bytes}
    (same : source.length = old.length) :
    splice (before ++ (old ++ after)) before.length source =
      some (before ++ (source ++ after)) := by
  rw [splice_append _ _ _ (by rw [List.length_append]; omega), same,
    List.drop_left, List.append_assoc]

/-- The bytes of an object after a copy. -/
theorem getElem?_of_splice
    {object source result : Bytes} {offset : Nat}
    (copied : splice object offset source = some result) (i : Nat) :
    result[i]? =
      if offset ≤ i ∧ i < offset + source.length then source[i - offset]?
      else object[i]? := by
  unfold splice at copied
  split_ifs at copied with inside
  rw [Option.some.injEq] at copied
  subst copied
  have before : (object.take offset).length = offset := by
    rw [List.length_take]
    omega
  rcases Nat.lt_or_ge i offset with early | late
  · rw [if_neg (by omega), List.append_assoc,
      List.getElem?_append_left (by omega), List.getElem?_take_of_lt early]
  · rw [List.append_assoc, List.getElem?_append_right (by omega), before]
    by_cases within : i < offset + source.length
    · rw [if_pos ⟨late, within⟩, List.getElem?_append_left (by omega)]
    · rw [if_neg (by omega), List.getElem?_append_right (by omega),
        List.getElem?_drop]
      congr 1
      omega

/-- A copy changes nothing when the bytes are there already. -/
theorem splice_eq_some_self_iff
    (object source : Bytes) {offset : Nat}
    (inside : offset ≤ object.length) :
    splice object offset source = some object ↔
      source <+: object.drop offset := by
  constructor
  · intro same
    unfold splice at same
    split_ifs at same with fits
    rw [Option.some.injEq] at same
    have tail := congrArg (List.drop offset) same
    rw [List.append_assoc,
      List.drop_left' (by rw [List.length_take]; omega)] at tail
    exact ⟨_, tail⟩
  · rintro ⟨rest, split⟩
    have length := congrArg List.length split
    rw [List.length_append, List.length_drop] at length
    have copied :=
      splice_middle (object.take offset) rest
        (rfl : source.length = source.length)
    rw [split, List.take_append_drop, List.length_take,
      Nat.min_eq_left inside] at copied
    exact copied

/-- A copy leaves the bytes beside it as they are. -/
theorem window_of_splice
    {object source result : Bytes} {offset : Nat}
    (copied : splice object offset source = some result)
    {start count : Nat}
    (apart : start + count ≤ offset ∨ offset + source.length ≤ start) :
    (result.drop start).take count = (object.drop start).take count := by
  apply List.ext_getElem?
  intro i
  rcases Nat.lt_or_ge i count with within | beyond
  · rw [List.getElem?_take_of_lt within, List.getElem?_take_of_lt within,
      List.getElem?_drop, List.getElem?_drop, getElem?_of_splice copied,
      if_neg (by omega)]
  · rw [List.getElem?_take, List.getElem?_take, if_neg (by omega),
      if_neg (by omega)]

/-- The copied bytes are found where they were put. -/
theorem prefix_drop_of_splice
    {object source result : Bytes} {offset : Nat}
    (copied : splice object offset source = some result) :
    source <+: result.drop offset := by
  unfold splice at copied
  split_ifs at copied with inside
  rw [Option.some.injEq] at copied
  subst copied
  rw [List.append_assoc,
    List.drop_left' (by rw [List.length_take]; omega)]
  exact List.prefix_append ..

/-! ## NUL-terminated strings -/

/-- The contents of a string never include its terminator. -/
def NulFree (text : Bytes) : Prop :=
  0 ∉ text

instance (text : Bytes) : Decidable (NulFree text) :=
  inferInstanceAs (Decidable (¬ 0 ∈ text))

theorem nulFree_nil : NulFree [] := by
  simp [NulFree]

theorem nulFree_cons_iff (byte : UInt8) (text : Bytes) :
    NulFree (byte :: text) ↔ byte ≠ 0 ∧ NulFree text := by
  unfold NulFree
  rw [List.mem_cons, not_or, ne_comm]

/-- The contents of a string handed over by a pointer. -/
abbrev CString := { text : Bytes // NulFree text }

/-- The string of the bytes in front of the first terminator. -/
def CString.ofBytes (bytes : Bytes) : CString :=
  ⟨bytes.takeWhile (· ≠ 0), fun member => by
    simpa using List.mem_takeWhile_imp member⟩

/-- Bytes without a terminator are a string as a whole. -/
theorem CString.val_ofBytes {bytes : Bytes} (nulFree : NulFree bytes) :
    (CString.ofBytes bytes).val = bytes := by
  apply List.takeWhile_eq_self_iff.mpr
  intro byte member
  have nonzero : byte ≠ 0 := fun zero => nulFree (zero ▸ member)
  simpa using nonzero

/-- The bytes of a string as `strlen + 1` copies them. -/
def terminated (text : Bytes) : Bytes :=
  text ++ [0]

/-- A terminated string is read back. -/
theorem CString.ofBytes_terminated (text : CString) :
    CString.ofBytes (terminated text.val) = text := by
  have nonzero : ∀ byte ∈ text.val, decide (byte ≠ 0) = true := by
    intro byte member
    have nonzero : byte ≠ 0 := fun zero => text.property (zero ▸ member)
    simpa using nonzero
  apply Subtype.ext
  show (text.val ++ [0]).takeWhile (· ≠ 0) = text.val
  rw [List.takeWhile_append_of_pos nonzero]
  simp

@[simp]
theorem length_terminated (text : Bytes) :
    (terminated text).length = text.length + 1 := by
  simp [terminated]

/--
The string denoted by a pointer, given the bytes of the object from the
pointer on; `none` when no terminator follows inside the object.
-/
def cString : Bytes → Option Bytes
  | [] => none
  | byte :: rest =>
      if byte = 0 then some [] else (cString rest).map (byte :: ·)

/-- Two terminated strings which start equal bytes are equal. -/
theorem terminated_append_inj
    {left right leftAfter rightAfter : Bytes}
    (leftFree : NulFree left) (rightFree : NulFree right)
    (equal : terminated left ++ leftAfter =
      terminated right ++ rightAfter) :
    left = right ∧ leftAfter = rightAfter := by
  induction left generalizing right with
  | nil =>
      cases right with
      | nil =>
          simpa [terminated] using equal
      | cons byte rest =>
          rw [nulFree_cons_iff] at rightFree
          simp [terminated, Ne.symm rightFree.1] at equal
  | cons head tail induction =>
      rw [nulFree_cons_iff] at leftFree
      cases right with
      | nil => simp [terminated, leftFree.1] at equal
      | cons byte rest =>
          rw [nulFree_cons_iff] at rightFree
          simp only [terminated, List.append_assoc, List.cons_append,
            List.cons.injEq] at equal induction
          have tails := induction leftFree.2 rightFree.2 equal.2
          exact ⟨by rw [equal.1, tails.1], tails.2⟩

/-- Bytes start with one terminated string at most. -/
theorem CString.eq_of_prefix
    {first second : CString} {bytes : Bytes}
    (startsFirst : terminated first.val <+: bytes)
    (startsSecond : terminated second.val <+: bytes) :
    first = second := by
  rcases startsFirst with ⟨restFirst, firstSplit⟩
  rcases startsSecond with ⟨restSecond, secondSplit⟩
  have names :=
    terminated_append_inj first.property second.property
      (firstSplit.trans secondSplit.symm)
  exact Subtype.ext names.1

/-- A string followed by anything is read back up to its terminator. -/
theorem cString_terminated
    {text : Bytes} (nulFree : NulFree text) (after : Bytes) :
    cString (terminated text ++ after) = some text := by
  induction text with
  | nil => simp [terminated, cString]
  | cons byte rest induction =>
      rw [nulFree_cons_iff] at nulFree
      have tail := induction nulFree.2
      simp only [terminated, List.append_assoc, List.cons_append] at tail ⊢
      rw [cString, if_neg nulFree.1, tail]
      rfl

/-- What is read as a string is a string behind the pointer. -/
theorem exists_terminated_of_cString
    {bytes text : Bytes} (readable : cString bytes = some text) :
    NulFree text ∧ ∃ after, bytes = terminated text ++ after := by
  induction bytes generalizing text with
  | nil => simp [cString] at readable
  | cons byte rest induction =>
      rw [cString] at readable
      split_ifs at readable with zero
      · rw [Option.some.injEq] at readable
        subst zero
        subst text
        exact ⟨nulFree_nil, rest, rfl⟩
      · rcases Option.map_eq_some_iff.mp readable with ⟨tail, read, rfl⟩
        rcases induction read with ⟨nulFree, after, rfl⟩
        exact
          ⟨(nulFree_cons_iff byte tail).mpr ⟨zero, nulFree⟩, after, rfl⟩

/-- A string ends at the first terminator. -/
theorem length_le_of_cString
    {bytes text : Bytes} (readable : cString bytes = some text)
    {i : Nat} (zero : bytes[i]? = some 0) :
    text.length ≤ i := by
  rcases exists_terminated_of_cString readable with ⟨nulFree, after, rfl⟩
  refine Nat.le_of_not_lt ?_
  intro inside
  rw [List.getElem?_append_left (by rw [length_terminated]; omega),
    terminated, List.getElem?_append_left inside] at zero
  exact nulFree (List.mem_of_getElem? zero)

/-- A string and its terminator lie inside the bytes. -/
theorem length_lt_of_cString
    {bytes text : Bytes} (readable : cString bytes = some text) :
    text.length < bytes.length := by
  rcases exists_terminated_of_cString readable with ⟨nulFree, after, rfl⟩
  rw [List.length_append, length_terminated]
  omega

/-- A string is read as soon as a terminator is inside the bytes. -/
theorem isSome_cString_iff (bytes : Bytes) :
    (cString bytes).isSome ↔ 0 ∈ bytes := by
  induction bytes with
  | nil => simp [cString]
  | cons byte rest induction =>
      rw [cString, List.mem_cons]
      split_ifs with zero
      · exact iff_of_true rfl (Or.inl zero.symm)
      · rw [Option.isSome_map, induction, or_iff_right (Ne.symm zero)]

/--
`strcmp(left, right) == 0`, given the bytes of both objects from the two
pointers on.  The comparison reads up to the first difference or the common
terminator, and is undefined when it leaves one of the objects before.
-/
def strcmpEq : Bytes → Bytes → Option Bool
  | left :: leftRest, right :: rightRest =>
      if left = right then
        if left = 0 then some true else strcmpEq leftRest rightRest
      else
        some false
  | _, _ => none

/-- A comparison is defined as soon as both objects hold a terminator. -/
theorem strcmpEq_isSome
    {left right : Bytes} (leftNul : 0 ∈ left) (rightNul : 0 ∈ right) :
    (strcmpEq left right).isSome := by
  induction left generalizing right with
  | nil => simp at leftNul
  | cons head tail induction =>
      cases right with
      | nil => simp at rightNul
      | cons byte rest =>
          rw [strcmpEq]
          split_ifs with same zero
          · rfl
          · subst same
            have nonzero : ¬ (0 : UInt8) = head := fun equal => zero equal.symm
            exact induction
              ((List.mem_cons.mp leftNul).resolve_left nonzero)
              ((List.mem_cons.mp rightNul).resolve_left nonzero)
          · rfl

theorem strcmpEq_terminated
    {left right : Bytes}
    (leftFree : NulFree left) (rightFree : NulFree right)
    (leftAfter rightAfter : Bytes) :
    strcmpEq (terminated left ++ leftAfter)
        (terminated right ++ rightAfter) =
      some (decide (left = right)) := by
  induction left generalizing right with
  | nil =>
      cases right with
      | nil => simp [terminated, strcmpEq]
      | cons byte rest =>
          rw [nulFree_cons_iff] at rightFree
          simp [terminated, strcmpEq, Ne.symm rightFree.1]
  | cons head tail induction =>
      rw [nulFree_cons_iff] at leftFree
      cases right with
      | nil => simp [terminated, strcmpEq, leftFree.1]
      | cons byte rest =>
          rw [nulFree_cons_iff] at rightFree
          have tails := induction leftFree.2 rightFree.2
          simp only [terminated, List.append_assoc, List.cons_append]
            at tails ⊢
          rw [strcmpEq, if_neg leftFree.1, tails]
          by_cases same : head = byte
          · simp [same]
          · simp [same]

/-- A comparison of two pointers compares the strings behind them. -/
theorem strcmpEq_of_cString
    {left right leftText rightText : Bytes}
    (leftRead : cString left = some leftText)
    (rightRead : cString right = some rightText) :
    strcmpEq left right = some (decide (leftText = rightText)) := by
  rcases exists_terminated_of_cString leftRead with ⟨leftFree, leftAfter, rfl⟩
  rcases exists_terminated_of_cString rightRead with
    ⟨rightFree, rightAfter, rfl⟩
  exact strcmpEq_terminated leftFree rightFree leftAfter rightAfter

end Wimp.Lib.ByteRegion
