import Wimp.Log
import Mathlib.Tactic.IntervalCases

/-!
# The widths of numbers

`format_string` moves its cursor behind a number by the digits which it counts
in comparisons.  The octal and the hexadecimal count are right for every
argument.  The decimal one loses the digits of the least signed number, and it
takes an unsigned number for a signed one.
-/

namespace Wimp.Log

open Wimp.Lib.ByteRegion

/-! ## The digits of a number -/

/-- A digit of a number is a digit of its base. -/
theorem exists_digitChar_of_mem
    {base number : Nat} (large : 1 < base) {digit : Char}
    (member : digit ∈ Nat.toDigits base number) :
    ∃ value < base, digit = Nat.digitChar value := by
  induction number using Nat.strong_induction_on with
  | _ number induction =>
      rw [Nat.toDigits_eq_if large] at member
      split_ifs at member with small
      · exact ⟨number, small, List.mem_singleton.mp member⟩
      · rcases List.mem_append.mp member with front | last
        · exact induction _ (Nat.div_lt_self (by omega) large) front
        · exact ⟨_, Nat.mod_lt _ (by omega), List.mem_singleton.mp last⟩

/-- No digit is a terminator. -/
theorem nulFree_digits
    {base : Nat} (large : 1 < base) (small : base ≤ 16) (number : Nat) :
    NulFree (digits base number) := by
  intro zero
  rcases List.mem_map.mp zero with ⟨digit, member, code⟩
  rcases exists_digitChar_of_mem large member with ⟨value, below, rfl⟩
  have range : value < 16 := by omega
  interval_cases value <;> exact absurd code (by decide)

theorem digits_ne_nil (base number : Nat) : digits base number ≠ [] := by
  simp [digits]

theorem length_digits (base number : Nat) :
    (digits base number).length = (Nat.toDigits base number).length :=
  List.length_map _

/-- A number has at most as many digits as its bound has zeroes. -/
theorem length_digits_le_iff
    {base : Nat} (large : 1 < base) {count : Nat} (positive : 0 < count)
    (number : Nat) :
    (digits base number).length ≤ count ↔ number < base ^ count := by
  rw [length_digits]
  exact Nat.length_toDigits_le_iff large positive

/-- Counting the powers of the base below a number counts its digits. -/
theorem reached_powers
    {base : Nat} (large : 1 < base) (number count : Nat) :
    1 + reached number
        ((List.range count).map fun i => (base : Int) ^ (i + 1)) =
      min (count + 1) (digits base number).length := by
  induction count with
  | zero =>
      have positive : 0 < (digits base number).length :=
        List.length_pos_iff.mpr (digits_ne_nil base number)
      simp only [reached, List.range_zero, List.map_nil, List.countP_nil]
      omega
  | succ count induction =>
      have bounded :
          (digits base number).length ≤ count + 1 ↔
            number < base ^ (count + 1) :=
        length_digits_le_iff large (Nat.succ_pos count) number
      rw [reached] at induction ⊢
      rw [List.range_succ, List.map_append, List.countP_append,
        ← Nat.add_assoc, induction, List.map_singleton,
        List.countP_singleton]
      have cast :
          decide ((base : Int) ^ (count + 1) ≤ number) =
            decide (base ^ (count + 1) ≤ number) := by
        apply decide_eq_decide.mpr
        exact_mod_cast Iff.rfl
      rw [cast]
      by_cases more : base ^ (count + 1) ≤ number
      · rw [if_pos (decide_eq_true more)]
        omega
      · rw [if_neg (by simpa using more)]
        omega

/-- Nine comparisons count the digits of a signed number. -/
theorem reached_dec
    {number : Nat} (small : number < 10 ^ 10) :
    1 + reached number
        [10, 100, 1000, 10000, 100000, 1000000, 10000000, 100000000,
          1000000000] =
      (digits 10 number).length := by
  have powers := @reached_powers 10 (by decide) number 9
  have few := (length_digits_le_iff (by decide) (by decide) number).mpr small
  have bounds :
      ((List.range 9).map fun i => ((10 : Nat) : Int) ^ (i + 1)) =
        [10, 100, 1000, 10000, 100000, 1000000, 10000000, 100000000,
          1000000000] := by
    decide
  rw [bounds] at powers
  omega

theorem toInt_mul_neg_one
    {var : BitVec 32} (notLeast : var.toInt ≠ -2 ^ 31) :
    (var * -1).toInt = -var.toInt := by
  have lower := BitVec.le_toInt var
  have upper := BitVec.toInt_lt (x := var)
  have minus : (-1 : BitVec 32).toInt = -1 := by decide
  rw [BitVec.toInt_mul, minus, Int.bmod_eq_of_le]
  · omega
  · omega
  · omega

theorem not_neg_iff (var : BitVec 32) :
    ¬ var.toInt < 0 ↔ var.toNat < 2 ^ 31 := by
  have bound := var.isLt
  rw [BitVec.toInt_eq_toNat_cond]
  split_ifs <;> omega

theorem toInt_of_neg {var : BitVec 32} (negative : var.toInt < 0) :
    var.toInt = (var.toNat : Int) - 2 ^ 32 := by
  have upper : ¬ var.toNat < 2 ^ 31 := fun small =>
    (not_neg_iff var).mpr small negative
  rw [BitVec.toInt_eq_toNat_cond, if_neg (by omega)]
  rfl

theorem toInt_of_not_neg {var : BitVec 32} (positive : ¬ var.toInt < 0) :
    var.toInt = var.toNat := by
  have small := (not_neg_iff var).mp positive
  rw [BitVec.toInt_eq_toNat_cond, if_pos (by omega)]

/-- The width counts the sign and the digits of the absolute value. -/
theorem getCharWidthDec_eq
    {var : BitVec 32} (notLeast : var.toInt ≠ -2 ^ 31) :
    getCharWidthDec var =
      (if var.toInt < 0 then 1 else 0) +
        (digits 10 var.toInt.natAbs).length := by
  have lower := BitVec.le_toInt var
  have upper := BitVec.toInt_lt (x := var)
  have small : var.toInt.natAbs < 10 ^ 10 := by omega
  have noSign :
      (if var.toInt < 0 then (var * -1).toInt else var.toInt) =
        (var.toInt.natAbs : Int) := by
    rw [toInt_mul_neg_one notLeast]
    split_ifs <;> omega
  rw [← reached_dec small, getCharWidthDec, noSign]
  omega

/-- The width of a signed number is wrong for the least one alone. -/
theorem getCharWidthDec_decimal_iff (var : BitVec 32) :
    getCharWidthDec var = (decimalText var).length ↔
      var.toInt ≠ -2 ^ 31 := by
  constructor
  · intro counted least
    have value : var = BitVec.intMin 32 :=
      BitVec.toInt_inj.mp (least.trans (by decide))
    subst value
    revert counted
    decide +kernel
  · intro notLeast
    rw [getCharWidthDec_eq notLeast, decimalText]
    split_ifs
    · rw [List.length_cons, Nat.add_comm]
    · rw [Nat.zero_add]

/-- A width never passes more than the digits of a signed number. -/
theorem getCharWidthDec_decimal_le (var : BitVec 32) :
    getCharWidthDec var ≤ (decimalText var).length := by
  by_cases least : var.toInt = -2 ^ 31
  · have value : var = BitVec.intMin 32 :=
      BitVec.toInt_inj.mp (least.trans (by decide))
    subst value
    decide +kernel
  · exact ((getCharWidthDec_decimal_iff var).mpr least).le

/-- A number has so many digits between two powers of the base. -/
theorem length_digits_eq_iff
    {base : Nat} (large : 1 < base) {count : Nat} (positive : 0 < count)
    (number : Nat) :
    (digits base number).length = count + 1 ↔
      base ^ count ≤ number ∧ number < base ^ (count + 1) := by
  have more := length_digits_le_iff large positive number
  have fewer :
      (digits base number).length ≤ count + 1 ↔
        number < base ^ (count + 1) :=
    length_digits_le_iff large (Nat.succ_pos count) number
  omega

/-- The upper half of the unsigned numbers has ten digits. -/
theorem length_unsignedText_of_neg
    {var : BitVec 32} (negative : var.toInt < 0) :
    (unsignedText var).length = 10 := by
  have bound := var.isLt
  have upper : ¬ var.toNat < 2 ^ 31 := fun small =>
    (not_neg_iff var).mpr small negative
  exact (length_digits_eq_iff (by decide) (by decide) var.toNat).mpr
    (by omega)

/-- The numbers from `2^31` on whose distance to `2^32` has nine digits. -/
def NineBelow (var : BitVec 32) : Prop :=
  3294967297 ≤ var.toNat ∧ var.toNat ≤ 4194967296

instance (var : BitVec 32) : Decidable (NineBelow var) :=
  inferInstanceAs (Decidable (_ ∧ _))

/--
An unsigned number is counted as a signed one.  From `2^31` on, the count is
the sign and the digits of the distance to `2^32`.
-/
theorem getCharWidthDec_unsigned_iff (var : BitVec 32) :
    getCharWidthDec var = (unsignedText var).length ↔
      var.toNat < 2 ^ 31 ∨ NineBelow var := by
  have bound := var.isLt
  by_cases negative : var.toInt < 0
  · have upper : ¬ var.toNat < 2 ^ 31 := fun small =>
      (not_neg_iff var).mpr small negative
    rw [length_unsignedText_of_neg negative, or_iff_right upper]
    by_cases least : var.toInt = -2 ^ 31
    · have value : var = BitVec.intMin 32 :=
        BitVec.toInt_inj.mp (least.trans (by decide))
      subst value
      decide +kernel
    · have nine :=
        @length_digits_eq_iff 10 (by decide) 8 (by decide)
          var.toInt.natAbs
      have distance := toInt_of_neg negative
      rw [getCharWidthDec_eq least, if_pos negative, NineBelow]
      omega
  · have small := (not_neg_iff var).mp negative
    have number := toInt_of_not_neg negative
    have absolute : var.toInt.natAbs = var.toNat := by omega
    refine iff_of_true ?_ (Or.inl small)
    rw [getCharWidthDec_eq (by omega), if_neg negative, absolute,
      Nat.zero_add]
    rfl

/-- Nor does it pass more than the terminator behind an unsigned number. -/
theorem getCharWidthDec_unsigned_le (var : BitVec 32) :
    getCharWidthDec var ≤ (unsignedText var).length + 1 := by
  by_cases negative : var.toInt < 0
  · rw [length_unsignedText_of_neg negative]
    have counted :
        reached
            (if var.toInt < 0 then (var * -1).toInt else var.toInt)
            [10, 100, 1000, 10000, 100000, 1000000, 10000000, 100000000,
              1000000000] ≤ 9 :=
      List.countP_le_length
    simp only [getCharWidthDec, if_pos negative] at counted ⊢
    omega
  · have small := (not_neg_iff var).mp negative
    rw [(getCharWidthDec_unsigned_iff var).mpr (Or.inl small)]
    exact Nat.le_succ _

/-- The octal width counts the octal digits. -/
theorem getCharWidthOct_eq (var : BitVec 32) :
    getCharWidthOct var = (octText var).length := by
  have bound := var.isLt
  by_cases negative : var.toInt < 0
  · have upper : ¬ var.toNat < 2 ^ 31 := fun small =>
      (not_neg_iff var).mpr small negative
    rw [getCharWidthOct, if_pos negative]
    exact
      ((length_digits_eq_iff (by decide) (by decide) var.toNat).mpr
        (by omega)).symm
  · have small := (not_neg_iff var).mp negative
    have powers := @reached_powers 8 (by decide) var.toNat 10
    have few : (digits 8 var.toNat).length ≤ 11 :=
      (length_digits_le_iff (by decide) (by decide) var.toNat).mpr (by omega)
    have bounds :
        ((List.range 10).map fun i => ((8 : Nat) : Int) ^ (i + 1)) =
          [8, 8 ^ 2, 8 ^ 3, 8 ^ 4, 8 ^ 5, 8 ^ 6, 8 ^ 7, 8 ^ 8, 8 ^ 9,
            8 ^ 10] := by
      decide
    rw [bounds] at powers
    rw [getCharWidthOct, if_neg negative, toInt_of_not_neg negative, octText]
    omega

/-- The hexadecimal width counts the hexadecimal digits. -/
theorem getCharWidthHex_eq (var : BitVec 32) :
    getCharWidthHex var = (hexText var).length := by
  have bound := var.isLt
  by_cases negative : var.toInt < 0
  · have upper : ¬ var.toNat < 2 ^ 31 := fun small =>
      (not_neg_iff var).mpr small negative
    rw [getCharWidthHex, if_pos negative]
    exact
      ((length_digits_eq_iff (by decide) (by decide) var.toNat).mpr
        (by omega)).symm
  · have small := (not_neg_iff var).mp negative
    have powers := @reached_powers 16 (by decide) var.toNat 7
    have few : (digits 16 var.toNat).length ≤ 8 :=
      (length_digits_le_iff (by decide) (by decide) var.toNat).mpr (by omega)
    have bounds :
        ((List.range 7).map fun i => ((16 : Nat) : Int) ^ (i + 1)) =
          [16, 16 ^ 2, 16 ^ 3, 16 ^ 4, 16 ^ 5, 16 ^ 6, 16 ^ 7] := by
      decide
    rw [bounds] at powers
    rw [getCharWidthHex, if_neg negative, toInt_of_not_neg negative, hexText]
    omega

end Wimp.Log
