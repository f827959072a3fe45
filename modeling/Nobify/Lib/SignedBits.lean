import Mathlib.Data.Int.Bitwise

/-!
# Bits of signed words

A signed word in two's complement is an integer, and what the operators do to the bits of words
they do to the bits of these integers, in which the sign goes on without end. The bits of an integer
from some place on are equal exactly when it fits below that place.
-/

namespace Nobify.Lib

/-! ## Bits of integers -/

/-- The integer is a signed word with so many bits below the sign. -/
def FitsBits (width : Nat) (value : Int) : Prop := -(2 ^ width) ≤ value ∧ value < 2 ^ width

theorem fitsBits_ofNat {width n : Nat} : FitsBits width (n : Int) ↔ n < 2 ^ width := by
  have power : ((2 ^ width : Nat) : Int) = 2 ^ width := Int.natCast_pow 2 width
  unfold FitsBits
  omega

theorem fitsBits_negSucc {width n : Nat} : FitsBits width (Int.negSucc n) ↔ n < 2 ^ width := by
  have power : ((2 ^ width : Nat) : Int) = 2 ^ width := Int.natCast_pow 2 width
  unfold FitsBits
  omega

/-- A natural number fits below a place from which on its bits are equal. -/
theorem lt_two_pow_iff {width n : Nat} :
    n < 2 ^ width ↔ ∀ place, width ≤ place → n.testBit place = n.testBit width := by
  constructor
  · intro small place high
    have larger : 2 ^ width ≤ 2 ^ place := Nat.pow_le_pow_right (by decide) high
    rw [Nat.testBit_lt_two_pow small, Nat.testBit_lt_two_pow (Nat.lt_of_lt_of_le small larger)]
  · intro same
    have top : n < 2 ^ (width + n) := by
      have power := Nat.lt_two_pow_self (n := n)
      have larger : 2 ^ n ≤ 2 ^ (width + n) := Nat.pow_le_pow_right (by decide) (by omega)
      omega
    have clear : n.testBit width = false := by
      rw [← same (width + n) (by omega)]
      exact Nat.testBit_lt_two_pow top
    apply Nat.lt_pow_two_of_testBit
    intro place high
    rw [same place high, clear]

variable {value : Int}

/-- An integer is a signed word when its bits are equal from the sign on. -/
theorem fitsBits_iff {width : Nat} : FitsBits width value ↔
      ∀ place, width ≤ place → value.testBit place = value.testBit width := by
  cases value with
  | ofNat n => exact (fitsBits_ofNat).trans lt_two_pow_iff
  | negSucc n =>
    rw [fitsBits_negSucc, lt_two_pow_iff]
    show _ ↔ ∀ place, width ≤ place → (!n.testBit place) = !n.testBit width
    simp only [Bool.not_inj_iff]

/-- What is made of signed words bit by bit is one. -/
theorem FitsBits.bitwise {width : Nat} {left right : Int} (first : FitsBits width left)
    (second : FitsBits width right) (f : Bool → Bool → Bool) :
    FitsBits width (Int.bitwise f left right) := by
  rw [fitsBits_iff] at first second ⊢
  intro place high
  rw [Int.testBit_bitwise, Int.testBit_bitwise, first place high, second place high]

/-! ## Words -/

theorem getLsbD_ofInt (width : Nat) (value : Int) (place : Nat) :
    (BitVec.ofInt width value).getLsbD place = (decide (place < width) && value.testBit place) := by
  cases value with
  | ofNat n =>
    rw [Int.ofNat_eq_natCast, BitVec.ofInt_natCast, BitVec.getLsbD_ofNat]
    rfl
  | negSucc n =>
    rw [BitVec.ofInt_negSucc_eq_not_ofNat, BitVec.getLsbD_not, BitVec.getLsbD_ofNat]
    by_cases inside : place < width
    · simp [inside, Int.testBit]
    · simp [inside]

theorem toInt_ofInt_fits {width : Nat} (fits : FitsBits width value) :
    (BitVec.ofInt (width + 1) value).toInt = value :=
  BitVec.toInt_ofInt_eq_self (Nat.succ_pos width) fits.1 fits.2

/-- An operator on the bits of words is the operator on the bits of the integers. -/
theorem toInt_bitwise {width : Nat} {left right : Int} (first : FitsBits width left)
    (second : FitsBits width right) {f : Bool → Bool → Bool} {word : BitVec (width + 1)}
    (bits : ∀ place, place < width + 1 → word.getLsbD place =
      f ((BitVec.ofInt (width + 1) left).getLsbD place)
        ((BitVec.ofInt (width + 1) right).getLsbD place)) :
    word.toInt = Int.bitwise f left right := by
  have same : word = BitVec.ofInt (width + 1) (Int.bitwise f left right) := by
    apply BitVec.eq_of_getLsbD_eq
    intro place inside
    rw [bits place inside, getLsbD_ofInt, getLsbD_ofInt, getLsbD_ofInt, Int.testBit_bitwise]
    simp only [inside, decide_true, Bool.true_and]
  rw [same, toInt_ofInt_fits (first.bitwise second f)]

section Words

variable {width : Nat} {left right : Int} (first : FitsBits width left)
  (second : FitsBits width right)

include first second

theorem toInt_and_ofInt : (BitVec.ofInt (width + 1) left &&& BitVec.ofInt (width + 1) right).toInt =
      Int.land left right := by
  rw [← Int.bitwise_and]
  exact toInt_bitwise first second fun place _ => BitVec.getLsbD_and

theorem toInt_or_ofInt : (BitVec.ofInt (width + 1) left ||| BitVec.ofInt (width + 1) right).toInt =
      Int.lor left right := by
  rw [← Int.bitwise_or]
  exact toInt_bitwise first second fun place _ => BitVec.getLsbD_or

theorem toInt_xor_ofInt : (BitVec.ofInt (width + 1) left ^^^ BitVec.ofInt (width + 1) right).toInt =
      Int.xor left right := by
  rw [← Int.bitwise_xor]
  exact toInt_bitwise first second fun place _ => BitVec.getLsbD_xor

end Words

/-- The complement of a word. -/
theorem toInt_not_ofInt {width : Nat} (fits : FitsBits width value) :
    (~~~BitVec.ofInt (width + 1) value).toInt = -value - 1 := by
  cases value with
  | ofNat n =>
    have small := (fitsBits_ofNat).mp fits
    rw [Int.ofNat_eq_natCast, BitVec.ofInt_natCast, ← BitVec.ofInt_negSucc_eq_not_ofNat,
      toInt_ofInt_fits (fitsBits_negSucc.mpr small)]
    omega
  | negSucc n =>
    have small := (fitsBits_negSucc).mp fits
    rw [BitVec.ofInt_negSucc_eq_not_ofNat, BitVec.not_not, ← BitVec.ofInt_natCast,
      toInt_ofInt_fits (fitsBits_ofNat.mpr small)]
    omega

/-- A shift to the left multiplies when the product is a signed word. -/
theorem toInt_shiftLeft_ofInt {width count : Nat} (fits : FitsBits width (value * 2 ^ count)) :
    (BitVec.ofInt (width + 1) value <<< count).toInt = value * 2 ^ count := by
  have same : BitVec.ofInt (width + 1) value <<< count =
      BitVec.ofInt (width + 1) (value * 2 ^ count) := by
    have power : BitVec.twoPow (width + 1) count = BitVec.ofInt (width + 1) (2 ^ count) := by
      have natural : ((2 ^ count : Nat) : Int) = 2 ^ count := Int.natCast_pow 2 count
      rw [← natural, BitVec.ofInt_natCast]
      apply BitVec.eq_of_toNat_eq
      rw [BitVec.toNat_twoPow, BitVec.toNat_ofNat]
    rw [BitVec.shiftLeft_eq_mul_twoPow, power, BitVec.ofInt_mul]
  rw [same, toInt_ofInt_fits fits]

/-- An arithmetic shift to the right divides and rounds down. -/
theorem toInt_sshiftRight_ofInt {width : Nat} (fits : FitsBits width value) (count : Nat) :
    ((BitVec.ofInt (width + 1) value).sshiftRight count).toInt = value / 2 ^ count := by
  rw [BitVec.toInt_sshiftRight, toInt_ofInt_fits fits, Int.shiftRight_eq_div_pow]
  rfl

end Nobify.Lib
