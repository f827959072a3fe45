import Mathlib.Algebra.Order.Group.Nat

/-!
# Word arithmetic that notices wrapping

A computation on 64-bit words returns a value and whether one of its operations wrapped around on
the way. A computation is exact when it is the pure one of its value: nothing wrapped.
-/

namespace Nobify.Lib

variable {left right : UInt64}

variable {α β : Type}

/-- A value, and whether computing it wrapped around. -/
@[ext] structure Sized (α : Type) where
  value : α
  wrapped : Bool
  deriving DecidableEq

namespace Sized

instance : Monad Sized where
  pure value := ⟨value, false⟩
  bind run next := ⟨(next run.value).value, run.wrapped || (next run.value).wrapped⟩

/-- A value that is there goes on without a trace. -/
@[simp] theorem bind_pure_left (value : α) (next : α → Sized β) :
    (pure value : Sized α) >>= next = next value := rfl

/-! ## Operations -/

/-- Adding two words. -/
def add (left right : UInt64) : Sized UInt64 :=
  ⟨left + right, 2 ^ 64 ≤ left.toNat + right.toNat⟩

/-- Subtracting a word. -/
def sub (left right : UInt64) : Sized UInt64 := ⟨left - right, left < right⟩

/-- Multiplying two words. -/
def mul (left right : UInt64) : Sized UInt64 :=
  ⟨left * right, 2 ^ 64 ≤ left.toNat * right.toNat⟩

/-- A sum in range is exact. -/
theorem add_exact (fits : left.toNat + right.toNat < 2 ^ 64) :
    add left right = pure (left + right) := by
  have small : ¬ 2 ^ 64 ≤ left.toNat + right.toNat := by omega
  unfold add
  rw [decide_eq_false small]
  rfl

theorem toNat_add (fits : left.toNat + right.toNat < 2 ^ 64) :
    (left + right).toNat = left.toNat + right.toNat := by
  rw [UInt64.toNat_add]
  exact Nat.mod_eq_of_lt fits

/-- A difference in range is exact. -/
theorem sub_exact (fits : right.toNat ≤ left.toNat) : sub left right = pure (left - right) := by
  have small : ¬ left < right := by
    rw [UInt64.lt_iff_toNat_lt]
    omega
  unfold sub
  rw [decide_eq_false small]
  rfl

theorem toNat_sub (fits : right.toNat ≤ left.toNat) :
    (left - right).toNat = left.toNat - right.toNat :=
  UInt64.toNat_sub_of_le left right (UInt64.le_iff_toNat_le.mpr fits)

/-- A product in range is exact. -/
theorem mul_exact (fits : left.toNat * right.toNat < 2 ^ 64) :
    mul left right = pure (left * right) := by
  have small : ¬ 2 ^ 64 ≤ left.toNat * right.toNat := by omega
  unfold mul
  rw [decide_eq_false small]
  rfl

/-! ## Masks -/

/-- Clearing the low bits of a word rounds it down to a multiple of their power of two. -/
theorem toNat_clear (word : UInt64) (shift : Nat) (small : shift < 64) {low : UInt64}
    (mask : low.toNat = 2 ^ shift - 1) :
    (word &&& ~~~low).toNat = word.toNat / 2 ^ shift * 2 ^ shift := by
  have bound := word.toNat_lt
  have flipped : (~~~low).toNat = 2 ^ 64 - (2 ^ shift - 1 + 1) := by
    show (~~~low.toBitVec).toNat = _
    rw [BitVec.toNat_not]
    show 2 ^ 64 - 1 - low.toNat = _
    rw [mask]
    omega
  have below : 2 ^ shift - 1 < 2 ^ 64 := by
    have power : 2 ^ shift < 2 ^ 64 := Nat.pow_lt_pow_right (by decide) small
    omega
  rw [UInt64.toNat_and, flipped]
  apply Nat.eq_of_testBit_eq
  intro position
  rw [Nat.testBit_and, Nat.testBit_two_pow_sub_succ below, Nat.testBit_two_pow_sub_one,
    Nat.testBit_mul_two_pow, Nat.testBit_div_two_pow]
  by_cases high : shift ≤ position
  · have same : position - shift + shift = position := by omega
    rw [same, decide_eq_true high, decide_eq_false (by omega : ¬ position < shift)]
    by_cases inside : position < 64
    · rw [decide_eq_true inside]
      cases word.toNat.testBit position <;> rfl
    · have beyond : word.toNat < 2 ^ position :=
        Nat.lt_of_lt_of_le bound (Nat.pow_le_pow_right (by decide) (by omega))
      rw [Nat.testBit_lt_two_pow beyond]
      rfl
  · rw [decide_eq_false high, decide_eq_true (by omega : position < shift)]
    cases word.toNat.testBit position <;> simp

end Sized

end Nobify.Lib
