import Mathlib.Data.List.Basic
import Mathlib.Tactic.Ring

/-!
# Words as bytes

A number in a fixed number of bytes, the lowest byte first. The bytes of a number determine it
modulo the range of that width, and every list of bytes is the bytes of its number.
-/

namespace Nobify.Lib

open List

/-- The lowest `width` bytes of a number, lowest first. -/
def wordBytes : Nat → Nat → List UInt8
  | 0, _ => []
  | width + 1, value => UInt8.ofNat value :: wordBytes width (value / 256)

/-- The number that bytes stand for, lowest first. -/
def wordValue : List UInt8 → Nat
  | [] => 0
  | byte :: rest => byte.toNat + 256 * wordValue rest

@[simp] theorem length_wordBytes (width value : Nat) : (wordBytes width value).length = width := by
  induction width generalizing value with
  | zero => rfl
  | succ width ih => rw [wordBytes, length_cons, ih]

theorem drop_wordBytes {width count : Nat} (past : width ≤ count) (value : Nat) :
    (wordBytes width value).drop count = [] := by
  apply drop_eq_nil_of_le
  rw [length_wordBytes]
  exact past

/-- Reading the bytes of a number gives the number, within its range. -/
theorem wordValue_wordBytes (width value : Nat) :
    wordValue (wordBytes width value) = value % 256 ^ width := by
  induction width generalizing value with
  | zero => simp [wordBytes, wordValue, Nat.mod_one]
  | succ width ih =>
    have low : (UInt8.ofNat value).toNat = value % 256 := by simp
    rw [wordBytes, wordValue, ih, low, Nat.pow_succ', Nat.mod_mul]

theorem wordValue_wordBytes_of_lt {width value : Nat} (fits : value < 256 ^ width) :
    wordValue (wordBytes width value) = value := by
  rw [wordValue_wordBytes, Nat.mod_eq_of_lt fits]

/-- Bytes are the bytes of their number. -/
theorem wordBytes_wordValue (bytes : List UInt8) :
    wordBytes bytes.length (wordValue bytes) = bytes := by
  induction bytes with
  | nil => rfl
  | cons byte rest ih =>
    have small := byte.toNat_lt
    have low : UInt8.ofNat (byte.toNat + 256 * wordValue rest) = byte := by
      apply UInt8.toNat_inj.mp
      rw [UInt8.toNat_ofNat']
      omega
    have high : (byte.toNat + 256 * wordValue rest) / 256 = wordValue rest := by omega
    rw [length_cons, wordValue, wordBytes, low, high, ih]

theorem wordValue_lt (bytes : List UInt8) : wordValue bytes < 256 ^ bytes.length := by
  induction bytes with
  | nil => simp [wordValue]
  | cons byte rest ih =>
    have small := byte.toNat_lt
    rw [wordValue, length_cons, Nat.pow_succ']
    omega

end Nobify.Lib
