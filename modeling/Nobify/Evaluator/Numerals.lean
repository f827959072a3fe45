import Nobify.Evaluator.VersionOrder

/-!
# Rows of digits

The value of a row of decimal digits, and how such values compare: without leading zeros a longer
row is a larger number, and rows of one length compare like texts. A printed integer is read back
by `strtol` as itself.
-/

namespace Nobify.Evaluator

open List

variable {char : Char} {digits : StringView} {value : Int}

/-! ## Values -/

/-- The digits are those that Lean prints. -/
theorem isDigit_eq (char : Char) : isDigit char = char.isDigit := by
  unfold isDigit
  rw [Bool.eq_iff_iff, Char.isDigit_iff_toNat, Bool.and_eq_true, decide_eq_true_eq,
    decide_eq_true_eq, Char.le_def, Char.le_def, UInt32.le_iff_toNat_le, UInt32.le_iff_toNat_le]
  rfl

/-- The number of a digit's character. -/
theorem toNat_of_isDigit (digit : isDigit char = true) : 48 ≤ char.toNat ∧ char.toNat ≤ 57 := by
  rw [isDigit_eq] at digit
  exact Char.isDigit_iff_toNat.mp digit

/-- A digit is no blank. -/
theorem isSpace_of_isDigit (digit : isDigit char = true) : isSpace char = false := by
  have number := toNat_of_isDigit digit
  rw [Bool.eq_false_iff]
  intro blank
  rcases (Bool.or_eq_true _ _).mp blank with same | between
  · rw [beq_iff_eq.mp same] at number
    exact absurd number (by decide)
  · have upper := of_decide_eq_true ((Bool.and_eq_true _ _).mp between).2
    have bound : char.toNat ≤ 13 := UInt32.le_iff_toNat_le.mp (Char.le_def.mp upper)
    omega

theorem allDigits_cons {digit : Char} :
    (digit :: digits).all isDigit = true ↔ isDigit digit = true ∧ digits.all isDigit = true := by
  rw [all_cons, Bool.and_eq_true]

theorem digitsValue_eq (digits : StringView) :
    digitsValue digits = Nat.ofDigitChars 10 digits 0 := rfl

theorem digitsValue_cons (digit : Char) (digits : StringView) : digitsValue (digit :: digits) =
      10 ^ digits.length * (digit.toNat - 48) + digitsValue digits := by
  rw [digitsValue_eq, digitsValue_eq, Nat.ofDigitChars_cons, Nat.ofDigitChars_eq_ofDigitChars_zero,
    Nat.mul_zero, Nat.zero_add]
  rfl

/-- A row of digits is below the power of its length. -/
theorem digitsValue_lt (all : digits.all isDigit = true) :
    digitsValue digits < 10 ^ digits.length := by
  induction digits with
  | nil => decide
  | cons digit digits ih =>
    obtain ⟨here, rest⟩ := (allDigits_cons).mp all
    have below := ih rest
    have bound := (toNat_of_isDigit here).2
    have scaled : 10 ^ digits.length * (digit.toNat - 48) ≤ 10 ^ digits.length * 9 :=
      Nat.mul_le_mul_left _ (by omega)
    rw [digitsValue_cons, length_cons, Nat.pow_succ]
    omega

/-- Leading zeros do not count. -/
theorem digitsValue_dropZeros (digits : StringView) :
    digitsValue (digits.dropWhile (· == '0')) = digitsValue digits := by
  induction digits with
  | nil => rfl
  | cons digit digits ih =>
    by_cases zero : digit = '0'
    · rw [zero, dropWhile_cons_of_pos (by decide), ih, digitsValue_cons]
      simp
    · rw [dropWhile_cons_of_neg (by simpa using zero)]

/-- A row that does not start with a zero is at least the power of the length behind. -/
theorem le_digitsValue {digit : Char} (here : isDigit digit = true) (positive : digit ≠ '0') :
    10 ^ digits.length ≤ digitsValue (digit :: digits) := by
  have bound := (toNat_of_isDigit here).1
  have other : digit.toNat ≠ 48 := fun same => positive (Char.toNat_inj.mp same)
  have scaled : 10 ^ digits.length * 1 ≤ 10 ^ digits.length * (digit.toNat - 48) :=
    Nat.mul_le_mul_left _ (by omega)
  rw [digitsValue_cons]
  omega

/-! ## Comparisons -/

/-- Rows of one length compare like texts. -/
theorem svLexCmp_digits {left right : StringView} (leftDigits : left.all isDigit = true)
    (rightDigits : right.all isDigit = true) (same : left.length = right.length) :
    svLexCmp left right = compare (digitsValue left) (digitsValue right) := by
  induction left generalizing right with
  | nil =>
    obtain rfl := length_eq_zero_iff.mp same.symm
    rfl
  | cons first left ih =>
    cases right with
    | nil => cases same
    | cons second right =>
      have lengths : left.length = right.length := Nat.succ.inj same
      obtain ⟨firstDigit, leftRest⟩ := (allDigits_cons).mp leftDigits
      obtain ⟨secondDigit, rightRest⟩ := (allDigits_cons).mp rightDigits
      have firstBound := toNat_of_isDigit firstDigit
      have secondBound := toNat_of_isDigit secondDigit
      have leftBelow := digitsValue_lt leftRest
      have rightBelow := digitsValue_lt rightRest
      rw [svLexCmp, digitsValue_cons, digitsValue_cons, ← lengths]
      rw [← lengths] at rightBelow
      by_cases less : first.toNat < second.toNat
      · have gap : 10 ^ left.length * (first.toNat - 48 + 1) ≤
            10 ^ left.length * (second.toNat - 48) := Nat.mul_le_mul_left _ (by omega)
        rw [Nat.mul_add] at gap
        rw [if_pos less, eq_comm, Nat.compare_eq_lt]
        omega
      · rw [if_neg less]
        by_cases greater : second.toNat < first.toNat
        · have gap : 10 ^ left.length * (second.toNat - 48 + 1) ≤
              10 ^ left.length * (first.toNat - 48) := Nat.mul_le_mul_left _ (by omega)
          rw [Nat.mul_add] at gap
          rw [if_pos greater, eq_comm, Nat.compare_eq_gt]
          omega
        · have equal : first.toNat = second.toNat := by omega
          rw [if_neg greater, ih leftRest rightRest lengths, equal, Nat.compare_eq_ite_lt,
            Nat.compare_eq_ite_lt]
          simp only [Nat.add_lt_add_iff_left]

/-- A row without leading zeros that is longer is larger. -/
theorem digitsValue_longer {short long : StringView} (shortDigits : short.all isDigit = true)
    (longDigits : long.all isDigit = true) (longer : short.length < long.length)
    (positive : ∀ digit ∈ long.head?, digit ≠ '0') : digitsValue short < digitsValue long := by
  cases long with
  | nil => cases longer
  | cons digit digits =>
    obtain ⟨here, _⟩ := (allDigits_cons).mp longDigits
    have low := digitsValue_lt shortDigits
    have high := @le_digitsValue digits digit here (positive digit rfl)
    have bound : short.length ≤ digits.length := Nat.le_of_lt_succ longer
    have powers : 10 ^ short.length ≤ 10 ^ digits.length := Nat.pow_le_pow_right (by decide) bound
    omega

/-- Numbers of any length are compared by their values. -/
theorem svNumericCmpDigits_value {left right : StringView} (leftDigits : left.all isDigit = true)
    (rightDigits : right.all isDigit = true) :
    svNumericCmpDigits left right = compare (digitsValue left) (digitsValue right) := by
  have stripped : ∀ {digits : StringView}, digits.all isDigit = true →
      (digits.dropWhile (· == '0')).all isDigit = true ∧
        ∀ digit ∈ (digits.dropWhile (· == '0')).head?, digit ≠ '0' := by
    intro digits all
    refine ⟨?_, ?_⟩
    · rw [all_eq_true] at all ⊢
      exact fun digit member => all digit ((dropWhile_sublist _).mem member)
    · intro digit head
      have kept := List.head?_dropWhile_not (· == '0') digits
      rw [head] at kept
      simpa using kept
  obtain ⟨leftAll, leftHead⟩ := stripped leftDigits
  obtain ⟨rightAll, rightHead⟩ := stripped rightDigits
  rw [svNumericCmpDigits, ← digitsValue_dropZeros left, ← digitsValue_dropZeros right]
  by_cases less : (left.dropWhile (· == '0')).length < (right.dropWhile (· == '0')).length
  · rw [if_pos less, eq_comm, Nat.compare_eq_lt]
    exact digitsValue_longer leftAll rightAll less rightHead
  · rw [if_neg less]
    by_cases greater : (right.dropWhile (· == '0')).length < (left.dropWhile (· == '0')).length
    · rw [if_pos greater, eq_comm, Nat.compare_eq_gt]
      exact digitsValue_longer rightAll leftAll greater leftHead
    · rw [if_neg greater]
      exact svLexCmp_digits leftAll rightAll (by omega)

/-! ## Printing -/

/-- The values of a 64-bit `long`. -/
def InLong (value : Int) : Prop := -(2 ^ 63) ≤ value ∧ value < 2 ^ 63

instance (value : Int) : Decidable (InLong value) := inferInstanceAs (Decidable (_ ∧ _))

/-- `snprintf` with `%ld` and `%lld`. -/
def showLong (value : Int) : StringView :=
  if value < 0 then '-' :: Nat.toDigits 10 value.natAbs else Nat.toDigits 10 value.natAbs

theorem all_isDigit_toDigits (number : Nat) : (Nat.toDigits 10 number).all isDigit = true := by
  rw [all_eq_true]
  intro digit member
  rw [isDigit_eq]
  exact Nat.isDigit_of_mem_toDigits (by decide) (by decide) member

theorem digitsValue_toDigits (number : Nat) : digitsValue (Nat.toDigits 10 number) = number :=
  Nat.ofDigitChars_ten_toDigits

/-- A printed `long` has at most twenty characters. -/
theorem length_showLong (long : InLong value) : (showLong value).length ≤ 20 := by
  have bound : value.natAbs < 10 ^ 19 := by
    unfold InLong at long
    omega
  have digits : (Nat.toDigits 10 value.natAbs).length ≤ 19 :=
    (Nat.length_toDigits_le_iff (by decide) (by decide)).mpr bound
  unfold showLong
  split
  · rw [length_cons]
    omega
  · omega

theorem showLong_ne_nil (value : Int) : showLong value ≠ [] := by
  unfold showLong
  split
  · exact cons_ne_nil _ _
  · exact Nat.toDigits_ne_nil

/-- What is printed is digits, with a sign at most. -/
theorem mem_showLong (member : char ∈ showLong value) : char = '-' ∨ isDigit char = true := by
  have digits := all_eq_true.mp (all_isDigit_toDigits value.natAbs)
  unfold showLong at member
  split at member
  · rcases mem_cons.mp member with sign | digit
    · exact .inl sign
    · exact .inr (digits char digit)
  · exact .inr (digits char member)

/-- Digits start with neither a blank nor a sign. -/
theorem takeSign_digits (all : digits.all isDigit = true) :
    takeSign (digits.dropWhile isSpace) = (false, digits) := by
  cases digits with
  | nil => rfl
  | cons digit digits =>
    have here := (allDigits_cons.mp all).1
    have number := toNat_of_isDigit here
    have visible : isSpace digit = false := isSpace_of_isDigit here
    rw [dropWhile_cons_of_neg (by rw [visible]; decide)]
    unfold takeSign
    split
    · rename_i same
      rw [(List.cons.inj same).1] at number
      exact absurd number (by decide)
    · rename_i same
      rw [(List.cons.inj same).1] at number
      exact absurd number (by decide)
    · rfl

/-- A printed `long` is read back. -/
theorem strtol_showLong (long : InLong value) : strtol (showLong value) = some value := by
  have all := all_isDigit_toDigits value.natAbs
  have filled : Nat.toDigits 10 value.natAbs ≠ [] := Nat.toDigits_ne_nil
  have clamped : max (-(2 ^ 63)) (min value (2 ^ 63 - 1)) = value := by
    unfold InLong at long
    omega
  unfold strtol showLong
  by_cases negative : value < 0
  · have sign : takeSign (('-' :: Nat.toDigits 10 value.natAbs).dropWhile isSpace) =
        (true, Nat.toDigits 10 value.natAbs) := rfl
    have magnitude : -(value.natAbs : Int) = value := by omega
    rw [if_pos negative, sign]
    simp only [filled, all, false_or, if_true, Bool.true_eq_false, if_false,
      digitsValue_toDigits, magnitude, clamped]
  · have magnitude : (value.natAbs : Int) = value := by omega
    rw [if_neg negative, takeSign_digits all]
    simp only [filled, all, false_or, Bool.false_eq_true, Bool.true_eq_false, if_false,
      digitsValue_toDigits, magnitude, clamped]

end Nobify.Evaluator
