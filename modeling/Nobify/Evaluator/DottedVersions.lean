import Nobify.Evaluator.Numerals

/-!
# Dotted versions

A version whose parts are all numbers is a sequence of numbers, and such sequences are compared
with zeros in place of missing parts. `sv_version_cmp` goes on with an empty part where a version
has ended. An empty part is no number, and as a text it is less than any other: of two versions
that differ in nothing but trailing zeros, the one with more parts comes out greater.
-/

namespace Nobify.Evaluator

open Nobify.Lib
open List

/-- A version of decimal numbers. -/
structure DottedVersion where
  components : List StringView
  digits : ∀ component ∈ components, svIsDigits component = true

namespace DottedVersion

/-- The text of a version. -/
def text (version : DottedVersion) : StringView := ['.'].intercalate version.components

/-- The number at a position; one that is missing is zero. -/
def value (version : DottedVersion) (position : Nat) : Nat :=
  (version.components.map digitsValue).getD position 0

/-- Versions compared as sequences of numbers that go on with zeros. -/
def order (first second : DottedVersion) : Ordering :=
  paddedCmp compare 0 (first.components.map digitsValue) (second.components.map digitsValue)

/-- Two versions are equal when all their numbers are. -/
theorem order_eq_iff (first second : DottedVersion) :
    first.order second = .eq ↔ ∀ position, first.value position = second.value position := by
  unfold order value
  rw [paddedCmp_eq_iff (by decide)]
  exact forall_congr' fun position => Nat.compare_eq_eq

/-- The parts of the text are the components. -/
theorem versionParts_text (version : DottedVersion) :
    versionParts version.text = version.components := by
  obtain ⟨components, digits⟩ := version
  unfold versionParts text
  rcases eq_or_ne components [] with rfl | none
  · rfl
  · have noPoint : ∀ component ∈ components, '.' ∉ component := by
      intro component member point
      have all := (Bool.and_eq_true ..).mp (digits component member)
      have digit := all_eq_true.mp all.2 '.' point
      exact absurd digit (by decide)
    have filled : components.getLast? ≠ some [] := by
      intro last
      have member := mem_of_getLast? last
      exact absurd (digits [] member) (by decide)
    rw [splitOn_intercalate '.' noPoint none]
    exact if_neg filled

end DottedVersion

theorem svIsDigits_iff {component : StringView} :
    svIsDigits component = true ↔ component ≠ [] ∧ component.all isDigit = true := by
  unfold svIsDigits
  rw [Bool.and_eq_true, Bool.not_eq_true', isEmpty_eq_false_iff]

/-- Where one version has ended, it is less than the other. -/
theorem versionPartsCmp_ended {part : StringView} {parts : List StringView}
    (digits : svIsDigits part = true) : versionPartsCmp [] (part :: parts) = .lt := by
  obtain ⟨filled, _⟩ := (svIsDigits_iff).mp digits
  rw [versionPartsCmp, versionPartCmp_texts rfl]
  cases part with
  | nil => exact absurd rfl filled
  | cons char part => rfl

/-- Zeros are not greater than any numbers. -/
theorem paddedCmp_zeros (numbers : List Nat) : paddedCmp compare 0 [] numbers ≠ .gt := by
  induction numbers with
  | nil =>
    rw [paddedCmp]
    decide
  | cons number numbers ih =>
    rw [paddedCmp]
    cases number with
    | zero => exact ih
    | succ number => simp [Nat.compare_eq_lt.mpr (Nat.succ_pos number)]

/-- Numbers are compared as they should be, and among equal versions the one with more parts is
greater. -/
theorem versionPartsCmp_digits {left right : List StringView}
    (leftDigits : ∀ part ∈ left, svIsDigits part = true)
    (rightDigits : ∀ part ∈ right, svIsDigits part = true) :
    versionPartsCmp left right =
      (paddedCmp compare 0 (left.map digitsValue) (right.map digitsValue)).then
        (compare left.length right.length) := by
  have ended : ∀ {part : StringView} {parts : List StringView}, svIsDigits part = true →
      versionPartsCmp [] (part :: parts) =
        (paddedCmp compare 0 [] ((part :: parts).map digitsValue)).then
          (compare 0 (part :: parts).length) := by
    intro part parts digits
    have longer : compare 0 (part :: parts).length = .lt := Nat.compare_eq_lt.mpr (Nat.succ_pos _)
    rw [versionPartsCmp_ended digits, longer]
    cases zeros : paddedCmp compare 0 [] ((part :: parts).map digitsValue) with
    | lt => rfl
    | eq => rfl
    | gt => exact absurd zeros (paddedCmp_zeros _)
  induction left generalizing right with
  | nil =>
    cases right with
    | nil =>
      rw [versionPartsCmp, map_nil, paddedCmp]
      rfl
    | cons part right => exact ended (rightDigits part mem_cons_self)
  | cons part left ih =>
    cases right with
    | nil =>
      -- The comparison the other way around.
      have swapped := @ended part left (leftDigits part mem_cons_self)
      have numbers := @paddedCmp_swap Nat compare 0 (fun x y => (Nat.compare_swap x y).symm) []
        ((part :: left).map digitsValue)
      rw [versionPartsCmp_eq, paddedCmp_swap versionPartCmp_swap, ← versionPartsCmp_eq, swapped,
        Ordering.swap_then, ← numbers, Nat.compare_swap]
      rfl
    | cons other right =>
      obtain ⟨here, leftRest⟩ := forall_mem_cons.mp leftDigits
      obtain ⟨there, rightRest⟩ := forall_mem_cons.mp rightDigits
      have lengths : compare (part :: left).length (other :: right).length =
          compare left.length right.length := by
        rw [Nat.compare_eq_ite_lt, Nat.compare_eq_ite_lt]
        simp only [length_cons, Nat.add_lt_add_iff_right]
      rw [versionPartsCmp, versionPartCmp_numbers here there,
        svNumericCmpDigits_value (svIsDigits_iff.mp here).2 (svIsDigits_iff.mp there).2,
        ih leftRest rightRest, lengths, map_cons, map_cons, paddedCmp,
        Ordering.then_assoc]

/-- `sv_version_cmp` compares two dotted versions as sequences of numbers exactly when they have
the same number of parts, or differ in some number. -/
theorem svVersionCmp_dotted_iff (first second : DottedVersion) :
    svVersionCmp first.text second.text = first.order second ↔
      first.components.length = second.components.length ∨
        ∃ position, first.value position ≠ second.value position := by
  have compared : svVersionCmp first.text second.text = (first.order second).then
      (compare first.components.length second.components.length) := by
    rw [svVersionCmp, first.versionParts_text, second.versionParts_text]
    exact versionPartsCmp_digits first.digits second.digits
  by_cases same : first.order second = .eq
  · have alike := (first.order_eq_iff second).mp same
    rw [compared, same]
    constructor
    · intro lengths
      exact .inl (Nat.compare_eq_eq.mp lengths)
    · rintro (lengths | ⟨position, differ⟩)
      · exact Nat.compare_eq_eq.mpr lengths
      · exact absurd (alike position) differ
  · have differ : ∃ position, first.value position ≠ second.value position := by
      by_contra alike
      exact same ((first.order_eq_iff second).mpr fun position =>
        not_not.mp fun other => alike ⟨position, other⟩)
    rw [compared]
    refine ⟨fun _ => .inr differ, fun _ => ?_⟩
    cases known : first.order second with
    | lt => rfl
    | gt => rfl
    | eq => exact absurd known same

/-- `1` and `1.0` are the same version, and `1` comes out less. -/
theorem svVersionCmp_trailingZero :
    ∃ first second : DottedVersion, first.text = sv "1" ∧ second.text = sv "1.0" ∧
      first.order second = .eq ∧ svVersionCmp first.text second.text = .lt := by
  refine ⟨⟨[sv "1"], by decide⟩, ⟨[sv "1", sv "0"], by decide⟩, by decide, by decide, ?_, ?_⟩
  · show paddedCmp compare 0 [1] [1, 0] = .eq
    rw [paddedCmp, paddedCmp, paddedCmp]
    decide
  · rw [svVersionCmp, DottedVersion.versionParts_text, DottedVersion.versionParts_text,
      versionPartsCmp, versionPartsCmp, versionPartsCmp]
    decide

end Nobify.Evaluator
