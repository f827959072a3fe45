import Nobify.Lib.PaddedLex
import Nobify.Evaluator.Compare
import Mathlib.Data.Char

/-!
# The order of versions

Two parts of a version are compared as numbers when both are numbers and as texts when one of them
is not. Both comparisons are orders, but together they need not be: a text can lie between two
numbers in the order of texts that the order of numbers puts the other way around. Where that does
not happen versions are ordered.
-/

namespace Nobify.Evaluator

open Nobify.Lib

variable {left right : StringView}

/-! ## Texts and numbers -/

/-- Texts are compared by the numbers of their characters. -/
theorem svLexCmp_eq (left right : StringView) :
    svLexCmp left right = List.compareLex (compareOn Char.toNat) left right := by
  induction left generalizing right with
  | nil =>
    cases right with
    | nil => rfl
    | cons char right => rfl
  | cons first left ih =>
    cases right with
    | nil => rfl
    | cons second right =>
      rw [svLexCmp, List.compareLex_cons_cons, ih, compareOn]
      by_cases less : first.toNat < second.toNat
      · rw [if_pos less, Nat.compare_eq_lt.mpr less]
        rfl
      · rw [if_neg less]
        by_cases greater : second.toNat < first.toNat
        · rw [if_pos greater, Nat.compare_eq_gt.mpr greater]
          rfl
        · have same : first.toNat = second.toNat := by omega
          rw [if_neg greater, Nat.compare_eq_eq.mpr same]
          rfl

instance : Std.TransCmp svLexCmp := by
  have same : svLexCmp = List.compareLex (compareOn Char.toNat) :=
    funext fun left => funext fun right => svLexCmp_eq left right
  rw [same]
  infer_instance

/-- Only equal texts compare as equal. -/
theorem svLexCmp_eq_eq (same : svLexCmp left right = .eq) : left = right := by
  induction left generalizing right with
  | nil =>
    cases right with
    | nil => rfl
    | cons char right => cases same
  | cons first left ih =>
    cases right with
    | nil => cases same
    | cons second right =>
      rw [svLexCmp] at same
      by_cases less : first.toNat < second.toNat
      · rw [if_pos less] at same
        cases same
      rw [if_neg less] at same
      by_cases greater : second.toNat < first.toNat
      · rw [if_pos greater] at same
        cases same
      rw [if_neg greater] at same
      have chars : first = second := Char.toNat_inj.mp (by omega)
      rw [chars, ih same]

/-- The key by which numbers are compared: without leading zeros, first by length. -/
theorem svNumericCmpDigits_eq (left right : StringView) : svNumericCmpDigits left right =
      compareLex (compareOn List.length) svLexCmp (left.dropWhile (· == '0'))
        (right.dropWhile (· == '0')) := by
  unfold svNumericCmpDigits compareLex compareOn
  dsimp only
  by_cases less : (left.dropWhile (· == '0')).length < (right.dropWhile (· == '0')).length
  · rw [if_pos less, Nat.compare_eq_lt.mpr less]
    rfl
  · rw [if_neg less]
    by_cases greater : (right.dropWhile (· == '0')).length < (left.dropWhile (· == '0')).length
    · rw [if_pos greater, Nat.compare_eq_gt.mpr greater]
      rfl
    · have same : (left.dropWhile (· == '0')).length = (right.dropWhile (· == '0')).length := by
        omega
      rw [if_neg greater, Nat.compare_eq_eq.mpr same]
      rfl

theorem svNumericCmpDigits_swap (left right : StringView) :
    svNumericCmpDigits right left = (svNumericCmpDigits left right).swap := by
  rw [svNumericCmpDigits_eq, svNumericCmpDigits_eq]
  exact Std.OrientedCmp.eq_swap

theorem svNumericCmpDigits_chains (first second third : StringView) :
    Chains svNumericCmpDigits first second third := by
  unfold Chains
  rw [svNumericCmpDigits_eq, svNumericCmpDigits_eq, svNumericCmpDigits_eq]
  exact @chains_of_transCmp _ (compareLex (compareOn List.length) svLexCmp) _ _ _ _

/-! ## Parts -/

theorem versionPartCmp_swap (left right : StringView) :
    versionPartCmp right left = (versionPartCmp left right).swap := by
  unfold versionPartCmp
  rw [Bool.and_comm]
  by_cases numbers : (svIsDigits left && svIsDigits right) = true
  · rw [if_pos numbers, if_pos numbers]
    exact svNumericCmpDigits_swap left right
  · rw [if_neg numbers, if_neg numbers]
    exact Std.OrientedCmp.eq_swap

theorem versionPartCmp_numbers (leftDigits : svIsDigits left = true)
    (rightDigits : svIsDigits right = true) :
    versionPartCmp left right = svNumericCmpDigits left right := by
  rw [versionPartCmp, leftDigits, rightDigits]
  rfl

theorem versionPartCmp_texts (mixed : (svIsDigits left && svIsDigits right) = false) :
    versionPartCmp left right = svLexCmp left right := by
  rw [versionPartCmp, mixed]
  rfl

/-- A number and a text are told apart, so one of them is less. -/
theorem svLexCmp_mixed (mixed : svIsDigits left ≠ svIsDigits right) :
    svLexCmp left right = .lt ∨ svLexCmp left right = .gt ∧ svLexCmp right left = .lt := by
  cases known : svLexCmp left right with
  | lt => exact Or.inl rfl
  | gt => exact Or.inr ⟨rfl, Std.OrientedCmp.lt_of_gt known⟩
  | eq =>
    rw [svLexCmp_eq_eq known] at mixed
    exact absurd rfl mixed

/-- The text lies between the two numbers, which are not in this order as numbers. -/
def Splits (low text high : StringView) : Prop :=
  svIsDigits low = true ∧ svIsDigits high = true ∧ svIsDigits text = false ∧
    svLexCmp low text = .lt ∧ svLexCmp text high = .lt ∧ svNumericCmpDigits low high ≠ .lt

instance (low text high : StringView) : Decidable (Splits low text high) :=
  inferInstanceAs (Decidable (_ ∧ _))

/-- None of three parts is a text that splits the other two. -/
def PartsAgree (first second third : StringView) : Prop :=
  ¬ Splits first second third ∧ ¬ Splits third second first ∧ ¬ Splits second first third ∧
    ¬ Splits third first second ∧ ¬ Splits first third second ∧ ¬ Splits second third first

instance (first second third : StringView) : Decidable (PartsAgree first second third) :=
  inferInstanceAs (Decidable (_ ∧ _))

/-- Where no text splits two numbers the comparisons of three parts fit together. -/
theorem versionPartCmp_chains {first second third : StringView}
    (agree : PartsAgree first second third) : Chains versionPartCmp first second third := by
  obtain ⟨firstLow, _, _, thirdLow, _, secondLow⟩ := agree
  have texts : (svIsDigits first && svIsDigits second) = false →
      (svIsDigits second && svIsDigits third) = false →
      (svIsDigits first && svIsDigits third) = false →
      Chains versionPartCmp first second third := by
    intro one two three
    unfold Chains
    rw [versionPartCmp_texts one, versionPartCmp_texts two, versionPartCmp_texts three]
    exact @chains_of_transCmp _ svLexCmp _ _ _ _
  cases one : svIsDigits first with
  | false =>
    cases two : svIsDigits second with
    | false => exact texts (by rw [one]; rfl) (by rw [two]; rfl) (by rw [one]; rfl)
    | true =>
      cases three : svIsDigits third with
      | false => exact texts (by rw [one]; rfl) (by rw [three, Bool.and_false]) (by rw [one]; rfl)
      | true =>
        unfold Chains
        rw [versionPartCmp_texts (by rw [one]; rfl), versionPartCmp_numbers two three,
          versionPartCmp_texts (by rw [one]; rfl)]
        intro below numbers
        have less : svLexCmp first second = .lt :=
          (svLexCmp_mixed (by rw [one, two]; decide)).resolve_right fun other => below other.1
        rw [less]
        refine (svLexCmp_mixed (by rw [one, three]; decide)).resolve_right fun other => ?_
        apply thirdLow
        refine ⟨three, two, one, other.2, less, fun ordered => numbers ?_⟩
        rw [svNumericCmpDigits_swap, ordered]
        rfl
  | true =>
    cases two : svIsDigits second with
    | false =>
      cases three : svIsDigits third with
      | false =>
        exact texts (by rw [two, Bool.and_false]) (by rw [two]; rfl) (by rw [three, Bool.and_false])
      | true =>
        unfold Chains
        rw [versionPartCmp_texts (by rw [two, Bool.and_false]),
          versionPartCmp_texts (by rw [two]; rfl), versionPartCmp_numbers one three]
        intro below above
        have less : svLexCmp first second = .lt :=
          (svLexCmp_mixed (by rw [one, two]; decide)).resolve_right fun other => below other.1
        have more : svLexCmp second third = .lt :=
          (svLexCmp_mixed (by rw [two, three]; decide)).resolve_right fun other => above other.1
        rw [less, more]
        by_contra unordered
        exact firstLow ⟨one, three, two, less, more, unordered⟩
    | true =>
      cases three : svIsDigits third with
      | false =>
        unfold Chains
        rw [versionPartCmp_numbers one two, versionPartCmp_texts (by rw [three, Bool.and_false]),
          versionPartCmp_texts (by rw [three, Bool.and_false])]
        intro numbers above
        have more : svLexCmp second third = .lt :=
          (svLexCmp_mixed (by rw [two, three]; decide)).resolve_right fun other => above other.1
        have less : svLexCmp first third = .lt := by
          refine (svLexCmp_mixed (by rw [one, three]; decide)).resolve_right fun other => ?_
          apply secondLow
          refine ⟨two, one, three, more, other.2, fun ordered => numbers ?_⟩
          rw [svNumericCmpDigits_swap, ordered]
          rfl
        rw [more, less]
        cases known : svNumericCmpDigits first second with
        | lt => rfl
        | eq => rfl
        | gt => exact absurd known numbers
      | true =>
        unfold Chains
        rw [versionPartCmp_numbers one two, versionPartCmp_numbers two three,
          versionPartCmp_numbers one three]
        exact svNumericCmpDigits_chains first second third

/-! ## Versions -/

theorem versionPartsCmp_eq (left right : List StringView) :
    versionPartsCmp left right = paddedCmp versionPartCmp [] left right := by
  induction left generalizing right with
  | nil =>
    induction right with
    | nil =>
      rw [versionPartsCmp, paddedCmp]
    | cons part right ih =>
      rw [versionPartsCmp, paddedCmp, ih]
  | cons part left ih =>
    cases right with
    | nil => rw [versionPartsCmp, paddedCmp, ih]
    | cons other right => rw [versionPartsCmp, paddedCmp, ih]

/-- The part of a version at a position: a version that has ended goes on with empty parts. -/
def versionPart (text : StringView) (position : Nat) : StringView :=
  (versionParts text).getD position []

/-- Wherever three versions agree before, none of their parts is a text that splits the other
two. -/
def VersionsAgree (first second third : StringView) : Prop :=
  ∀ position, (∀ before < position,
      versionPartCmp (versionPart first before) (versionPart second before) = .eq ∧
        versionPartCmp (versionPart second before) (versionPart third before) = .eq) →
    PartsAgree (versionPart first position) (versionPart second position)
      (versionPart third position)

/-- Two versions compare the other way around with the other outcome, so exactly one of less,
equal and greater holds of them, and three versions are ordered where no part of one is a text
that splits the numbers of the others. -/
theorem svVersionCmp_order (first second third : StringView) :
    svVersionCmp second first = (svVersionCmp first second).swap ∧
      (VersionsAgree first second third → svVersionCmp first second ≠ .gt →
        svVersionCmp second third ≠ .gt → svVersionCmp first third ≠ .gt) := by
  have same : ∀ left right, svVersionCmp left right =
      paddedCmp versionPartCmp [] (versionParts left) (versionParts right) :=
    fun left right => versionPartsCmp_eq _ _
  rw [same, same, same, same]
  refine ⟨paddedCmp_swap versionPartCmp_swap _ _, fun agree below above => ?_⟩
  have chain := paddedCmp_chains (show versionPartCmp [] [] = .eq by rfl)
    (fun position before => versionPartCmp_chains (agree position before)) below above
  rw [chain]
  cases known : paddedCmp versionPartCmp [] (versionParts first) (versionParts second) with
  | lt =>
    show Ordering.lt ≠ .gt
    decide
  | eq => exact above
  | gt => exact absurd known below

/-- The versions `1.2`, `1.10` and `1.x` are ordered. -/
theorem svVersionCmp_order_mixed : VersionsAgree (sv "1.2") (sv "1.10") (sv "1.x") ∧
      svVersionCmp (sv "1.2") (sv "1.x") ≠ .gt := by
  have agree : VersionsAgree (sv "1.2") (sv "1.10") (sv "1.x") := by
    intro position _
    match position with
    | 0 => decide
    | 1 => decide
    | position + 2 => exact (by decide : PartsAgree [] [] [])
  have one : versionParts (sv "1.2") = [sv "1", sv "2"] := by decide
  have ten : versionParts (sv "1.10") = [sv "1", sv "10"] := by decide
  have text : versionParts (sv "1.x") = [sv "1", sv "x"] := by decide
  refine ⟨agree, (svVersionCmp_order (sv "1.2") (sv "1.10") (sv "1.x")).2 agree ?_ ?_⟩
  · rw [svVersionCmp, one, ten, versionPartsCmp, versionPartsCmp, versionPartsCmp]
    decide
  · rw [svVersionCmp, ten, text, versionPartsCmp, versionPartsCmp, versionPartsCmp]
    decide

/-- `2` is less than `10` as a number, `10` less than `1a` as a text, and `1a` less than `2`. -/
theorem svVersionCmp_circle :
    svVersionCmp (sv "2") (sv "10") = .lt ∧ svVersionCmp (sv "10") (sv "1a") = .lt ∧
      svVersionCmp (sv "1a") (sv "2") = .lt ∧ svVersionCmp (sv "2") (sv "1a") = .gt := by
  have two : versionParts (sv "2") = [sv "2"] := by decide
  have ten : versionParts (sv "10") = [sv "10"] := by decide
  have text : versionParts (sv "1a") = [sv "1a"] := by decide
  simp only [svVersionCmp, two, ten, text, versionPartsCmp]
  decide

end Nobify.Evaluator
