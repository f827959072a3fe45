import Mathlib.Data.List.Basic
import Mathlib.Data.Ordering.Basic

/-!
# Comparing sequences position by position

Two sequences are compared at the first position that tells them apart, and the shorter one goes
on with blanks. The comparison of the elements need not be transitive. What carries over from the
elements to the sequences is that the comparisons of three values fit together, and it is enough
that they do at the first position that tells the three sequences apart.
-/

namespace Nobify.Lib

open List

variable {α : Type} (cmp : α → α → Ordering) (blank : α)

/-- The comparison of two sequences, the shorter one padded with blanks. -/
def paddedCmp : List α → List α → Ordering
  | [], [] => .eq
  | x :: xs, [] => (cmp x blank).then (paddedCmp xs [])
  | [], y :: ys => (cmp blank y).then (paddedCmp [] ys)
  | x :: xs, y :: ys => (cmp x y).then (paddedCmp xs ys)

/-- Three values chain when the first two comparisons, neither of them greater, give the third. -/
def Chains (x y z : α) : Prop :=
  cmp x y ≠ .gt → cmp y z ≠ .gt → cmp x z = (cmp x y).then (cmp y z)

variable {cmp blank}

/-- Under a transitive comparison all values chain. -/
theorem chains_of_transCmp [Std.TransCmp cmp] (x y z : α) : Chains cmp x y z := by
  intro first second
  have firstLE : (cmp x y).isLE = true := Ordering.isLE_iff_ne_gt.mpr first
  have secondLE : (cmp y z).isLE = true := Ordering.isLE_iff_ne_gt.mpr second
  cases known : cmp x y with
  | lt => exact Std.TransCmp.lt_of_lt_of_isLE known secondLE
  | eq => exact Std.TransCmp.congr_left known
  | gt => exact absurd known first

/-- The comparison at the front, then that of the rest. -/
theorem paddedCmp_step (blanks : cmp blank blank = .eq) (xs ys : List α) :
    paddedCmp cmp blank xs ys = (cmp (xs.headD blank) (ys.headD blank)).then
      (paddedCmp cmp blank xs.tail ys.tail) := by
  cases xs with
  | nil =>
    cases ys with
    | nil =>
      show _ = (cmp blank blank).then (paddedCmp cmp blank [] [])
      rw [blanks]
      rfl
    | cons y ys =>
      rw [paddedCmp]
      rfl
  | cons x xs =>
    cases ys with
    | nil =>
      rw [paddedCmp]
      rfl
    | cons y ys =>
      rw [paddedCmp]
      rfl

/-- Comparing the other way around gives the other outcome. -/
theorem paddedCmp_swap (oriented : ∀ x y, cmp y x = (cmp x y).swap) (xs ys : List α) :
    paddedCmp cmp blank ys xs = (paddedCmp cmp blank xs ys).swap := by
  induction xs generalizing ys with
  | nil =>
    induction ys with
    | nil =>
      rw [paddedCmp]
      rfl
    | cons y ys ih =>
      rw [paddedCmp, paddedCmp, ih, oriented blank y, Ordering.swap_then]
  | cons x xs ih =>
    cases ys with
    | nil => rw [paddedCmp, paddedCmp, ih, oriented x blank, Ordering.swap_then]
    | cons y ys => rw [paddedCmp, paddedCmp, ih, oriented x y, Ordering.swap_then]

/-- Sequences are equal when they are at each position, those that have ended going on with
blanks. -/
theorem paddedCmp_eq_iff (blanks : cmp blank blank = .eq) (xs ys : List α) :
    paddedCmp cmp blank xs ys = .eq ↔
      ∀ position, cmp (xs.getD position blank) (ys.getD position blank) = .eq := by
  have bounded : ∀ size, ∀ xs ys : List α, xs.length ≤ size → ys.length ≤ size →
      (paddedCmp cmp blank xs ys = .eq ↔
        ∀ position, cmp (xs.getD position blank) (ys.getD position blank) = .eq) := by
    intro size
    induction size with
    | zero =>
      intro xs ys noX noY
      rw [length_eq_zero_iff.mp (Nat.le_zero.mp noX),
        length_eq_zero_iff.mp (Nat.le_zero.mp noY), paddedCmp]
      simp [blanks]
    | succ size ih =>
      intro xs ys boundX boundY
      have step : ∀ list : List α, list.headD blank = list.getD 0 blank ∧
          ∀ position, list.tail.getD position blank = list.getD (position + 1) blank := by
        intro list
        cases list <;> exact ⟨rfl, fun _ => rfl⟩
      rw [paddedCmp_step blanks, Ordering.then_eq_eq,
        ih xs.tail ys.tail (by rw [length_tail]; omega) (by rw [length_tail]; omega),
        (step xs).1, (step ys).1]
      constructor
      · rintro ⟨front, rest⟩ position
        cases position with
        | zero => exact front
        | succ position =>
          rw [← (step xs).2, ← (step ys).2]
          exact rest position
      · intro each
        refine ⟨each 0, fun position => ?_⟩
        rw [(step xs).2, (step ys).2]
        exact each (position + 1)
  exact bounded (xs.length + ys.length) xs ys (Nat.le_add_right ..) (Nat.le_add_left ..)

/-- Three sequences chain when their elements chain wherever the sequences agree before. -/
theorem paddedCmp_chains (blanks : cmp blank blank = .eq) {xs ys zs : List α}
    (each : ∀ position, (∀ before < position,
        cmp (xs.getD before blank) (ys.getD before blank) = .eq ∧
          cmp (ys.getD before blank) (zs.getD before blank) = .eq) →
      Chains cmp (xs.getD position blank) (ys.getD position blank) (zs.getD position blank)) :
    Chains (paddedCmp cmp blank) xs ys zs := by
  have bounded : ∀ size, ∀ xs ys zs : List α, xs.length ≤ size → ys.length ≤ size →
      zs.length ≤ size → (∀ position, (∀ before < position,
          cmp (xs.getD before blank) (ys.getD before blank) = .eq ∧
            cmp (ys.getD before blank) (zs.getD before blank) = .eq) →
        Chains cmp (xs.getD position blank) (ys.getD position blank) (zs.getD position blank)) →
      Chains (paddedCmp cmp blank) xs ys zs := by
    intro size
    induction size with
    | zero =>
      intro xs ys zs noX noY noZ _ _ _
      rw [length_eq_zero_iff.mp (Nat.le_zero.mp noX), length_eq_zero_iff.mp (Nat.le_zero.mp noY),
        length_eq_zero_iff.mp (Nat.le_zero.mp noZ), paddedCmp]
      rfl
    | succ size ih =>
      intro xs ys zs boundX boundY boundZ each first second
      have head : ∀ list : List α, list.headD blank = list.getD 0 blank := by
        intro list
        cases list <;> rfl
      have tail : ∀ (list : List α) position,
          list.tail.getD position blank = list.getD (position + 1) blank := by
        intro list position
        cases list <;> rfl
      have front := each 0 fun before none => absurd none (Nat.not_lt_zero before)
      rw [← head, ← head, ← head] at front
      rw [paddedCmp_step blanks] at first second
      rw [paddedCmp_step blanks xs zs, paddedCmp_step blanks xs ys, paddedCmp_step blanks ys zs]
      cases firstHead : cmp (xs.headD blank) (ys.headD blank) with
      | gt =>
        rw [firstHead] at first
        exact absurd rfl first
      | lt =>
        have notGreater : cmp (ys.headD blank) (zs.headD blank) ≠ .gt := by
          intro greater
          rw [greater] at second
          exact second rfl
        have third := front (by rw [firstHead]; decide) notGreater
        rw [third, firstHead]
        rfl
      | eq =>
        have third := front (by rw [firstHead]; decide)
        rw [firstHead] at first third
        cases secondHead : cmp (ys.headD blank) (zs.headD blank) with
        | gt =>
          rw [secondHead] at second
          exact absurd rfl second
        | lt =>
          rw [secondHead] at third
          rw [third (by decide)]
          show Ordering.lt = (paddedCmp cmp blank xs.tail ys.tail).then .lt
          cases rest : paddedCmp cmp blank xs.tail ys.tail with
          | lt => rfl
          | eq => rfl
          | gt => exact absurd rest first
        | eq =>
          rw [secondHead] at second third
          rw [third (by decide)]
          refine ih xs.tail ys.tail zs.tail ?_ ?_ ?_ (fun position agree => ?_) first second
          · rw [length_tail]
            omega
          · rw [length_tail]
            omega
          · rw [length_tail]
            omega
          · rw [tail, tail, tail]
            apply each (position + 1)
            intro before bound
            cases before with
            | zero =>
              rw [← head, ← head, ← head]
              exact ⟨firstHead, secondHead⟩
            | succ before =>
              have here := agree before (by omega)
              rw [tail, tail, tail] at here
              exact here
  apply bounded (xs.length + ys.length + zs.length) xs ys zs _ _ _ each
  · omega
  · omega
  · omega

end Nobify.Lib
