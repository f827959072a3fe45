import Nobify.Lib.ScopeStack

/-!
# Levels kept in an array

A stack can be kept in an array that never shrinks, with a count of the levels in view. The slots
behind that count are stale: opening a level clears the first of them, and the array only grows
when there is none. What is in view is a stack all the same.
-/

namespace Nobify.Lib

open List

variable {α : Type} {levels : List α} {depth : Nat}

/-- The levels in view, innermost first. -/
def levelsInView (levels : List α) (depth : Nat) : List α := (levels.take depth).reverse

/-- The array with a blank level behind those in view. -/
def openLevel (blank : α) (levels : List α) (depth : Nat) : List α :=
  if depth < levels.length then levels.set depth blank else levels ++ [blank]

theorem length_levelsInView (inRange : depth ≤ levels.length) :
    (levelsInView levels depth).length = depth := by
  rw [levelsInView, length_reverse, length_take]
  omega

/-- An opened level is the innermost one, whatever its slot held. -/
theorem levelsInView_openLevel (blank : α) (inRange : depth ≤ levels.length) :
    levelsInView (openLevel blank levels depth) (depth + 1) =
      blank :: levelsInView levels depth := by
  have opened : (openLevel blank levels depth).take (depth + 1) = levels.take depth ++ [blank] := by
    unfold openLevel
    by_cases stale : depth < levels.length
    · rw [if_pos stale, take_add_one, take_set_of_le (Nat.le_refl _), List.getElem?_set_self stale]
      rfl
    · have full : depth = levels.length := by omega
      rw [if_neg stale, full, take_length]
      exact take_of_length_le (by simp)
  rw [levelsInView, opened, reverse_append, reverse_singleton]
  rfl

theorem lt_length_openLevel (blank : α) (inRange : depth ≤ levels.length) :
    depth < (openLevel blank levels depth).length := by
  unfold openLevel
  by_cases stale : depth < levels.length
  · rw [if_pos stale, length_set]
    exact stale
  · rw [if_neg stale, length_append, length_singleton]
    omega

/-- A closed level is gone from view, whatever is left in its slot. -/
theorem levelsInView_set (blank : α) (present : 0 < depth) (inRange : depth ≤ levels.length) :
    levelsInView (levels.set (depth - 1) blank) (depth - 1) = (levelsInView levels depth).tail := by
  have below : depth = depth - 1 + 1 := by omega
  have split : levels.take depth = levels.take (depth - 1) ++ (levels[depth - 1]?).toList := by
    conv_lhs => rw [below]
    exact take_add_one
  have last : depth - 1 < levels.length := by omega
  unfold levelsInView
  rw [take_set_of_le (Nat.le_refl _), split, reverse_append, List.getElem?_eq_getElem last]
  rfl

/-- A change of a level in view. -/
theorem levelsInView_modify (edit : α → α) {place : Nat} (within : place < depth)
    (inRange : depth ≤ levels.length) :
    levelsInView (levels.modify (depth - 1 - place) edit) depth =
      (levelsInView levels depth).modify place edit := by
  have length : (levels.take depth).length = depth := by
    rw [length_take]
    omega
  have turned := reverse_modify edit (levels.take depth) (length.symm ▸ within)
  rw [length] at turned
  unfold levelsInView
  rw [take_modify, turned]

end Nobify.Lib
