import Mathlib.Data.List.Basic

/-!
# Cutting a sequence at positions

A sequence is cut at some of its positions: what stands there is left out, and what stands between
two cuts is a piece. An empty last piece is not counted. Different cuts give different pieces, so
the pieces say where the cuts were.
-/

namespace Nobify.Lib

open List

variable {α : Type}

/-- The pieces from a position on; `piece` is what has been read since the last cut. -/
def piecesFrom (cut : Nat → Bool) : Nat → List α → List α → List (List α)
  | _, piece, [] => if piece = [] then [] else [piece]
  | position, piece, item :: rest =>
    if cut position then piece :: piecesFrom cut (position + 1) [] rest
    else piecesFrom cut (position + 1) (piece ++ [item]) rest

/-- The pieces of a sequence. -/
def piecesAt (cut : Nat → Bool) (items : List α) : List (List α) := piecesFrom cut 0 [] items

/-- A piece that has begun goes on. -/
theorem piecesFrom_head (cut : Nat → Bool) (position : Nat) {piece items : List α}
    (begun : piece ≠ []) :
    ∃ more pieces, piecesFrom cut position piece items = (piece ++ more) :: pieces := by
  induction items generalizing position piece with
  | nil =>
    refine ⟨[], [], ?_⟩
    rw [piecesFrom, if_neg begun, append_nil]
  | cons item items ih =>
    rw [piecesFrom]
    cases here : cut position with
    | true =>
      refine ⟨[], piecesFrom cut (position + 1) [] items, ?_⟩
      rw [if_pos rfl, append_nil]
    | false =>
      have longer : piece ++ [item] ≠ [] := append_ne_nil_of_right_ne_nil _ (by simp)
      obtain ⟨more, pieces, found⟩ := ih (position + 1) longer
      refine ⟨item :: more, pieces, ?_⟩
      rw [if_neg (by decide), found, append_assoc, singleton_append]

/-- A piece that is cut off is none that goes on. -/
theorem piecesFrom_cut_ne (cut : Nat → Bool) (position : Nat) (piece : List α) (item : α)
    (items : List α) (pieces : List (List α)) :
    piece :: pieces ≠ piecesFrom cut position (piece ++ [item]) items := by
  intro same
  have longer : piece ++ [item] ≠ [] := append_ne_nil_of_right_ne_nil _ (by simp)
  obtain ⟨more, others, found⟩ := @piecesFrom_head _ cut position _ items longer
  rw [found] at same
  have lengths := congrArg List.length (List.cons.inj same).1
  rw [length_append, length_append, length_singleton] at lengths
  omega

theorem piecesFrom_inj {cut other : Nat → Bool} {position : Nat} {piece items : List α} :
    piecesFrom cut position piece items = piecesFrom other position piece items ↔
      ∀ offset < items.length, cut (position + offset) = other (position + offset) := by
  induction items generalizing position piece with
  | nil => exact ⟨fun _ offset inside => absurd inside (Nat.not_lt_zero offset), fun _ => rfl⟩
  | cons item items ih =>
    have shifted : (∀ offset < (item :: items).length,
          cut (position + offset) = other (position + offset)) ↔
        cut position = other position ∧
          ∀ offset < items.length, cut (position + 1 + offset) = other (position + 1 + offset) := by
      constructor
      · intro same
        refine ⟨same 0 (Nat.succ_pos _), fun offset inside => ?_⟩
        have next := same (offset + 1) (Nat.succ_lt_succ inside)
        rwa [show position + (offset + 1) = position + 1 + offset by omega] at next
      · rintro ⟨here, later⟩ (_ | offset) inside
        · exact here
        · have next := later offset (Nat.lt_of_succ_lt_succ inside)
          rwa [show position + 1 + offset = position + (offset + 1) by omega] at next
    rw [shifted, piecesFrom, piecesFrom]
    cases here : cut position with
    | true =>
      cases there : other position with
      | true =>
        rw [if_pos rfl, if_pos rfl, List.cons.injEq, ih]
        simp
      | false =>
        rw [if_pos rfl, if_neg (by decide)]
        have differ := piecesFrom_cut_ne other (position + 1) piece item items
          (piecesFrom cut (position + 1) [] items)
        simp [differ]
    | false =>
      cases there : other position with
      | true =>
        rw [if_neg (by decide), if_pos rfl]
        have differ := piecesFrom_cut_ne cut (position + 1) piece item items
          (piecesFrom other (position + 1) [] items)
        simp [differ.symm]
      | false =>
        rw [if_neg (by decide), if_neg (by decide), ih]
        simp

/-- Two ways of cutting give the same pieces when they cut at the same positions. -/
theorem piecesAt_inj {cut other : Nat → Bool} {items : List α} :
    piecesAt cut items = piecesAt other items ↔
      ∀ position < items.length, cut position = other position := by
  unfold piecesAt
  rw [piecesFrom_inj]
  simp

end Nobify.Lib
