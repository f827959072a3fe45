import Mathlib.Data.List.SplitBy

/-!
# Splitting a list where neighbours do not join

`List.splitBy` cuts a list between two neighbours that are not related. The rules here say what one
more element at the end does to the chunks, and that every cut of the chunks is a cut of the list
between unrelated neighbours.
-/

namespace Nobify.Lib

open Option (mem_some_iff)
open List

variable {α : Type} {r : α → α → Bool}

/-- An element that joins the last one goes into the last chunk. -/
theorem splitBy_concat_joined {list chunk : List α} {chunks : List (List α)} {last next : α}
    (split : list.splitBy r = chunks ++ [chunk ++ [last]]) (joined : r last next = true) :
    (list ++ [next]).splitBy r = chunks ++ [chunk ++ [last, next]] := by
  obtain ⟨whole, filled, chained, cut⟩ := splitBy_eq_iff.mp split
  have longer : chunk ++ [last, next] = chunk ++ [last] ++ [next] := by
    rw [append_assoc]
    rfl
  apply splitBy_eq_iff.mpr
  refine ⟨?_, fun empty => ?_, fun other listed => ?_, ?_⟩
  · rw [whole, flatten_append, flatten_append, longer, append_assoc]
    simp
  · rcases mem_append.mp empty with front | back
    · exact filled (mem_append_left _ front)
    · rw [mem_singleton] at back
      exact append_ne_nil_of_right_ne_nil chunk (cons_ne_nil last [next]) (back).symm
  · rcases mem_append.mp listed with front | back
    · exact chained other (mem_append_left _ front)
    · rw [mem_singleton.mp back, longer]
      have before := chained (chunk ++ [last]) (mem_append_right _ mem_cons_self)
      apply isChain_append.mpr
      refine ⟨before, isChain_singleton next, fun left inside right here => ?_⟩
      rw [List.getLast?_append_of_ne_nil _ (cons_ne_nil last []), List.getLast?_singleton,
        mem_some_iff] at inside
      rw [List.head?_cons, mem_some_iff] at here
      rw [← inside, ← here]
      exact joined
  · obtain ⟨front, _, boundary⟩ := isChain_append.mp cut
    apply isChain_append.mpr
    refine ⟨front, isChain_singleton _, fun left inside right here => ?_⟩
    obtain ⟨full, some, apart⟩ := boundary left inside (chunk ++ [last]) rfl
    rw [List.head?_cons, mem_some_iff] at here
    subst here
    refine ⟨full, append_ne_nil_of_right_ne_nil chunk (cons_ne_nil last [next]), ?_⟩
    rw [← apart]
    congr 1
    cases chunk <;> rfl

/-- An element that does not join the last one starts a chunk. -/
theorem splitBy_concat_apart {list : List α} {next : α}
    (apart : ∀ last ∈ list.getLast?, r last next = false) :
    (list ++ [next]).splitBy r = list.splitBy r ++ [[next]] :=
  splitBy_append_cons [] apart

/-- The chunks of two lists are the chunks of the whole exactly when the lists do not join. -/
theorem splitBy_cut_iff {left right : List α} :
    (∃ before after, (left ++ right).splitBy r = before ++ after ∧ before.flatten = left ∧
      after.flatten = right) ↔
      ∀ last ∈ left.getLast?, ∀ next ∈ right.head?, r last next = false := by
  constructor
  · rintro ⟨before, after, split, rfl, rfl⟩ last ends next starts
    obtain ⟨_, filled, _, cut⟩ := splitBy_eq_iff.mp split
    obtain ⟨_, _, boundary⟩ := isChain_append.mp cut
    have some : before ≠ [] := by
      intro none
      rw [none] at ends
      exact absurd ends (by simp)
    have more : after ≠ [] := by
      intro none
      rw [none] at starts
      exact absurd starts (by simp)
    obtain ⟨front, back, apart⟩ := boundary _ (List.getLast?_eq_some_getLast some) _
      (List.head?_eq_some_head more)
    have lastIs : last = (before.getLast some).getLast front := by
      have whole := getLast_getLast_eq_getLast_flatten some front
      rw [List.getLast?_eq_some_getLast (flatten_ne_nil_iff.mpr
        ⟨_, getLast_mem some, front⟩), mem_some_iff] at ends
      rw [← ends, whole]
    have nextIs : next = (after.head more).head back := by
      have whole := head_head_eq_head_flatten more back
      rw [List.head?_eq_some_head (flatten_ne_nil_iff.mpr
        ⟨_, head_mem more, back⟩), mem_some_iff] at starts
      rw [← starts, whole]
    rw [lastIs, nextIs]
    exact apart
  · intro apart
    exact ⟨left.splitBy r, right.splitBy r, splitBy_append apart, flatten_splitBy r left,
      flatten_splitBy r right⟩

end Nobify.Lib
