import Mathlib.Data.List.Basic
import Mathlib.Data.List.Infix
import Mathlib.Data.List.TakeWhile

/-!
# Spans of delimited text

How far a scanner reads from the front of a list: up to the end of the first occurrence of a
closer, or until nested delimiters balance. Both read everything when the text is never closed.
The rules say what a span depends on: a span that was closed is the same whatever follows it.
-/

namespace Nobify.Spans

open List

/-! ## The first item that stops -/

/-- What stands before the first item that does not continue. -/
theorem takeWhile_eq_iff {α : Type} {continues : α → Bool} {items front : List α} :
    items.takeWhile continues = front ↔ ∃ behind, items = front ++ behind ∧
      (∀ item ∈ front, continues item = true) ∧ ∀ item ∈ behind.head?, continues item = false := by
  constructor
  · rintro rfl
    refine ⟨items.dropWhile continues, takeWhile_append_dropWhile.symm,
      fun item listed => mem_takeWhile_imp listed, fun item first => ?_⟩
    have stops := List.head?_dropWhile_not continues items
    rw [Option.mem_def.mp first] at stops
    exact stops
  · rintro ⟨behind, rfl, all, stop⟩
    rw [takeWhile_append_of_pos all]
    cases behind with
    | nil => rw [takeWhile_nil, append_nil]
    | cons item rest =>
      have stops := stop item rfl
      rw [takeWhile_cons_of_neg (by rw [stops]; exact Bool.false_ne_true), append_nil]

variable {α : Type} [DecidableEq α]

/-! ## The first closer -/

/-- The length of the shortest front part that ends with the closer, or of the whole list. -/
def untilCloser (closer : List α) : List α → Nat
  | [] => 0
  | item :: rest =>
    if closer.isPrefixOf (item :: rest) then closer.length else untilCloser closer rest + 1

theorem untilCloser_le (closer text : List α) : untilCloser closer text ≤ text.length := by
  induction text with
  | nil => exact Nat.le_refl 0
  | cons item rest ih =>
    rw [untilCloser]
    split
    · rename_i found
      exact (List.isPrefixOf_iff_prefix.mp found).length_le
    · exact Nat.succ_le_succ ih

/-- A span ends with the first closer, or there is no closer and the span is everything. -/
theorem untilCloser_spec {closer : List α} (proper : closer ≠ []) (text : List α) :
    (¬ closer <:+: text ∧ untilCloser closer text = text.length) ∨
      ∃ body, text.take (untilCloser closer text) = body ++ closer ∧
        ¬ closer <:+: body ++ closer.dropLast := by
  induction text with
  | nil =>
    refine Or.inl ⟨fun found => proper ?_, rfl⟩
    exact List.infix_nil.mp found
  | cons item rest ih =>
    rw [untilCloser]
    by_cases found : closer.isPrefixOf (item :: rest) = true
    · rw [if_pos found]
      have atFront : closer <+: item :: rest := List.isPrefixOf_iff_prefix.mp found
      refine Or.inr ⟨[], (List.prefix_iff_eq_take.mp atFront).symm, fun again => ?_⟩
      have shorter := again.length_le
      have positive : 0 < closer.length := length_pos_of_ne_nil proper
      simp only [nil_append, length_dropLast] at shorter
      omega
    · rw [if_neg found]
      have notAtFront : ¬ closer <+: item :: rest :=
        fun atFront => found (List.isPrefixOf_iff_prefix.mpr atFront)
      cases ih with
      | inl none =>
        refine Or.inl ⟨fun inside => ?_, by rw [none.2]; rfl⟩
        cases List.infix_cons_iff.mp inside with
        | inl atFront => exact notAtFront atFront
        | inr later => exact none.1 later
      | inr some =>
        obtain ⟨body, cut, first⟩ := some
        refine Or.inr ⟨item :: body, by rw [take_succ_cons, cut]; rfl, fun inside => ?_⟩
        cases List.infix_cons_iff.mp inside with
        | inl atFront =>
          have within : body ++ closer.dropLast <+: rest := by
            have bound : body ++ closer.dropLast <+: body ++ closer :=
              (List.prefix_append_right_inj body).mpr (List.dropLast_prefix closer)
            exact bound.trans (cut ▸ List.take_prefix _ _)
          have whole : item :: (body ++ closer.dropLast) <+: item :: rest :=
            (List.prefix_cons_inj item).mpr within
          exact notAtFront (atFront.trans whole)
        | inr later => exact first later

/-- A span without a closer is everything. -/
theorem untilCloser_none {closer text : List α} (none : ¬ closer <:+: text) :
    untilCloser closer text = text.length := by
  have proper : closer ≠ [] := by
    intro empty
    exact none (empty ▸ List.nil_infix)
  rcases untilCloser_spec proper text with whole | ⟨front, cut, _⟩
  · exact whole.2
  · have found : closer <:+: text.take (untilCloser closer text) :=
      cut ▸ (suffix_append front closer).isInfix
    exact absurd (found.trans (List.take_prefix _ _).isInfix) none

/-- A span that is closed does not depend on what follows it. -/
theorem untilCloser_append {closer text tail : List α} (other : List α)
    (closed : closer <:+ text) (spanned : untilCloser closer (text ++ tail) = text.length) :
    untilCloser closer (text ++ other) = text.length := by
  induction text with
  | nil =>
    have empty : closer = [] := suffix_nil.mp closed
    rw [empty, nil_append]
    cases other <;> simp [untilCloser]
  | cons item rest ih =>
    rw [cons_append, untilCloser] at spanned ⊢
    have fits : closer.length ≤ (item :: rest).length := closed.length_le
    have transfer : ∀ after : List α,
        closer.isPrefixOf (item :: (rest ++ after)) = closer.isPrefixOf (item :: rest) := by
      intro after
      rw [Bool.eq_iff_iff, List.isPrefixOf_iff_prefix, List.isPrefixOf_iff_prefix]
      constructor
      · intro found
        rw [← cons_append] at found
        exact List.prefix_of_prefix_length_le found (List.prefix_append _ _) fits
      · intro found
        exact found.trans (List.prefix_append (item :: rest) after)
    rw [transfer] at spanned ⊢
    by_cases found : closer.isPrefixOf (item :: rest) = true
    · rw [if_pos found] at spanned ⊢
      exact spanned
    · rw [if_neg found] at spanned ⊢
      have later : closer <:+ rest := by
        cases suffix_cons_iff.mp closed with
        | inl same =>
          exact absurd (List.isPrefixOf_iff_prefix.mpr (same ▸ List.prefix_refl _)) found
        | inr later => exact later
      rw [ih later (Nat.succ.inj spanned)]
      rfl

/-- A span ends where the closer is first found. -/
theorem untilCloser_first {closer text : List α} {position : Nat}
    (found : closer <+: text.drop position) (proper : closer ≠ [])
    (first : ∀ before < position, ¬ closer <+: text.drop before) :
    untilCloser closer text = position + closer.length := by
  induction text generalizing position with
  | nil =>
    rw [drop_nil] at found
    exact absurd (List.prefix_nil.mp found) proper
  | cons item rest ih =>
    rw [untilCloser]
    cases position with
    | zero =>
      rw [drop_zero] at found
      rw [if_pos (List.isPrefixOf_iff_prefix.mpr found), Nat.zero_add]
    | succ position =>
      have front : ¬ closer <+: item :: rest := first 0 (Nat.succ_pos position)
      rw [if_neg (fun here => front (List.isPrefixOf_iff_prefix.mp here)),
        ih found fun before bound => first (before + 1) (Nat.succ_lt_succ bound)]
      omega

/-- Every closed span ends with its closer. -/
theorem untilCloser_closed (closer text : List α) :
    untilCloser closer text = text.length ∨ closer <:+ text.take (untilCloser closer text) := by
  by_cases proper : closer = []
  · exact Or.inr (proper ▸ nil_suffix)
  · cases untilCloser_spec proper text with
    | inl none => exact Or.inl none.2
    | inr some =>
      obtain ⟨body, cut, -⟩ := some
      exact Or.inr ⟨body, cut.symm⟩

/-! ## Nested delimiters -/

/-- The items that open and close a level, and the one that hides the item after it. -/
structure Delims (α : Type) where
  opener : Option α
  closer : α
  escape : Option α

/-- The depth after an item that is not hidden. -/
def Delims.depthAfter (delims : Delims α) (depth : Nat) (item : α) : Nat :=
  if delims.opener = some item then depth + 1
  else if item = delims.closer then depth - 1
  else depth

/-- How much is read until the depth is zero, and the depth at the end. -/
def nested (delims : Delims α) : List α → Nat → Nat × Nat
  | [], depth => (0, depth)
  | item :: rest, depth =>
    if depth = 0 then (0, 0)
    else if delims.escape = some item then
      match rest with
      | [] => (1, depth)
      | _ :: others => ((nested delims others depth).1 + 2, (nested delims others depth).2)
    else
      ((nested delims rest (delims.depthAfter depth item)).1 + 1,
        (nested delims rest (delims.depthAfter depth item)).2)

theorem nested_le (delims : Delims α) (text : List α) (depth : Nat) :
    (nested delims text depth).1 ≤ text.length := by
  fun_induction nested delims text depth with
  | case1 | case2 | case3 => simp
  | case4 item depth inside hides next rest ih => simpa using ih
  | case5 item rest depth inside plain ih => simpa using ih

variable {delims : Delims α} {text : List α} {depth : Nat}

/-- Only the end of the text stops a scan that is still inside a delimiter. -/
theorem nested_unclosed (unclosed : (nested delims text depth).2 ≠ 0) :
    (nested delims text depth).1 = text.length := by
  fun_induction nested delims text depth with
  | case1 | case3 => rfl
  | case2 => exact absurd rfl unclosed
  | case4 item depth inside hides next rest ih => simpa using ih unclosed
  | case5 item rest depth inside plain ih => simpa using ih unclosed

@[simp] theorem nested_zero (delims : Delims α) (text : List α) :
    nested delims text 0 = (0, 0) := by
  cases text with
  | nil => rfl
  | cons item rest =>
    rw [nested.eq_def]
    rfl

theorem nested_hidden {item : α} (next : α) (rest : List α) (inside : depth ≠ 0)
    (hides : delims.escape = some item) :
    nested delims (item :: next :: rest) depth =
      ((nested delims rest depth).1 + 2, (nested delims rest depth).2) := by
  rw [nested, if_neg inside, if_pos hides]

theorem nested_plain {item : α} (rest : List α) (inside : depth ≠ 0)
    (plain : ¬ delims.escape = some item) :
    nested delims (item :: rest) depth = ((nested delims rest (delims.depthAfter depth item)).1 + 1,
        (nested delims rest (delims.depthAfter depth item)).2) := by
  rw [nested.eq_def]
  simp only [if_neg inside, if_neg plain]

/-- Nothing is read only at depth zero. -/
theorem depth_of_nested_zero (spanned : nested delims text depth = (0, 0)) : depth = 0 := by
  by_cases inside : depth = 0
  · exact inside
  · cases text with
    | nil => exact (Prod.mk.inj spanned).2
    | cons item rest =>
      rw [nested.eq_def] at spanned
      simp only [if_neg inside] at spanned
      split at spanned
      · split at spanned <;> simp at spanned
      · simp at spanned

/-- A span that is closed does not depend on what follows it. -/
theorem nested_append {text tail : List α} (other : List α)
    (spanned : nested delims (text ++ tail) depth = (text.length, 0)) :
    nested delims (text ++ other) depth = (text.length, 0) := by
  fun_induction nested delims text depth with
  | case1 depth =>
    have outside : depth = 0 := depth_of_nested_zero spanned
    rw [outside]
    exact nested_zero delims _
  | case2 item rest =>
    rw [nested_zero] at spanned
    exact absurd (Prod.mk.inj spanned).1 (by simp)
  | case3 item depth inside hides =>
    cases tail with
    | nil =>
      rw [append_nil, nested.eq_def] at spanned
      simp only [if_neg inside, if_pos hides] at spanned
      exact absurd (Prod.mk.inj spanned).2 inside
    | cons next rest =>
      rw [cons_append, nil_append, nested_hidden next rest inside hides] at spanned
      exact absurd (Prod.mk.inj spanned).1 (by simp)
  | case4 item depth inside hides next rest ih =>
    simp only [cons_append] at spanned ⊢
    rw [nested_hidden next _ inside hides] at spanned ⊢
    have shorter : nested delims (rest ++ tail) depth = (rest.length, 0) := by
      have parts := Prod.mk.inj spanned
      exact Prod.ext (by simpa using parts.1) parts.2
    rw [ih shorter]
    rfl
  | case5 item rest depth inside plain ih =>
    simp only [cons_append] at spanned ⊢
    rw [nested_plain _ inside plain] at spanned ⊢
    have shorter : nested delims (rest ++ tail) (delims.depthAfter depth item) =
        (rest.length, 0) := by
      have parts := Prod.mk.inj spanned
      exact Prod.ext (by simpa using parts.1) parts.2
    rw [ih shorter]
    rfl

end Nobify.Spans
