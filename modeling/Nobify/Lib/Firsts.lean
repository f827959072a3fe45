import Mathlib.Data.List.Basic
import Mathlib.Data.List.Nodup

/-!
# First occurrences

The items of a list that do not occur before: what is left when a list is pushed item by item and an
item that is there already is not pushed again. When every item is written as several words and the
words are pushed, the words of the first occurrences are what is left, provided that these share no
word.
-/

namespace Nobify.Lib

open List

variable {α β : Type} [DecidableEq α] [DecidableEq β]

/-- The first occurrences of a list, after some items have been seen. -/
def firsts (seen : List α) : List α → List α
  | [] => []
  | item :: rest => if item ∈ seen then firsts seen rest else item :: firsts (seen ++ [item]) rest

theorem firsts_cons_of_mem {seen : List α} {item : α} (rest : List α) (old : item ∈ seen) :
    firsts seen (item :: rest) = firsts seen rest := if_pos old

theorem firsts_cons_of_notMem {seen : List α} {item : α} (rest : List α) (fresh : item ∉ seen) :
    firsts seen (item :: rest) = item :: firsts (seen ++ [item]) rest := if_neg fresh

variable {seen items : List α}

theorem mem_firsts {item : α} :
    item ∈ firsts seen items ↔ item ∈ items ∧ item ∉ seen := by
  induction items generalizing seen with
  | nil => simp [firsts]
  | cons head rest ih =>
    by_cases old : head ∈ seen
    · rw [firsts_cons_of_mem rest old, ih, mem_cons]
      constructor
      · rintro ⟨listed, fresh⟩
        exact ⟨.inr listed, fresh⟩
      · rintro ⟨rfl | listed, fresh⟩
        · exact absurd old fresh
        · exact ⟨listed, fresh⟩
    · rw [firsts_cons_of_notMem rest old, mem_cons, ih, mem_cons, mem_append, mem_singleton, not_or]
      constructor
      · rintro (rfl | ⟨listed, fresh, _⟩)
        · exact ⟨.inl rfl, old⟩
        · exact ⟨.inr listed, fresh⟩
      · rintro ⟨rfl | listed, fresh⟩
        · exact .inl rfl
        · by_cases same : item = head
          · exact .inl same
          · exact .inr ⟨listed, fresh, same⟩

/-- No item is among the first occurrences twice, or has been seen. -/
theorem nodup_append_firsts {seen : List α} (distinct : seen.Nodup) (items : List α) :
    (seen ++ firsts seen items).Nodup := by
  induction items generalizing seen with
  | nil => simpa [firsts] using distinct
  | cons head rest ih =>
    by_cases old : head ∈ seen
    · rw [firsts_cons_of_mem rest old]
      exact ih distinct
    · have longer : (seen ++ [head]).Nodup := by
        rw [nodup_append_comm]
        exact nodup_cons.mpr ⟨old, distinct⟩
      rw [firsts_cons_of_notMem rest old, ← singleton_append, ← append_assoc]
      exact ih longer

/-- Behind a part of a list its first occurrences have been seen. -/
theorem firsts_append (seen items rest : List α) :
    firsts seen (items ++ rest) = firsts seen items ++ firsts (seen ++ firsts seen items) rest := by
  induction items generalizing seen with
  | nil => simp [firsts]
  | cons head items ih =>
    rw [cons_append]
    by_cases old : head ∈ seen
    · rw [firsts_cons_of_mem _ old, firsts_cons_of_mem _ old, ih]
    · rw [firsts_cons_of_notMem _ old, firsts_cons_of_notMem _ old, ih, cons_append,
        append_assoc, singleton_append]

/-- Nothing is new among items that have all been seen. -/
theorem firsts_eq_nil (old : ∀ item ∈ items, item ∈ seen) :
    firsts seen items = [] := by
  rw [eq_nil_iff_forall_not_mem]
  intro item listed
  have found := (mem_firsts).mp listed
  exact found.2 (old item found.1)

/-- Everything is new in a list without repetitions of which nothing has been seen. -/
theorem firsts_eq_self (fresh : (seen ++ items).Nodup) :
    firsts seen items = items := by
  induction items generalizing seen with
  | nil => rfl
  | cons head rest ih =>
    have split := nodup_append.mp fresh
    have new : head ∉ seen := fun old => split.2.2 head old head mem_cons_self rfl
    rw [firsts_cons_of_notMem rest new, ih]
    rwa [append_assoc, singleton_append]

/-- The words of the first occurrences are left when they share no word. -/
theorem firsts_flatMap {words : α → List β} {start : List β} {seen items : List α}
    (fresh : (start ++ (seen ++ firsts seen items).flatMap words).Nodup) :
    firsts (start ++ seen.flatMap words) (items.flatMap words) =
      (firsts seen items).flatMap words := by
  induction items generalizing seen with
  | nil => rfl
  | cons head rest ih =>
    rw [flatMap_cons, firsts_append]
    by_cases old : head ∈ seen
    · have listed : ∀ word ∈ words head, word ∈ start ++ seen.flatMap words := by
        intro word written
        exact mem_append_right _ (mem_flatMap.mpr ⟨head, old, written⟩)
      rw [firsts_cons_of_mem rest old] at fresh ⊢
      rw [firsts_eq_nil listed, append_nil, nil_append, ih fresh]
    · rw [firsts_cons_of_notMem rest old] at fresh ⊢
      rw [flatMap_append, flatMap_cons, ← append_assoc, ← append_assoc] at fresh
      have own : firsts (start ++ seen.flatMap words) (words head) = words head :=
        firsts_eq_self (nodup_append.mp fresh).1
      have next := @ih (seen ++ [head]) (by simpa using fresh)
      rw [own, flatMap_cons, ← next]
      simp

end Nobify.Lib
