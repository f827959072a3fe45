import Mathlib.Data.List.Basic

/-!
# Loops that may fail

Loops of the source that stop with `false` at the first failing step are folds and maps in
`Option`. These are the rules by which their results are taken apart.
-/

namespace Nobify.Lib

open List Option

variable {α β σ : Type}

variable {items : List α}

/-- A fold whose steps all succeed succeeds. -/
theorem foldlM_isSome {step : σ → α → Option σ} {start : σ}
    (steps : ∀ state, ∀ item ∈ items, (step state item).isSome = true) :
    (items.foldlM step start).isSome = true := by
  induction items generalizing start with
  | nil => rfl
  | cons item rest ih =>
    obtain ⟨next, done⟩ := isSome_iff_exists.mp (steps start item mem_cons_self)
    rw [foldlM_cons, done]
    exact ih fun state other member => steps state other (mem_cons_of_mem _ member)

/-- A map succeeds exactly when every step does. -/
theorem mapM_isSome_iff {step : α → Option β} :
    (items.mapM step).isSome = true ↔ ∀ item ∈ items, (step item).isSome = true := by
  induction items with
  | nil => simp
  | cons item rest ih =>
    rw [mapM_cons]
    cases first : step item with
    | none => simp [first]
    | some value =>
      cases later : rest.mapM step with
      | none =>
        have failing : ¬ ∀ other ∈ rest, (step other).isSome = true := by
          rw [← ih, later]
          simp
        simpa [first] using failing
      | some values =>
        have working := ih.mp (by rw [later]; rfl)
        simpa [first] using working

/-- The values of a successful map are those of its steps. -/
theorem mem_of_mapM_eq_some {step : α → Option β} {values : List β}
    (mapped : items.mapM step = some values) {value : β} :
    value ∈ values ↔ ∃ item ∈ items, step item = some value := by
  induction items generalizing values with
  | nil =>
    cases mapped
    simp
  | cons item rest ih =>
    rw [mapM_cons] at mapped
    obtain ⟨first, head, tail⟩ := bind_eq_some_iff.mp mapped
    obtain ⟨others, later, same⟩ := bind_eq_some_iff.mp tail
    cases same
    simp only [mem_cons, exists_eq_or_imp, ih later, head, some.injEq]
    exact or_congr_left eq_comm

/-- The parts of a successful map, one behind the other. -/
theorem flatten_of_mapM_eq_some {step : α → Option (List β)} {parts : List (List β)}
    (mapped : items.mapM step = some parts) :
    parts.flatten = items.flatMap fun item => (step item).getD [] := by
  induction items generalizing parts with
  | nil =>
    cases mapped
    rfl
  | cons item rest ih =>
    rw [mapM_cons] at mapped
    obtain ⟨first, head, tail⟩ := bind_eq_some_iff.mp mapped
    obtain ⟨others, later, same⟩ := bind_eq_some_iff.mp tail
    cases same
    rw [flatten_cons, ih later, flatMap_cons, head, getD_some]

end Nobify.Lib
