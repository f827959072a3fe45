import Mathlib.Data.List.Nodup
import Mathlib.Logic.Relation

/-!
# Searches that mark their own path

A search that goes on from some nodes and ends at the others may mark only the nodes it is just
going on from. Nothing is lost by that: a path that comes back to a marked node has its end already
below the last visit of that node. What the search meets is pushed once.
-/

namespace Nobify.Lib

open List

variable {ν : Type}

/-! ## Paths through some nodes -/

/-- The last node is reached from the first one, and the path goes on from inner nodes only. -/
def Through (edge : ν → ν → Prop) (inner : ν → Prop) (first last : ν) : Prop :=
  Relation.ReflTransGen (fun node next => inner node ∧ edge node next) first last

section Paths

variable {edge : ν → ν → Prop} {inner : ν → Prop} {first last : ν}

theorem Through.mono {fewer : ν → Prop} (less : ∀ node, fewer node → inner node)
    (path : Through edge fewer first last) : Through edge inner first last :=
  Relation.ReflTransGen.mono (fun node _ step => ⟨less node step.1, step.2⟩) _ _ path

/-- A path from a node that is not inner is over. -/
theorem Through.over_of_not (outer : ¬ inner first) (path : Through edge inner first last) :
    first = last := by
  rcases Relation.ReflTransGen.cases_head path with same | ⟨next, step, -⟩
  · exact same
  · exact absurd step.1 outer

theorem through_iff : Through edge inner first last ↔
    first = last ∨ inner first ∧ ∃ next, edge first next ∧ Through edge inner next last := by
  constructor
  · intro path
    rcases Relation.ReflTransGen.cases_head path with same | ⟨next, step, rest⟩
    · exact .inl same
    · exact .inr ⟨step.1, next, step.2, rest⟩
  · rintro (same | ⟨inside, next, step, rest⟩)
    · exact same ▸ Relation.ReflTransGen.refl
    · exact Relation.ReflTransGen.head ⟨inside, step⟩ rest

/-- A path either never goes on from a node, or it does so for the last time somewhere. -/
theorem Through.last_visit (node : ν) (path : Through edge inner first last) :
    Through edge (fun other => inner other ∧ other ≠ node) first last ∨
      ∃ next, edge node next ∧ Through edge (fun other => inner other ∧ other ≠ node) next last := by
  induction path using Relation.ReflTransGen.head_induction_on with
  | refl => exact .inl Relation.ReflTransGen.refl
  | @head here next step _ ih =>
    rcases ih with clear | visited
    · by_cases same : here = node
      · exact .inr ⟨next, same ▸ step.2, clear⟩
      · exact .inl (Relation.ReflTransGen.head ⟨⟨step.1, same⟩, step.2⟩ clear)
    · exact .inr visited

/-- What is reached below a node is reached below it without coming back to it. -/
theorem exists_through_iff (node : ν) : (∃ next, edge node next ∧ Through edge inner next last) ↔
      ∃ next, edge node next ∧
        Through edge (fun other => inner other ∧ other ≠ node) next last := by
  constructor
  · rintro ⟨next, step, path⟩
    rcases path.last_visit node with clear | visited
    · exact ⟨next, step, clear⟩
    · exact visited
  · rintro ⟨next, step, path⟩
    exact ⟨next, step, path.mono fun _ => And.left⟩

end Paths

/-! ## Collections -/

/-- A part of a search pushes what it meets, each of them once. -/
structure Collects (met : ν → Prop) (before after : List ν) : Prop where
  mem : ∀ item, item ∈ after ↔ item ∈ before ∨ met item
  nodup : before.Nodup → after.Nodup

section Collections

variable {met : ν → Prop} {before after : List ν}

/-- A part that meets nothing. -/
theorem collects_none (nothing : ∀ item, ¬ met item) (items : List ν) : Collects met items items :=
  ⟨fun item => (or_iff_left (nothing item)).symm, id⟩

theorem Collects.congr {other : ν → Prop} (same : ∀ item, met item ↔ other item)
    (collects : Collects met before after) : Collects other before after :=
  ⟨fun item => (collects.mem item).trans (or_congr_right (same item)), collects.nodup⟩

theorem Collects.trans {rest : ν → Prop} {final : List ν} (head : Collects met before after)
    (tail : Collects rest after final) : Collects (fun item => met item ∨ rest item) before final :=
  ⟨fun item => by rw [tail.mem, head.mem, or_assoc], fun distinct => tail.nodup (head.nodup distinct)⟩

/-- A loop pushes what its rounds meet. -/
theorem collects_foldlM {α : Type} {step : List ν → α → Option (List ν)} {meets : α → ν → Prop}
    {items : List α}
    (round : ∀ item ∈ items, ∀ before after, step before item = some after →
      Collects (meets item) before after)
    {start final : List ν} (run : items.foldlM step start = some final) :
    Collects (fun found => ∃ item ∈ items, meets item found) start final := by
  induction items generalizing start with
  | nil =>
    obtain rfl := Option.some.inj run
    exact collects_none (fun _ ⟨_, member, _⟩ => nomatch member) start
  | cons item rest ih =>
    rw [foldlM_cons] at run
    obtain ⟨next, first, later⟩ := Option.bind_eq_some_iff.mp run
    have head := round item mem_cons_self start next first
    have tail := ih (fun other member => round other (mem_cons_of_mem item member)) later
    exact (head.trans tail).congr fun found => by rw [exists_mem_cons_iff]

end Collections

end Nobify.Lib
