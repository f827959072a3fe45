import Mathlib.Data.List.Basic
import Mathlib.Data.List.Perm.Basic
import Mathlib.Logic.Function.Basic
import Mathlib.Order.Defs.PartialOrder

/-!
# Extents in blocks that fill up

Blocks are numbered and filled from the front. An extent is a piece of a block. Extents fit when
each lies in the filled part of its block and no two overlap; the filled part may be extended by a
new extent, or by another size of the extent at its end.

The order of fills says which of two ways to fill the same blocks came first, when only the last
block that is not empty may change: the earlier blocks are as they were. A stack of fills that were
reached one after the other is a sorted list, also after going back to one of them.
-/

namespace Nobify.Lib

open List

/-! ## Extents -/

/-- A piece of a block. -/
@[ext] structure Extent where
  block : Nat
  start : Nat
  size : Nat
  deriving DecidableEq

namespace Extent

/-- The first offset after an extent. -/
def finish (extent : Extent) : Nat := extent.start + extent.size

/-- Two extents do not overlap. -/
def Apart (first second : Extent) : Prop :=
  first.block = second.block → first.finish ≤ second.start ∨ second.finish ≤ first.start

theorem Apart.symm {first second : Extent} (apart : first.Apart second) : second.Apart first :=
  fun same => (apart same.symm).symm

end Extent

/-- The extents are not empty, start at multiples of the unit, lie in what is used of their blocks,
and no two of them overlap. -/
structure Fits (unit : Nat) (used : Nat → Nat) (extents : List Extent) : Prop where
  inside : ∀ extent ∈ extents,
    0 < extent.size ∧ unit ∣ extent.start ∧ extent.finish ≤ used extent.block
  apart : extents.Pairwise Extent.Apart

namespace Fits

variable {unit : Nat} {used : Nat → Nat} {extents : List Extent}

theorem nil : Fits unit used [] := ⟨nofun, .nil⟩

/-- Fewer extents fit. -/
theorem eraseIdx (fits : Fits unit used extents) (position : Nat) :
    Fits unit used (extents.eraseIdx position) :=
  ⟨fun extent mem => fits.inside extent (mem_of_mem_eraseIdx mem),
    fits.apart.sublist (eraseIdx_sublist ..)⟩

/-- A new extent after what is used of its block. -/
theorem push (fits : Fits unit used extents) {extent : Extent} (positive : 0 < extent.size)
    (aligned : unit ∣ extent.start) (start : extent.start = used extent.block) :
    Fits unit (Function.update used extent.block extent.finish) (extent :: extents) := by
  constructor
  · intro other mem
    rcases mem_cons.mp mem with rfl | mem
    · refine ⟨positive, aligned, ?_⟩
      simp only [Function.update_self, Nat.le_refl]
    · obtain ⟨filled, multiple, bound⟩ := fits.inside other mem
      refine ⟨filled, multiple, ?_⟩
      by_cases same : other.block = extent.block
      · have longer : extent.start ≤ extent.finish := Nat.le_add_right ..
        rw [same, Function.update_self]
        rw [same, ← start] at bound
        exact Nat.le_trans bound longer
      · rw [Function.update_of_ne same]
        exact bound
  · refine pairwise_cons.mpr ⟨?_, fits.apart⟩
    intro other mem same
    right
    have bound := (fits.inside other mem).2.2
    rw [← same, ← start] at bound
    exact bound

/-- The last extent of a block gets another size. -/
theorem resize (fits : Fits unit used extents) {position : Nat} {extent : Extent}
    (here : extents[position]? = some extent) (last : extent.finish = used extent.block)
    {size : Nat} (positive : 0 < size) :
    Fits unit (Function.update used extent.block (extent.start + size))
      (⟨extent.block, extent.start, size⟩ :: extents.eraseIdx position) := by
  obtain ⟨bound, at_position⟩ := List.getElem?_eq_some_iff.mp here
  have perm : List.Perm (extent :: extents.eraseIdx position) extents := by
    rw [← at_position]
    exact getElem_cons_eraseIdx_perm bound
  have apart : (extent :: extents.eraseIdx position).Pairwise Extent.Apart :=
    (perm.pairwise_iff Extent.Apart.symm).mpr fits.apart
  obtain ⟨others, rest⟩ := pairwise_cons.mp apart
  -- Nothing else in the block ends after the start of its last extent.
  have before : ∀ other ∈ extents.eraseIdx position, other.block = extent.block →
      other.finish ≤ extent.start := by
    intro other mem same
    obtain ⟨filled, _, inside⟩ := fits.inside other (mem_of_mem_eraseIdx mem)
    rcases others other mem same.symm with after | before
    · rw [same, ← last] at inside
      unfold Extent.finish at after inside
      omega
    · exact before
  obtain ⟨_, aligned, _⟩ := fits.inside extent (mem_of_getElem? here)
  constructor
  · intro other mem
    rcases mem_cons.mp mem with rfl | mem
    · refine ⟨positive, aligned, ?_⟩
      rw [Function.update_self]
      exact Nat.le_refl _
    · obtain ⟨filled, multiple, inside⟩ := fits.inside other (mem_of_mem_eraseIdx mem)
      refine ⟨filled, multiple, ?_⟩
      by_cases same : other.block = extent.block
      · rw [same, Function.update_self]
        exact Nat.le_trans (before other mem same) (Nat.le_add_right ..)
      · rw [Function.update_of_ne same]
        exact inside
  · refine pairwise_cons.mpr ⟨?_, rest⟩
    intro other mem same
    exact Or.inr (before other mem same.symm)

end Fits

/-! ## Fills -/

/-- How far numbered blocks are filled, and the last of them that may be changed. -/
@[ext] structure Fill where
  block : Nat
  used : Nat → Nat

/-- A fill comes before another when the blocks before its last one are the same there. -/
instance : Preorder Fill where
  le older newer :=
    older.block ≤ newer.block ∧ ∀ index < older.block, older.used index = newer.used index
  le_refl fill := ⟨Nat.le_refl _, fun _ _ => rfl⟩
  le_trans first second third := by
    intro ⟨low, same⟩ ⟨high, later⟩
    exact ⟨Nat.le_trans low high, fun index small =>
      (same index small).trans (later index (Nat.lt_of_lt_of_le small low))⟩

/-- Changing a block that is not before the last one leads to a later fill. -/
theorem Fill.le_update (fill : Fill) {block : Nat} (later : fill.block ≤ block) (size : Nat) :
    fill ≤ ⟨block, Function.update fill.used block size⟩ := by
  refine ⟨later, ?_⟩
  intro index small
  have other : index ≠ block := by omega
  exact (Function.update_of_ne other ..).symm

/-- Stacked states, the newest first, of which each comes after those below. -/
def Stacked {σ : Type} [Preorder σ] (states : List σ) : Prop := states.Pairwise (· ≥ ·)

namespace Stacked

variable {σ : Type} [Preorder σ] {state next : σ} {below : List σ}

variable (stacked : Stacked (state :: below))

include stacked

/-- The newest state goes on. -/
theorem advance (later : state ≤ next) : Stacked (next :: below) := by
  obtain ⟨above, rest⟩ := pairwise_cons.mp stacked
  exact pairwise_cons.mpr ⟨fun old mem => le_trans (above old mem) later, rest⟩

/-- The newest state is put down. -/
theorem save : Stacked (state :: state :: below) := by
  obtain ⟨above, _⟩ := pairwise_cons.mp stacked
  refine pairwise_cons.mpr ⟨?_, stacked⟩
  intro old mem
  rcases mem_cons.mp mem with rfl | mem
  · exact le_refl _
  · exact above old mem

/-- Going back to a state drops those above, and keeps it. -/
theorem back {position : Nat} {saved : σ} {rest : List σ}
    (here : below.drop position = saved :: rest) : Stacked (saved :: saved :: rest) := by
  apply save
  rw [← here]
  exact List.Pairwise.sublist ((drop_sublist ..).trans (sublist_cons_self ..)) stacked

end Stacked

end Nobify.Lib
