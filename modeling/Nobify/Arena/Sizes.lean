import Nobify.Lib.Extents
import Nobify.Arena.Blocks

/-!
# What arenas compute

The computations of `arena.c` on sizes are exact, and what they come to: rounding up, the room of a
block, the capacity of a new one.
-/

namespace Nobify.Arena

open Lib

/-! ## Sizes -/

/-- The least multiple of the alignment that is not below. -/
def roundUp (n : Nat) : Nat := (n + 15) / 16 * 16

theorem le_roundUp (n : Nat) : n ≤ roundUp n := by
  unfold roundUp
  omega

theorem roundUp_dvd (n : Nat) : 16 ∣ roundUp n := Nat.dvd_mul_left ..

theorem roundUp_of_dvd {n : Nat} (multiple : 16 ∣ n) : roundUp n = n := by
  unfold roundUp
  omega

theorem toNat_sizeMax : sizeMax.toNat = 2 ^ 64 - 1 := rfl

/-- A sum that overflows is noticed, any other is computed. -/
theorem addOverflow_cases (a b : UInt64) :
    (2 ^ 64 ≤ a.toNat + b.toNat ∧ addOverflow a b = pure none) ∨
      (a.toNat + b.toNat < 2 ^ 64 ∧ addOverflow a b = pure (some (a + b))) := by
  have room : Sized.sub sizeMax b = pure (sizeMax - b) := by
    apply Sized.sub_exact
    have bound := b.toNat_lt
    rw [toNat_sizeMax]
    omega
  have room_toNat : (sizeMax - b).toNat = 2 ^ 64 - 1 - b.toNat := by
    have bound := b.toNat_lt
    rw [Sized.toNat_sub (by rw [toNat_sizeMax]; omega), toNat_sizeMax]
  unfold addOverflow
  rw [room, Sized.bind_pure_left]
  by_cases overflows : sizeMax - b < a
  · left
    have larger := UInt64.lt_iff_toNat_lt.mp overflows
    rw [if_pos overflows]
    refine ⟨?_, rfl⟩
    omega
  · right
    have fits : a.toNat + b.toNat < 2 ^ 64 := by
      rw [UInt64.lt_iff_toNat_lt] at overflows
      have bound := b.toNat_lt
      omega
    rw [if_neg overflows, Sized.add_exact fits]
    exact ⟨fits, rfl⟩

/-- Rounding up is exact, or noticed to overflow. -/
theorem alignUp_cases (n : UInt64) : (2 ^ 64 ≤ n.toNat + 15 ∧ alignUp n = pure none) ∨
      ∃ size, n.toNat + 15 < 2 ^ 64 ∧ alignUp n = pure (some size) ∧
        size.toNat = roundUp n.toNat := by
  have low : Sized.sub alignment 1 = pure 15 := by decide
  unfold alignUp
  rw [low, Sized.bind_pure_left]
  rcases addOverflow_cases n 15 with ⟨overflows, same⟩ | ⟨fits, same⟩
  · left
    rw [same]
    exact ⟨overflows, rfl⟩
  · right
    rw [same]
    refine ⟨_, fits, rfl, ?_⟩
    rw [Sized.toNat_clear (n + 15) 4 (by decide) rfl, Sized.toNat_add fits]
    rfl

/-- A size that was rounded up stays as it is. -/
theorem alignUp_aligned {size : UInt64} (multiple : 16 ∣ size.toNat) :
    alignUp size = pure (some size) := by
  have bound := size.toNat_lt
  rcases alignUp_cases size with ⟨overflows, _⟩ | ⟨rounded, _, same, value⟩
  · omega
  · rw [roundUp_of_dvd multiple] at value
    rw [same, UInt64.toNat_inj.mp value]

/-! ## Blocks -/

/-- The block with more of it used. -/
def extended (block : ArenaBlock) (size : UInt64) : ArenaBlock :=
  { block with used := block.used + size }

/-- A block gives memory exactly when it has room. -/
theorem allocFromBlock_cases (block : ArenaBlock) {size : UInt64} (multiple : 16 ∣ size.toNat) :
    (block.capacity.toNat < block.used.toNat + size.toNat ∧ allocFromBlock block size = pure none) ∨
      (block.used.toNat + size.toNat ≤ block.capacity.toNat ∧
        allocFromBlock block size = pure (some (block.used, extended block size))) := by
  have bound := block.capacity.toNat_lt
  unfold allocFromBlock
  rw [alignUp_aligned multiple, Sized.bind_pure_left]
  dsimp only
  rcases addOverflow_cases block.used size with ⟨overflows, same⟩ | ⟨fits, same⟩
  · left
    rw [same]
    exact ⟨by omega, rfl⟩
  · rw [same, Sized.bind_pure_left]
    dsimp only
    have sum := Sized.toNat_add fits
    by_cases full : block.capacity < block.used + size
    · left
      have larger := UInt64.lt_iff_toNat_lt.mp full
      rw [if_pos full]
      exact ⟨by omega, rfl⟩
    · right
      rw [if_neg full]
      rw [UInt64.lt_iff_toNat_lt] at full
      exact ⟨by omega, rfl⟩

/-- A reusable block is one of the list and has room. -/
theorem findReusableBlock_cases (size : UInt64) (list : List ArenaBlock) :
    findReusableBlock size list = pure none ∨
      ∃ skipped block rest, findReusableBlock size list = pure (some (skipped, block, rest)) ∧
        list = skipped ++ block :: rest ∧
        block.used.toNat + size.toNat ≤ block.capacity.toNat := by
  induction list with
  | nil => exact Or.inl rfl
  | cons block rest ih =>
    have found : (findReusableBlock size rest = pure none ∨
        ∃ skipped found after, findReusableBlock size rest = pure (some (skipped, found, after)) ∧
          rest = skipped ++ found :: after ∧
          found.used.toNat + size.toNat ≤ found.capacity.toNat) →
        ∀ run : Sized (Option (List ArenaBlock × ArenaBlock × List ArenaBlock)),
          run = (do return (← findReusableBlock size rest).map fun found =>
            (block :: found.1, found.2.1, found.2.2)) →
          run = pure none ∨ ∃ skipped found after, run = pure (some (skipped, found, after)) ∧
            block :: rest = skipped ++ found :: after ∧
            found.used.toNat + size.toNat ≤ found.capacity.toNat := by
      intro later run same
      rcases later with none | ⟨skipped, found, after, some, shape, room⟩
      · rw [none] at same
        exact Or.inl same
      · rw [some] at same
        refine Or.inr ⟨block :: skipped, found, after, same, ?_, room⟩
        rw [shape, List.cons_append]
    unfold findReusableBlock
    rcases addOverflow_cases block.used size with ⟨_, same⟩ | ⟨fits, same⟩
    · rw [same, Sized.bind_pure_left]
      exact found ih _ rfl
    · rw [same, Sized.bind_pure_left]
      by_cases room : (some (block.used + size)).any
          (fun nextUsed => size ≤ block.capacity && nextUsed ≤ block.capacity) = true
      · right
        rw [if_pos room]
        refine ⟨[], block, rest, rfl, rfl, ?_⟩
        rw [Option.any_some, Bool.and_eq_true, decide_eq_true_iff, decide_eq_true_iff] at room
        have enough := UInt64.le_iff_toNat_le.mp room.2
        rw [Sized.toNat_add fits] at enough
        exact enough
      · rw [if_neg room]
        exact found ih _ rfl

/-- Doubling a capacity is exact. -/
theorem doubleCapacity_exact (capacity : UInt64) :
    ∃ doubled, doubleCapacity capacity = pure doubled := by
  unfold doubleCapacity
  by_cases small : capacity ≤ sizeMax / 2
  · have bound := UInt64.le_iff_toNat_le.mp small
    have half : (sizeMax / 2).toNat = 2 ^ 63 - 1 := by decide
    have two : (2 : UInt64).toNat = 2 := rfl
    rw [if_pos small, Sized.mul_exact (by rw [two]; omega)]
    exact ⟨_, rfl⟩
  · rw [if_neg small]
    exact ⟨_, rfl⟩

/-- A new block is made large enough. -/
theorem newCapacity_exact (arena : Arena) (alignedSize : UInt64) :
    ∃ capacity, newCapacity arena alignedSize = pure capacity ∧
      alignedSize.toNat ≤ capacity.toNat := by
  obtain ⟨doubled, same⟩ := doubleCapacity_exact arena.current.capacity
  unfold newCapacity
  rw [same, Sized.bind_pure_left]
  refine ⟨_, rfl, ?_⟩
  have enough : alignedSize.toNat ≤
      (if doubled < alignedSize then alignedSize else doubled).toNat := by
    by_cases less : doubled < alignedSize
    · rw [if_pos less]
    · rw [if_neg less]
      rw [UInt64.lt_iff_toNat_lt] at less
      omega
  generalize (if doubled < alignedSize then alignedSize else doubled) = grown at enough ⊢
  by_cases less : grown < arena.minBlockSize
  · have larger := UInt64.lt_iff_toNat_lt.mp less
    rw [if_pos less]
    omega
  · rw [if_neg less]
    exact enough

/-- A new block is empty, or there is none. -/
theorem blockCreate_cases (capacity : UInt64) (memory : Bool) :
    blockCreate capacity memory = pure none ∨
      blockCreate capacity memory = pure (some ⟨capacity, 0⟩) := by
  unfold blockCreate
  rcases addOverflow_cases headerSize capacity with ⟨_, same⟩ | ⟨_, same⟩
  · left
    rw [same]
    rfl
  · rw [same, Sized.bind_pure_left]
    cases memory with
    | false => exact Or.inl rfl
    | true => exact Or.inr rfl

end Nobify.Arena
