import Nobify.Arena.Sizes

/-!
# What arenas do

`arena_alloc` leaves the arena as it is or grants memory behind what was used of a block that is
not before the current one. `arena_realloc_last` resizes the memory at the end of the current block,
or grants other memory. `arena_rewind` restores how far the blocks were filled at the mark.
-/

namespace Nobify.Arena

open Lib
open List

variable {before : Arena} {size : UInt64}

/-! ## How far the blocks are filled -/

/-- The bytes used of each block of a list; 0 beyond it. -/
def usedIn (blocks : List ArenaBlock) (index : Nat) : Nat :=
  (blocks[index]?.map fun block => block.used.toNat).getD 0

/-- The bytes used of each block. -/
def usedAt (arena : Arena) : Nat → Nat := usedIn arena.blocks

/-- The fill of an arena: only the current block and those after it may be changed. -/
def fill (arena : Arena) : Fill := ⟨arena.earlier.length, arena.usedAt⟩

/-- The capacities of the blocks. -/
def capacities (arena : Arena) : List UInt64 := arena.blocks.map ArenaBlock.capacity

/-- No block is filled beyond its capacity, blocks are filled in aligned steps, and those after the
current block are empty. -/
structure Wf (arena : Arena) : Prop where
  bounded : ∀ block ∈ arena.blocks, block.used.toNat ≤ block.capacity.toNat ∧ 16 ∣ block.used.toNat
  fresh : ∀ block ∈ arena.later, block.used = 0

theorem usedIn_middle (before after : List ArenaBlock) (block : ArenaBlock) :
    usedIn (before ++ block :: after) before.length = block.used.toNat := by
  simp [usedIn]

/-- Another block at a position changes what is used there. -/
theorem usedIn_replace (before after : List ArenaBlock) (block replaced : ArenaBlock) :
    usedIn (before ++ block :: after) =
      Function.update (usedIn (before ++ replaced :: after)) before.length block.used.toNat := by
  funext index
  by_cases same : index = before.length
  · rw [same, usedIn_middle, Function.update_self]
  · rw [Function.update_of_ne same]
    unfold usedIn
    by_cases small : index < before.length
    · rw [List.getElem?_append_left small, List.getElem?_append_left small]
    · obtain ⟨offset, rfl⟩ : ∃ offset, index = before.length + (offset + 1) :=
        ⟨index - before.length - 1, by omega⟩
      rw [List.getElem?_append_right (Nat.le_add_right ..),
        List.getElem?_append_right (Nat.le_add_right ..), Nat.add_sub_cancel_left,
        List.getElem?_cons_succ, List.getElem?_cons_succ]

/-- Another block at the end. -/
theorem usedIn_append (blocks : List ArenaBlock) (block : ArenaBlock) : usedIn (blocks ++ [block]) =
      Function.update (usedIn blocks) blocks.length block.used.toNat := by
  funext index
  by_cases same : index = blocks.length
  · rw [same, usedIn_middle, Function.update_self]
  · rw [Function.update_of_ne same]
    unfold usedIn
    by_cases small : index < blocks.length
    · rw [List.getElem?_append_left small]
    · have beyond : (blocks ++ [block]).length ≤ index := by
        rw [length_append, length_singleton]
        omega
      rw [List.getElem?_eq_none beyond, List.getElem?_eq_none (by omega)]

theorem usedIn_length (blocks : List ArenaBlock) : usedIn blocks blocks.length = 0 := by
  simp [usedIn]

theorem usedAt_current (arena : Arena) :
    arena.usedAt arena.earlier.length = arena.current.used.toNat := usedIn_middle ..

/-! ## Another current block -/

section Current

variable {arena : Arena} {block : ArenaBlock}

theorem setCurrent_wf (wf : arena.Wf)
    (bounded : block.used.toNat ≤ block.capacity.toNat ∧ 16 ∣ block.used.toNat) :
    ({ arena with current := block } : Arena).Wf := by
  refine ⟨?_, wf.fresh⟩
  intro other mem
  rcases mem_append.mp mem with mem | mem
  · exact wf.bounded other (mem_append_left _ mem)
  · rcases mem_cons.mp mem with rfl | mem
    · exact bounded
    · exact wf.bounded other (mem_append_right _ (mem_cons_of_mem _ mem))

theorem setCurrent_usedAt (arena : Arena) (block : ArenaBlock) :
    ({ arena with current := block } : Arena).usedAt =
      Function.update arena.usedAt arena.earlier.length block.used.toNat :=
  usedIn_replace arena.earlier arena.later block arena.current

theorem setCurrent_fill (arena : Arena) (block : ArenaBlock) :
    arena.fill ≤ ({ arena with current := block } : Arena).fill := by
  have update := arena.fill.le_update (Nat.le_refl arena.earlier.length) block.used.toNat
  have same : ({ arena with current := block } : Arena).fill = ⟨arena.earlier.length,
        Function.update arena.usedAt arena.earlier.length block.used.toNat⟩ := by
    rw [← setCurrent_usedAt]
    rfl
  rw [same]
  exact update

theorem setCurrent_capacities (same : block.capacity = arena.current.capacity) :
    ({ arena with current := block } : Arena).capacities = arena.capacities := by
  simp only [capacities, blocks, map_append, map_cons, same]

end Current

/-! ## Granting memory -/

/-- Memory of that size was granted behind what was used of a block that is not before the current
one, and nothing else changed. -/
structure Granted (before : Arena) (size : Nat) (ptr : ArenaPointer) (after : Arena) : Prop where
  wf : after.Wf
  start : ptr.offset.toNat = before.usedAt ptr.block
  aligned : 16 ∣ ptr.offset.toNat
  used : after.usedAt = Function.update before.usedAt ptr.block (ptr.offset.toNat + size)
  current : ptr.block = after.earlier.length
  later : before.earlier.length ≤ ptr.block
  capacities : before.capacities <+: after.capacities

/-- Granting memory leads to a later fill. -/
theorem Granted.fill {after : Arena} {size : Nat} {ptr : ArenaPointer}
    (granted : Granted before size ptr after) : before.fill ≤ after.fill := by
  have update := before.fill.le_update granted.later (ptr.offset.toNat + size)
  have same : after.fill =
      ⟨ptr.block, Function.update before.usedAt ptr.block (ptr.offset.toNat + size)⟩ := by
    unfold Arena.fill
    rw [granted.used, granted.current]
  rw [same]
  exact update

/-- The arena with more of the current block used. -/
def extendCurrent (arena : Arena) (size : UInt64) : Arena :=
  { arena with current := extended arena.current size }

/-- The current block gives memory exactly when it has room. -/
theorem allocFromCurrent_cases (arena : Arena) (multiple : 16 ∣ size.toNat) :
    (arena.current.capacity.toNat < arena.current.used.toNat + size.toNat ∧
        allocFromCurrent arena size = pure none) ∨
      (arena.current.used.toNat + size.toNat ≤ arena.current.capacity.toNat ∧
        allocFromCurrent arena size =
          pure (some (⟨arena.earlier.length, arena.current.used⟩, extendCurrent arena size))) := by
  unfold allocFromCurrent
  rcases allocFromBlock_cases arena.current multiple with ⟨full, same⟩ | ⟨room, same⟩
  · rw [same]
    exact Or.inl ⟨full, rfl⟩
  · rw [same]
    exact Or.inr ⟨room, rfl⟩

/-- A block with room stays well formed when more of it is used. -/
theorem extended_bounded {block : ArenaBlock} (aligned : 16 ∣ block.used.toNat)
    (multiple : 16 ∣ size.toNat) (room : block.used.toNat + size.toNat ≤ block.capacity.toNat) :
    (extended block size).used.toNat = block.used.toNat + size.toNat ∧
      (extended block size).used.toNat ≤ (extended block size).capacity.toNat ∧
      16 ∣ (extended block size).used.toNat := by
  have bound := block.capacity.toNat_lt
  have sum : (block.used + size).toNat = block.used.toNat + size.toNat :=
    Sized.toNat_add (by omega)
  refine ⟨sum, ?_, ?_⟩
  · show (block.used + size).toNat ≤ block.capacity.toNat
    rw [sum]
    exact room
  · show 16 ∣ (block.used + size).toNat
    rw [sum]
    exact Nat.dvd_add aligned multiple

section

variable {arena : Arena} (wf : arena.Wf) (used : arena.usedAt = before.usedAt)
  (later : before.earlier.length ≤ arena.earlier.length)
  (capacities : before.capacities <+: arena.capacities) (multiple : 16 ∣ size.toNat)

include wf used later capacities multiple

/-- Taking memory from the current block. The arena before may have had another current block. -/
theorem extendCurrent_granted
    (room : arena.current.used.toNat + size.toNat ≤ arena.current.capacity.toNat) :
    Granted before size.toNat ⟨arena.earlier.length, arena.current.used⟩
      (extendCurrent arena size) := by
  have here := wf.bounded arena.current (mem_append_right _ mem_cons_self)
  obtain ⟨sum, bounded⟩ := extended_bounded here.2 multiple room
  refine ⟨setCurrent_wf wf bounded, ?_, here.2, ?_, rfl, later, ?_⟩
  · rw [← used, usedAt_current]
  · rw [← used, ← sum]
    exact setCurrent_usedAt arena (extended arena.current size)
  · have same : (extendCurrent arena size).capacities = arena.capacities :=
      setCurrent_capacities rfl
    rw [same]
    exact capacities

/-- A new block grants the memory. -/
theorem allocFromNewBlock_spec (memory : Bool) :
    allocFromNewBlock arena size memory = pure (none, arena) ∨
      ∃ ptr after, allocFromNewBlock arena size memory = pure (some ptr, after) ∧
        Granted before size.toNat ptr after := by
  obtain ⟨capacity, exact', enough⟩ := newCapacity_exact arena size
  unfold allocFromNewBlock
  rw [exact', Sized.bind_pure_left]
  rcases blockCreate_cases capacity memory with none | some
  · left
    rw [none]
    rfl
  · right
    rw [some, Sized.bind_pure_left]
    dsimp only
    generalize grown_eq : ({ arena with
      earlier := arena.blocks, current := ⟨capacity, 0⟩, later := [] } : Arena) = grown
    have grownBlocks : grown.blocks = arena.blocks ++ [⟨capacity, 0⟩] := by
      rw [← grown_eq]
      rfl
    have room : grown.current.used.toNat + size.toNat ≤ grown.current.capacity.toNat := by
      rw [← grown_eq]
      show (0 : UInt64).toNat + size.toNat ≤ capacity.toNat
      rw [UInt64.toNat_zero, Nat.zero_add]
      exact enough
    have grownWf : grown.Wf := by
      constructor
      · intro block mem
        rw [grownBlocks] at mem
        rcases mem_append.mp mem with mem | mem
        · exact wf.bounded block mem
        · rw [mem_singleton.mp mem]
          exact ⟨Nat.zero_le _, Nat.dvd_zero 16⟩
      · rw [← grown_eq]
        exact nofun
    have grownUsed : grown.usedAt = before.usedAt := by
      rw [← used]
      unfold usedAt
      rw [grownBlocks, usedIn_append]
      show Function.update (usedIn arena.blocks) arena.blocks.length 0 = usedIn arena.blocks
      rw [← usedIn_length arena.blocks, Function.update_eq_self]
    have grownLater : before.earlier.length ≤ grown.earlier.length := by
      have longer : arena.earlier.length ≤ arena.blocks.length := by
        unfold blocks
        rw [length_append]
        omega
      rw [← grown_eq]
      exact Nat.le_trans later longer
    have grownCapacities : before.capacities <+: grown.capacities := by
      refine capacities.trans ?_
      unfold Arena.capacities
      rw [grownBlocks, map_append]
      exact List.prefix_append ..
    rcases allocFromCurrent_cases grown multiple with ⟨full, _⟩ | ⟨_, same⟩
    · omega
    · rw [same]
      exact ⟨_, _, rfl,
        extendCurrent_granted grownWf grownUsed grownLater grownCapacities multiple room⟩

end

/-- A later block or a new one grants the memory. -/
theorem allocFromLaterBlock_spec {arena : Arena} (wf : arena.Wf) (multiple : 16 ∣ size.toNat)
    (memory : Bool) :
    allocFromLaterBlock arena size memory = pure (none, arena) ∨
      ∃ ptr after, allocFromLaterBlock arena size memory = pure (some ptr, after) ∧
        Granted arena size.toNat ptr after := by
  unfold allocFromLaterBlock
  rcases findReusableBlock_cases size arena.later with
    none | ⟨skipped, block, rest, some, shape, room⟩
  · rw [none, Sized.bind_pure_left]
    exact allocFromNewBlock_spec wf rfl (Nat.le_refl _) (prefix_refl _) multiple memory
  · right
    rw [some, Sized.bind_pure_left]
    dsimp only
    generalize moved_eq : ({ arena with
      earlier := arena.earlier ++ arena.current :: skipped, current := block, later := rest }
        : Arena) = moved
    have sameBlocks : moved.blocks = arena.blocks := by
      rw [← moved_eq]
      unfold blocks
      rw [shape, append_assoc, cons_append]
    have movedWf : moved.Wf := by
      constructor
      · rw [sameBlocks]
        exact wf.bounded
      · intro other mem
        apply wf.fresh
        rw [← moved_eq] at mem
        rw [shape]
        exact mem_append_right _ (mem_cons_of_mem _ mem)
    have movedUsed : moved.usedAt = arena.usedAt := by
      unfold usedAt
      rw [sameBlocks]
    have movedLater : arena.earlier.length ≤ moved.earlier.length := by
      rw [← moved_eq]
      show arena.earlier.length ≤ (arena.earlier ++ arena.current :: skipped).length
      rw [length_append]
      omega
    have movedCapacities : arena.capacities <+: moved.capacities := by
      unfold Arena.capacities
      simp only [sameBlocks, prefix_refl]
    have movedRoom : moved.current.used.toNat + size.toNat ≤ moved.current.capacity.toNat := by
      rw [← moved_eq]
      exact room
    rcases allocFromCurrent_cases moved multiple with ⟨full, _⟩ | ⟨_, same⟩
    · omega
    · rw [same]
      exact ⟨_, _, rfl,
        extendCurrent_granted movedWf movedUsed movedLater movedCapacities multiple movedRoom⟩

/-- `arena_alloc` computes exactly; it fails and leaves the arena as it is, or grants memory of the
rounded size. -/
theorem alloc_spec {arena : Arena} (wf : arena.Wf) (size : UInt64) (memory : Bool) :
    alloc arena size memory = pure (none, arena) ∨
      ∃ ptr after, alloc arena size memory = pure (some ptr, after) ∧ 0 < size.toNat ∧
        Granted arena (roundUp size.toNat) ptr after := by
  unfold alloc
  by_cases zero : size = 0
  · rw [if_pos zero]
    exact Or.inl rfl
  · have positive : 0 < size.toNat := by
      rcases Nat.eq_zero_or_pos size.toNat with none | some
      · exact absurd (UInt64.toNat_inj.mp none) zero
      · exact some
    rw [if_neg zero]
    rcases alignUp_cases size with ⟨_, same⟩ | ⟨rounded, _, same, value⟩
    · rw [same]
      exact Or.inl rfl
    · have multiple : 16 ∣ rounded.toNat := by
        rw [value]
        exact roundUp_dvd _
      rw [same, Sized.bind_pure_left, ← value]
      dsimp only
      rcases allocFromCurrent_cases arena multiple with ⟨_, same⟩ | ⟨room, same⟩
      · rw [same, Sized.bind_pure_left]
        rcases allocFromLaterBlock_spec wf multiple memory with none | ⟨ptr, after, some, granted⟩
        · exact Or.inl none
        · exact Or.inr ⟨ptr, after, some, positive, granted⟩
      · rw [same]
        exact Or.inr ⟨_, _, rfl, positive,
          extendCurrent_granted wf rfl (Nat.le_refl _) (prefix_refl _) multiple room⟩

/-! ## Resizing memory -/

/-- The memory at the end of the current block got another size, and nothing else changed. -/
structure Regranted (before : Arena) (oldSize newSize : Nat) (ptr : ArenaPointer)
    (after : Arena) : Prop where
  wf : after.Wf
  last : ptr.offset.toNat + oldSize = before.usedAt ptr.block
  used : after.usedAt = Function.update before.usedAt ptr.block (ptr.offset.toNat + newSize)
  fill : before.fill ≤ after.fill
  capacities : before.capacities <+: after.capacities

/-- Resizing in place happens at the end of the current block only. -/
theorem resizeLast_spec {arena : Arena} (wf : arena.Wf) (ptr : ArenaPointer)
    {oldAligned newAligned : UInt64} (oldMultiple : 16 ∣ oldAligned.toNat)
    (newMultiple : 16 ∣ newAligned.toNat) :
    resizeLast arena ptr oldAligned newAligned = pure none ∨
      ∃ block, resizeLast arena ptr oldAligned newAligned = pure (some block) ∧
        Regranted arena oldAligned.toNat newAligned.toNat ptr { arena with current := block } := by
  obtain ⟨bound, aligned⟩ :=
    wf.bounded arena.current (mem_append_right _ mem_cons_self)
  unfold resizeLast
  dsimp only
  by_cases valid : oldAligned ≤ arena.current.used
  · have enough := UInt64.le_iff_toNat_le.mp valid
    rw [if_pos valid, Sized.sub_exact enough, Sized.bind_pure_left]
    have start := Sized.toNat_sub enough
    by_cases here : ptr = ⟨arena.earlier.length, arena.current.used - oldAligned⟩
    · have room : (arena.current.used - oldAligned).toNat ≤ arena.current.capacity.toNat := by
        omega
      rw [if_pos here, Sized.bind_pure_left, Sized.sub_exact room, Sized.bind_pure_left]
      have available := Sized.toNat_sub room
      by_cases fits : newAligned ≤ arena.current.capacity - (arena.current.used - oldAligned)
      · right
        have small := UInt64.le_iff_toNat_le.mp fits
        have capacity := arena.current.capacity.toNat_lt
        have sumFits : (arena.current.used - oldAligned).toNat + newAligned.toNat < 2 ^ 64 := by
          omega
        have sum := Sized.toNat_add sumFits
        rw [if_pos fits, Sized.bind_pure_left, Sized.add_exact sumFits, Sized.bind_pure_left]
        refine ⟨_, rfl, ?_⟩
        generalize block_eq : ({ arena.current with
          used := arena.current.used - oldAligned + newAligned } : ArenaBlock) = block
        have blockUsed : block.used.toNat =
            arena.current.used.toNat - oldAligned.toNat + newAligned.toNat := by
          rw [← block_eq]
          show (arena.current.used - oldAligned + newAligned).toNat = _
          rw [sum, start]
        have blockCapacity : block.capacity = arena.current.capacity := by
          rw [← block_eq]
        have blockBounded : block.used.toNat ≤ block.capacity.toNat ∧ 16 ∣ block.used.toNat := by
          rw [blockUsed, blockCapacity]
          exact ⟨by omega, by omega⟩
        rw [here]
        refine ⟨setCurrent_wf wf blockBounded, ?_, ?_, setCurrent_fill arena block, ?_⟩
        · rw [usedAt_current, start]
          omega
        · rw [setCurrent_usedAt, blockUsed, start]
        · simp only [setCurrent_capacities blockCapacity, prefix_refl]
      · left
        rw [if_neg fits]
    · left
      rw [if_neg here]
  · left
    rw [if_neg valid]

/-- The sizes of the copy are computed exactly. -/
theorem copySize_exact (arena : Arena) (ptr : ArenaPointer) (oldSize newSize : UInt64) :
    ∃ size, copySize arena ptr oldSize newSize = pure size := by
  have readable : ∃ size, readableSize arena ptr = pure size := by
    unfold readableSize
    cases arena.blocks[ptr.block]? with
    | none => exact ⟨0, rfl⟩
    | some owner =>
      by_cases inside : ptr.offset ≤ owner.used
      · have enough := UInt64.le_iff_toNat_le.mp inside
        dsimp only
        rw [if_pos inside, Sized.sub_exact enough]
        exact ⟨_, rfl⟩
      · dsimp only
        rw [if_neg inside]
        exact ⟨0, rfl⟩
  obtain ⟨size, same⟩ := readable
  unfold copySize
  rw [same]
  exact ⟨_, rfl⟩

/-- `arena_realloc_last` of memory computes exactly; it fails and leaves the arena as it is, or
resizes the memory where it is, or grants other memory. -/
theorem reallocLast_spec {arena : Arena} (wf : arena.Wf) (ptr : ArenaPointer)
    (oldSize newSize : UInt64) (memory : Bool) :
    ∃ resized, reallocLast arena (some ptr) oldSize newSize memory = pure resized ∧
      (resized.ptr = none ∧ resized.arena = arena ∨ 0 < newSize.toNat ∧ (resized.ptr = some ptr ∧
              Regranted arena (roundUp oldSize.toNat) (roundUp newSize.toNat) ptr resized.arena ∨
            ∃ other, resized.ptr = some other ∧
              Granted arena (roundUp newSize.toNat) other resized.arena)) := by
  unfold reallocLast
  by_cases zero : newSize = 0
  · dsimp only
    rw [if_pos zero]
    exact ⟨_, rfl, Or.inl ⟨rfl, rfl⟩⟩
  · have positive : 0 < newSize.toNat := by
      rcases Nat.eq_zero_or_pos newSize.toNat with none | some
      · exact absurd (UInt64.toNat_inj.mp none) zero
      · exact some
    dsimp only
    rw [if_neg zero]
    rcases alignUp_cases oldSize with ⟨_, same⟩ | ⟨oldAligned, _, same, oldValue⟩
    · rw [same]
      exact ⟨_, rfl, Or.inl ⟨rfl, rfl⟩⟩
    · rw [same, Sized.bind_pure_left]
      rcases alignUp_cases newSize with ⟨_, same⟩ | ⟨newAligned, _, same, newValue⟩
      · dsimp only
        rw [same]
        exact ⟨_, rfl, Or.inl ⟨rfl, rfl⟩⟩
      · have newMultiple : 16 ∣ newAligned.toNat := by
          rw [newValue]
          exact roundUp_dvd _
        have oldMultiple : 16 ∣ oldAligned.toNat := by
          rw [oldValue]
          exact roundUp_dvd _
        dsimp only
        rw [same, Sized.bind_pure_left, ← oldValue, ← newValue]
        dsimp only
        rcases resizeLast_spec wf ptr oldMultiple newMultiple with none | ⟨block, some, regranted⟩
        · rw [none, Sized.bind_pure_left]
          dsimp only
          unfold reallocMove
          rcases alloc_spec wf newAligned memory with none | ⟨other, after, some, _, granted⟩
          · rw [none]
            exact ⟨_, rfl, Or.inl ⟨rfl, rfl⟩⟩
          · rw [roundUp_of_dvd newMultiple] at granted
            obtain ⟨size, copied⟩ := copySize_exact after ptr oldSize newSize
            rw [some, Sized.bind_pure_left]
            dsimp only
            split
            · rw [copied]
              exact ⟨_, rfl, Or.inr ⟨positive, Or.inr ⟨other, rfl, granted⟩⟩⟩
            · exact ⟨_, rfl, Or.inr ⟨positive, Or.inr ⟨other, rfl, granted⟩⟩⟩
        · rw [some]
          exact ⟨_, rfl, Or.inr ⟨positive, Or.inl ⟨rfl, regranted⟩⟩⟩

/-! ## Going back -/

theorem emptied_bounded (block : ArenaBlock) :
    (emptied block).used.toNat ≤ (emptied block).capacity.toNat ∧
      16 ∣ (emptied block).used.toNat := ⟨Nat.zero_le _, Nat.dvd_zero 16⟩

theorem emptied_capacity (list : List ArenaBlock) :
    (list.map emptied).map ArenaBlock.capacity = list.map ArenaBlock.capacity := by
  rw [List.map_map]
  rfl

/-- `arena_reset` empties all blocks and keeps them. -/
theorem reset_spec (arena : Arena) : (reset arena).Wf ∧ (reset arena).usedAt = (fun _ => 0) ∧
      (reset arena).capacities = arena.capacities := by
  obtain ⟨first, rest, shape⟩ : ∃ first rest, arena.blocks = first :: rest := by
    unfold blocks
    cases arena.earlier with
    | nil => exact ⟨_, _, rfl⟩
    | cons first rest => exact ⟨_, _, rfl⟩
  have same : reset arena =
      { arena with earlier := [], current := emptied first, later := rest.map emptied } := by
    unfold reset
    rw [shape]
    rfl
  have sameBlocks : (reset arena).blocks = arena.blocks.map emptied := by
    rw [same, shape]
    rfl
  refine ⟨⟨?_, ?_⟩, ?_, ?_⟩
  · intro block mem
    rw [sameBlocks] at mem
    obtain ⟨old, _, rfl⟩ := mem_map.mp mem
    exact emptied_bounded old
  · intro block mem
    rw [same] at mem
    obtain ⟨old, _, rfl⟩ := mem_map.mp mem
    rfl
  · funext index
    unfold usedAt usedIn
    rw [sameBlocks, List.getElem?_map]
    cases arena.blocks[index]? with
    | none => rfl
    | some block => rfl
  · unfold capacities
    rw [sameBlocks, emptied_capacity]

/-- Before the last blocks a list is used as its first part. -/
theorem usedIn_before (before after : List ArenaBlock) {index : Nat} (small : index < before.length)
    : usedIn (before ++ after) index = usedIn before index := by
  unfold usedIn
  rw [List.getElem?_append_left small]

/-- Behind a block there are only empty ones. -/
theorem usedIn_after (before : List ArenaBlock) (block : ArenaBlock) {after : List ArenaBlock}
    (fresh : ∀ other ∈ after, other.used = 0) {index : Nat} (large : before.length < index) :
    usedIn (before ++ block :: after) index = 0 := by
  obtain ⟨offset, rfl⟩ : ∃ offset, index = before.length + (offset + 1) :=
    ⟨index - before.length - 1, by omega⟩
  unfold usedIn
  rw [List.getElem?_append_right (Nat.le_add_right ..), Nat.add_sub_cancel_left,
    List.getElem?_cons_succ]
  cases here : after[offset]? with
  | none => rfl
  | some other =>
    have empty : other.used = 0 := fresh other (mem_of_getElem? here)
    show other.used.toNat = 0
    rw [empty]
    rfl

/-- The blocks of an arena that has grown: those before the position of an earlier current block,
one of the same capacity, and the rest. -/
theorem focus_spec {saved arena : Arena} (capacities : saved.capacities <+: arena.capacities) :
    ∃ block rest, arena.blocks = arena.blocks.take saved.earlier.length ++ block :: rest ∧
      arena.focus saved.earlier.length = some { arena with
        earlier := arena.blocks.take saved.earlier.length, current := block, later := rest } ∧
      (arena.blocks.take saved.earlier.length).length = saved.earlier.length ∧
      block.capacity = saved.current.capacity := by
  have position : saved.earlier.length < saved.capacities.length := by
    unfold Arena.capacities blocks
    rw [length_map, length_append, length_cons]
    omega
  have inside : saved.earlier.length < arena.blocks.length := by
    have longer := capacities.length_le
    unfold Arena.capacities at longer position
    rw [length_map, length_map] at longer
    rw [length_map] at position
    omega
  have split := drop_eq_getElem_cons inside
  refine ⟨arena.blocks[saved.earlier.length], arena.blocks.drop (saved.earlier.length + 1), ?_, ?_,
    ?_, ?_⟩
  · rw [← split, take_append_drop]
  · unfold focus
    rw [split]
  · rw [length_take]
    omega
  · have savedHere : saved.capacities[saved.earlier.length]? = some saved.current.capacity := by
      simp [Arena.capacities, blocks]
    have arenaHere : arena.capacities[saved.earlier.length]? =
        some (arena.blocks[saved.earlier.length]).capacity := by
      unfold Arena.capacities
      rw [List.getElem?_map, List.getElem?_eq_getElem inside]
      rfl
    obtain ⟨more, whole⟩ := capacities
    rw [← whole, List.getElem?_append_left position, savedHere] at arenaHere
    exact (Option.some.inj arenaHere).symm

/-- Rewinding to the mark of an earlier state of the arena fills the blocks as they were then. -/
theorem rewind_spec {saved arena : Arena} (wf : arena.Wf) (savedWf : saved.Wf)
    (older : saved.fill ≤ arena.fill) (capacities : saved.capacities <+: arena.capacities) :
    (rewind arena saved.mark).Wf ∧ (rewind arena saved.mark).fill = saved.fill ∧
      (rewind arena saved.mark).capacities = arena.capacities := by
  obtain ⟨block, rest, shape, focused, length, capacity⟩ := focus_spec capacities
  have bounded := savedWf.bounded saved.current (mem_append_right _ mem_cons_self)
  generalize before_eq : arena.blocks.take saved.earlier.length = before at shape focused length
  have valid : ¬ block.capacity < saved.current.used := by
    rw [capacity, UInt64.lt_iff_toNat_lt]
    omega
  have same : rewind arena saved.mark = { arena with
      earlier := before, current := { block with used := saved.current.used },
      later := rest.map emptied } := by
    unfold rewind mark
    dsimp only
    rw [focused]
    dsimp only
    rw [if_neg valid]
  have emptiedLater : ∀ other ∈ rest.map emptied, other.used = 0 := by
    intro other mem
    obtain ⟨old, _, rfl⟩ := mem_map.mp mem
    rfl
  rw [same]
  refine ⟨⟨?_, emptiedLater⟩, ?_, ?_⟩
  · intro other mem
    rcases mem_append.mp mem with mem | mem
    · apply wf.bounded
      rw [shape]
      exact mem_append_left _ mem
    · rcases mem_cons.mp mem with rfl | mem
      · rw [capacity]
        exact bounded
      · obtain ⟨old, _, rfl⟩ := mem_map.mp mem
        exact emptied_bounded old
  · unfold Arena.fill
    refine Fill.ext length ?_
    funext index
    show usedIn (before ++ { block with used := saved.current.used } :: rest.map emptied) index =
      usedIn (saved.earlier ++ saved.current :: saved.later) index
    rcases Nat.lt_trichotomy index saved.earlier.length with small | same | large
    · have now : arena.usedAt index = usedIn before index := by
        unfold usedAt
        rw [shape, usedIn_before _ _ (by omega)]
      rw [usedIn_before _ _ (by omega), ← now]
      exact (older.2 index small).symm
    · have here := usedIn_middle before (rest.map emptied) { block with used := saved.current.used }
      rw [length] at here
      rw [same, here, usedIn_middle]
    · rw [usedIn_after before _ emptiedLater (by omega),
        usedIn_after saved.earlier _ savedWf.fresh large]
  · unfold Arena.capacities
    rw [shape]
    simp only [blocks, map_append, map_cons, emptied_capacity]

/-- A new arena is empty. -/
theorem create_spec (initialCapacity : UInt64) (memory : Bool) :
    create initialCapacity memory = pure none ∨
      ∃ arena, create initialCapacity memory = pure (some arena) ∧ arena.Wf ∧
        arena.usedAt = fun _ => 0 := by
  unfold create
  dsimp only
  generalize (if initialCapacity < 4096 then 4096 else initialCapacity) = minBlockSize
  rcases blockCreate_cases minBlockSize memory with none | some
  · left
    rw [none]
    rfl
  · right
    rw [some]
    refine ⟨_, rfl, ⟨?_, nofun⟩, ?_⟩
    · intro block mem
      rw [mem_singleton.mp mem]
      exact ⟨Nat.zero_le _, Nat.dvd_zero 16⟩
    · funext index
      cases index with
      | zero => rfl
      | succ index => rfl

end Nobify.Arena
