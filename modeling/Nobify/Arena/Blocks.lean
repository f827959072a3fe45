import Mathlib.Tactic.Common
import Nobify.Lib.Sized

/-!
# Arenas

`arena.c`: blocks of memory, filled from the front one after the other. A block is what its header
says of it, and a pointer to its payload is the position of the block in the list and an offset.
Blocks are never freed before the arena, so a position names the same block for good. Whether
`malloc` gives the memory for a new block is an argument. All sizes are 64-bit words, and what is
computed of them records whether it wrapped around.

Contents of the memory and the list of cleanups are left out; what `memmove` copies is given by its
length.
-/

namespace Nobify

open Lib

/-- `Arena_Block`. -/
structure ArenaBlock where
  capacity : UInt64
  used : UInt64
  deriving DecidableEq

/-- `Arena`: the blocks before `current`, the block that `current` points to, and those after it. -/
structure Arena where
  earlier : List ArenaBlock
  current : ArenaBlock
  later : List ArenaBlock
  minBlockSize : UInt64
  deriving DecidableEq

/-- A pointer to the payload of a block. -/
structure ArenaPointer where
  block : Nat
  offset : UInt64
  deriving DecidableEq

/-- `Arena_Mark`. -/
structure ArenaMark where
  block : Nat
  used : UInt64

namespace Arena

/-- `ARENA_ALIGNMENT`, the alignment of `max_align_t`. -/
def alignment : UInt64 := 16

/-- `sizeof(Arena_Block)`: three words, and a `max_align_t` after them. -/
def headerSize : UInt64 := 64

/-- `SIZE_MAX`. -/
def sizeMax : UInt64 := 0xffffffffffffffff

/-- The blocks in the order of the list. -/
def blocks (arena : Arena) : List ArenaBlock := arena.earlier ++ arena.current :: arena.later

/-- `arena_add_overflow`: the sum, or `none` where it overflows. -/
def addOverflow (a b : UInt64) : Sized (Option UInt64) := do
  let room ← Sized.sub sizeMax b
  if room < a then return none else return some (← Sized.add a b)

/-- `arena_align_up`. -/
def alignUp (n : UInt64) : Sized (Option UInt64) := do
  let low ← Sized.sub alignment 1
  match ← addOverflow n low with
  | none => return none
  | some tmp => return some (tmp &&& ~~~low)

/-- `arena_block_create`; `memory` says whether `malloc` succeeds. -/
def blockCreate (capacity : UInt64) (memory : Bool) : Sized (Option ArenaBlock) := do
  match ← addOverflow headerSize capacity with
  | none => return none
  | some _ => if memory then return some ⟨capacity, 0⟩ else return none

/-- `arena_create`. -/
def create (initialCapacity : UInt64) (memory : Bool) : Sized (Option Arena) := do
  let minBlockSize := if initialCapacity < 4096 then 4096 else initialCapacity
  match ← blockCreate minBlockSize memory with
  | none => return none
  | some first => return some ⟨[], first, [], minBlockSize⟩

/-- `arena_alloc_from_block`: the offset of the memory, and the block. -/
def allocFromBlock (block : ArenaBlock) (size : UInt64) : Sized (Option (UInt64 × ArenaBlock)) := do
  match ← alignUp size with
  | none => return none
  | some size =>
    match ← addOverflow block.used size with
    | none => return none
    | some newUsed =>
      if block.capacity < newUsed then return none
      else return some (block.used, { block with used := newUsed })

/-- `arena_find_reusable_block`: the first block with room, between those before and after it. -/
def findReusableBlock (size : UInt64) :
    List ArenaBlock → Sized (Option (List ArenaBlock × ArenaBlock × List ArenaBlock))
  | [] => return none
  | block :: rest => do
    let nextUsed ← addOverflow block.used size
    if nextUsed.any fun nextUsed => size ≤ block.capacity && nextUsed ≤ block.capacity then
      return some ([], block, rest)
    else
      return (← findReusableBlock size rest).map fun found =>
        (block :: found.1, found.2.1, found.2.2)

/-- Twice the capacity, or `SIZE_MAX` where that overflows. -/
def doubleCapacity (capacity : UInt64) : Sized UInt64 :=
  if capacity ≤ sizeMax / 2 then Sized.mul capacity 2 else return sizeMax

/-- The capacity of a new block. -/
def newCapacity (arena : Arena) (alignedSize : UInt64) : Sized UInt64 := do
  let doubled ← doubleCapacity arena.current.capacity
  let enough := if doubled < alignedSize then alignedSize else doubled
  return if enough < arena.minBlockSize then arena.minBlockSize else enough

/-- Taking memory from the current block. -/
def allocFromCurrent (arena : Arena) (size : UInt64) : Sized (Option (ArenaPointer × Arena)) := do
  return (← allocFromBlock arena.current size).map fun found =>
    (⟨arena.earlier.length, found.1⟩, { arena with current := found.2 })

/-- The end of `arena_alloc`: a new block at the tail of the list. Where it has no room the
assertion fails. -/
def allocFromNewBlock (arena : Arena) (alignedSize : UInt64) (memory : Bool) :
    Sized (Option ArenaPointer × Arena) := do
  let capacity ← newCapacity arena alignedSize
  match ← blockCreate capacity memory with
  | none => return (none, arena)
  | some block =>
    let grown := { arena with earlier := arena.blocks, current := block, later := [] }
    match ← allocFromCurrent grown alignedSize with
    | none => return (none, grown)
    | some (ptr, arena) => return (some ptr, arena)

/-- The part of `arena_alloc` after its fast path. -/
def allocFromLaterBlock (arena : Arena) (alignedSize : UInt64) (memory : Bool) :
    Sized (Option ArenaPointer × Arena) := do
  match ← findReusableBlock alignedSize arena.later with
  | none => allocFromNewBlock arena alignedSize memory
  | some (skipped, block, rest) =>
    let arena := { arena with
      earlier := arena.earlier ++ arena.current :: skipped, current := block, later := rest }
    match ← allocFromCurrent arena alignedSize with
    | none => allocFromNewBlock arena alignedSize memory
    | some (ptr, arena) => return (some ptr, arena)

/-- `arena_alloc`; `memory` says whether `malloc` succeeds if it is called. -/
def alloc (arena : Arena) (size : UInt64) (memory : Bool) : Sized (Option ArenaPointer × Arena) := do
  if size = 0 then return (none, arena)
  else
    match ← alignUp size with
    | none => return (none, arena)
    | some alignedSize =>
      match ← allocFromCurrent arena alignedSize with
      | none => allocFromLaterBlock arena alignedSize memory
      | some (ptr, arena) => return (some ptr, arena)

/-- The part of `arena_realloc_last` that resizes in place: the current block, if the allocation is
its last one and still fits. -/
def resizeLast (arena : Arena) (ptr : ArenaPointer) (oldAligned newAligned : UInt64) :
    Sized (Option ArenaBlock) := do
  let block := arena.current
  if oldAligned ≤ block.used then
    let expected ← Sized.sub block.used oldAligned
    if ptr = ⟨arena.earlier.length, expected⟩ then
      let available ← Sized.sub block.capacity (← Sized.sub block.used oldAligned)
      if newAligned ≤ available then
        let used ← Sized.add (← Sized.sub block.used oldAligned) newAligned
        return some { block with used := used }
      else return none
    else return none
  else return none

/-- What `arena_find_block_for_ptr` and its caller find of the old allocation: the bytes that can
be read from it. -/
def readableSize (arena : Arena) (ptr : ArenaPointer) : Sized UInt64 :=
  match arena.blocks[ptr.block]? with
  | none => return 0
  | some owner => if ptr.offset ≤ owner.used then Sized.sub owner.used ptr.offset else return 0

/-- The bytes that `arena_realloc_last` copies. -/
def copySize (arena : Arena) (ptr : ArenaPointer) (oldSize newSize : UInt64) : Sized UInt64 := do
  let readable ← readableSize arena ptr
  let wanted := if oldSize < newSize then oldSize else newSize
  return if readable < wanted then readable else wanted

/-- What `arena_realloc_last` returns and does: the pointer, the bytes that were copied to it, and
the arena. -/
structure Resized where
  ptr : Option ArenaPointer
  copied : UInt64
  arena : Arena

/-- The fallback of `arena_realloc_last`. -/
def reallocMove (arena : Arena) (ptr : ArenaPointer) (oldSize newSize newAligned : UInt64)
    (memory : Bool) : Sized Resized := do
  let (newPtr, arena) ← alloc arena newAligned memory
  if newPtr.isSome && 0 < oldSize then
    return ⟨newPtr, ← copySize arena ptr oldSize newSize, arena⟩
  else return ⟨newPtr, 0, arena⟩

/-- `arena_realloc_last`. -/
def reallocLast (arena : Arena) (ptr : Option ArenaPointer) (oldSize newSize : UInt64)
    (memory : Bool) : Sized Resized := do
  match ptr with
  | none =>
    let (newPtr, arena) ← alloc arena newSize memory
    return ⟨newPtr, 0, arena⟩
  | some ptr =>
    if newSize = 0 then return ⟨none, 0, arena⟩
    else
      match ← alignUp oldSize with
      | none => return ⟨none, 0, arena⟩
      | some oldAligned =>
        match ← alignUp newSize with
        | none => return ⟨none, 0, arena⟩
        | some newAligned =>
          match ← resizeLast arena ptr oldAligned newAligned with
          | none => reallocMove arena ptr oldSize newSize newAligned memory
          | some block => return ⟨some ptr, 0, { arena with current := block }⟩

/-- A block without its contents. -/
def emptied (block : ArenaBlock) : ArenaBlock := { block with used := 0 }

/-- The arena whose current block is at a position of the list. -/
def focus (arena : Arena) (position : Nat) : Option Arena :=
  match arena.blocks.drop position with
  | [] => none
  | block :: rest =>
    some { arena with earlier := arena.blocks.take position, current := block, later := rest }

/-- `arena_reset`: all blocks are empty, and the first one is current. -/
def reset (arena : Arena) : Arena :=
  match arena.blocks.map emptied with
  | [] => arena
  | first :: rest => { arena with earlier := [], current := first, later := rest }

/-- `arena_mark`. -/
def mark (arena : Arena) : ArenaMark := ⟨arena.earlier.length, arena.current.used⟩

/-- `arena_rewind`; an invalid mark resets the arena. -/
def rewind (arena : Arena) (mark : ArenaMark) : Arena :=
  match arena.focus mark.block with
  | none => reset arena
  | some target =>
    if target.current.capacity < mark.used then reset arena
    else { target with
      current := { target.current with used := mark.used }, later := target.later.map emptied }

end Arena

end Nobify
