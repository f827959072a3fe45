import Nobify.Arena.Grants

/-!
# Arenas and their allocations

What the users of an arena know of it: the allocations that they may use, and for each of their
marks the state in which it was taken. A resize, a rewind or a reset says which allocations are live
afterwards; whether the arena agrees is the question. It does after any calls with any answers of
`malloc`, if a reset ends the marks that were taken before.
-/

namespace Nobify.Arena

open Lib
open List

variable {after : Arena} {size : UInt64} {live : List Allocation} {position : Nat}

/-! ## Calls -/

/-- Memory that was asked for and granted. -/
structure Allocation where
  ptr : ArenaPointer
  size : UInt64
  deriving DecidableEq

/-- The state in which a mark was taken. -/
structure Snapshot where
  arena : Arena
  live : List Allocation

/-- An arena, the live allocations, and the marks, latest first. -/
structure History where
  arena : Arena
  live : List Allocation
  marks : List Snapshot

/-- The calls. The target of a resize is a position in the live allocations, or `none` for `NULL`;
its old size is that of the allocation. A rewind is to the mark at a position, which it keeps. -/
inductive Call where
  | alloc (size : UInt64) (memory : Bool)
  | reallocLast (target : Option Nat) (newSize : UInt64) (memory : Bool)
  | mark
  | rewind (position : Nat)
  | reset

/-- An allocation that was granted is live. -/
def History.grant (history : History) (ptr : Option ArenaPointer) (size : UInt64)
    (arena : Arena) : History :=
  match ptr with
  | none => { history with arena := arena }
  | some ptr => { history with arena := arena, live := ⟨ptr, size⟩ :: history.live }

/-- A resized allocation is live in place of the old one; where resizing fails the old one stays. -/
def History.regrant (history : History) (position : Nat) (size : UInt64) (resized : Resized) :
    History :=
  match resized.ptr with
  | none => { history with arena := resized.arena }
  | some ptr =>
    { history with
      arena := resized.arena, live := ⟨ptr, size⟩ :: history.live.eraseIdx position }

/-- What a call does. If `endsMarks`, marks that were taken before a reset are not used after it. A
resize of no allocation and a rewind to no mark are no calls. -/
def call (endsMarks : Bool) (history : History) : Call → Sized History
  | .alloc size memory => do
    let result ← alloc history.arena size memory
    return history.grant result.1 size result.2
  | .reallocLast none newSize memory => do
    let resized ← reallocLast history.arena none 0 newSize memory
    return history.grant resized.ptr newSize resized.arena
  | .reallocLast (some position) newSize memory =>
    match history.live[position]? with
    | none => return history
    | some target => do
      let resized ← reallocLast history.arena (some target.ptr) target.size newSize memory
      return history.regrant position newSize resized
  | .mark =>
    return { history with marks := ⟨history.arena, history.live⟩ :: history.marks }
  | .rewind position =>
    match history.marks.drop position with
    | [] => return history
    | saved :: older =>
      return ⟨rewind history.arena saved.arena.mark, saved.live, saved :: older⟩
  | .reset =>
    return ⟨reset history.arena, [], if endsMarks then [] else history.marks⟩

/-- One call after the other. -/
def run (endsMarks : Bool) : List Call → History → Sized History
  | [], history => return history
  | first :: rest, history => do run endsMarks rest (← call endsMarks history first)

/-- A new arena. -/
def History.start (arena : Arena) : History := ⟨arena, [], []⟩

/-! ## The invariant -/

/-- The piece of a block that was granted. -/
def Allocation.extent (allocation : Allocation) : Extent where
  block := allocation.ptr.block
  start := allocation.ptr.offset.toNat
  size := roundUp allocation.size.toNat

theorem roundUp_pos {n : Nat} (positive : 0 < n) : 0 < roundUp n :=
  Nat.lt_of_lt_of_le positive (le_roundUp n)

/-- The extents of the live allocations fit the arena. -/
def Holds (arena : Arena) (live : List Allocation) : Prop :=
  Fits 16 arena.usedAt (live.map Allocation.extent)

/-- The arena holds the live allocations, and held those of each mark when it was taken; since then
only blocks from the current one of that time on have changed. -/
structure Sound (history : History) : Prop where
  wf : history.arena.Wf
  holds : Holds history.arena history.live
  order : Stacked (history.arena.fill :: history.marks.map fun saved => saved.arena.fill)
  marks : ∀ saved ∈ history.marks, saved.arena.Wf ∧ Holds saved.arena saved.live ∧
    saved.arena.capacities <+: history.arena.capacities

variable {before : Arena} {ptr : ArenaPointer}

/-- A granted allocation is held. -/
theorem Granted.holds (granted : Granted before (roundUp size.toNat) ptr after)
    (positive : 0 < size.toNat) (holds : Holds before live) :
    Holds after (⟨ptr, size⟩ :: live) := by
  have filled : 0 < (Allocation.extent ⟨ptr, size⟩).size := roundUp_pos positive
  have pushed := holds.push filled granted.aligned granted.start
  unfold Holds
  rw [granted.used]
  exact pushed

/-- The arena goes on to a later fill. -/
theorem Sound.advance {history : History} (sound : Sound history) {arena : Arena} (wf : arena.Wf)
    (holds : Holds arena live) (fill : history.arena.fill ≤ arena.fill)
    (capacities : history.arena.capacities <+: arena.capacities) :
    Sound { history with arena := arena, live := live } := by
  refine ⟨wf, holds, sound.order.advance fill, ?_⟩
  intro saved mem
  obtain ⟨savedWf, savedHolds, before⟩ := sound.marks saved mem
  exact ⟨savedWf, savedHolds, before.trans capacities⟩

/-! ## Calls keep it -/

section Calls

variable {history : History}

theorem Sound.grant (sound : Sound history) (positive : 0 < size.toNat)
    (granted : Granted history.arena (roundUp size.toNat) ptr after) :
    Sound (history.grant (some ptr) size after) :=
  sound.advance granted.wf (granted.holds positive sound.holds) granted.fill granted.capacities

theorem alloc_sound (sound : Sound history) (size : UInt64) (memory : Bool) :
    ∃ result, alloc history.arena size memory = pure result ∧
      Sound (history.grant result.1 size result.2) := by
  rcases alloc_spec sound.wf size memory with none | ⟨ptr, after, some, positive, granted⟩
  · exact ⟨_, none, sound⟩
  · exact ⟨_, some, sound.grant positive granted⟩

/-- The memory at the end of the current block is held with its new size. -/
theorem Regranted.holds {target : Allocation} (here : live[position]? = some target)
    (regranted : Regranted before (roundUp target.size.toNat) (roundUp size.toNat) target.ptr after)
    (positive : 0 < size.toNat) (holds : Holds before live) :
    Holds after (⟨target.ptr, size⟩ :: live.eraseIdx position) := by
  have mapped : (live.map Allocation.extent)[position]? = some target.extent := by
    rw [List.getElem?_map, here]
    rfl
  have last : target.extent.finish = before.usedAt target.extent.block := regranted.last
  have resized := holds.resize mapped last (roundUp_pos positive)
  unfold Holds
  rw [regranted.used, map_cons, ← eraseIdx_map]
  exact resized

theorem reallocLast_sound (sound : Sound history) {target : Allocation}
    (here : history.live[position]? = some target) (size : UInt64) (memory : Bool) :
    ∃ resized, reallocLast history.arena (some target.ptr) target.size size memory =
        pure resized ∧ Sound (history.regrant position size resized) := by
  obtain ⟨resized, same, ends⟩ :=
    reallocLast_spec sound.wf target.ptr target.size size memory
  refine ⟨resized, same, ?_⟩
  unfold History.regrant
  rcases ends with ⟨failed, kept⟩ | ⟨positive, inPlace | moved⟩
  · rw [failed, kept]
    exact sound
  · obtain ⟨found, regranted⟩ := inPlace
    rw [found]
    exact sound.advance regranted.wf (regranted.holds here positive sound.holds) regranted.fill
      regranted.capacities
  · obtain ⟨other, found, granted⟩ := moved
    have remaining : Holds history.arena (history.live.eraseIdx position) := by
      unfold Holds
      rw [← eraseIdx_map]
      exact Fits.eraseIdx sound.holds position
    rw [found]
    exact sound.advance granted.wf (granted.holds positive remaining) granted.fill
      granted.capacities

theorem rewind_sound (sound : Sound history) {saved : Snapshot} {older : List Snapshot}
    (here : history.marks.drop position = saved :: older) :
    Sound ⟨rewind history.arena saved.arena.mark, saved.live, saved :: older⟩ ∧
      (rewind history.arena saved.arena.mark).usedAt = saved.arena.usedAt := by
  have suffix : ∀ other ∈ saved :: older, other ∈ history.marks := by
    intro other mem
    rw [← here] at mem
    exact mem_of_mem_drop mem
  obtain ⟨savedWf, savedHolds, grown⟩ := sound.marks saved (suffix saved mem_cons_self)
  have dropped : (history.marks.map fun saved => saved.arena.fill).drop position =
      saved.arena.fill :: older.map fun saved => saved.arena.fill := by
    rw [← map_drop, here]
    rfl
  have before : saved.arena.fill ≤ history.arena.fill := by
    apply (pairwise_cons.mp sound.order).1
    exact mem_map.mpr ⟨saved, suffix saved mem_cons_self, rfl⟩
  obtain ⟨wf, fill, capacities⟩ := rewind_spec sound.wf savedWf before grown
  have used : (rewind history.arena saved.arena.mark).usedAt = saved.arena.usedAt :=
    congrArg Fill.used fill
  refine ⟨⟨wf, ?_, ?_, ?_⟩, used⟩
  · unfold Holds
    rw [used]
    exact savedHolds
  · rw [fill]
    exact sound.order.back dropped
  · intro other mem
    obtain ⟨otherWf, otherHolds, otherGrown⟩ := sound.marks other (suffix other mem)
    rw [capacities]
    exact ⟨otherWf, otherHolds, otherGrown⟩

/-- A reset that ends the marks leaves nothing to hold. -/
theorem reset_sound (history : History) : Sound ⟨reset history.arena, [], []⟩ := by
  obtain ⟨wf, _, _⟩ := reset_spec history.arena
  exact ⟨wf, .nil, pairwise_singleton .., nofun⟩

/-- Every call computes exactly and keeps the invariant. -/
theorem call_sound (sound : Sound history) (made : Call) :
    ∃ after, call true history made = pure after ∧ Sound after := by
  cases made with
  | alloc size memory =>
    obtain ⟨result, same, after⟩ := alloc_sound sound size memory
    refine ⟨_, ?_, after⟩
    unfold call
    dsimp only
    rw [same]
    rfl
  | reallocLast target newSize memory =>
    cases target with
    | none =>
      obtain ⟨result, same, after⟩ := alloc_sound sound newSize memory
      refine ⟨_, ?_, after⟩
      unfold call reallocLast
      dsimp only
      rw [same]
      rfl
    | some position =>
      cases here : history.live[position]? with
      | none =>
        refine ⟨history, ?_, sound⟩
        simp only [call, here]
      | some target =>
        obtain ⟨resized, same, after⟩ := reallocLast_sound sound here newSize memory
        refine ⟨_, ?_, after⟩
        simp only [call, here, same, Sized.bind_pure_left]
  | mark =>
    refine ⟨_, rfl, sound.wf, sound.holds, sound.order.save, ?_⟩
    intro saved mem
    rcases mem_cons.mp mem with rfl | mem
    · exact ⟨sound.wf, sound.holds, List.prefix_refl _⟩
    · exact sound.marks saved mem
  | rewind position =>
    cases here : history.marks.drop position with
    | nil =>
      refine ⟨history, ?_, sound⟩
      simp only [call, here]
    | cons saved older =>
      refine ⟨_, ?_, (rewind_sound sound here).1⟩
      simp only [call, here]
  | reset => exact ⟨_, rfl, reset_sound history⟩

/-- Every run computes exactly and keeps the invariant. -/
theorem run_sound (sound : Sound history) (calls : List Call) :
    ∃ after, run true calls history = pure after ∧ Sound after := by
  induction calls generalizing history with
  | nil => exact ⟨history, rfl, sound⟩
  | cons first rest ih =>
    obtain ⟨middle, same, kept⟩ := call_sound sound first
    obtain ⟨after, later, still⟩ := ih kept
    refine ⟨after, ?_, still⟩
    unfold run
    rw [same]
    exact later

end Calls

/-! ## Runs -/

/-- What users of an arena rely on. -/
structure Reliable (history : History) : Prop where
  /-- Each live allocation lies in what is used of its block, at an aligned offset. -/
  inside : ∀ allocation ∈ history.live, ∃ block,
    history.arena.blocks[allocation.ptr.block]? = some block ∧
      16 ∣ allocation.ptr.offset.toNat ∧ 0 < allocation.size.toNat ∧
      allocation.ptr.offset.toNat + allocation.size.toNat ≤ block.used.toNat
  /-- No two live allocations overlap. -/
  disjoint : history.live.Pairwise fun first second => first.extent.Apart second.extent
  /-- No block is filled beyond its capacity. -/
  bounded : ∀ block ∈ history.arena.blocks, block.used.toNat ≤ block.capacity.toNat
  /-- Blocks after the current one are empty. -/
  fresh : ∀ block ∈ history.arena.later, block.used = 0
  /-- A rewind makes the allocations of the mark live, and every block is used as it was then. -/
  rewinds : ∀ position saved older, history.marks.drop position = saved :: older →
    ∃ after, call true history (.rewind position) = pure after ∧ after.live = saved.live ∧
      after.arena.usedAt = saved.arena.usedAt

theorem Sound.reliable {history : History} (sound : Sound history) : Reliable history := by
  have sized : ∀ allocation ∈ history.live, 0 < allocation.size.toNat := by
    intro allocation mem
    have filled := (sound.holds.inside allocation.extent (mem_map.mpr ⟨allocation, mem, rfl⟩)).1
    have filled : 0 < roundUp allocation.size.toNat := filled
    unfold roundUp at filled
    omega
  refine ⟨?_, ?_, fun block mem => (sound.wf.bounded block mem).1, sound.wf.fresh, ?_⟩
  · intro allocation mem
    obtain ⟨_, aligned, bound⟩ :=
      sound.holds.inside allocation.extent (mem_map.mpr ⟨allocation, mem, rfl⟩)
    have positive : 0 < allocation.size.toNat := sized allocation mem
    have rounded := le_roundUp allocation.size.toNat
    have bound : allocation.ptr.offset.toNat + roundUp allocation.size.toNat ≤
        usedIn history.arena.blocks allocation.ptr.block := bound
    unfold usedIn at bound
    cases here : history.arena.blocks[allocation.ptr.block]? with
    | none =>
      rw [here] at bound
      have bound : allocation.ptr.offset.toNat + roundUp allocation.size.toNat ≤ 0 := bound
      omega
    | some block =>
      rw [here] at bound
      have bound : allocation.ptr.offset.toNat + roundUp allocation.size.toNat ≤
        block.used.toNat := bound
      exact ⟨block, rfl, aligned, positive, by omega⟩
  · exact pairwise_map.mp sound.holds.apart
  · intro position saved older here
    refine ⟨⟨rewind history.arena saved.arena.mark, saved.live, saved :: older⟩, ?_, rfl,
      (rewind_sound sound here).2⟩
    simp only [call, here]

/-- Marks are kept, or dropped, or the one that is taken. -/
theorem call_marks (endsMarks : Bool) (history : History) (made : Call) :
    ∀ saved ∈ (call endsMarks history made).value.marks, saved ∈ history.marks ∨
      made = .mark ∧ saved = ⟨history.arena, history.live⟩ := by
  have grant : ∀ ptr size arena, (history.grant ptr size arena).marks = history.marks := by
    intro ptr size arena
    cases ptr with
    | none => rfl
    | some ptr => rfl
  intro saved mem
  cases made with
  | alloc size memory =>
    left
    have mem : saved ∈ (history.grant _ _ _).marks := mem
    rw [grant] at mem
    exact mem
  | reallocLast target newSize memory =>
    left
    cases target with
    | none =>
      have mem : saved ∈ (history.grant _ _ _).marks := mem
      rw [grant] at mem
      exact mem
    | some position =>
      simp only [call] at mem
      split at mem
      · exact mem
      · have mem : saved ∈ (history.regrant _ _ _).marks := mem
        unfold History.regrant at mem
        split at mem
        · exact mem
        · exact mem
  | mark =>
    rcases mem_cons.mp mem with rfl | mem
    · exact Or.inr ⟨rfl, rfl⟩
    · exact Or.inl mem
  | rewind position =>
    left
    simp only [call] at mem
    split at mem
    · exact mem
    · rename_i first older here
      have mem : saved ∈ first :: older := mem
      rw [← here] at mem
      exact mem_of_mem_drop mem
  | reset =>
    left
    have mem : saved ∈ if endsMarks then [] else history.marks := mem
    split at mem
    · cases mem
    · exact mem

/-- A mark of a run is the state that a call of `arena_mark` met. -/
theorem run_marks (endsMarks : Bool) (calls : List Call) (history : History) :
    ∀ saved ∈ (run endsMarks calls history).value.marks, saved ∈ history.marks ∨
      ∃ done rest, calls = done ++ .mark :: rest ∧
        saved = ⟨(run endsMarks done history).value.arena,
          (run endsMarks done history).value.live⟩ := by
  induction calls generalizing history with
  | nil => exact fun saved mem => Or.inl mem
  | cons first rest ih =>
    intro saved mem
    rcases ih (call endsMarks history first).value saved mem with old | ⟨done, after, rfl, same⟩
    · rcases call_marks endsMarks history first saved old with older | ⟨rfl, same⟩
      · exact Or.inl older
      · exact Or.inr ⟨[], rest, rfl, same⟩
    · exact Or.inr ⟨first :: done, after, rfl, same⟩

/-- After any calls on a new arena, with any answers of `malloc`, no size has wrapped around and
users can rely on the arena, if marks are not used after a reset; the marks that they have are
states of the run. -/
theorem run_reliable {initialCapacity : UInt64} {memory : Bool} {arena : Arena}
    (created : (create initialCapacity memory).value = some arena) (calls : List Call) :
    (create initialCapacity memory).wrapped = false ∧
      (run true calls (.start arena)).wrapped = false ∧
      Reliable (run true calls (.start arena)).value ∧
      ∀ saved ∈ (run true calls (.start arena)).value.marks,
        ∃ done rest, calls = done ++ .mark :: rest ∧
          saved.arena = (run true done (.start arena)).value.arena ∧
          saved.live = (run true done (.start arena)).value.live := by
  have start : (create initialCapacity memory).wrapped = false ∧ Sound (.start arena) := by
    rcases create_spec initialCapacity memory with none | ⟨other, some, wf, _⟩
    · rw [none] at created
      cases created
    · rw [some] at created ⊢
      obtain rfl : other = arena := Option.some.inj created
      exact ⟨rfl, wf, .nil, pairwise_singleton .., nofun⟩
  obtain ⟨exact', start⟩ := start
  obtain ⟨after, same, sound⟩ := run_sound start calls
  rw [same]
  refine ⟨exact', rfl, sound.reliable, ?_⟩
  intro saved mem
  have mem : saved ∈ (run true calls (.start arena)).value.marks := by
    rw [same]
    exact mem
  rcases run_marks true calls (.start arena) saved mem with old | ⟨done, rest, split, shape⟩
  · cases old
  · refine ⟨done, rest, split, ?_, ?_⟩
    · rw [shape]
    · rw [shape]

/-- An allocation is resized after a mark, another one takes a new block, and the arena is rewound
to the mark. -/
def resizedAfterMark : List Call :=
  [.alloc 100 true, .mark, .reallocLast (some 0) 300 true, .alloc 5000 true, .rewind 0]

/-- The arena of `resizedAfterMark`. -/
theorem run_reliable_resizedAfterMark :
    ∃ arena, (create 0 true).value = some arena ∧ (create 0 true).wrapped = false ∧
      (run true resizedAfterMark (.start arena)).wrapped = false ∧
      Reliable (run true resizedAfterMark (.start arena)).value ∧
      ∀ saved ∈ (run true resizedAfterMark (.start arena)).value.marks,
        ∃ done rest, resizedAfterMark = done ++ .mark :: rest ∧
          saved.arena = (run true done (.start arena)).value.arena ∧
          saved.live = (run true done (.start arena)).value.live :=
  have created : (create 0 true).value = some ⟨[], ⟨4096, 0⟩, [], 4096⟩ := by decide +kernel
  ⟨_, created, run_reliable created resizedAfterMark⟩

/-- A mark is taken in the second block, the arena is reset, and then rewound to the mark. -/
def staleMark : List Call :=
  [.alloc 4096 true, .alloc 16 true, .mark, .reset, .rewind 0]

/-- If a mark may be used after a reset, the allocation of the first block of `staleMark` is live
again and lies in nothing that is used. -/
theorem staleMark_unreliable :
    ¬ ∀ initialCapacity memory arena calls, (create initialCapacity memory).value = some arena →
      Reliable (run false calls (.start arena)).value := by
  intro always
  have reliable := always 0 true ⟨[], ⟨4096, 0⟩, [], 4096⟩ staleMark (by decide +kernel)
  generalize final_eq : (run false staleMark (.start ⟨[], ⟨4096, 0⟩, [], 4096⟩)).value = final
    at reliable
  have first : (⟨⟨0, 0⟩, 4096⟩ : Allocation) ∈ final.live := by
    rw [← final_eq]
    decide +kernel
  have emptied : final.arena.blocks[0]? = some ⟨4096, 0⟩ := by
    rw [← final_eq]
    decide +kernel
  obtain ⟨block, here, _, _, bound⟩ := reliable.inside _ first
  have same : block = ⟨4096, 0⟩ := by
    have here : final.arena.blocks[0]? = some block := here
    rw [emptied] at here
    exact (Option.some.inj here).symm
  rw [same] at bound
  revert bound
  decide

end Nobify.Arena
