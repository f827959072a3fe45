import Nobify.Arena.History

/-!
# Cleanups of an arena

`arena_on_destroy` keeps its list of callbacks in the arena itself: a node is memory of the arena,
and the list is threaded through the nodes, latest first. A mark remembers the head of the list, and
a rewind runs the callbacks in front of that node before it gives the memory back. What the nodes
hold is modelled by the pointers to them; memory that is granted anew overwrites the nodes that lie
in it, and a node whose memory has been given back cannot be read.

A callback is told apart from the others by its number, the registrations before it.
-/

namespace Nobify.Arena

open Lib
open List

variable {nodes : List (ArenaPointer × CleanupNode)} {head : Option ArenaPointer}

/-! ## Nodes -/

/-- `Arena_Cleanup_Node`, with the number of the registration for `fn` and `userdata`. -/
structure CleanupNode where
  registration : Nat
  next : Option ArenaPointer

/-- `sizeof(Arena_Cleanup_Node)`: three words. -/
def nodeSize : UInt64 := 24

/-- The piece of a block that the node at a pointer takes. -/
def nodeExtent (ptr : ArenaPointer) : Extent := (Allocation.mk ptr nodeSize).extent

instance (first second : Extent) : Decidable (first.Apart second) :=
  inferInstanceAs (Decidable (_ → _))

/-- What a mark holds of the cleanups: `cleanup_head`, and the registrations before the mark. -/
structure CleanupMark where
  cleanupHead : Option ArenaPointer
  registered : Nat

/-- An arena in use, with `cleanup_head`, the nodes in its memory, the number of registrations, and
what its marks hold of the cleanups, latest first. -/
structure Cleanups where
  history : History
  cleanupHead : Option ArenaPointer := none
  nodes : List (ArenaPointer × CleanupNode) := []
  registered : Nat := 0
  marks : List CleanupMark := []

/-- The callbacks that were run together: what was registered since then could be among them, and
what had been registered by now. -/
structure Release where
  since : Nat
  upTo : Nat
  ran : List Nat
  deriving DecidableEq

namespace Cleanups

/-- The node at a pointer. -/
def nodeAt (nodes : List (ArenaPointer × CleanupNode)) (ptr : ArenaPointer) : Option CleanupNode :=
  (nodes.find? fun entry => entry.1 = ptr).map Prod.snd

/-- Reading a node. There is no reading of memory that was given back. -/
def read (state : Cleanups) (ptr : ArenaPointer) : Option CleanupNode :=
  if ⟨ptr, nodeSize⟩ ∈ state.history.live then nodeAt state.nodes ptr else none

/-- `arena_run_cleanups_until`, for so many nodes at most: the callbacks, and `cleanup_head`. -/
def runCleanupsUntil (state : Cleanups) (stopHead : Option ArenaPointer) :
    Nat → Option ArenaPointer → Option (List Nat × Option ArenaPointer)
  | _, none => some ([], none)
  | rounds, some ptr =>
    if some ptr = stopHead then some ([], some ptr)
    else
      match rounds with
      | 0 => none
      | rounds + 1 =>
        (state.read ptr).bind fun node =>
          (runCleanupsUntil state stopHead rounds node.next).map fun found =>
            (node.registration :: found.1, found.2)

/-- `arena_alloc`: what is granted overwrites the nodes that were there. -/
def alloc (state : Cleanups) (size : UInt64) (memory : Bool) : Option ArenaPointer × Cleanups :=
  let granted := (Arena.alloc state.history.arena size memory).value
  (granted.1, { state with
    history := state.history.grant granted.1 size granted.2
    nodes := granted.1.elim state.nodes fun ptr =>
      state.nodes.filter fun entry => (nodeExtent entry.1).Apart (Allocation.mk ptr size).extent })

/-- `arena_on_destroy`; without memory for its node nothing is registered. -/
def onDestroy (state : Cleanups) (memory : Bool) : Cleanups :=
  match state.alloc nodeSize memory with
  | (none, after) => after
  | (some ptr, after) =>
    { after with
      cleanupHead := some ptr
      nodes := (ptr, ⟨state.registered, state.cleanupHead⟩) :: after.nodes
      registered := state.registered + 1 }

/-- Whether `arena_rewind` finds the block of a mark, large enough. -/
def markIsValid (arena : Arena) (mark : ArenaMark) : Bool :=
  (arena.focus mark.block).any fun target => !decide (target.current.capacity < mark.used)

/-- The callbacks that `arena_rewind` runs, and `cleanup_head`: an invalid mark runs them all. -/
def rewindCleanups (state : Cleanups) (mark : ArenaMark) (stopHead : Option ArenaPointer) :
    Option (List Nat × Option ArenaPointer) :=
  (state.runCleanupsUntil stopHead state.registered state.cleanupHead).bind fun first =>
    if markIsValid state.history.arena mark then some first
    else
      (state.runCleanupsUntil none state.registered first.2).map fun second =>
        (first.1 ++ second.1, second.2)

/-- The calls of an arena. -/
inductive Call where
  | alloc (size : UInt64) (memory : Bool)
  | onDestroy (memory : Bool)
  | mark
  | rewind (position : Nat)
  | reset

/-- What a call does, and the callbacks that it runs; `none` if it reads a node that it cannot. -/
def call (endsMarks : Bool) (state : Cleanups) : Call → Option (List Release × Cleanups)
  | .alloc size memory => some ([], (state.alloc size memory).2)
  | .onDestroy memory => some ([], state.onDestroy memory)
  | .mark =>
    some ([], { state with
      history := (Arena.call endsMarks state.history .mark).value
      marks := ⟨state.cleanupHead, state.registered⟩ :: state.marks })
  | .rewind position =>
    match state.history.marks.drop position, state.marks.drop position with
    | saved :: _, mark :: older =>
      (state.rewindCleanups saved.arena.mark mark.cleanupHead).map fun found =>
        ([⟨mark.registered, state.registered, found.1⟩], { state with
          history := (Arena.call endsMarks state.history (.rewind position)).value
          cleanupHead := found.2
          marks := mark :: older })
    | _, _ => some ([], state)
  | .reset =>
    (state.runCleanupsUntil none state.registered state.cleanupHead).map fun found =>
      ([⟨0, state.registered, found.1⟩], { state with
        history := (Arena.call endsMarks state.history .reset).value
        cleanupHead := found.2
        marks := if endsMarks then [] else state.marks })

/-- One call after the other, and the callbacks that each release runs. -/
def run (endsMarks : Bool) : List Call → Cleanups → Option (List Release × Cleanups)
  | [], state => some ([], state)
  | first :: rest, state =>
    (call endsMarks state first).bind fun middle =>
      (run endsMarks rest middle.2).map fun last => (middle.1 ++ last.1, last.2)

/-- `arena_destroy`: the callbacks that it runs before the blocks are freed. -/
def destroy (state : Cleanups) : Option Release :=
  (state.runCleanupsUntil none state.registered state.cleanupHead).map fun found =>
    ⟨0, state.registered, found.1⟩

/-- A new arena. -/
def start (arena : Arena) : Cleanups where
  history := .start arena

/-! ## The list of nodes -/

/-- The list from a head on goes through these nodes with these registrations. -/
def Linked (nodes : List (ArenaPointer × CleanupNode)) :
    Option ArenaPointer → List (ArenaPointer × Nat) → Prop
  | head, [] => head = none
  | head, entry :: rest =>
    head = some entry.1 ∧
      ∃ next, nodeAt nodes entry.1 = some ⟨entry.2, next⟩ ∧ Linked nodes next rest

theorem Linked.head_eq {pending : List (ArenaPointer × Nat)} (linked : Linked nodes head pending) :
    head = pending.head?.map Prod.fst := by
  cases pending with
  | nil => exact linked
  | cons entry rest => exact linked.1

/-- Only the nodes of the list matter. -/
theorem Linked.congr {others : List (ArenaPointer × CleanupNode)}
    {pending : List (ArenaPointer × Nat)}
    (same : ∀ entry ∈ pending, nodeAt others entry.1 = nodeAt nodes entry.1)
    (linked : Linked nodes head pending) : Linked others head pending := by
  induction pending generalizing head with
  | nil => exact linked
  | cons entry rest ih =>
    obtain ⟨here, next, found, later⟩ := linked
    refine ⟨here, next, ?_, ih (fun other mem => same other (mem_cons_of_mem _ mem)) later⟩
    rw [same entry mem_cons_self, found]

variable {newer older : List (ArenaPointer × Nat)}

theorem Linked.suffix (linked : Linked nodes head (newer ++ older)) :
    Linked nodes (older.head?.map Prod.fst) older := by
  induction newer generalizing head with
  | nil =>
    have same := linked.head_eq
    rw [nil_append] at linked same
    rw [← same]
    exact linked
  | cons entry rest ih =>
    obtain ⟨_, next, _, later⟩ := linked
    exact ih later

theorem nodeAt_filter (keep : ArenaPointer → Bool) {ptr : ArenaPointer} (kept : keep ptr = true)
    (nodes : List (ArenaPointer × CleanupNode)) :
    nodeAt (nodes.filter fun entry => keep entry.1) ptr = nodeAt nodes ptr := by
  unfold nodeAt
  rw [List.find?_filter]
  congr 2
  funext entry
  by_cases same : entry.1 = ptr
  · simp [same, kept]
  · simp [same]

theorem nodeAt_cons_of_ne {ptr other : ArenaPointer} (different : other ≠ ptr) (node : CleanupNode)
    (nodes : List (ArenaPointer × CleanupNode)) :
    nodeAt ((other, node) :: nodes) ptr = nodeAt nodes ptr := by
  unfold nodeAt
  rw [List.find?_cons_of_neg]
  simpa using different

/-- Running the callbacks down to a node of the list runs those in front of it, and reads only
nodes that can be read. -/
theorem runCleanupsUntil_spec (state : Cleanups) {rounds : Nat}
    (linked : Linked state.nodes head (newer ++ older))
    (stored : ∀ entry ∈ newer, ⟨entry.1, nodeSize⟩ ∈ state.history.live)
    (distinct : ((newer ++ older).map Prod.fst).Nodup) (enough : newer.length ≤ rounds) :
    state.runCleanupsUntil (older.head?.map Prod.fst) rounds head =
      some (newer.map Prod.snd, older.head?.map Prod.fst) := by
  induction newer generalizing head rounds with
  | nil =>
    have same : head = older.head?.map Prod.fst := linked.head_eq
    rw [same]
    cases older.head?.map Prod.fst with
    | none =>
      unfold runCleanupsUntil
      rfl
    | some ptr =>
      unfold runCleanupsUntil
      rw [if_pos rfl]
      rfl
  | cons entry rest ih =>
    obtain ⟨here, next, found, later⟩ := linked
    obtain ⟨fresh, distinct⟩ := nodup_cons.mp distinct
    have continues : some entry.1 ≠ older.head?.map Prod.fst := by
      intro same
      obtain ⟨other, first, equal⟩ := Option.map_eq_some_iff.mp same.symm
      apply fresh
      rw [← equal]
      exact mem_map_of_mem (mem_append_right _ (mem_of_head? first))
    obtain ⟨left, rfl⟩ : ∃ left, rounds = left + 1 :=
      ⟨rounds - 1, by rw [length_cons] at enough; omega⟩
    have readable : state.read entry.1 = some ⟨entry.2, next⟩ := by
      unfold read
      rw [if_pos (stored entry mem_cons_self), found]
    have after := ih later (fun other mem => stored other (mem_cons_of_mem _ mem)) distinct
      (Nat.le_of_succ_le_succ enough)
    rw [here]
    unfold runCleanupsUntil
    rw [if_neg continues]
    dsimp only
    rw [readable, Option.bind_some, after]
    rfl

/-! ## The invariant -/

/-- What a mark remembers of the pending cleanups: those that had been registered, with their nodes
among the allocations of that time. -/
structure Remembers (pending : List (ArenaPointer × Nat)) (saved : Snapshot) (mark : CleanupMark) :
    Prop where
  head : mark.cleanupHead =
    (pending.filter fun entry => entry.2 < mark.registered).head?.map Prod.fst
  stored : ∀ entry ∈ pending, entry.2 < mark.registered → ⟨entry.1, nodeSize⟩ ∈ saved.live

/-- The list goes through the pending cleanups, latest first, whose nodes are live allocations; the
others have run. -/
structure Consistent (state : Cleanups) (pending : List (ArenaPointer × Nat)) (ran : List Nat) :
    Prop where
  sound : Sound state.history
  linked : Linked state.nodes state.cleanupHead pending
  stored : ∀ entry ∈ pending, ⟨entry.1, nodeSize⟩ ∈ state.history.live
  distinct : (pending.map Prod.fst).Nodup
  latest : (pending.map Prod.snd).Pairwise (· > ·)
  complete : (ran ++ pending.map Prod.snd).Perm (List.range state.registered)
  order : Stacked (state.registered :: state.marks.map CleanupMark.registered)
  marks : List.Forall₂ (Remembers pending) state.history.marks state.marks

/-- The callbacks of a release are those in its range that had not run yet, latest first. -/
structure Proper (ran : List Nat) (release : Release) : Prop where
  latest : release.ran.Pairwise (· > ·)
  exactly : ∀ n, n ∈ release.ran ↔ release.since ≤ n ∧ n < release.upTo ∧ n ∉ ran

/-- Each release is proper after those before it. -/
def AllProper : List Nat → List Release → Prop
  | _, [] => True
  | ran, release :: rest => Proper ran release ∧ AllProper (ran ++ release.ran) rest

theorem AllProper.append {ran : List Nat} {first rest : List Release} (here : AllProper ran first)
    (later : AllProper (ran ++ first.flatMap Release.ran) rest) :
    AllProper ran (first ++ rest) := by
  induction first generalizing ran with
  | nil =>
    rw [flatMap_nil, append_nil] at later
    exact later
  | cons release first ih =>
    obtain ⟨proper, here⟩ := here
    refine ⟨proper, ih here ?_⟩
    rw [flatMap_cons, ← append_assoc] at later
    exact later

/-- A list sorted downwards is what is not below a bound and what is. -/
theorem filter_below {pending : List (ArenaPointer × Nat)} (bound : Nat)
    (latest : (pending.map Prod.snd).Pairwise (· > ·)) :
    (pending.filter fun entry => !decide (entry.2 < bound)) ++
      (pending.filter fun entry => entry.2 < bound) = pending := by
  induction pending with
  | nil => rfl
  | cons entry rest ih =>
    obtain ⟨above, latest⟩ := pairwise_cons.mp latest
    by_cases below : entry.2 < bound
    · have others : ∀ other ∈ rest, other.2 < bound := by
        intro other mem
        have lower : other.2 < entry.2 := above other.2 (mem_map_of_mem mem)
        omega
      have none : (rest.filter fun entry => !decide (entry.2 < bound)) = [] := by
        rw [filter_eq_nil_iff]
        intro other mem
        simp [others other mem]
      have all : (rest.filter fun entry => decide (entry.2 < bound)) = rest := by
        rw [filter_eq_self]
        intro other mem
        simp [others other mem]
      rw [filter_cons_of_neg (by simp [below]), filter_cons_of_pos (by simp [below]), none, all]
      rfl
    · rw [filter_cons_of_pos (by simp [below]), filter_cons_of_neg (by simp [below]),
        cons_append, ih latest]

/-- What follows for the members of the second list. -/
theorem forall₂_imp_of_mem {α β : Type} {R S : α → β → Prop} {first : List α} {second : List β}
    (imp : ∀ a b, b ∈ second → R a b → S a b) (related : List.Forall₂ R first second) :
    List.Forall₂ S first second := by
  induction related with
  | nil => exact .nil
  | cons here _ ih =>
    refine .cons (imp _ _ mem_cons_self here) (ih ?_)
    intro a b mem
    exact imp a b (mem_cons_of_mem _ mem)

section Steps

variable {state : Cleanups} {pending : List (ArenaPointer × Nat)} {ran : List Nat}

variable (consistent : Consistent state pending ran)

include consistent

/-- The pending registrations are those that have not run. -/
theorem Consistent.mem_pending (n : Nat) :
    n ∈ pending.map Prod.snd ↔ n < state.registered ∧ n ∉ ran := by
  have distinct : (ran ++ pending.map Prod.snd).Nodup :=
    consistent.complete.nodup_iff.mpr nodup_range
  have apart := (nodup_append.mp distinct).2.2
  have all : n ∈ ran ++ pending.map Prod.snd ↔ n < state.registered := by
    rw [consistent.complete.mem_iff, mem_range]
  rw [mem_append] at all
  constructor
  · intro mem
    exact ⟨all.mp (Or.inr mem), fun other => apart n other n mem rfl⟩
  · intro ⟨small, missing⟩
    exact (all.mpr small).resolve_left missing

theorem Consistent.length_le : pending.length ≤ state.registered := by
  have same := consistent.complete.length_eq
  rw [length_append, length_map, length_range] at same
  omega

/-- Running the callbacks that were registered from some number on is a proper release, and leaves
the others. -/
theorem Consistent.release (since : Nat) :
    let older := pending.filter fun entry => entry.2 < since
    ∃ released : List Nat,
      state.runCleanupsUntil (older.head?.map Prod.fst) state.registered state.cleanupHead =
        some (released, older.head?.map Prod.fst) ∧
      Proper ran ⟨since, state.registered, released⟩ ∧
      Linked state.nodes (older.head?.map Prod.fst) older ∧
      (ran ++ released ++ older.map Prod.snd).Perm (List.range state.registered) := by
  intro older
  have split := filter_below since consistent.latest
  generalize newer_eq : (pending.filter fun entry => !decide (entry.2 < since)) = newer at split
  have linked : Linked state.nodes state.cleanupHead (newer ++ older) := by
    rw [split]
    exact consistent.linked
  have sub : ∀ entry ∈ newer, entry ∈ pending := by
    intro entry mem
    rw [← newer_eq] at mem
    exact mem_of_mem_filter mem
  have short : newer.length ≤ state.registered := by
    have bound := consistent.length_le
    rw [← split, length_append] at bound
    omega
  have found := runCleanupsUntil_spec state linked
    (fun entry mem => consistent.stored entry (sub entry mem))
    (by rw [split]; exact consistent.distinct) short
  refine ⟨newer.map Prod.snd, found, ⟨?_, ?_⟩, linked.suffix, ?_⟩
  · have latest := consistent.latest
    rw [← split, map_append] at latest
    exact (pairwise_append.mp latest).1
  · intro n
    have member : n ∈ newer.map Prod.snd ↔ n ∈ pending.map Prod.snd ∧ since ≤ n := by
      rw [← newer_eq]
      simp only [mem_map, mem_filter, Bool.not_eq_true', decide_eq_false_iff_not, Nat.not_lt]
      constructor
      · rintro ⟨entry, ⟨mem, large⟩, rfl⟩
        exact ⟨⟨entry, mem, rfl⟩, large⟩
      · rintro ⟨⟨entry, mem, rfl⟩, large⟩
        exact ⟨entry, ⟨mem, large⟩, rfl⟩
    rw [member, consistent.mem_pending]
    exact ⟨fun ⟨⟨small, missing⟩, large⟩ => ⟨large, small, missing⟩,
      fun ⟨large, small, missing⟩ => ⟨⟨small, missing⟩, large⟩⟩
  · have complete := consistent.complete
    rw [← split, map_append, ← append_assoc] at complete
    exact complete

/-- Running all callbacks. -/
theorem Consistent.release_all : ∃ released : List Nat,
      state.runCleanupsUntil none state.registered state.cleanupHead = some (released, none) ∧
      Proper ran ⟨0, state.registered, released⟩ ∧
      (ran ++ released).Perm (List.range state.registered) := by
  have none_below : (pending.filter fun entry => decide (entry.2 < 0)) = [] := by
    rw [filter_eq_nil_iff]
    intro entry _
    simp
  obtain ⟨released, found, proper, _, complete⟩ := consistent.release 0
  rw [none_below] at found complete
  refine ⟨released, found, proper, ?_⟩
  rw [map_nil, append_nil] at complete
  exact complete

omit consistent

/-- The mark of an earlier state is found. -/
theorem markIsValid_of_sound {history : History} (sound : Sound history) {saved : Snapshot}
    (mem : saved ∈ history.marks) : markIsValid history.arena saved.arena.mark = true := by
  obtain ⟨savedWf, _, capacities⟩ := sound.marks saved mem
  obtain ⟨block, rest, _, focused, _, capacity⟩ := focus_spec capacities
  have bounded := savedWf.bounded saved.arena.current (mem_append_right _ mem_cons_self)
  have valid : ¬ block.capacity < saved.arena.current.used := by
    rw [capacity, UInt64.lt_iff_toNat_lt]
    omega
  unfold markIsValid mark
  dsimp only
  rw [focused, Option.any_some]
  simp [valid]

include consistent

/-- Memory that is granted is apart from the nodes of the pending cleanups. -/
theorem Consistent.alloc_cases (size : UInt64) (memory : Bool) :
    state.alloc size memory = (none, state) ∨
      ∃ ptr after, state.alloc size memory = (some ptr, after) ∧
        Consistent after pending ran ∧ ⟨ptr, size⟩ ∈ after.history.live ∧
        (∀ entry ∈ pending, ptr ≠ entry.1) ∧
        after.registered = state.registered ∧ after.cleanupHead = state.cleanupHead := by
  unfold alloc
  rcases alloc_spec consistent.sound.wf size memory with
    failed | ⟨ptr, arena, same, positive, granted⟩
  · left
    rw [failed]
    rfl
  · right
    have sound := consistent.sound.grant positive granted
    have apart : ∀ entry ∈ pending, (Allocation.mk ptr size).extent.Apart (nodeExtent entry.1) := by
      intro entry mem
      have pairs := pairwise_map.mp sound.holds.apart
      exact (pairwise_cons.mp pairs).1 _ (consistent.stored entry mem)
    rw [same]
    refine ⟨ptr, _, rfl, ⟨sound, ?_, ?_, consistent.distinct, consistent.latest,
      consistent.complete, consistent.order, consistent.marks⟩, mem_cons_self, ?_, rfl, rfl⟩
    · apply consistent.linked.congr
      intro entry mem
      exact nodeAt_filter
        (fun other => decide ((nodeExtent other).Apart (Allocation.mk ptr size).extent))
        (decide_eq_true (apart entry mem).symm) state.nodes
    · intro entry mem
      exact mem_cons_of_mem _ (consistent.stored entry mem)
    · intro entry mem equal
      have nodePositive : 0 < (nodeExtent entry.1).size := by
        show 0 < roundUp nodeSize.toNat
        decide
      have filled : 0 < (Allocation.mk ptr size).extent.size := roundUp_pos positive
      have separate := apart entry mem
      rw [equal] at separate
      have either := separate rfl
      unfold Extent.finish at either
      have start : (nodeExtent entry.1).start = (Allocation.mk entry.1 size).extent.start := rfl
      rw [equal] at filled
      omega

/-- Registering a callback puts its node in front of the list. -/
theorem Consistent.onDestroy (memory : Bool) :
    ∃ pending, Consistent (state.onDestroy memory) pending ran := by
  unfold Cleanups.onDestroy
  rcases consistent.alloc_cases nodeSize memory with
    failed | ⟨ptr, after, same, granted, stored, fresh, registered, head⟩
  · rw [failed]
    exact ⟨pending, consistent⟩
  · rw [same, ← registered, ← head]
    have below : ∀ entry ∈ pending, entry.2 < after.registered := by
      intro entry mem
      exact ((granted.mem_pending entry.2).mp (mem_map_of_mem mem)).1
    refine ⟨(ptr, after.registered) :: pending, granted.sound, ?_, ?_, ?_, ?_, ?_, ?_, ?_⟩
    · refine ⟨rfl, after.cleanupHead, ?_, ?_⟩
      · simp [nodeAt]
      · apply granted.linked.congr
        intro entry mem
        exact nodeAt_cons_of_ne (fresh entry mem) _ after.nodes
    · intro entry mem
      rcases mem_cons.mp mem with rfl | mem
      · exact stored
      · exact granted.stored entry mem
    · refine nodup_cons.mpr ⟨?_, granted.distinct⟩
      intro mem
      obtain ⟨entry, mem, equal⟩ := mem_map.mp mem
      exact fresh entry mem equal.symm
    · refine pairwise_cons.mpr ⟨?_, granted.latest⟩
      intro n mem
      exact ((granted.mem_pending n).mp mem).1
    · rw [range_succ]
      refine perm_middle.trans ?_
      refine (granted.complete.cons after.registered).trans ?_
      exact (perm_append_singleton after.registered _).symm
    · exact granted.order.advance (Nat.le_succ _)
    · have older : ∀ mark ∈ after.marks, mark.registered ≤ after.registered := by
        intro mark mem
        exact (pairwise_cons.mp granted.order).1 _ (mem_map_of_mem mem)
      refine forall₂_imp_of_mem ?_ granted.marks
      intro saved mark mem remembered
      have early := older mark mem
      constructor
      · rw [filter_cons_of_neg (by simpa using early)]
        exact remembered.head
      · intro entry mem small
        rcases mem_cons.mp mem with rfl | mem
        · exact absurd early (Nat.not_le_of_lt small)
        · exact remembered.stored entry mem small

/-- Going back to a mark runs what was registered after it, and leaves what the mark remembers. -/
theorem Consistent.rewind {position : Nat} {saved : Snapshot} {mark : CleanupMark}
    {older : List CleanupMark} {snapshots : List Snapshot}
    (here : state.history.marks.drop position = saved :: snapshots)
    (marked : state.marks.drop position = mark :: older) :
    ∃ released head,
      state.rewindCleanups saved.arena.mark mark.cleanupHead = some (released, head) ∧
      Proper ran ⟨mark.registered, state.registered, released⟩ ∧
      ∃ pending, Consistent { state with
        history := ⟨rewind state.history.arena saved.arena.mark, saved.live, saved :: snapshots⟩
        cleanupHead := head
        marks := mark :: older } pending (ran ++ released) := by
  have related := List.forall₂_drop position consistent.marks
  rw [here, marked] at related
  obtain ⟨remembered, _⟩ := List.forall₂_cons.mp related
  have valid : markIsValid state.history.arena saved.arena.mark = true := by
    apply markIsValid_of_sound consistent.sound
    apply mem_of_mem_drop
    rw [here]
    exact mem_cons_self
  obtain ⟨released, found, proper, linked, complete⟩ := consistent.release mark.registered
  generalize kept_eq : (pending.filter fun entry => decide (entry.2 < mark.registered)) = kept
    at found linked complete
  have sub : kept.Sublist pending := by
    rw [← kept_eq]
    exact filter_sublist
  have dropped : (state.marks.map CleanupMark.registered).drop position =
      mark.registered :: older.map CleanupMark.registered := by
    rw [← map_drop, marked]
    rfl
  have order : Stacked (mark.registered :: older.map CleanupMark.registered) := by
    rw [← dropped]
    exact (pairwise_cons.mp consistent.order).2.sublist (drop_sublist ..)
  refine ⟨released, kept.head?.map Prod.fst, ?_, proper, kept,
    (rewind_sound consistent.sound here).1, linked, ?_, consistent.distinct.sublist (sub.map _),
    consistent.latest.sublist (sub.map _), complete, ?_, ?_⟩
  · unfold rewindCleanups
    rw [remembered.head, kept_eq, found, Option.bind_some, if_pos valid]
  · intro entry mem
    rw [← kept_eq] at mem
    obtain ⟨mem, early⟩ := mem_filter.mp mem
    exact remembered.stored entry mem (of_decide_eq_true early)
  · have earlier : mark.registered ≤ state.registered := by
      apply (pairwise_cons.mp consistent.order).1
      apply mem_of_mem_drop
      rw [dropped]
      exact mem_cons_self
    exact (consistent.order.back dropped).advance earlier
  · refine forall₂_imp_of_mem ?_ related
    intro other otherMark mem known
    have low : otherMark.registered ≤ mark.registered := by
      rcases mem_cons.mp mem with rfl | mem
      · exact Nat.le_refl _
      · exact (pairwise_cons.mp order).1 _ (mem_map_of_mem mem)
    constructor
    · rw [known.head, ← kept_eq, filter_filter]
      congr 3
      funext entry
      by_cases small : entry.2 < otherMark.registered
      · have smaller : entry.2 < mark.registered := by omega
        simp [small, smaller]
      · simp [small]
    · intro entry mem small
      exact known.stored entry (sub.subset mem) small

/-- Every call reads only nodes that can be read, runs what it has to, and keeps the invariant. -/
theorem Consistent.call (made : Call) :
    ∃ releases after, Cleanups.call true state made = some (releases, after) ∧
      AllProper ran releases ∧
      ∃ pending, Consistent after pending (ran ++ releases.flatMap Release.ran) := by
  cases made with
  | alloc size memory =>
    refine ⟨[], _, rfl, trivial, pending, ?_⟩
    rw [flatMap_nil, append_nil]
    rcases consistent.alloc_cases size memory with failed | ⟨ptr, after, same, granted, _⟩
    · rw [failed]
      exact consistent
    · rw [same]
      exact granted
  | onDestroy memory =>
    obtain ⟨pending, registered⟩ := consistent.onDestroy memory
    refine ⟨[], _, rfl, trivial, pending, ?_⟩
    rw [flatMap_nil, append_nil]
    exact registered
  | mark =>
    obtain ⟨after, same, sound⟩ := call_sound consistent.sound .mark
    have value : (Arena.call true state.history .mark).value = after := by
      rw [same]
      rfl
    refine ⟨[], _, rfl, trivial, pending, ?_, consistent.linked, ?_, consistent.distinct,
      consistent.latest, ?_, consistent.order.save, ?_⟩
    · rw [value]
      exact sound
    · exact consistent.stored
    · rw [flatMap_nil, append_nil]
      exact consistent.complete
    · refine .cons ⟨?_, fun entry mem _ => consistent.stored entry mem⟩ consistent.marks
      have all : (pending.filter fun entry => entry.2 < state.registered) = pending := by
        rw [filter_eq_self]
        intro entry mem
        have small := ((consistent.mem_pending entry.2).mp (mem_map_of_mem mem)).1
        exact decide_eq_true small
      dsimp only
      rw [all]
      exact consistent.linked.head_eq
  | rewind position =>
    have related := List.forall₂_drop position consistent.marks
    cases here : state.history.marks.drop position with
    | nil =>
      refine ⟨[], state, ?_, trivial, pending, ?_⟩
      · simp only [Cleanups.call, here]
      · rw [flatMap_nil, append_nil]
        exact consistent
    | cons saved snapshots =>
      cases marked : state.marks.drop position with
      | nil =>
        rw [here, marked] at related
        cases related
      | cons mark older =>
        obtain ⟨released, head, found, proper, pending, after⟩ := consistent.rewind here marked
        have value : (Arena.call true state.history (.rewind position)).value =
            ⟨Arena.rewind state.history.arena saved.arena.mark, saved.live,
              saved :: snapshots⟩ := by
          simp only [Arena.call, here]
          rfl
        rw [← value] at after
        have released_eq : ran ++ released =
            ran ++ [Release.mk mark.registered state.registered released].flatMap Release.ran := by
          rw [flatMap_singleton]
        rw [released_eq] at after
        have all : AllProper ran [⟨mark.registered, state.registered, released⟩] :=
          ⟨proper, trivial⟩
        refine ⟨_, _, ?_, all, pending, after⟩
        simp only [Cleanups.call, here, marked, found]
        rfl
  | reset =>
    obtain ⟨released, found, proper, complete⟩ := consistent.release_all
    unfold Cleanups.call
    rw [found]
    refine ⟨_, _, rfl, ⟨proper, trivial⟩, [], reset_sound state.history, rfl, ?_,
      nodup_nil, .nil, ?_, pairwise_singleton .., .nil⟩
    · exact fun entry none => by cases none
    rw [flatMap_singleton, map_nil, append_nil]
    exact complete

end Steps

/-! ## Runs -/

/-- Every run reads only nodes that can be read and keeps the invariant. -/
theorem Consistent.run {state : Cleanups} {pending : List (ArenaPointer × Nat)} {ran : List Nat}
    (consistent : Consistent state pending ran) (calls : List Call) :
    ∃ releases after, Cleanups.run true calls state = some (releases, after) ∧
      AllProper ran releases ∧
      ∃ pending, Consistent after pending (ran ++ releases.flatMap Release.ran) := by
  induction calls generalizing state pending ran with
  | nil =>
    refine ⟨[], state, rfl, trivial, pending, ?_⟩
    rw [flatMap_nil, append_nil]
    exact consistent
  | cons made rest ih =>
    obtain ⟨first, middle, same, proper, pending, kept⟩ := consistent.call made
    obtain ⟨later, after, found, others, pending, still⟩ := ih kept
    refine ⟨first ++ later, after, ?_, proper.append others, pending, ?_⟩
    · unfold Cleanups.run
      rw [same, Option.bind_some]
      dsimp only
      rw [found]
      rfl
    · rw [flatMap_append, ← append_assoc]
      exact still

/-- The calls and the destruction of the arena after them read only nodes of memory that they have,
every registered callback runs once, and each release runs the right ones, latest first. -/
def CleansUp (endsMarks : Bool) (arena : Arena) (calls : List Call) : Prop :=
  ∃ releases after last, run endsMarks calls (start arena) = some (releases, after) ∧
    destroy after = some last ∧ AllProper [] (releases ++ [last]) ∧
    ((releases ++ [last]).flatMap Release.ran).Perm (List.range after.registered)

/-- Any calls on a new arena, with any answers of `malloc`, clean up, if marks are not used after a
reset. -/
theorem run_cleansUp {initialCapacity : UInt64} {memory : Bool} {arena : Arena}
    (created : (create initialCapacity memory).value = some arena) (calls : List Call) :
    CleansUp true arena calls := by
  have begun : Consistent (start arena) [] [] := by
    refine ⟨?_, rfl, nofun, nodup_nil, .nil, .refl _, pairwise_singleton .., .nil⟩
    rcases create_spec initialCapacity memory with none | ⟨other, some, wf, _⟩
    · rw [none] at created
      cases created
    · rw [some] at created
      obtain rfl : other = arena := Option.some.inj created
      exact ⟨wf, .nil, pairwise_singleton .., nofun⟩
  obtain ⟨releases, after, ran, proper, pending, consistent⟩ := begun.run calls
  obtain ⟨released, found, last, complete⟩ := consistent.release_all
  refine ⟨releases, after, _, ran, ?_, proper.append ⟨last, trivial⟩, ?_⟩
  · unfold destroy
    rw [found]
    rfl
  · rw [flatMap_append, flatMap_singleton]
    exact complete

/-- Two callbacks are registered before a mark and two after it, the arena is rewound to the mark
twice, and another callback is registered in between. -/
def nestedMarks : List Call :=
  [.onDestroy true, .onDestroy true, .mark, .alloc 5000 true, .onDestroy true, .mark,
    .onDestroy true, .rewind 1, .onDestroy true, .rewind 0]

/-- The arena of `nestedMarks`. -/
theorem run_cleansUp_nestedMarks :
    ∃ arena, (create 0 true).value = some arena ∧ CleansUp true arena nestedMarks :=
  have created : (create 0 true).value = some ⟨[], ⟨4096, 0⟩, [], 4096⟩ := by decide +kernel
  ⟨_, created, run_cleansUp created nestedMarks⟩

/-- A callback is registered before a mark and another one at the same place after the reset that
follows it. -/
def markBeforeReset : List Call :=
  [.onDestroy true, .mark, .reset, .onDestroy true, .rewind 0]

/-- If a mark may be used after a reset, the rewind of `markBeforeReset` takes the second callback
for the first one and does not run it. -/
theorem markBeforeReset_keeps :
    ¬ ∀ initialCapacity memory arena calls, (create initialCapacity memory).value = some arena →
      CleansUp false arena calls := by
  intro always
  obtain ⟨releases, after, last, ran, _, proper, _⟩ :=
    always 0 true ⟨[], ⟨4096, 0⟩, [], 4096⟩ markBeforeReset (by decide +kernel)
  have found : (run false markBeforeReset (start ⟨[], ⟨4096, 0⟩, [], 4096⟩)).map Prod.fst =
      some [⟨0, 1, [0]⟩, ⟨1, 2, []⟩] := by
    decide +kernel
  rw [ran] at found
  obtain rfl : releases = _ := Option.some.inj found
  obtain ⟨_, rewound, _⟩ := proper
  have missed : 1 ∉ ([] : List Nat) := nofun
  exact missed ((rewound.exactly 1).mpr (by decide))

end Cleanups

end Nobify.Arena
