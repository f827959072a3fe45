import Mathlib.Data.List.DropRight

/-!
# Insertion sort in place

The sort goes through a sequence from its second entry on. Each entry sinks: the entries before it
that compare above it move one place up, and it is put where the last of them stood. An entry does
not pass one that compares equal, so the sort is stable.
-/

namespace Nobify.Lib

open List

variable {α : Type*} (cmp : α → α → Ordering)

/-! ## The loops -/

/-- The inner loop: as long as the entry before the hole compares above the key it moves into the
hole, and then the key is put there. -/
def sink (key : α) : Nat → List α → List α
  | 0, items => items.set 0 key
  | hole + 1, items =>
    match items[hole]? with
    | some before =>
      if cmp before key = .gt then sink key hole (items.set (hole + 1) before)
      else items.set (hole + 1) key
    | none => items

/-- The outer loop, from the second entry on. -/
def sortInPlace (items : List α) : List α :=
  (List.range' 1 (items.length - 1)).foldl (fun items index =>
    match items[index]? with
    | some key => sink cmp key index items
    | none => items) items

/-- The entry compares above the key. -/
def isAbove (key entry : α) : Bool := cmp entry key == .gt

/-- Where a key is put among entries: before those at the end that all compare above it. -/
def place (front : List α) (key : α) : List α :=
  front.rdropWhile (isAbove cmp key) ++ key :: front.rtakeWhile (isAbove cmp key)

variable {cmp}

/-- The inner loop puts the key in its place and leaves what is behind the hole. -/
theorem sink_eq (key hole : α) (front rest : List α) :
    sink cmp key front.length (front ++ hole :: rest) = place cmp front key ++ rest := by
  induction front using List.reverseRecOn generalizing hole rest with
  | nil => rfl
  | append_singleton front last ih =>
    have here : (front ++ [last] ++ hole :: rest)[front.length]? = some last := by simp
    have moved : (front ++ [last] ++ hole :: rest).set (front.length + 1) last =
        front ++ last :: last :: rest := by simp
    have put : (front ++ [last] ++ hole :: rest).set (front.length + 1) key =
        front ++ [last] ++ key :: rest := by simp
    rw [length_append, length_singleton, sink, here]
    dsimp only
    by_cases above : cmp last key = .gt
    · have passes : isAbove cmp key last = true := by rw [isAbove, above]; rfl
      rw [if_pos above, moved, ih, place, place, rdropWhile_concat_pos _ _ _ passes,
        rtakeWhile_concat_pos _ _ _ passes]
      simp
    · have stops : ¬ isAbove cmp key last = true := by simpa [isAbove] using above
      rw [if_neg above, put, place, rdropWhile_concat_neg _ _ _ stops,
        rtakeWhile_concat_neg _ _ _ stops]
      simp

theorem length_place (front : List α) (key : α) :
    (place cmp front key).length = front.length + 1 := by
  have lengths := congrArg List.length
    (rdropWhile_append_rtakeWhile (p := isAbove cmp key) (l := front))
  rw [length_append] at lengths
  rw [place, length_append, length_cons]
  omega

/-- The outer loop places one entry after the other. -/
theorem sortInPlace_eq (items : List α) : sortInPlace cmp items = items.foldl (place cmp) [] := by
  have loop : ∀ front rest : List α,
      (List.range' front.length rest.length).foldl (fun items index =>
        match items[index]? with
        | some key => sink cmp key index items
        | none => items) (front ++ rest) = rest.foldl (place cmp) front := by
    intro front rest
    induction rest generalizing front with
    | nil => simp
    | cons key rest ih =>
      have here : (front ++ key :: rest)[front.length]? = some key := by simp
      rw [length_cons, List.range'_succ, foldl_cons, here, foldl_cons]
      dsimp only
      rw [sink_eq, ← length_place front key]
      exact ih (place cmp front key)
  cases items with
  | nil => rfl
  | cons first rest =>
    have whole := loop [first] rest
    rw [length_singleton, singleton_append] at whole
    rw [sortInPlace, length_cons, Nat.add_sub_cancel, whole]
    rfl

/-! ## What the sort returns -/

theorem place_perm (front : List α) (key : α) : (place cmp front key).Perm (front ++ [key]) := by
  have whole := rdropWhile_append_rtakeWhile (p := isAbove cmp key) (l := front)
  unfold place
  conv_rhs => rw [← whole]
  rw [append_assoc]
  exact (perm_append_singleton key _).symm.append_left _

/-- The sort returns the entries it was given. -/
theorem sortInPlace_perm (items : List α) : (sortInPlace cmp items).Perm items := by
  have loop : ∀ front : List α, (items.foldl (place cmp) front).Perm (front ++ items) := by
    induction items with
    | nil => intro front; rw [append_nil]; rfl
    | cons key rest ih =>
      intro front
      have step : (place cmp front key ++ rest).Perm (front ++ [key] ++ rest) :=
        (place_perm front key).append_right rest
      rw [append_assoc, singleton_append] at step
      exact (ih (place cmp front key)).trans step
  rw [sortInPlace_eq]
  exact loop []

/-- A key passes no entry of a class of equal ones it belongs to, so the class keeps its order. -/
theorem place_filter {alike : α → Bool}
    (level : ∀ left right, alike left = true → alike right = true → cmp left right ≠ .gt)
    (front : List α) (key : α) :
    (place cmp front key).filter alike = (front ++ [key]).filter alike := by
  have whole := rdropWhile_append_rtakeWhile (p := isAbove cmp key) (l := front)
  have parts := congrArg (List.filter alike) whole
  rw [filter_append] at parts
  rw [place, filter_append, filter_append, ← parts, append_assoc]
  congr 1
  cases member : alike key with
  | false => simp [member]
  | true =>
    have none : (front.rtakeWhile (isAbove cmp key)).filter alike = [] := by
      rw [filter_eq_nil_iff]
      intro moved listed inside
      have above := mem_rtakeWhile_imp listed
      exact level moved key inside member (eq_of_beq above)
    rw [filter_cons_of_pos member, none]
    simp [member]

/-- Entries of which none compares above another keep their order. -/
theorem sortInPlace_filter {alike : α → Bool}
    (level : ∀ left right, alike left = true → alike right = true → cmp left right ≠ .gt)
    (items : List α) : (sortInPlace cmp items).filter alike = items.filter alike := by
  have loop : ∀ front : List α,
      (items.foldl (place cmp) front).filter alike = (front ++ items).filter alike := by
    induction items with
    | nil => intro front; rw [append_nil]; rfl
    | cons key rest ih =>
      intro front
      have later := ih (place cmp front key)
      rw [foldl_cons, later, filter_append, place_filter level, ← filter_append,
        append_assoc, singleton_append]
  rw [sortInPlace_eq]
  exact loop []

section Sorted

variable [Std.TransCmp cmp]

/-- What comes earlier does not compare above what comes later. -/
def Ascending (cmp : α → α → Ordering) (items : List α) : Prop :=
  items.Pairwise fun left right => (cmp left right).isLE = true

/-- A key that is put in its place leaves the entries ascending. -/
theorem place_ascending {front : List α} (sorted : Ascending cmp front) (key : α) :
    Ascending cmp (place cmp front key) := by
  have whole := rdropWhile_append_rtakeWhile (p := isAbove cmp key) (l := front)
  unfold Ascending at sorted
  rw [← whole, pairwise_append] at sorted
  obtain ⟨kept, moved, across⟩ := sorted
  -- the last entry that is kept does not compare above the key, and no other above that one
  have below : ∀ entry ∈ front.rdropWhile (isAbove cmp key), (cmp entry key).isLE = true := by
    intro entry listed
    have filled := ne_nil_of_mem listed
    have last := rdropWhile_last_not _ _ filled
    have lastBelow : (cmp ((front.rdropWhile (isAbove cmp key)).getLast filled) key).isLE = true := by
      rw [Ordering.isLE_iff_ne_gt]
      simpa [isAbove] using last
    have split := dropLast_append_getLast filled
    rw [← split, pairwise_append] at kept
    rw [← split] at listed
    rcases mem_append.mp listed with early | late
    · exact Std.TransCmp.isLE_trans (kept.2.2 entry early _ (mem_singleton_self _)) lastBelow
    · rw [mem_singleton.mp late]
      exact lastBelow
  have beyond : ∀ entry ∈ front.rtakeWhile (isAbove cmp key), (cmp key entry).isLE = true := by
    intro entry listed
    have passes := mem_rtakeWhile_imp listed
    have above : cmp entry key = .gt := eq_of_beq passes
    rw [Std.OrientedCmp.lt_of_gt above]
    rfl
  unfold Ascending place
  rw [pairwise_append, pairwise_cons]
  refine ⟨kept, ⟨beyond, moved⟩, fun entry early other late => ?_⟩
  rcases mem_cons.mp late with rfl | behind
  · exact below entry early
  · exact across entry early other behind

/-- The sort returns its entries in ascending order. -/
theorem sortInPlace_ascending (items : List α) : Ascending cmp (sortInPlace cmp items) := by
  have loop : ∀ front : List α, Ascending cmp front →
      Ascending cmp (items.foldl (place cmp) front) := by
    induction items with
    | nil => exact fun _ sorted => sorted
    | cons key rest ih => exact fun _ sorted => ih _ (place_ascending sorted key)
  rw [sortInPlace_eq]
  exact loop [] List.Pairwise.nil

/-- Equal entries keep their order. -/
theorem sortInPlace_stable (items : List α) (item : α) :
    (sortInPlace cmp items).filter (fun entry => cmp entry item == .eq) =
      items.filter fun entry => cmp entry item == .eq := by
  refine sortInPlace_filter (fun left right leftEq rightEq => ?_) items
  have first : cmp left item = .eq := eq_of_beq leftEq
  have second : cmp right item = .eq := eq_of_beq rightEq
  rw [Std.TransCmp.eq_trans first (Std.OrientedCmp.eq_symm second)]
  decide

end Sorted

end Nobify.Lib
