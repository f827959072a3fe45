import Mathlib.Data.List.Basic
import Mathlib.Data.List.Infix

/-!
# Steps down and up

A walk in a tree goes down by a name and up by the one step `up`. A step up takes back the name
before it. Where there is no name to take back, a walk from the root stays, and any other walk
keeps the step. What a walk leaves is its position: steps up, and after them names.

Taking back is local, so a walk and its position lead from everywhere to the same place. From a
position, two walks lead to the same place when they are the same, or when one of them goes
further up and comes back by the names it went through.
-/

namespace Nobify.Lib

open List

variable {σ : Type*} [DecidableEq σ] (up : σ)

/-- One step from a position. -/
def climb (rooted : Bool) (position : List σ) (step : σ) : List σ :=
  if step = up then
    if position ≠ [] ∧ position.getLast? ≠ some up then position.dropLast
    else if rooted then position
    else position ++ [step]
  else position ++ [step]

/-- All steps of a walk. -/
def climbAll (rooted : Bool) (position steps : List σ) : List σ :=
  steps.foldl (climb up rooted) position

omit [DecidableEq σ] in
/-- Steps up, and after them names. -/
def Settled (position : List σ) : Prop :=
  ∃ (ups : Nat) (names : List σ), up ∉ names ∧ position = List.replicate ups up ++ names

variable {up} {rooted : Bool} {position names steps more : List σ} {name : σ}

/-! ## Steps -/

theorem climb_name (down : name ≠ up) : climb up rooted position name = position ++ [name] :=
  if_neg down

/-- A step up takes back the name before it. -/
theorem climb_back (down : name ≠ up) : climb up rooted (position ++ [name]) up = position := by
  have last : position ++ [name] ≠ [] ∧ (position ++ [name]).getLast? ≠ some up := by
    refine ⟨append_ne_nil_of_right_ne_nil _ (cons_ne_nil _ _), ?_⟩
    rw [List.getLast?_append_of_ne_nil _ (cons_ne_nil _ _)]
    exact fun same => down (Option.some.inj same)
  rw [climb, if_pos rfl, if_pos last, dropLast_concat]

/-- A step up stays behind other steps up. -/
theorem climb_ups (count : Nat) :
    climb up false (List.replicate count up) up = List.replicate (count + 1) up := by
  have none : ¬ (List.replicate count up ≠ [] ∧ (List.replicate count up).getLast? ≠ some up) := by
    intro last
    cases count with
    | zero => exact last.1 rfl
    | succ count =>
      rw [replicate_succ', List.getLast?_append_of_ne_nil _ (cons_ne_nil _ _)] at last
      exact last.2 rfl
  rw [climb, if_pos rfl, if_neg none, if_neg Bool.false_ne_true, replicate_succ']

/-! ## Walks -/

theorem climbAll_cons (step : σ) : climbAll up rooted position (step :: steps) =
      climbAll up rooted (climb up rooted position step) steps := rfl

theorem climbAll_append : climbAll up rooted position (steps ++ more) =
      climbAll up rooted (climbAll up rooted position steps) more :=
  foldl_append

theorem climbAll_concat (step : σ) : climbAll up rooted position (steps ++ [step]) =
      climb up rooted (climbAll up rooted position steps) step := climbAll_append

/-- Names are put behind the position. -/
theorem climbAll_names (down : up ∉ names) :
    climbAll up rooted position names = position ++ names := by
  induction names generalizing position with
  | nil => exact (append_nil position).symm
  | cons name rest ih =>
    have here : name ≠ up := fun same => down (same ▸ mem_cons_self)
    have later : up ∉ rest := fun member => down (mem_cons_of_mem _ member)
    rw [climbAll_cons, climb_name here, ih later, append_assoc, singleton_append]

/-- As many steps up as there are names take the names back. -/
theorem climbAll_back (down : up ∉ names) :
    climbAll up rooted (position ++ names) (List.replicate names.length up) = position := by
  induction names using List.reverseRecOn with
  | nil => exact append_nil position
  | append_singleton rest name ih =>
    have parts := mem_append.not.mp down
    have here : name ≠ up := fun same => parts (.inr (mem_singleton.mpr same.symm))
    rw [length_append, length_singleton, replicate_succ, climbAll_cons,
      ← append_assoc, climb_back here]
    exact ih fun member => parts (.inl member)

/-- Steps up from steps up are kept. -/
theorem climbAll_ups (before count : Nat) :
    climbAll up false (List.replicate before up) (List.replicate count up) =
      List.replicate (before + count) up := by
  induction count generalizing before with
  | zero => rfl
  | succ count ih =>
    rw [replicate_succ, climbAll_cons, climb_ups, ih, Nat.succ_add_eq_add_succ]

/-- A walk leads from everywhere to where its position leads. -/
theorem climbAll_climbAll :
    climbAll up rooted position (climbAll up false [] steps) = climbAll up rooted position steps := by
  induction steps using List.reverseRecOn with
  | nil => rfl
  | append_singleton steps step ih =>
    rw [climbAll_concat, climbAll_concat, ← ih]
    by_cases down : step = up
    · subst down
      -- a name before the step up is taken back on both sides
      by_cases last : climbAll step false [] steps ≠ [] ∧
          (climbAll step false [] steps).getLast? ≠ some step
      · obtain ⟨filled, other⟩ := last
        have split := dropLast_append_getLast filled
        have name : (climbAll step false [] steps).getLast filled ≠ step := by
          intro same
          rw [List.getLast?_eq_some_getLast filled, same] at other
          exact other rfl
        rw [← split, climb_back name, climbAll_concat, climb_name name, climb_back name]
      · have kept : climb step false (climbAll step false [] steps) step =
            climbAll step false [] steps ++ [step] := by
          rw [climb, if_pos rfl, if_neg last, if_neg Bool.false_ne_true]
        rw [kept, climbAll_concat]
    · rw [climb_name down, climbAll_concat]

/-- A walk makes no new names. -/
theorem mem_climbAll {found : σ} (member : found ∈ climbAll up rooted position steps) :
    found ∈ position ∨ found ∈ steps := by
  induction steps generalizing position with
  | nil => exact .inl member
  | cons step rest ih =>
    rw [climbAll_cons] at member
    rcases ih member with here | later
    · unfold climb at here
      split at here
      · split at here
        · exact .inl (dropLast_subset position here)
        · split at here
          · exact .inl here
          · rcases mem_append.mp here with early | last
            · exact .inl early
            · exact .inr (mem_singleton.mp last ▸ mem_cons_self)
      · rcases mem_append.mp here with early | last
        · exact .inl early
        · exact .inr (mem_singleton.mp last ▸ mem_cons_self)
    · exact .inr (mem_cons_of_mem _ later)

/-! ## Positions -/

omit [DecidableEq σ] in
theorem Settled.nil : Settled up ([] : List σ) := ⟨0, [], not_mem_nil, rfl⟩

/-- A step from a position leads to a position. -/
theorem Settled.climb (settled : Settled up position) (step : σ) :
    Settled up (climb up false position step) := by
  obtain ⟨ups, names, down, rfl⟩ := settled
  by_cases same : step = up
  · subst same
    cases names using List.reverseRecOn with
    | nil =>
      rw [append_nil, climb_ups]
      exact ⟨ups + 1, [], not_mem_nil, (append_nil _).symm⟩
    | append_singleton rest name =>
      have parts := mem_append.not.mp down
      have here : name ≠ step := fun same => parts (.inr (mem_singleton.mpr same.symm))
      rw [← append_assoc, climb_back here]
      exact ⟨ups, rest, fun member => parts (.inl member), rfl⟩
  · rw [climb_name same, append_assoc]
    refine ⟨ups, names ++ [step], ?_, rfl⟩
    intro member
    rcases mem_append.mp member with early | last
    · exact down early
    · exact same (mem_singleton.mp last).symm

/-- Every walk leads to a position. -/
theorem settled_climbAll : Settled up (climbAll up false [] steps) := by
  induction steps using List.reverseRecOn with
  | nil => exact .nil
  | append_singleton steps step ih =>
    rw [climbAll_concat]
    exact ih.climb step

/-- From the root, a walk leads to names. -/
theorem up_notMem_climbAll (down : up ∉ position) : up ∉ climbAll up true position steps := by
  induction steps generalizing position with
  | nil => exact down
  | cons step rest ih =>
    rw [climbAll_cons]
    refine ih ?_
    by_cases same : step = up
    · subst same
      rw [climb, if_pos rfl]
      split
      · exact fun member => down (dropLast_subset position member)
      · rwa [if_pos rfl]
    · rw [climb_name same]
      intro member
      rcases mem_append.mp member with early | last
      · exact down early
      · exact same (mem_singleton.mp last).symm

/-- A position leads to itself. -/
theorem Settled.climbAll_eq (settled : Settled up position) :
    climbAll up false [] position = position := by
  obtain ⟨ups, names, down, rfl⟩ := settled
  rw [climbAll_append, climbAll_names down]
  have kept : climbAll up false [] (List.replicate ups up) = List.replicate (0 + ups) up :=
    climbAll_ups 0 ups
  rw [Nat.zero_add] at kept
  exact congrArg (· ++ names) kept

omit [DecidableEq σ] in
/-- The steps up and the names of a position are determined by it. -/
theorem settled_unique {left right : Nat} {first second : List σ} (down : up ∉ first)
    (other : up ∉ second)
    (same : List.replicate left up ++ first = List.replicate right up ++ second) :
    left = right ∧ first = second := by
  classical
  have counts := congrArg (List.count up) same
  rw [count_append, count_append, count_replicate_self,
    count_replicate_self, count_eq_zero_of_not_mem down,
    count_eq_zero_of_not_mem other] at counts
  obtain rfl : left = right := counts
  exact ⟨rfl, append_cancel_left same⟩

/-! ## Different walks to one place -/

omit [DecidableEq σ] in
/-- Seen from the base, the far walk goes up past the near one, comes back by the names it went
through, and then goes on as the near one. -/
def Detour (up : σ) (base near far : List σ) : Prop :=
  ∃ front back last rest : List σ, base = front ++ back ++ last ∧ back ≠ [] ∧
    up ∉ back ∧ up ∉ last ∧ up ∉ rest ∧
    near = List.replicate last.length up ++ rest ∧
    far = List.replicate (last.length + back.length) up ++ (back ++ rest)

/-- Where a position leads that goes up no further than the base goes down. -/
theorem climbAll_within {front last rest : List σ} (lastDown : up ∉ last) (restDown : up ∉ rest) :
    climbAll up rooted (front ++ last) (List.replicate last.length up ++ rest) = front ++ rest := by
  rw [climbAll_append, climbAll_back lastDown, climbAll_names restDown]

/-- Where a position leads that goes up by two runs of names. -/
theorem climbAll_within_two {front back last rest : List σ} (backDown : up ∉ back)
    (lastDown : up ∉ last) (restDown : up ∉ rest) :
    climbAll up rooted (front ++ back ++ last)
        (List.replicate (last.length + back.length) up ++ rest) = front ++ rest := by
  rw [replicate_add, append_assoc (List.replicate last.length up), climbAll_append,
    climbAll_back lastDown, climbAll_within backDown restDown]

/-- A detour leads where the near walk leads. -/
theorem Detour.climbAll_eq {base near far : List σ} (detour : Detour up base near far) :
    climbAll up rooted base near = climbAll up rooted base far := by
  obtain ⟨front, back, last, rest, rfl, -, backDown, lastDown, restDown, rfl, rfl⟩ := detour
  have again : up ∉ back ++ rest := by
    intro member
    rcases mem_append.mp member with early | late
    · exact backDown early
    · exact restDown late
  calc
    climbAll up rooted (front ++ back ++ last) (List.replicate last.length up ++ rest)
      = front ++ back ++ rest := climbAll_within lastDown restDown
    _ = front ++ (back ++ rest) := append_assoc _ _ _
    _ = climbAll up rooted (front ++ back ++ last)
          (List.replicate (last.length + back.length) up ++ (back ++ rest)) :=
        (climbAll_within_two backDown lastDown again).symm

/-- Where a position leads that goes up further than the base goes down. -/
theorem climbAll_beyond {ups extra : Nat} {rest : List σ} (down : up ∉ names)
    (restDown : up ∉ rest) :
    climbAll up false (List.replicate ups up ++ names)
        (List.replicate (names.length + extra) up ++ rest) =
      List.replicate (ups + extra) up ++ rest := by
  rw [replicate_add, climbAll_append, climbAll_append, climbAll_back down, climbAll_ups,
    climbAll_names restDown]

/-- Of two positions that lead to one place, the one that goes up further is a detour. -/
theorem eq_or_detour {ups near far : Nat} {base first second : List σ} (down : up ∉ base)
    (firstDown : up ∉ first) (secondDown : up ∉ second) (closer : near ≤ far)
    (same : climbAll up false (List.replicate ups up ++ base) (List.replicate near up ++ first) =
      climbAll up false (List.replicate ups up ++ base) (List.replicate far up ++ second)) :
    List.replicate near up ++ first = List.replicate far up ++ second ∨
      Detour up (List.replicate ups up ++ base) (List.replicate near up ++ first)
        (List.replicate far up ++ second) := by
  by_cases short : near ≤ base.length
  · -- the near position stays below the steps up of the base
    obtain ⟨before, last, rfl, rfl⟩ : ∃ before last, base = before ++ last ∧ last.length = near :=
      ⟨base.take (base.length - near), base.drop (base.length - near),
        (take_append_drop _ _).symm, by rw [length_drop]; omega⟩
    have beforeDown : up ∉ before := fun member => down (mem_append_left _ member)
    have lastDown : up ∉ last := fun member => down (mem_append_right _ member)
    have left : climbAll up false (List.replicate ups up ++ (before ++ last))
        (List.replicate last.length up ++ first) = List.replicate ups up ++ (before ++ first) := by
      rw [← append_assoc, climbAll_within lastDown firstDown, append_assoc]
    by_cases within : far ≤ (before ++ last).length
    · obtain ⟨front, back, rfl, length⟩ :
          ∃ front back, before = front ++ back ∧ last.length + back.length = far := by
        rw [length_append] at within
        refine ⟨before.take (before.length - (far - last.length)),
          before.drop (before.length - (far - last.length)), (take_append_drop _ _).symm, ?_⟩
        rw [length_drop]
        omega
      subst length
      have backDown : up ∉ back := fun member => beforeDown (mem_append_right _ member)
      have shape : List.replicate ups up ++ (front ++ back ++ last) =
          (List.replicate ups up ++ front) ++ back ++ last := by
        simp only [append_assoc]
      have right : climbAll up false (List.replicate ups up ++ (front ++ back ++ last))
          (List.replicate (last.length + back.length) up ++ second) =
            List.replicate ups up ++ front ++ second := by
        rw [shape]
        exact climbAll_within_two backDown lastDown secondDown
      rw [left, right] at same
      simp only [append_assoc] at same
      obtain rfl := append_cancel_left (append_cancel_left same)
      cases back with
      | nil => exact .inl rfl
      | cons name back =>
        exact .inr ⟨List.replicate ups up ++ front, name :: back, last, first, shape,
          cons_ne_nil _ _, backDown, lastDown, firstDown, rfl, rfl⟩
    · -- the far position leaves the base, which has fewer steps up
      obtain ⟨extra, rfl⟩ : ∃ extra, far = (before ++ last).length + extra :=
        ⟨far - (before ++ last).length, by omega⟩
      rw [left, climbAll_beyond down secondDown] at same
      have namesDown : up ∉ before ++ first := by
        intro member
        rcases mem_append.mp member with early | late
        · exact beforeDown early
        · exact firstDown late
      have counts := (settled_unique namesDown secondDown same).1
      omega
  · obtain ⟨one, rfl⟩ : ∃ one, near = base.length + one := ⟨near - base.length, by omega⟩
    obtain ⟨two, rfl⟩ : ∃ two, far = base.length + two := ⟨far - base.length, by omega⟩
    rw [climbAll_beyond down firstDown, climbAll_beyond down secondDown] at same
    obtain ⟨counts, rfl⟩ := settled_unique firstDown secondDown same
    have equal : one = two := by omega
    exact .inl (by rw [equal])

/-- From a position, two positions lead to one place when they are the same, or when one of them
is a detour of the other. -/
theorem climbAll_eq_iff {base first second : List σ} (settled : Settled up base)
    (firstSettled : Settled up first) (secondSettled : Settled up second) :
    climbAll up false base first = climbAll up false base second ↔
      first = second ∨ Detour up base first second ∨ Detour up base second first := by
  constructor
  · obtain ⟨ups, names, down, rfl⟩ := settled
    obtain ⟨near, one, oneDown, rfl⟩ := firstSettled
    obtain ⟨far, two, twoDown, rfl⟩ := secondSettled
    intro same
    rcases Nat.le_total near far with closer | closer
    · rcases eq_or_detour down oneDown twoDown closer same with equal | detour
      · exact .inl equal
      · exact .inr (.inl detour)
    · rcases eq_or_detour down twoDown oneDown closer same.symm with equal | detour
      · exact .inl equal.symm
      · exact .inr (.inr detour)
  · rintro (rfl | detour | detour)
    · rfl
    · exact detour.climbAll_eq
    · exact detour.climbAll_eq.symm

end Nobify.Lib
