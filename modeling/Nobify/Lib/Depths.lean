import Nobify.Lib.Climbs

/-!
# How deep a walk is

A walk of names and steps up stays below its start when no part of it from the front has more
steps up than names. Such a walk keeps everything it started from, and is as deep as it has more
names than steps up. The first name of a position is a name behind which the walk stays, and
before which it has come back to its start.
-/

namespace Nobify.Lib

open List Option

variable {σ : Type*} [DecidableEq σ] (up : σ)

/-- No part of the walk from the front has more steps up than names. -/
def Stays (steps : List σ) : Prop := ∀ front, front <+: steps → 2 * front.count up ≤ front.length

/-- The walk stays below its start and ends at it. -/
def Returns (steps : List σ) : Prop := Stays up steps ∧ steps.length = 2 * steps.count up

/-- The name is the first that the walk leaves behind its start: before it the walk has come back,
and behind it the walk stays. -/
def Begins (name : σ) (steps : List σ) : Prop :=
  ∃ before after, steps = before ++ name :: after ∧ Returns up before ∧ Stays up after

/-- The walk stays below its start and ends at a single name. -/
def Single (steps : List σ) : Prop := Stays up steps ∧ steps.length = 2 * steps.count up + 1

/-- Behind a first step up, the walk comes to stand on a single name after it has already gone up
from another, and goes up again. -/
def Uproots (steps : List σ) : Prop :=
  ∃ before after, steps = up :: (before ++ up :: after) ∧ Single up before ∧ up ∈ before

/-- The number of names that a walk meets. -/
def namesMet (steps : List σ) : Nat := steps.length - steps.count up

variable {up} {rooted : Bool} {position steps rest : List σ} {name step : σ}

/-! ## Staying below the start -/

theorem Stays.nil : Stays up ([] : List σ) := by
  intro front early
  rw [List.prefix_nil.mp early]
  exact Nat.le_refl 0

theorem Stays.count_le (stays : Stays up steps) : 2 * steps.count up ≤ steps.length :=
  stays steps List.prefix_rfl

/-- What comes first in a walk that stays also stays. -/
theorem Stays.front (stays : Stays up (steps ++ rest)) : Stays up steps :=
  fun front early => stays front (early.trans (List.prefix_append steps rest))

/-- A walk that stays goes on staying as long as it has not more steps up than names. -/
theorem Stays.concat (stays : Stays up steps)
    (enough : 2 * (steps ++ [step]).count up ≤ (steps ++ [step]).length) :
    Stays up (steps ++ [step]) := by
  intro front early
  rcases List.prefix_concat_iff.mp early with whole | inside
  · rw [whole]
    exact enough
  · exact stays front inside

theorem Stays.concat_name (stays : Stays up steps) (down : name ≠ up) :
    Stays up (steps ++ [name]) := by
  have early := stays.count_le
  refine stays.concat ?_
  rw [count_append, count_singleton, if_neg (by simpa using down), length_append, length_singleton]
  omega

/-- Where a walk that stays leads: as many names behind the position as it has more names than
steps up. -/
theorem Stays.climbAll_eq (stays : Stays up steps) :
    ∃ names, up ∉ names ∧ names.length + 2 * steps.count up = steps.length ∧
      ∀ rooted position, climbAll up rooted position steps = position ++ names := by
  induction steps using List.reverseRecOn with
  | nil => exact ⟨[], not_mem_nil, rfl, fun _ position => (append_nil position).symm⟩
  | append_singleton steps step ih =>
    obtain ⟨names, down, deep, leads⟩ := ih stays.front
    have enough := stays.count_le
    rw [count_append, count_singleton, length_append, length_singleton] at *
    by_cases same : step = up
    · subst same
      rw [if_pos (beq_self_eq_true step)] at *
      -- the step up takes back the last of the names
      cases names using List.reverseRecOn with
      | nil =>
        rw [length_nil] at deep
        omega
      | append_singleton names last =>
        have parts := mem_append.not.mp down
        have here : last ≠ step := fun same => parts (.inr (mem_singleton.mpr same.symm))
        rw [length_append, length_singleton] at deep
        refine ⟨names, fun member => parts (.inl member), by omega, fun rooted position => ?_⟩
        rw [climbAll_concat, leads, ← append_assoc, climb_back here]
    · rw [if_neg (by simpa using same)] at *
      refine ⟨names ++ [step], ?_, ?_, fun rooted position => ?_⟩
      · intro member
        rcases mem_append.mp member with early | last
        · exact down early
        · exact same (mem_singleton.mp last).symm
      · rw [length_append, length_singleton]
        omega
      · rw [climbAll_concat, leads, climb_name same, append_assoc]

/-- A walk that leads to names has stayed below its start. -/
theorem stays_of_climbAll (down : up ∉ climbAll up false [] steps) : Stays up steps := by
  induction steps using List.reverseRecOn with
  | nil => exact .nil
  | append_singleton steps step ih =>
    rw [climbAll_concat] at down
    by_cases same : step = up
    · subst same
      -- the step up is kept unless it takes back a name
      by_cases last : climbAll step false [] steps ≠ [] ∧
          (climbAll step false [] steps).getLast? ≠ some step
      · rw [climb, if_pos rfl, if_pos last] at down
        have split := dropLast_append_getLast last.1
        have before : step ∉ climbAll step false [] steps := by
          rw [← split]
          intro member
          rcases mem_append.mp member with early | there
          · exact down early
          · refine last.2 ?_
            rw [List.getLast?_eq_some_getLast last.1, ← mem_singleton.mp there]
        have stays := ih before
        obtain ⟨names, _, deep, leads⟩ := stays.climbAll_eq
        have filled : names ≠ [] := by
          have whole := leads false []
          rw [nil_append] at whole
          rw [← whole]
          exact last.1
        have long := length_pos_of_ne_nil filled
        refine stays.concat ?_
        rw [count_append, count_singleton_self, length_append, length_singleton]
        omega
      · rw [climb, if_pos rfl, if_neg last, if_neg Bool.false_ne_true] at down
        exact absurd (mem_append_right _ (mem_singleton_self step)) down
    · rw [climb_name same] at down
      exact (ih fun member => down (mem_append_left _ member)).concat_name same

/-- The walks that come back to their start. -/
theorem climbAll_eq_nil_iff : climbAll up false [] steps = [] ↔ Returns up steps := by
  constructor
  · intro back
    have stays : Stays up steps := stays_of_climbAll (by rw [back]; exact not_mem_nil)
    obtain ⟨names, _, deep, leads⟩ := stays.climbAll_eq
    have none : names = [] := by
      have whole := leads false []
      rw [nil_append] at whole
      rw [← whole, back]
    rw [none, length_nil, Nat.zero_add] at deep
    exact ⟨stays, deep.symm⟩
  · rintro ⟨stays, even⟩
    obtain ⟨names, _, deep, leads⟩ := stays.climbAll_eq
    have none : names.length = 0 := by omega
    rw [leads, length_eq_zero_iff.mp none, append_nil]

/-! ## The first name of a position -/

/-- Where a walk leads that comes back to its start and then stays behind a name. -/
theorem climbAll_split {before after : List σ} (returns : Returns up before) (down : name ≠ up)
    (stays : Stays up after) :
    ∃ names, up ∉ names ∧ names.length + 2 * after.count up = after.length ∧
      climbAll up false [] (before ++ name :: after) = name :: names := by
  obtain ⟨names, free, deep, leads⟩ := stays.climbAll_eq
  refine ⟨names, free, deep, ?_⟩
  rw [climbAll_append, (climbAll_eq_nil_iff).mpr returns, climbAll_cons, climb_name down, leads,
    nil_append, singleton_append]

omit [DecidableEq σ] in
/-- A position that starts with a name holds only names. -/
theorem Settled.up_notMem (settled : Settled up position) (start : position.head? = some name)
    (down : name ≠ up) : up ∉ position := by
  obtain ⟨ups, names, free, rfl⟩ := settled
  cases ups with
  | zero => exact free
  | succ ups =>
    rw [replicate_succ, cons_append, List.head?_cons] at start
    exact absurd (some.inj start).symm down

/-- The names that positions start with. -/
theorem climbAll_head?_iff (down : name ≠ up) :
    (climbAll up false [] steps).head? = some name ↔ Begins up name steps := by
  constructor
  · intro start
    have free := settled_climbAll.up_notMem start down
    induction steps using List.reverseRecOn with
    | nil => cases start
    | append_singleton steps step ih =>
      rw [climbAll_concat] at start free
      by_cases same : step = up
      · subst same
        by_cases last : climbAll step false [] steps ≠ [] ∧
            (climbAll step false [] steps).getLast? ≠ some step
        · rw [climb, if_pos rfl, if_pos last] at start
          have split := dropLast_append_getLast last.1
          have early : (climbAll step false [] steps).head? = some name := by
            rw [← split, List.head?_append, start, some_or]
          obtain ⟨before, after, rfl, returns, stays⟩ :=
            ih early (settled_climbAll.up_notMem early down)
          refine ⟨before, after ++ [step], by simp, returns, stays.concat ?_⟩
          -- the name stays in front, so behind it there was another name to take back
          obtain ⟨names, _, deep, leads⟩ := climbAll_split returns down stays
          have filled : names ≠ [] := by
            rintro rfl
            rw [leads] at start
            cases start
          have long := length_pos_of_ne_nil filled
          rw [count_append, count_singleton_self, length_append, length_singleton]
          omega
        · rw [climb, if_pos rfl, if_neg last, if_neg Bool.false_ne_true] at free
          exact absurd (mem_append_right _ (mem_singleton_self step)) free
      · rw [climb_name same] at start free
        have earlyFree : up ∉ climbAll up false [] steps :=
          fun member => free (mem_append_left _ member)
        by_cases none : climbAll up false [] steps = []
        · rw [none, nil_append, List.head?_cons] at start
          cases start
          exact ⟨steps, [], rfl, (climbAll_eq_nil_iff).mp none, .nil⟩
        · rw [List.head?_append_of_ne_nil _ none] at start
          obtain ⟨before, after, rfl, returns, stays⟩ := ih start earlyFree
          exact ⟨before, after ++ [step], by simp, returns, stays.concat_name same⟩
  · rintro ⟨before, after, rfl, returns, stays⟩
    obtain ⟨names, _, _, leads⟩ := climbAll_split returns down stays
    rw [leads, List.head?_cons]

/-! ## Behind a step up -/

/-- A walk that starts with steps up keeps them. -/
theorem climbAll_behind_ups (count : Nat) : climbAll up false (List.replicate count up) steps =
      List.replicate count up ++ climbAll up false [] steps := by
  have settled : Settled up (climbAll up false [] steps) := settled_climbAll
  obtain ⟨ups, names, down, same⟩ := settled
  rw [← @climbAll_climbAll _ _ up false _ steps, same, climbAll_append, climbAll_ups,
    climbAll_names down, replicate_add, append_assoc]

/-- The walks that lead to a single name. -/
theorem single_iff : Single up steps ↔ ∃ name, name ≠ up ∧ climbAll up false [] steps = [name] := by
  constructor
  · rintro ⟨stays, odd⟩
    obtain ⟨names, down, deep, whole⟩ := stays.climbAll_eq
    have one : names.length = 1 := by omega
    obtain ⟨name, rfl⟩ := length_eq_one_iff.mp one
    refine ⟨name, fun same => down (mem_singleton.mpr same.symm), ?_⟩
    rw [whole, nil_append]
  · rintro ⟨name, down, leads⟩
    have stays : Stays up steps := by
      refine stays_of_climbAll ?_
      rw [leads, mem_singleton]
      exact down.symm
    obtain ⟨names, _, deep, whole⟩ := stays.climbAll_eq
    have one := whole false []
    rw [leads, nil_append] at one
    rw [← one, length_singleton] at deep
    exact ⟨stays, by omega⟩

theorem namesMet_concat_up : namesMet up (steps ++ [up]) = namesMet up steps := by
  unfold namesMet
  rw [count_append, count_singleton_self, length_append, length_singleton]
  omega

theorem namesMet_concat_name (down : name ≠ up) :
    namesMet up (steps ++ [name]) = namesMet up steps + 1 := by
  have bound := count_le_length (a := up) (l := steps)
  unfold namesMet
  rw [count_append, count_singleton, if_neg (by simpa using down), length_append, length_singleton]
  omega

/-- A walk that ends at a single name has met others when it has gone up. -/
theorem Single.two_le_namesMet_iff (single : Single up steps) :
    2 ≤ namesMet up steps ↔ up ∈ steps := by
  have odd := single.2
  rw [← count_pos_iff (a := up)]
  unfold namesMet
  omega

/-- A walk uproots with one more step when it has already, or when the step goes up from a single
name. -/
theorem uproots_concat : Uproots up (up :: (steps ++ [step])) ↔
      Uproots up (up :: steps) ∨ (step = up ∧ Single up steps ∧ up ∈ steps) := by
  constructor
  · rintro ⟨before, after, same, single, listed⟩
    have same := (List.cons.inj same).2
    cases after using List.reverseRecOn with
    | nil =>
      obtain ⟨rfl, last⟩ := append_inj' same rfl
      exact .inr ⟨(List.cons.inj last).1, single, listed⟩
    | append_singleton after last =>
      have shape : steps ++ [step] = (before ++ up :: after) ++ [last] := by
        rw [same, append_assoc]
        rfl
      obtain ⟨rfl, _⟩ := append_inj' shape rfl
      exact .inl ⟨before, after, rfl, single, listed⟩
  · rintro (⟨before, after, same, single, listed⟩ | ⟨rfl, single, listed⟩)
    · refine ⟨before, after ++ [step], ?_, single, listed⟩
      rw [(List.cons.inj same).2, append_assoc]
      rfl
    · exact ⟨steps, [], rfl, single, listed⟩

/-- A position does not uproot. -/
theorem Settled.not_uproots (settled : Settled up position) : ¬ Uproots up (up :: position) := by
  rintro ⟨before, after, same, single, listed⟩
  obtain rfl := (List.cons.inj same).2
  cases before with
  | nil => cases listed
  | cons first rest =>
    have one := single.1 [first] (List.cons_prefix_cons.mpr ⟨rfl, List.nil_prefix⟩)
    have down : first ≠ up := by
      rintro rfl
      rw [count_singleton_self, length_singleton] at one
      omega
    exact settled.up_notMem rfl down (mem_append_left _ listed)

end Nobify.Lib
