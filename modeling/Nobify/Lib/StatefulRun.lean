import Mathlib.Control.Basic
import Mathlib.Data.List.Basic

/-!
# Runs that keep a state and agree with a value

A run in `ExceptT ε (StateT σ Option)` changes a state, may fail, and may have no outcome at all
when its fuel is used up. A run agrees with a value when from every good state it has an outcome,
its result is that value, and the state is good again, also after a failure. The rules follow the
structure of the run.
-/

namespace Nobify.Lib

open List

variable {ε σ α β : Type}

/-- A run with a state that may fail, or run out of fuel. -/
abbrev StatefulRun (ε σ α : Type) := ExceptT ε (StateT σ Option) α

namespace StatefulRun

/-- The outcome of a run from a state: `none` is a run that used up its fuel. -/
def outcome (run : StatefulRun ε σ α) (state : σ) : Option (Except ε α × σ) := run.run.run state

/-- A run without fuel. -/
def outOfFuel : StatefulRun ε σ α := fun _ => none

/-- The result of a run as a value, so that the caller can go on after a failure. -/
def attempt (run : StatefulRun ε σ α) : StatefulRun ε σ (Except ε α) := fun state =>
  (run.outcome state).map fun (result, after) => (.ok result, after)

/-- From every good state the run ends with that result, in a good state. -/
def Agrees (good : σ → Prop) (run : StatefulRun ε σ α) (result : Except ε α) : Prop :=
  ∀ state, good state → ∃ after, run.outcome state = some (result, after) ∧ good after

/-! ## Outcomes -/

@[simp] theorem outcome_pure (value : α) (state : σ) :
    (pure value : StatefulRun ε σ α).outcome state = some (.ok value, state) := rfl

@[simp] theorem outcome_throw (failure : ε) (state : σ) :
    (throw failure : StatefulRun ε σ α).outcome state = some (.error failure, state) := rfl

@[simp] theorem outcome_attempt (run : StatefulRun ε σ α) (state : σ) : run.attempt.outcome state =
      (run.outcome state).map fun (result, after) => (.ok result, after) := rfl

/-- A sequence goes on from where its first part succeeds. -/
theorem outcome_bind (run : StatefulRun ε σ α) (next : α → StatefulRun ε σ β) (state : σ) :
    (run >>= next).outcome state =
      match run.outcome state with
      | none => none
      | some (.error failure, after) => some (.error failure, after)
      | some (.ok value, after) => (next value).outcome after := by
  show ((run.run.run state).bind fun step => (ExceptT.bindCont next step.1).run step.2) = _
  cases happened : run.outcome state with
  | none =>
    have stuck : run.run.run state = none := happened
    rw [stuck]
    rfl
  | some step =>
    have went : run.run.run state = some step := happened
    rw [went]
    cases step with
    | mk result after =>
      cases result with
      | error failure => rfl
      | ok value => rfl

/-! ## Rules -/

section Rules

variable {good : σ → Prop}

theorem Agrees.pure (value : α) : Agrees good (pure value : StatefulRun ε σ α) (.ok value) := by
  intro state isGood
  exact ⟨state, outcome_pure value state, isGood⟩

theorem Agrees.throw (failure : ε) :
    Agrees good (throw failure : StatefulRun ε σ α) (.error failure) := by
  intro state isGood
  exact ⟨state, outcome_throw failure state, isGood⟩

/-- A value that needs no run leaves the state as it is. -/
theorem Agrees.ofExcept (result : Except ε α) :
    Agrees good (MonadExcept.ofExcept result : StatefulRun ε σ α) result := by
  cases result with
  | error failure => exact Agrees.throw failure
  | ok value => exact Agrees.pure value

/-- A sequence agrees with a sequence. The second part is asked about values that the first part
really has. -/
theorem Agrees.bind {run : StatefulRun ε σ α} {result : Except ε α}
    {next : α → StatefulRun ε σ β} {nextResult : α → Except ε β}
    (first : Agrees good run result)
    (second : ∀ value, result = .ok value → Agrees good (next value) (nextResult value)) :
    Agrees good (run >>= next) (result >>= nextResult) := by
  intro state isGood
  obtain ⟨middle, went, middleGood⟩ := first state isGood
  rw [outcome_bind, went]
  cases result with
  | error failure => exact ⟨middle, rfl, middleGood⟩
  | ok value => exact second value rfl middle middleGood

/-- A run whose value is used by a function. -/
theorem Agrees.map {run : StatefulRun ε σ α} {result : Except ε α} (function : α → β)
    (agrees : Agrees good run result) :
    Agrees good (run >>= fun value => Pure.pure (function value)) (result.map function) := by
  have sequence := agrees.bind fun value _ => Agrees.pure (ε := ε) (function value)
  cases result with
  | error failure => exact sequence
  | ok value => exact sequence

theorem Agrees.ite {condition : Prop} [Decidable condition] {yes no : StatefulRun ε σ α}
    {yesResult noResult : Except ε α} (whenYes : condition → Agrees good yes yesResult)
    (whenNo : ¬ condition → Agrees good no noResult) :
    Agrees good (if condition then yes else no) (if condition then yesResult else noResult) := by
  by_cases holds : condition
  · rw [if_pos holds, if_pos holds]
    exact whenYes holds
  · rw [if_neg holds, if_neg holds]
    exact whenNo holds

/-- A map over a list agrees when each of its rounds does. -/
theorem Agrees.mapM {step : α → StatefulRun ε σ β} {result : α → Except ε β} {items : List α}
    (rounds : ∀ item ∈ items, Agrees good (step item) (result item)) :
    Agrees good (items.mapM step) (items.mapM result) := by
  induction items with
  | nil => exact Agrees.pure []
  | cons item rest ih =>
    rw [mapM_cons, mapM_cons]
    apply (rounds item mem_cons_self).bind
    intro value _
    have tail := ih fun later mem => rounds later (mem_cons_of_mem item mem)
    apply tail.bind
    intro values _
    exact Agrees.pure _

end Rules

end StatefulRun

end Nobify.Lib
