import Mathlib.Data.List.Basic

/-!
# Replaying action sequences

A machine is given by one function that applies an action to a state. A run is the list of
its actions, its final state their replay. Two things are needed of such runs: a condition
that each step meets in the state it starts from (`Along`), with the rule that an invariant
kept by such steps holds at the end; and well-bracketed runs (`Balanced`), in which every
opening action is closed by a matching one around a well-bracketed inner run. Where brackets
carry a key and only close a bracket of their own key, the runs are `Matched`, and a stack of
open keys decides it.
-/

namespace Nobify.Lib

open List

variable {σ α : Type}

section Replay

variable (apply : α → σ → σ)

/-- The state after a list of actions. -/
def replay (actions : List α) (state : σ) : σ :=
  actions.foldl (fun state action => apply action state) state

@[simp] theorem replay_nil (state : σ) : replay apply [] state = state := rfl

@[simp] theorem replay_cons (action : α) (rest : List α) (state : σ) :
    replay apply (action :: rest) state = replay apply rest (apply action state) := rfl

@[simp] theorem replay_append (first second : List α) (state : σ) :
    replay apply (first ++ second) state = replay apply second (replay apply first state) :=
  foldl_append ..

/-- Every action of the list meets the condition in the state it is applied to. -/
def Along (condition : α → σ → Prop) : List α → σ → Prop
  | [], _ => True
  | action :: rest, state => condition action state ∧ Along condition rest (apply action state)

instance alongDecidable (condition : α → σ → Prop)
    [decidable : ∀ action state, Decidable (condition action state)] :
    ∀ actions state, Decidable (Along apply condition actions state)
  | [], _ => .isTrue trivial
  | action :: rest, state =>
    have := alongDecidable condition rest (apply action state)
    inferInstanceAs (Decidable (condition action state ∧ _))

/-- A condition along a concatenation is the condition along both parts. -/
theorem along_append (condition : α → σ → Prop) (first second : List α) (state : σ) :
    Along apply condition (first ++ second) state ↔ Along apply condition first state ∧
        Along apply condition second (replay apply first state) := by
  induction first generalizing state with
  | nil => simp [Along]
  | cons action rest ih => simp only [cons_append, Along, ih, replay_cons, and_assoc]

variable {condition : α → σ → Prop} {state : σ}

/-- An invariant that every conditioned step keeps holds after a conditioned run. -/
theorem along_invariant {invariant : σ → Prop}
    (step : ∀ action state, condition action state → invariant state → invariant (apply action
      state)) {actions : List α} (met : Along apply condition actions state)
    (start : invariant state) : invariant (replay apply actions state) := by
  induction actions generalizing state with
  | nil => exact start
  | cons action rest ih =>
    obtain ⟨here, later⟩ := met
    exact ih later (step action state here start)

/-- Where an invariant that conditioned steps keep makes a state good, and a good state after a step
shows that the step met its condition, the conditioned runs are those that stay good. -/
theorem along_iff_prefixes {invariant good : σ → Prop}
    (step : ∀ action state, invariant state → condition action state → invariant (apply action
      state)) (holds : ∀ state, invariant state → good state)
    (needed : ∀ action state, invariant state → good (apply action state) → condition action state)
    (actions : List α) (start : invariant state) :
    Along apply condition actions state ↔
      ∀ done, done <+: actions → good (replay apply done state) := by
  induction actions generalizing state with
  | nil =>
    constructor
    · intro _ done initial
      rw [List.prefix_nil.mp initial]
      exact holds state start
    · intro _
      trivial
  | cons action rest ih =>
    constructor
    · intro ⟨here, later⟩ done initial
      cases done with
      | nil => exact holds state start
      | cons first others =>
        obtain ⟨rfl, others_le⟩ := List.cons_prefix_cons.mp initial
        exact (ih (step first state start here)).mp later others others_le
    · intro stays
      have here := needed action state start (stays [action] (by simp))
      refine ⟨here, (ih (step action state start here)).mpr ?_⟩
      intro done initial
      exact stays (action :: done) (List.cons_prefix_cons.mpr ⟨rfl, initial⟩)

end Replay

/-- Well-bracketed lists of actions. -/
inductive Balanced (opens closes : α → Prop) : List α → Prop where
  /-- Nothing happens. -/
  | nil : Balanced opens closes []
  /-- An action that is no bracket, then more. -/
  | plain {action : α} {rest : List α} (notOpen : ¬ opens action) (notClose : ¬ closes action)
      (tail : Balanced opens closes rest) : Balanced opens closes (action :: rest)
  /-- An opening action, an inner run, its closing action, then more. -/
  | nested {opening closing : α} {inner rest : List α} (isOpen : opens opening)
      (isClose : closes closing) (body : Balanced opens closes inner)
      (tail : Balanced opens closes rest) :
      Balanced opens closes (opening :: inner ++ closing :: rest)

/-- Well-bracketed runs one after the other are well bracketed. -/
theorem Balanced.append {opens closes : α → Prop} {first second : List α}
    (head : Balanced opens closes first) (tail : Balanced opens closes second) :
    Balanced opens closes (first ++ second) := by
  induction head with
  | nil => exact tail
  | plain notOpen notClose _ ih => exact .plain notOpen notClose ih
  | @nested opening closing inner rest isOpen isClose body _ _ ih =>
    have whole := Balanced.nested isOpen isClose body ih
    simpa [append_assoc] using whole

/-! ## Brackets with keys -/

section Matched

variable {κ : Type}

/-- What an action is to the nesting. -/
inductive Bracket (κ : Type) where
  | opening (key : κ)
  | closing (key : κ)
  | plain

variable (bracket : α → Bracket κ)

/-- Lists in which every opening bracket is closed by one of the same key. -/
inductive Matched : List α → Prop where
  /-- Nothing happens. -/
  | nil : Matched []
  /-- An action that is no bracket, then more. -/
  | plain {action : α} {rest : List α} (isPlain : bracket action = .plain)
      (tail : Matched rest) : Matched (action :: rest)
  /-- An opening bracket, a matched list, the closing bracket of its key, then more. -/
  | nested {opening closing : α} {inner rest : List α} {key : κ}
      (opens : bracket opening = .opening key) (closes : bracket closing = .closing key)
      (body : Matched inner) (tail : Matched rest) :
      Matched (opening :: inner ++ closing :: rest)

/-- The keys still open after a list, innermost first; `none` at a bracket that closes no open
bracket of its key. -/
def openKeys [DecidableEq κ] : List κ → List α → Option (List κ)
  | stack, [] => some stack
  | stack, action :: rest =>
    match bracket action, stack with
    | .opening key, stack => openKeys (key :: stack) rest
    | .closing key, top :: below => if top = key then openKeys below rest else none
    | .closing _, [] => none
    | .plain, stack => openKeys stack rest

/-- The list closes the open keys one after the other, each after a matched part. -/
def MatchedFrom : List κ → List α → Prop
  | [], actions => Matched bracket actions
  | key :: below, actions =>
    ∃ inner closing rest, actions = inner ++ closing :: rest ∧ Matched bracket inner ∧
      bracket closing = .closing key ∧ MatchedFrom below rest

variable {bracket}

/-- A matched list may come before. -/
theorem MatchedFrom.append {first : List α} (matched : Matched bracket first) :
    ∀ {stack : List κ} {second : List α}, MatchedFrom bracket stack second →
      MatchedFrom bracket stack (first ++ second) := by
  have whole : ∀ {left right : List α}, Matched bracket left → Matched bracket right →
      Matched bracket (left ++ right) := by
    intro left right head tail
    induction head with
    | nil => exact tail
    | plain isPlain _ ih => exact .plain isPlain ih
    | @nested opening closing inner rest key opens closes body _ _ ih =>
      have joined := Matched.nested opens closes body ih
      simpa [append_assoc] using joined
  intro stack second tail
  cases stack with
  | nil => exact whole matched tail
  | cons key below =>
    obtain ⟨inner, closing, rest, rfl, body, closes, later⟩ := tail
    exact ⟨first ++ inner, closing, rest, by simp, whole matched body, closes, later⟩

/-- The stack closes all its keys only over a list that closes them. -/
theorem matchedFrom_of_openKeys [DecidableEq κ] {actions : List α} {stack : List κ}
    (closed : openKeys bracket stack actions = some []) : MatchedFrom bracket stack actions := by
  induction actions generalizing stack with
  | nil =>
    obtain rfl : stack = [] := by simpa [openKeys] using closed
    exact .nil
  | cons action rest ih =>
    cases kind : bracket action with
    | plain =>
      have later : MatchedFrom bracket stack rest := ih (by simpa [openKeys, kind] using closed)
      exact MatchedFrom.append (.plain kind .nil) later
    | opening key =>
      obtain ⟨inner, closing, after, rfl, body, closes, later⟩ :
          MatchedFrom bracket (key :: stack) rest := ih (by simpa [openKeys, kind] using closed)
      have here : Matched bracket (action :: inner ++ closing :: []) :=
        .nested kind closes body .nil
      simpa using MatchedFrom.append here later
    | closing key =>
      cases stack with
      | nil => simp [openKeys, kind] at closed
      | cons top below =>
        by_cases same : top = key
        · have later : MatchedFrom bracket below rest :=
            ih (by simpa [openKeys, kind, same] using closed)
          exact ⟨[], action, rest, rfl, .nil, same ▸ kind, later⟩
        · simp [openKeys, kind, same] at closed

/-- A matched list leaves the open keys alone. -/
theorem Matched.openKeys_append [DecidableEq κ] {actions : List α}
    (matched : Matched bracket actions) (stack : List κ) (rest : List α) :
    openKeys bracket stack (actions ++ rest) = openKeys bracket stack rest := by
  induction matched generalizing stack rest with
  | nil => rfl
  | plain isPlain _ ih => simp [openKeys, isPlain, ih]
  | nested opens closes _ _ bodyIh tailIh =>
    simp [openKeys, opens, closes, bodyIh, tailIh, append_assoc]

/-- A list is matched exactly when the stack is empty after it. -/
theorem openKeys_eq_nil_iff [DecidableEq κ] {actions : List α} :
    openKeys bracket [] actions = some [] ↔ Matched bracket actions := by
  constructor
  · exact matchedFrom_of_openKeys
  · intro matched
    simpa [openKeys] using matched.openKeys_append [] []

end Matched

end Nobify.Lib
