import Nobify.Evaluator.ScopeCalls

/-!
# Variables that a command writes

A command that ends with `eval_var_set_current` leaves the written value in view: the record that a
watched variable makes of the write goes to variables of other names.
-/

namespace Nobify.Evaluator

open Lib Prog
open List

variable {edits : List Edit} {name : StringView}

/-- Other names keep their values. -/
theorem rebindAll_lookup (others : ∀ edit ∈ edits, svToCstr edit.key ≠ name)
    (scope : Finmap fun _ : StringView => StringView) :
    (rebindAll edits scope).lookup name = scope.lookup name := by
  induction edits generalizing scope with
  | nil => rfl
  | cons edit rest ih =>
    show (rebindAll rest
      (Lib.ScopeStack.rebind (svToCstr edit.key) edit.value scope)).lookup name = _
    rw [ih (fun other member => others other (mem_cons_of_mem _ member)),
      Lib.ScopeStack.lookup_rebind, if_neg (others edit mem_cons_self)]

/-- The first edit of a name is seen if the later ones have other names. -/
theorem varGetVisible_editScope {state : EvalState} (bounds : Scoped state.scope)
    (key value : StringView) (others : ∀ edit ∈ edits, svToCstr edit.key ≠ svToCstr key) :
    (state.editScope 0 (⟨key, some value⟩ :: edits)).varGetVisible key = value := by
  have length := bounds.bindings_length
  have inView := bounds.inView
  rw [varGetVisible_bindings (bounds.editScope 0 _), bindings_editScope bounds inView, replay_edits]
  cases shape : state.scope.bindings.scopes with
  | nil =>
    rw [shape] at length
    exact absurd length.symm (Nat.ne_of_gt inView)
  | cons scope rest =>
    have seen : (rebindAll (⟨key, some value⟩ :: edits) scope).lookup (svToCstr key) =
        some value := by
      show (rebindAll edits (Lib.ScopeStack.rebind (svToCstr key) (some value) scope)).lookup _ = _
      rw [rebindAll_lookup others, Lib.ScopeStack.lookup_rebind, if_pos rfl]
    unfold Lib.ScopeStack.lookup
    rw [modify_zero_cons, List.findSome?_cons, seen]
    rfl

/-- The variables of a record. -/
def recordNames : List StringView :=
  [sv "NOBIFY_VARIABLE_WATCH_LAST_VAR", sv "NOBIFY_VARIABLE_WATCH_LAST_ACTION",
    sv "NOBIFY_VARIABLE_WATCH_LAST_VALUE", sv "NOBIFY_VARIABLE_WATCH_LAST_COMMAND"]

theorem recordNames_reserved :
    ∀ name ∈ recordNames, (sv "NOBIFY_VARIABLE_WATCH_").isPrefixOf name = true ∧ '\x00' ∉ name := by
  decide +kernel

variable {ctx : EvalExecContext} {key action value : StringView} {edit : Edit}

/-- A watched write is recorded in these variables. -/
theorem watchEdits_mem (member : edit ∈ watchEdits ctx key action value) :
    edit.key ∈ recordNames ∧ (sv "NOBIFY_VARIABLE_WATCH_").isPrefixOf key = false := by
  unfold watchEdits at member
  split at member
  · cases member
  · rename_i exempt
    rw [Bool.or_eq_true, not_or, Bool.not_eq_true, Bool.not_eq_true] at exempt
    refine ⟨?_, exempt.2⟩
    split at member
    · cases member
    · unfold recordEdits at member
      rcases mem_append.mp member with record | command
      · simp only [mem_cons, not_mem_nil, or_false] at record
        rcases record with rfl | rfl | rfl
        all_goals
          unfold recordNames
          simp
      · split at command
        · cases command
        · obtain rfl := mem_singleton.mp command
          unfold recordNames
          simp

/-- The record of a watched variable is kept under other names. -/
theorem watchEdits_key (member : edit ∈ watchEdits ctx key action value) :
    svToCstr edit.key ≠ svToCstr key := by
  obtain ⟨known, exempt⟩ := watchEdits_mem member
  have named := recordNames_reserved edit.key known
  intro same
  rw [svToCstr_eq_self named.2] at same
  have start : sv "NOBIFY_VARIABLE_WATCH_" <+: key :=
    (List.isPrefixOf_iff_prefix.mp named.1).trans (same ▸ List.takeWhile_prefix _)
  rw [List.isPrefixOf_iff_prefix.mpr start] at exempt
  cases exempt

/-- A variable that no edit names is seen as before. -/
theorem lookup_editScope {state : EvalState} (bounds : Scoped state.scope)
    (others : ∀ edit ∈ edits, svToCstr edit.key ≠ name) :
    (state.editScope 0 edits).scope.bindings.lookup name = state.scope.bindings.lookup name := by
  rw [bindings_editScope bounds bounds.inView, replay_edits]
  unfold Lib.ScopeStack.lookup
  cases state.scope.bindings.scopes with
  | nil => rfl
  | cons scope rest =>
    rw [modify_zero_cons, List.findSome?_cons, List.findSome?_cons, rebindAll_lookup others]

/-- In a running context a written variable is seen. -/
theorem varSetCurrent_seen
    {dispatch : Nat → Nat → StringView → List Arg → EvalExecContext → Option (Run EvalResult)}
    (bounds : Scoped ctx.state.scope) (running : ctx.shouldStop = false) (key value : StringView) :
    Ends dispatch (varSetCurrent key value) ctx fun _ after =>
      after.state.varGetVisible key = value := by
  refine (varSetCurrent_ends bounds key value).mono ?_
  intro _ after left
  have edits : setEdits ctx key value =
      ⟨key, some value⟩ :: watchEdits ctx key (sv "SET") value := by
    unfold setEdits
    rw [running, if_neg (by decide)]
  have left : after.state = _ := left
  rw [left, edits]
  exact varGetVisible_editScope bounds key value fun edit member => watchEdits_key member

/-! ## What a write returns -/

variable {dispatch : Nat → Nat → StringView → List Arg → EvalExecContext → Option (Run EvalResult)}

/-- A diagnostic is fatal when it stops the run. -/
theorem emitDiag_fatal (request : DiagRequest) (ctx : EvalExecContext) :
    Ends dispatch (emitDiag request) ctx fun result after =>
      (result != .fatal) = !after.shouldStop := by
  unfold emitDiag
  apply Ends.context
  by_cases stopped : ctx.shouldStop = true
  · rw [if_pos stopped]
    apply Ends.pure
    rw [stopped]
    rfl
  · rw [if_neg stopped]
    apply Ends.perform
    apply (shouldStop_ends _).bind
    intro stops after same
    obtain ⟨value, rfl⟩ := same
    cases stops with
    | true =>
      apply Ends.pure
      rw [← value]
      rfl
    | false =>
      apply Ends.pure
      rw [← value]
      split <;> rfl

/-- The notification of a write fails when it stops the run. -/
theorem variableWatchNotify_value (running : ctx.shouldStop = false)
    (key action value : StringView) :
    Ends dispatch (variableWatchNotify key action value) ctx fun done after =>
      done = !after.shouldStop := by
  have going : ∀ after : EvalExecContext, after.shouldStop = false → true = !after.shouldStop := by
    intro after runs
    rw [runs]
    rfl
  unfold variableWatchNotify
  apply Ends.context
  by_cases exempt : (ctx.runtime.inVariableWatchNotification || key.isEmpty ||
      (sv "NOBIFY_VARIABLE_WATCH_").isPrefixOf key) = true
  · rw [if_pos exempt]
    exact Ends.pure (going ctx running)
  · rw [if_neg exempt]
    cases ctx.state.command.watchedVariables.idxOf? key with
    | none => exact Ends.pure (going ctx running)
    | some index =>
      dsimp only
      apply Ends.perform
      apply Ends.perform
      apply Ends.perform
      apply Ends.perform
      have closing : ∀ request before, Ends dispatch (emitDiag request >>= fun result =>
          perform (.setWatching false) >>= fun _ => pure (result != .fatal)) before
          fun done after => done = !after.shouldStop := by
        intro request before
        apply (emitDiag_fatal request before).bind
        intro result after fatal
        exact Ends.perform (Ends.pure fatal)
      split
      · apply Ends.perform
        exact closing _ _
      · exact closing _ _

/-- In a running context `eval_var_set_current` fails when it stops the run. -/
theorem varSetCurrent_value {ctx : EvalExecContext} (bounds : Scoped ctx.state.scope)
    (running : ctx.shouldStop = false) (key value : StringView) :
    Ends dispatch (varSetCurrent key value) ctx fun done after => done = !after.shouldStop := by
  have inView := bounds.inView
  have visible : (ctx.state.scope.visibleScopeDepth == 0) = false := by simp; omega
  unfold varSetCurrent
  apply Ends.context
  rw [visible, Bool.false_or, running, if_neg Bool.false_ne_true]
  apply Ends.perform
  have still : ((Op.modify (setCurrentChange key value)).apply ctx).shouldStop = false := running
  exact variableWatchNotify_value still key (sv "SET") value

theorem resultFromCtx_ends {post : EvalExecContext → Prop} (holds : post ctx) :
    Ends dispatch resultFromCtx ctx fun _ after => post after := by
  unfold resultFromCtx
  exact Ends.context (Ends.pure holds)

end Nobify.Evaluator
