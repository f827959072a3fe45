import Nobify.Lib.Replay
import Nobify.Evaluator.Transaction

/-!
# Handler programs

The evaluator has some hundred native command handlers. They act on the context only through
its interface: editing state, pushing events and diagnostics, declaring targets, requesting a
stop, and executing further commands. A handler is therefore a program over that interface;
results about every program hold for every handler.

The interface carries two facts about the source as fields of a state change: no handler
shortens the scope array (`eval_scope_push` is its only writer), and no handler renames or
removes a target record by editing it in place.
-/

namespace Nobify.Evaluator

/-- `Eval_Result`. -/
inductive EvalResult where
  | ok
  | softError
  | fatal
  deriving DecidableEq

/-- `eval_result_merge`: the later result wins only when it is worse. -/
def EvalResult.merge : EvalResult → EvalResult → EvalResult
  | .ok, other => other
  | .softError, .fatal => .fatal
  | result, _ => result

/-- An in-place edit of the evaluator state. -/
structure StateChange where
  apply : EvalState → EvalState
  keepsScopes : ∀ state, state.scope.scopes.length ≤ (apply state).scope.scopes.length
  keepsTargets : ∀ state, (apply state).targetNames = state.targetNames

/-- An edit outside the scopes keeps their number. -/
theorem scopes_kept (state : EvalState) :
    state.scope.scopes.length ≤ state.scope.scopes.length := Nat.le_refl _

/-- What a caller of `eval_emit_diag_with_severity` passes. -/
structure DiagRequest where
  severity : Severity
  code : DiagCode
  component : StringView
  command : StringView
  origin : Origin
  cause : StringView
  hint : StringView

/-- The interface of the context, one operation a constructor. -/
inductive Op where
  /-- Edit state in place. -/
  | modify (change : StateChange)
  /-- `eval_refresh_runtime_compat` found these settings. -/
  | setCompat (profile : CompatProfile) (policy : UnsupportedPolicy) (errorBudget : Nat)
      (continueOnError : Bool)
  /-- Enter or leave a `variable_watch` notification. -/
  | setWatching (active : Bool)
  /-- `eval_emit_event` or `eval_emit_event_allow_stopped`. -/
  | pushEvent (kind : PlainKind) (fields : List StringView) (origin : Origin) (allowStopped : Bool)
  /-- `eval_emit_diag_with_severity`. -/
  | emitDiag (request : DiagRequest)
  /-- `eval_command_tx_preserve_scope_vars_on_failure`. -/
  | preserveScopeVars
  /-- `eval_target_register` and `eval_emit_target_declare` of one target. -/
  | declareTarget (declaration : TargetDeclaration) (declaredDir : StringView) (origin : Origin)
  /-- The record truncation of `ctest_new_process_end`. -/
  | truncateTargets (count : Nat)
  /-- `try_run` takes back an error it reported itself. -/
  | retractError
  /-- `eval_request_stop`. -/
  | requestStop
  /-- `eval_reset_stop_request`. -/
  | resetStop

/-- A program over the interface. -/
inductive Prog (α : Type) where
  | done (value : α)
  | read (next : EvalExecContext → Prog α)
  | act (op : Op) (next : Prog α)
  | call (line col : Nat) (name : StringView) (args : List Arg) (next : EvalResult → Prog α)

namespace Prog

/-- Run one program and go on with its value. -/
def bind {α β : Type} : Prog α → (α → Prog β) → Prog β
  | .done value, next => next value
  | .read look, next => .read fun ctx => (look ctx).bind next
  | .act op rest, next => .act op (rest.bind next)
  | .call line col name args rest, next =>
    .call line col name args fun result => (rest result).bind next

instance : Monad Prog where
  pure := .done
  bind := .bind

/-- The context as it stands. -/
def context : Prog EvalExecContext := .read .done

/-- Perform one operation. -/
def perform (op : Op) : Prog Unit := .act op (.done ())

/-- `eval_dispatch_command` on a command node. -/
def dispatch (line col : Nat) (name : StringView) (args : List Arg) : Prog EvalResult :=
  .call line col name args .done

/-- `eval_should_stop`. -/
def shouldStop : Prog Bool := do return (← context).shouldStop

end Prog

/-! ## The operations -/

/-- `eval_compat_effective_severity`, then the unsupported policy, then the logger. -/
def effectiveSeverities (runtime : RuntimeState) (severity : Severity) (code : DiagCode) :
    Severity × Severity :=
  let report := if severity = .warning && runtime.compatProfile != .permissive then .error
    else severity
  let input := if report = .warning && code.countsAsUnsupported &&
    runtime.unsupportedPolicy == .error then .error else report
  let logged : Severity := if input = .error then .error else .warning
  (report, if runtime.strictMode then .error else logged)

namespace EvalExecContext

/-- `eval_compat_decide_on_diag`: an error may stop the run. -/
def decideOnDiag (ctx : EvalExecContext) (effective : Severity) : EvalExecContext :=
  if effective ≠ .error then ctx
  else if ctx.runtime.compatProfile = .permissive then
    if 0 < ctx.runtime.errorBudget ∧ ctx.runtime.errorBudget ≤ ctx.pendingErrorCount then
      { ctx with stopRequested := true }
    else ctx
  else if ctx.runtime.continueOnErrorSnapshot then ctx
  else { ctx with stopRequested := true }

/-- `eval_emit_diag_with_severity`. -/
def emitDiag (ctx : EvalExecContext) (request : DiagRequest) : EvalExecContext :=
  if ctx.shouldStop then ctx
  else
    let severities := effectiveSeverities ctx.runtime request.severity request.code
    (ctx.pushDiag
      { inputSeverity := severities.1, effectiveSeverity := severities.2, code := request.code,
        component := request.component, command := request.command, origin := request.origin,
        cause := request.cause, hint := request.hint }).decideOnDiag severities.2

/-- `eval_target_register`: a name already on record is left alone. The directory's own list
of target names is a separate state change. -/
def registerTarget (ctx : EvalExecContext) (name declaredDir : StringView) : EvalExecContext :=
  if name ∈ ctx.state.targetNames then ctx
  else { ctx with state := { ctx.state with semantic := { ctx.state.semantic with
    targets := ctx.state.semantic.targets ++ [
      { name, declaredDir, targetType := .libraryUnknown, imported := false,
        importedGlobal := false, isAlias := false, aliasGlobal := false, aliasOf := [] }] } } }

/-- Registration with its declaration event. Each caller of `eval_target_register` goes on to
`eval_emit_target_declare` in the same handler; with a stop pending the event is refused and
the dispatcher rolls the record back, so the pair then has no effect. -/
def declareTarget (ctx : EvalExecContext) (declaration : TargetDeclaration)
    (declaredDir : StringView) (origin : Origin) : EvalExecContext :=
  if ctx.shouldStop then ctx
  else (ctx.registerTarget declaration.name declaredDir).pushEvent
    (.targetDeclare declaration) origin false

/-- `ctest_new_process_end` cuts the target records back to a count taken earlier. -/
def truncateTargets (ctx : EvalExecContext) (count : Nat) : EvalExecContext :=
  { ctx with state := { ctx.state with semantic := { ctx.state.semantic with
      targets := ctx.state.semantic.targets.take count } } }

end EvalExecContext

/-- The effect of an operation. -/
def Op.apply : Op → EvalExecContext → EvalExecContext
  | .modify change, ctx => { ctx with state := change.apply ctx.state }
  | .setCompat profile policy errorBudget continueOnError, ctx =>
    { ctx with runtime := { ctx.runtime with
        compatProfile := profile, unsupportedPolicy := policy, errorBudget,
        continueOnErrorSnapshot := continueOnError } }
  | .setWatching active, ctx =>
    { ctx with runtime := { ctx.runtime with inVariableWatchNotification := active } }
  | .pushEvent kind fields origin allowStopped, ctx =>
    ctx.pushEvent (.plain kind fields) origin allowStopped
  | .emitDiag request, ctx => ctx.emitDiag request
  | .preserveScopeVars, ctx => ctx.preserveScopeVars
  | .declareTarget declaration declaredDir origin, ctx =>
    ctx.declareTarget declaration declaredDir origin
  | .truncateTargets count, ctx => ctx.truncateTargets count
  | .retractError, ctx => ctx.editActive fun tx =>
    { tx with
      pendingErrorCount := tx.pendingErrorCount - 1
      sawErrorDiag := tx.sawErrorDiag && tx.pendingErrorCount != 1 }
  | .requestStop, ctx => { ctx with stopRequested := true }
  | .resetStop, ctx => { ctx with stopRequested := false }

/-- One step of a run: an operation of a handler, or one of the four calls with which the
dispatcher brackets a command. -/
inductive Action where
  | op (operation : Op)
  | txBegin
  | commandBegin (info : CommandInfo) (origin : Origin)
  | commandEnd (info : CommandInfo) (status : CommandStatus) (origin : Origin)
  | txFinish (commitState : Bool)

/-- The effect of a step. -/
def Action.apply : Action → EvalExecContext → EvalExecContext
  | .op operation, ctx => operation.apply ctx
  | .txBegin, ctx => ctx.txBegin
  | .commandBegin info origin, ctx => ctx.pushEvent (.commandBegin info) origin false
  | .commandEnd info status origin, ctx => ctx.pushEvent (.commandEnd info status) origin true
  | .txFinish commitState, ctx => ctx.txFinish commitState

/-- The state after a list of steps. -/
abbrev replayActions (actions : List Action) (ctx : EvalExecContext) : EvalExecContext :=
  Lib.replay Action.apply actions ctx

/-- Steps in which every transaction that begins is finished, innermost first. -/
abbrev BalancedActions (actions : List Action) : Prop :=
  Lib.Balanced (fun action => action = .txBegin)
    (fun action => ∃ commitState, action = .txFinish commitState) actions

end Nobify.Evaluator
