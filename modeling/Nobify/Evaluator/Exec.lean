import Nobify.Evaluator.Program

/-!
# Executing scripts

The dispatcher brackets every command with a transaction and its two trace events and decides
from the handler's outcome whether to commit. Node lists, conditionals, loops and calls of
user functions and macros are programs over the same interface, so one interpreter runs them
all. It recurses on the nesting depth of commands; running out of depth is `none`, the model
of a script whose calls nest forever.

What this module does not spell out is a parameter (`Environment`): the native handlers, the
expansion of arguments and conditions, the items of a `foreach()`, the `while()` limit, the
compatibility settings, the unwinding of open blocks on a `return()`, and what follows the
root list file. Each may be any program.
-/

namespace Nobify.Evaluator

open Prog

/-- The parts of the evaluator that are programs of their own. -/
structure Environment where
  /-- `eval_native_cmd_find_const`. -/
  native : StringView → Option (Nat → Nat → StringView → List Arg → Prog EvalResult)
  /-- `eval_resolve_args`. -/
  resolveArgs : List Arg → Prog (List StringView)
  /-- `eval_resolve_args_literal`. -/
  resolveArgsLiteral : List Arg → Prog (List StringView)
  /-- `eval_condition`. -/
  evalCondition : List Arg → Prog Bool
  /-- The argument parsing of `eval_foreach`: loop variable and items, or an early result. -/
  foreachItems : Origin → List Arg → Prog (EvalResult ⊕ StringView × List StringView)
  /-- `eval_while_iteration_limit`. -/
  whileIterationLimit : Origin → Prog (EvalResult × Nat)
  /-- `eval_policy_is_new` of a policy number. -/
  policyIsNew : Nat → Prog Bool
  /-- `eval_refresh_runtime_compat`. -/
  refreshCompat : Prog Unit
  /-- `eval_unwind_blocks_for_return`. -/
  unwindBlocksForReturn : Prog Bool
  /-- Deferred calls, file generation and CPack after the root list file. -/
  afterRoot : Prog EvalResult

/-! ## Small programs of the interface -/

/-- `eval_result_from_ctx`. -/
def resultFromCtx : Prog EvalResult := do
  let ctx ← context
  return if ctx.shouldStop then .fatal
    else if 0 < ctx.pendingErrorCount then .softError else .ok

/-- `eval_result_ok_if_running`. -/
def resultOkIfRunning : Prog EvalResult := do
  return if ← Prog.shouldStop then .fatal else .ok

/-- `eval_origin_from_node`. -/
def originOf (ctx : EvalExecContext) (line col : Nat) : Origin where
  filePath := (ctx.state.execCurrent.bind ExecContext.currentFile).getD (sv "<input>")
  line := line
  col := col

/-- `emit_event`: whether the push was accepted. -/
def emitEvent (kind : PlainKind) (fields : List StringView) (origin : Origin) : Prog Bool := do
  let stopped ← Prog.shouldStop
  perform (.pushEvent kind fields origin false)
  return !stopped

/-- `eval_emit_diag_with_severity` with its result. -/
def emitDiag (request : DiagRequest) : Prog EvalResult := do
  let before ← context
  if before.shouldStop then return .fatal
  perform (.emitDiag request)
  if ← Prog.shouldStop then return .fatal
  return if (effectiveSeverities before.runtime request.severity request.code).2 = .error
    then .softError else .ok

/-- A state change with both interface facts proved by the caller. -/
def modifyState (change : StateChange) : Prog Unit := perform (.modify change)

/-- Editing the scope in view keeps the number of scopes. -/
theorem editCurrentScope_scopes_length (state : EvalState) (edit : VarTable → VarTable) :
    (state.editCurrentScope edit).scope.scopes.length = state.scope.scopes.length := by
  simp [EvalState.editCurrentScope]

/-- The write of `eval_var_set_current`. -/
def setCurrentChange (key value : StringView) : StateChange where
  apply state := state.setCurrent key value
  keepsScopes state := by
    unfold EvalState.setCurrent
    split
    · exact Nat.le_refl _
    · exact Nat.le_of_eq (editCurrentScope_scopes_length state _).symm
  keepsTargets state := by
    unfold EvalState.setCurrent
    split <;> rfl

/-- The removal of `eval_var_unset_current`. -/
def unsetCurrentChange (key : StringView) : StateChange where
  apply state := state.unsetCurrent key
  keepsScopes state := by
    unfold EvalState.unsetCurrent
    split
    · exact Nat.le_refl _
    · exact Nat.le_of_eq (editCurrentScope_scopes_length state _).symm
  keepsTargets state := by
    unfold EvalState.unsetCurrent
    split <;> rfl

/-- A change of the number of scopes in view. -/
def viewChange (depth : Nat → Nat) : StateChange where
  apply state := state.withVisibleDepth (depth state.scope.visibleScopeDepth)
  keepsScopes := scopes_kept
  keepsTargets _ := rfl

/-- `eval_scope_push` never shortens the array. -/
def scopePushChange : StateChange where
  apply := EvalState.scopePush
  keepsScopes state := by
    unfold EvalState.scopePush
    simp only
    split <;> simp
  keepsTargets _ := rfl

/-- `eval_scope_pop` leaves the array's length alone. -/
def scopePopChange : StateChange where
  apply := EvalState.scopePop
  keepsScopes state := by
    unfold EvalState.scopePop
    split <;> simp
  keepsTargets state := by
    unfold EvalState.scopePop
    split <;> rfl

/-- A change of the execution stack. -/
def execChange (edit : List ExecContext → List ExecContext) : StateChange where
  apply state := { state with execContexts := edit state.execContexts }
  keepsScopes := scopes_kept
  keepsTargets _ := rfl

/-- A change of the macro, block and return stacks kept with the scopes. -/
def controlChange (macroFrames : List MacroFrame → List MacroFrame)
    (blockFrames : List BlockFrame → List BlockFrame)
    (returnVars : List StringView → List StringView) : StateChange where
  apply state := { state with scope := { state.scope with
    macroFrames := macroFrames state.scope.macroFrames
    blockFrames := blockFrames state.scope.blockFrames
    returnPropagateVars := returnVars state.scope.returnPropagateVars } }
  keepsScopes := scopes_kept
  keepsTargets _ := rfl

/-- `eval_variable_watch_notify`: a watched write leaves its trace and a warning. -/
def variableWatchNotify (key action value : StringView) : Prog Bool := do
  let ctx ← context
  if ctx.runtime.inVariableWatchNotification || key.isEmpty ||
      (sv "NOBIFY_VARIABLE_WATCH_").isPrefixOf key then return true
  match ctx.state.command.watchedVariables.idxOf? key with
  | none => return true
  | some index =>
    let command := ctx.state.command.watchedVariableCommands[index]?.getD []
    perform (.setWatching true)
    modifyState (setCurrentChange (sv "NOBIFY_VARIABLE_WATCH_LAST_VAR") key)
    modifyState (setCurrentChange (sv "NOBIFY_VARIABLE_WATCH_LAST_ACTION") action)
    modifyState (setCurrentChange (sv "NOBIFY_VARIABLE_WATCH_LAST_VALUE") value)
    if !command.isEmpty then
      modifyState (setCurrentChange (sv "NOBIFY_VARIABLE_WATCH_LAST_COMMAND") command)
    let result ← emitDiag
      { severity := .warning, code := .invalidState, component := sv "eval_legacy",
        command := sv "variable_watch", origin := ⟨[], 0, 0⟩,
        cause := sv "variable_watch() observed a watched variable mutation", hint := key }
    perform (.setWatching false)
    return result != .fatal

/-- `eval_var_set_current`. -/
def varSetCurrent (key value : StringView) : Prog Bool := do
  let ctx ← context
  if ctx.state.scope.visibleScopeDepth == 0 || ctx.shouldStop then return false
  modifyState (setCurrentChange key value)
  variableWatchNotify key (sv "SET") value

/-- `eval_var_unset_current`. -/
def varUnsetCurrent (key : StringView) : Prog Bool := do
  let ctx ← context
  if ctx.state.scope.visibleScopeDepth == 0 || ctx.shouldStop then return false
  modifyState (unsetCurrentChange key)
  variableWatchNotify key (sv "UNSET") (ctx.state.varGetVisible key)

/-- A program between `eval_scope_use_parent_view` and `eval_scope_restore_view`; without a parent
scope it is refused. -/
def inParentView (program : Prog Bool) : Prog Bool := do
  let savedDepth := (← context).state.scope.visibleScopeDepth
  if savedDepth ≤ 1 then return false
  modifyState (viewChange (· - 1))
  let result ← program
  modifyState (viewChange fun _ => savedDepth)
  return result

/-! ## User functions and macros -/

/-- `eval_user_cmd_find`: the latest definition under the name, case-insensitively. -/
def userCmdFind (ctx : EvalExecContext) (name : StringView) : Option UserCommand :=
  ctx.state.command.userCommands.reverse.find? fun command => svEqCi command.name name

/-- `eval_macro_bind_set` in the innermost macro frame. -/
def macroBindSet (key value : StringView) : Prog Bool := do
  let ctx ← context
  if ctx.state.scope.macroFrames.isEmpty || ctx.shouldStop then return false
  let put (frame : MacroFrame) : MacroFrame :=
    { bindings := Lib.Table.putEntries key value frame.bindings }
  modifyState (controlChange (fun frames => frames.modify (frames.length - 1) put) id id)
  return true

/-- The bindings a call makes, in order: parameters, `ARGC`, `ARGV`, `ARGN`, `ARGV<i>`. -/
def callBindings (command : UserCommand) (args : List StringView) :
    List (StringView × StringView) :=
  command.params.mapIdx (fun index param => (param, args[index]?.getD [])) ++
    [(sv "ARGC", Nat.toDigits 10 args.length), (sv "ARGV", svJoinSemi args),
      (sv "ARGN", svJoinSemi (args.drop command.params.length))] ++
    args.mapIdx (fun index arg => (sv "ARGV" ++ Nat.toDigits 10 index, arg))

/-- Bind in order until one binding is refused. -/
def bindAll (bindOne : StringView → StringView → Prog Bool) :
    List (StringView × StringView) → Prog Bool
  | [] => return true
  | (key, value) :: rest => do
    if ← bindOne key value then bindAll bindOne rest else return false

/-- The propagation loop of a `return(PROPAGATE ...)` out of a function: a refused write is
remembered, and the loop goes on. -/
def propagateReturnVars : List StringView → Prog Bool
  | [] => return true
  | key :: rest => do
    let ctx ← context
    if !ctx.state.varDefinedCurrent key then propagateReturnVars rest
    else
      let set ← inParentView (varSetCurrent key (ctx.state.varGetVisible key))
      let others ← propagateReturnVars rest
      return set && others

/-- `eval_exec_request_return`: mark frames outwards up to the first that is no block. -/
def requestReturn (frames : List ExecContext) : List ExecContext :=
  (markReturn frames.reverse).reverse
where
  /-- The frames innermost first. -/
  markReturn : List ExecContext → List ExecContext
    | [] => []
    | frame :: rest =>
      { frame with pendingFlow := .returnOut } ::
        (if frame.kind == .block then markReturn rest else rest)

/-- The last part of `eval_user_cmd_invoke`: announce the end of the call. A `return()` out of a
macro goes on to what called it. -/
def userCmdEnd (isFunction didReturn : Bool) (name : StringView) (origin : Origin) (ok : Bool) :
    Prog Bool := do
  let closed ← emitEvent (if isFunction then .flowFunctionEnd else .flowMacroEnd)
    [name, if didReturn then sv "1" else sv "0"] origin
  if !closed then return false
  if !isFunction && didReturn then
    modifyState (execChange requestReturn)
  return ok

/-- `eval_user_cmd_invoke` from the label `cleanup` on. -/
def userCmdCleanup (isFunction : Bool) (leave : StateChange) (name : StringView)
    (origin : Origin) (ok : Bool) : Prog Bool := do
  let ended ← context
  let didReturn := (ended.state.execCurrent.map ExecContext.pendingFlow) == some .returnOut
  let propagated ← (if didReturn && isFunction && 1 < ended.state.scope.visibleScopeDepth then
      propagateReturnVars ended.state.scope.returnPropagateVars
    else pure true)
  if !(!isFunction && didReturn) then
    modifyState (controlChange id id fun _ => [])
  modifyState (execChange List.dropLast)
  modifyState leave
  userCmdEnd isFunction didReturn name origin (ok && propagated)

/-- `eval_user_cmd_invoke` around the program of the command's body. -/
def userCmdInvoke (command : UserCommand) (name : StringView) (args : List StringView)
    (origin : Origin) (body : Prog EvalResult) : Prog Bool := do
  let ctx ← context
  if ctx.shouldStop then return false
  let isFunction := command.kind == .functionCommand
  let frame : ExecContext :=
    { kind := if isFunction then .functionCall else .macroCall
      returnContext := if isFunction then .functionCall
        else (ctx.state.execCurrent.map ExecContext.returnContext).getD .toplevel
      sourceDir := (ctx.state.execCurrent.map ExecContext.sourceDir).getD []
      binaryDir := (ctx.state.execCurrent.map ExecContext.binaryDir).getD []
      listDir := (ctx.state.execCurrent.map ExecContext.listDir).getD []
      currentFile := ctx.state.execCurrent.bind ExecContext.currentFile
      loopDepth := 0, pendingFlow := .none }
  let enter := if isFunction then scopePushChange
    else controlChange (· ++ [⟨[]⟩]) id id
  let leave := if isFunction then scopePopChange else controlChange List.dropLast id id
  modifyState enter
  modifyState (execChange (· ++ [frame]))
  let begun ← emitEvent (if isFunction then .flowFunctionBegin else .flowMacroBegin)
    [name, Nat.toDigits 10 args.length] origin
  if !begun then
    modifyState (execChange List.dropLast)
    modifyState leave
    return false
  let bound ← bindAll (if isFunction then varSetCurrent else macroBindSet)
    (callBindings command args)
  -- A refused binding skips the body, as `goto cleanup` does.
  let ok ← (if bound then (· != .fatal) <$> body else pure false)
  userCmdCleanup isFunction leave name origin ok

/-! ## Node lists -/

/-- The pending flow of the frame at an index, as the loops read it. -/
def framePendingFlow (ctx : EvalExecContext) (index : Nat) : FlowSignal :=
  (ctx.state.execContexts[index]?.map ExecContext.pendingFlow).getD .none

/-- Change the frame at an index. -/
def editFrame (index : Nat) (edit : ExecContext → ExecContext) : Prog Unit :=
  modifyState (execChange fun frames => frames.modify index edit)

/-- The iterations of `eval_foreach`; `none` leaves the loop without its end event. -/
def foreachLoop (index : Nat) (var : StringView) (body : Prog EvalResult) :
    List StringView → Nat → EvalResult → Prog (EvalResult ⊕ Nat × EvalResult)
  | [], count, aggregate => return .inr (count, aggregate)
  | item :: rest, count, aggregate => do
    if !(← varSetCurrent var item) then return .inl .fatal
    let result ← body
    if result == .fatal then return .inl .fatal
    let aggregate := aggregate.merge result
    match framePendingFlow (← context) index with
    | .returnOut => return .inl aggregate
    | .continueLoop => do
      editFrame index fun frame => { frame with pendingFlow := .none }
      foreachLoop index var body rest (count + 1) aggregate
    | .breakLoop => do
      editFrame index fun frame => { frame with pendingFlow := .none }
      return .inr (count + 1, aggregate)
    | .none => foreachLoop index var body rest (count + 1) aggregate

/-- `eval_foreach`. -/
def evalForeach (env : Environment) (line col : Nat) (args : List Arg)
    (body : Prog EvalResult) : Prog EvalResult := do
  let origin := originOf (← context) line col
  match ← env.foreachItems origin args with
  | .inl result => return result
  | .inr (var, items) => do
    let cmp0124New ← env.policyIsNew 124
    let before ← context
    let old := before.state.varGetVisible var
    let oldDefined := before.state.varDefinedVisible var
    if !(← emitEvent .flowLoopBegin [sv "foreach"] origin) then return .fatal
    let index := before.state.execContexts.length - 1
    if before.state.execContexts.isEmpty then return .fatal
    editFrame index fun frame => { frame with loopDepth := frame.loopDepth + 1 }
    let outcome ← foreachLoop index var body items 0 .ok
    editFrame index fun frame => { frame with loopDepth := frame.loopDepth - 1 }
    match outcome with
    | .inl result => return result
    | .inr (count, aggregate) => do
      if !(← emitEvent .flowLoopEnd [sv "foreach", Nat.toDigits 10 count] origin) then
        return .fatal
      let restored ← if oldDefined then varSetCurrent var old
        else if cmp0124New then varUnsetCurrent var
        else varSetCurrent var []
      if !restored then return .fatal
      return aggregate.merge (← resultOkIfRunning)

/-- The iterations of `eval_while`; `none` means the limit was reached. -/
def whileLoop (index : Nat) (origin : Origin) (condition : Prog Bool) (body : Prog EvalResult) :
    Nat → Nat → EvalResult → Prog (Option (EvalResult ⊕ Nat × EvalResult))
  | 0, _, _ => return none
  | remaining + 1, count, aggregate => do
    let holds ← condition
    if !(← emitEvent .flowIfEval [if holds then sv "1" else sv "0"] origin) then
      return some (.inl .fatal)
    if !holds then return some (.inr (count, aggregate))
    let result ← body
    if result == .fatal then return some (.inl .fatal)
    let aggregate := aggregate.merge result
    match framePendingFlow (← context) index with
    | .returnOut => return some (.inl aggregate)
    | .continueLoop => do
      editFrame index fun frame => { frame with pendingFlow := .none }
      whileLoop index origin condition body remaining (count + 1) aggregate
    | .breakLoop => do
      editFrame index fun frame => { frame with pendingFlow := .none }
      return some (.inr (count + 1, aggregate))
    | .none => whileLoop index origin condition body remaining (count + 1) aggregate

/-- `eval_while`. -/
def evalWhile (env : Environment) (line col : Nat) (condition : List Arg)
    (body : Prog EvalResult) : Prog EvalResult := do
  let origin := originOf (← context) line col
  let (limitResult, limit) ← env.whileIterationLimit origin
  if limitResult == .fatal then return .fatal
  if ← Prog.shouldStop then return .fatal
  if !(← emitEvent .flowLoopBegin [sv "while"] origin) then return .fatal
  let before ← context
  let index := before.state.execContexts.length - 1
  if before.state.execContexts.isEmpty then return .fatal
  editFrame index fun frame => { frame with loopDepth := frame.loopDepth + 1 }
  let outcome ← whileLoop index origin (env.evalCondition condition) body limit 0 limitResult
  editFrame index fun frame => { frame with loopDepth := frame.loopDepth - 1 }
  match outcome with
  | some (.inl result) => return result
  | some (.inr (count, aggregate)) => do
    if !(← emitEvent .flowLoopEnd [sv "while", Nat.toDigits 10 count] origin) then return .fatal
    return aggregate
  | none => do
    let result ← emitDiag
      { severity := .error, code := .outOfRange, component := sv "while", command := sv "while",
        origin, cause := sv "Iteration limit exceeded", hint := sv "Infinite loop detected" }
    return EvalResult.softError.merge result

/-- What `eval_user_cmd_register` appends. -/
def userCommandOf (name : StringView) (kind : UserCommandKind) (params : List Arg)
    (body : List Node) : UserCommand :=
  { name, kind, params := params.map fun param => param.items.head?.getD [], body }

/-- `eval_user_cmd_register`. -/
def registerUserCommand (command : UserCommand) : Prog Unit :=
  modifyState
    { apply := fun state => { state with command := { state.command with
        userCommands := state.command.userCommands ++ [command] } }
      keepsScopes := scopes_kept
      keepsTargets := fun _ => rfl }

/-- The entry of `eval_node` around the work of one node. -/
def enterNode (env : Environment) (line : Nat) (work : Prog EvalResult) : Prog EvalResult := do
  if ← Prog.shouldStop then return .fatal
  env.refreshCompat
  if ← Prog.shouldStop then return .fatal
  if !(← varSetCurrent (sv "CMAKE_CURRENT_LIST_LINE") (Nat.toDigits 10 line)) then return .fatal
  let result ← work
  return result.merge (← resultOkIfRunning)

mutual

/-- `eval_node`. -/
def evalNode (env : Environment) : Node → Prog EvalResult
  | .command line col name args => enterNode env line do
      if name.isEmpty then return .ok
      dispatch line col name args
  | .ifStmt line col condition thenBlock elseifClauses elseBlock => enterNode env line do
      let origin := originOf (← context) line col
      let holds ← env.evalCondition condition
      if !(← emitEvent .flowIfEval [if holds then sv "1" else sv "0"] origin) then return .fatal
      if holds then
        if !(← emitEvent .flowBranchTaken [sv "then"] origin) then return .fatal
        evalNodeList env thenBlock .ok
      else
        evalElseif env origin elseifClauses (do
          if !elseBlock.isEmpty then
            if !(← emitEvent .flowBranchTaken [sv "else"] origin) then return .fatal
          evalNodeList env elseBlock .ok)
  | .foreachStmt line col args body => enterNode env line do
      evalForeach env line col args (evalNodeList env body .ok)
  | .whileStmt line col condition body => enterNode env line do
      evalWhile env line col condition (evalNodeList env body .ok)
  | .functionDef line _ name params body => enterNode env line do
      registerUserCommand (userCommandOf name .functionCommand params body)
      resultFromCtx
  | .macroDef line _ name params body => enterNode env line do
      registerUserCommand (userCommandOf name .macroCommand params body)
      resultFromCtx

/-- The `elseif` clauses in order, then the `else` block. -/
def evalElseif (env : Environment) (origin : Origin) :
    List (List Arg × List Node) → Prog EvalResult → Prog EvalResult
  | [], otherwise => otherwise
  | (condition, block) :: rest, otherwise => do
    let holds ← env.evalCondition condition
    if !(← emitEvent .flowIfEval [if holds then sv "1" else sv "0"] origin) then return .fatal
    if holds then
      if !(← emitEvent .flowBranchTaken [sv "elseif"] origin) then return .fatal
      evalNodeList env block .ok
    else evalElseif env origin rest otherwise

/-- `eval_execute_node_list` from a position, with the aggregate so far. -/
def evalNodeList (env : Environment) : List Node → EvalResult → Prog EvalResult
  | [], aggregate => return aggregate
  | node :: rest, aggregate => do
    let result ← evalNode env node
    if result == .fatal then return .fatal
    let aggregate := aggregate.merge result
    let ctx ← context
    match (ctx.state.execCurrent.map ExecContext.pendingFlow).getD .none with
    | .returnOut => do
      if !(← env.unwindBlocksForReturn) then return .fatal
      return aggregate
    | .breakLoop | .continueLoop => return aggregate
    | .none => evalNodeList env rest aggregate

end

/-! ## The dispatcher and the interpreter -/

/-- A finished run: its value, the context it leaves and the steps it took. -/
structure Run (α : Type) where
  value : α
  ctx : EvalExecContext
  trace : List Action

/-- Run a program, executing nested commands through `dispatch`. -/
def Prog.exec {α : Type}
    (dispatch : Nat → Nat → StringView → List Arg → EvalExecContext → Option (Run EvalResult)) :
    Prog α → EvalExecContext → Option (Run α)
  | .done value, ctx => some ⟨value, ctx, []⟩
  | .read next, ctx => (next ctx).exec dispatch ctx
  | .act op next, ctx =>
    (next.exec dispatch (op.apply ctx)).map fun run =>
      { run with trace := .op op :: run.trace }
  | .call line col name args next, ctx =>
    (dispatch line col name args ctx).bind fun command =>
      ((next command.value).exec dispatch command.ctx).map fun run =>
        { run with trace := command.trace ++ run.trace }

/-- The bracket `eval_dispatch_command` puts around the work of a command: begin a
transaction, announce the command, run it, decide, announce its end, finish. -/
def bracketCommand {α : Type} (info : CommandInfo) (origin : Origin) (ctx : EvalExecContext)
    (work : EvalExecContext → Option (Run α))
    (decide : EvalExecContext → α → EvalExecContext → CommandStatus × Bool) : Option (Run α) :=
  let opened := Action.apply (.commandBegin info origin) (Action.apply .txBegin ctx)
  (work opened).map fun run =>
    let (status, commitState) := decide opened run.value run.ctx
    let closing := [Action.commandEnd info status origin, .txFinish commitState]
    { value := run.value
      ctx := replayActions closing run.ctx
      trace := [.txBegin, .commandBegin info origin] ++ run.trace ++ closing }

/-- No error was reported since the count was taken, in the report or the transaction. -/
def errorFree (errorCountBefore : Nat) (after : EvalExecContext) : Bool :=
  after.runtime.runReport.errorCount == errorCountBefore &&
    (after.transactions.head?.map Transaction.pendingErrorCount).getD 0 == 0

/-- The commit decision for a native command. -/
def decideNative (before : EvalExecContext) (result : EvalResult) (after : EvalExecContext) :
    CommandStatus × Bool :=
  let succeeded := result != .fatal && !after.shouldStop &&
    errorFree before.runtime.runReport.errorCount after
  (if succeeded then .success else .error, succeeded)

/-- The commit decision for a function or macro: whether the call went through, and the error
count taken right before it. -/
def decideUser (_ : EvalExecContext) (call : Bool × Nat) (after : EvalExecContext) :
    CommandStatus × Bool :=
  let succeeded := call.1 && !after.shouldStop && errorFree call.2 after
  (if succeeded then .success else .error, succeeded)

/-- The commit decision for an unknown command. -/
def decideUnknown (_ : EvalExecContext) (result : EvalResult) (after : EvalExecContext) :
    CommandStatus × Bool :=
  (.unsupported, result != .fatal &&
    (after.transactions.head?.map Transaction.pendingErrorCount).getD 0 == 0)

/-- The work of a function or macro call inside its bracket. -/
def userWork (env : Environment) (command : UserCommand) (name : StringView)
    (args : List Arg) (origin : Origin) : Prog (Bool × Nat) := do
  perform .preserveScopeVars
  let resolved ← (if command.kind == .macroCommand then env.resolveArgsLiteral args
    else env.resolveArgs args)
  let before ← context
  let errorCountBefore := before.runtime.runReport.errorCount
  if before.shouldStop then return (false, errorCountBefore)
  let invoked ← userCmdInvoke command name resolved origin (evalNodeList env command.body .ok)
  return (invoked, errorCountBefore)

/-- The work of an unknown command inside its bracket. -/
def unknownWork (name : StringView) (origin : Origin) : Prog EvalResult := do
  let ctx ← context
  emitDiag
    { severity := .warning, code := .unknownCommand, component := sv "dispatcher",
      command := name, origin, cause := sv "Unknown command",
      hint := if ctx.runtime.unsupportedPolicy = .noopWarn then sv "No-op with warning by policy"
        else sv "Ignored during evaluation" }

/-- The dispatch kind of a user command. -/
def UserCommandKind.dispatchKind : UserCommandKind → DispatchKind
  | .functionCommand => .functionCommand
  | .macroCommand => .macroCommand

/-- `eval_dispatch_command`, with a bound on the nesting of commands. -/
def dispatchCommand (env : Environment) :
    Nat → Nat → Nat → StringView → List Arg → EvalExecContext → Option (Run EvalResult)
  | 0, _, _, _, _, _ => none
  | depth + 1, line, col, name, args, ctx =>
    let nested := dispatchCommand env depth
    let origin := originOf ctx line col
    if ctx.shouldStop then some ⟨.fatal, ctx, []⟩
    else match env.native name, userCmdFind ctx name with
      | some handler, _ =>
        (bracketCommand ⟨name, .builtin, args.length⟩ origin ctx
          ((handler line col name args).exec nested) decideNative).map fun run =>
            { run with value := run.value.merge (if run.ctx.shouldStop then .fatal else .ok) }
      | none, some command =>
        (bracketCommand ⟨name, command.kind.dispatchKind, args.length⟩ origin ctx
          ((userWork env command name args origin).exec nested) decideUser).map fun run =>
            { run with value := if run.ctx.shouldStop then .fatal
                else if run.value.1 then .ok
                else if 0 < run.ctx.pendingErrorCount then .softError else .ok }
      | none, none =>
        bracketCommand ⟨name, .unknown, args.length⟩ origin ctx
          ((unknownWork name origin).exec nested) decideUnknown

/-- `eval_context_run_prepared`: the root list file, then what is left to flush. -/
def runPrepared (env : Environment) (depth : Nat) (script : List Node)
    (ctx : EvalExecContext) : Option (Run EvalResult) :=
  let program : Prog EvalResult := do
    let result ← evalNodeList env script .ok
    if result == .fatal then return .fatal
    if ← Prog.shouldStop then return .fatal
    return result.merge (← env.afterRoot)
  program.exec (dispatchCommand env depth) ctx

end Nobify.Evaluator
