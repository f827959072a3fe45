import Nobify.Evaluator.Exec

/-!
# Some native handlers

The handlers that open and close blocks, report messages and declare executables, written as
programs of the interface. They are the commands at which the bookkeeping of transactions can
be observed: a block edits the control stacks, a message reports an error on demand, and a
declared target must keep its record and its event in step.

What they call outside their own files (property writes, path resolution, the configure log)
is a parameter.
-/

namespace Nobify.Evaluator

open Prog

/-- Report a diagnostic of a command and go on. -/
def report (severity : Severity) (code : DiagCode) (component command : StringView)
    (origin : Origin) (cause hint : StringView) : Prog Unit :=
  perform (.emitDiag { severity, code, component, command, origin, cause, hint })

/-! ## Blocks -/

/-- The frame a failed parse leaves: `Block_Frame frame = {0}` in `eval_handle_block`. -/
def blockFrameZero : BlockFrame := ⟨false, false, [], false⟩

/-- Leading `VARIABLES` and `POLICIES` of `block(SCOPE_FOR ...)`, and what follows them. -/
def blockScopeItems : List StringView → Bool × Bool × List StringView
  | [] => (false, false, [])
  | arg :: rest =>
    if svEqCi arg (sv "VARIABLES") then (true, (blockScopeItems rest).2)
    else if svEqCi arg (sv "POLICIES") then
      ((blockScopeItems rest).1, true, (blockScopeItems rest).2.2)
    else (false, false, arg :: rest)

/-- `block_parse_options` after `SCOPE_FOR`: the `PROPAGATE` list and its checks. -/
def blockParsePropagate (command : StringView) (origin : Origin)
    (varScope policyScope : Bool) (args : List StringView) : Prog (Option BlockFrame) := do
  match args with
  | [] => return some ⟨varScope, policyScope, [], false⟩
  | arg :: names =>
    if svEqCi arg (sv "PROPAGATE") then
      if names.isEmpty then
        report .error .missingRequired (sv "flow") command origin
          (sv "block(PROPAGATE ...) requires at least one variable name")
          (sv "Usage: block(PROPAGATE <var1> <var2> ...)")
        return none
      if !varScope then
        report .error .missingRequired (sv "flow") command origin
          (sv "block(PROPAGATE ...) requires variable scope")
          (sv "Use SCOPE_FOR VARIABLES (or omit SCOPE_FOR) when using PROPAGATE")
        return none
      return some ⟨varScope, policyScope, names, false⟩
    else
      report .error .unsupportedOperation (sv "flow") command origin
        (sv "block() received unsupported argument") arg
      return none

/-- `block_parse_options`; `none` when an error was reported. -/
def blockParseOptions (command : StringView) (origin : Origin) (args : List StringView) :
    Prog (Option BlockFrame) := do
  match args with
  | arg :: rest =>
    if svEqCi arg (sv "SCOPE_FOR") then
      let (varScope, policyScope, remaining) := blockScopeItems rest
      if !(varScope || policyScope) then
        report .error .missingRequired (sv "flow") command origin
          (sv "block(SCOPE_FOR ...) requires VARIABLES and/or POLICIES")
          (sv "Usage: block([SCOPE_FOR VARIABLES POLICIES] [PROPAGATE <vars...>])")
        return none
      blockParsePropagate command origin varScope policyScope remaining
    else blockParsePropagate command origin true true args
  | [] => blockParsePropagate command origin true true []

/-- Writing the depth variable changes neither the number of scopes nor the targets. -/
theorem setPolicyDepthVar_keeps (state : EvalState) :
    state.setPolicyDepthVar.scope.scopes.length = state.scope.scopes.length ∧
      state.setPolicyDepthVar.targetNames = state.targetNames := by
  unfold EvalState.setPolicyDepthVar EvalState.setCurrent
  split
  · exact ⟨rfl, rfl⟩
  · exact ⟨editCurrentScope_scopes_length state _, rfl⟩

/-- Opening the first policy level changes neither. -/
theorem policyBootstrap_keeps (state : EvalState) :
    state.policyBootstrap.scope.scopes.length = state.scope.scopes.length ∧
      state.policyBootstrap.targetNames = state.targetNames := by
  unfold EvalState.policyBootstrap
  split
  · exact setPolicyDepthVar_keeps _
  · exact ⟨rfl, rfl⟩

/-- `eval_policy_push`. -/
def policyPushChange : StateChange where
  apply := EvalState.policyPush
  keepsScopes state := by
    have kept : state.policyPush.scope.scopes.length = state.scope.scopes.length :=
      (setPolicyDepthVar_keeps _).1.trans (policyBootstrap_keeps state).1
    exact Nat.le_of_eq kept.symm
  keepsTargets state := (setPolicyDepthVar_keeps _).2.trans (policyBootstrap_keeps state).2

/-- `eval_policy_pop` when it succeeds. -/
def policyPopChange : StateChange where
  apply state := state.policyPop.getD state
  keepsScopes state := by
    simp only [EvalState.policyPop]
    split
    · exact Nat.le_refl _
    · refine Nat.le_of_eq (Eq.trans ?_ (setPolicyDepthVar_keeps _).1.symm)
      exact (policyBootstrap_keeps state).1.symm
  keepsTargets state := by
    simp only [EvalState.policyPop]
    split
    · rfl
    · exact (setPolicyDepthVar_keeps _).2.trans (policyBootstrap_keeps state).2

/-- A change made only when a flag is set. -/
def modifyWhen (flag : Bool) (change : StateChange) : Prog Unit :=
  if flag then modifyState change else pure ()

/-- The execution frame `eval_handle_block` pushes. -/
def blockExecContext (ctx : EvalExecContext) : ExecContext where
  kind := .block
  returnContext := (ctx.state.execCurrent.map ExecContext.returnContext).getD .toplevel
  sourceDir := (ctx.state.execCurrent.map ExecContext.sourceDir).getD []
  binaryDir := (ctx.state.execCurrent.map ExecContext.binaryDir).getD []
  listDir := (ctx.state.execCurrent.map ExecContext.listDir).getD []
  currentFile := ctx.state.execCurrent.bind ExecContext.currentFile
  loopDepth := 0
  pendingFlow := .none

/-- A flag as the events print it. -/
def flagText (flag : Bool) : StringView := if flag then sv "1" else sv "0"

/-- `eval_handle_block`. A parse error that does not stop the run is followed by the pushes of
an empty frame. -/
def handleBlock (env : Environment) (line col : Nat) (command : StringView) (args : List Arg) :
    Prog EvalResult := do
  if ← Prog.shouldStop then return .fatal
  let resolved ← env.resolveArgs args
  if ← Prog.shouldStop then return ← resultFromCtx
  let origin := originOf (← context) line col
  let parsed ← blockParseOptions command origin resolved
  if ← Prog.shouldStop then return ← resultFromCtx
  let frame := parsed.getD blockFrameZero
  modifyWhen frame.variableScopePushed scopePushChange
  modifyWhen frame.policyScopePushed policyPushChange
  modifyState (controlChange id (· ++ [frame]) id)
  let exec := blockExecContext (← context)
  modifyState (execChange (· ++ [exec]))
  let begun ← emitEvent .flowBlockBegin
    [flagText frame.variableScopePushed, flagText frame.policyScopePushed,
      flagText !frame.propagateVars.isEmpty] origin
  if !begun then
    modifyState (execChange List.dropLast)
    modifyState (controlChange id List.dropLast id)
    modifyWhen frame.policyScopePushed policyPopChange
    modifyWhen frame.variableScopePushed scopePopChange
  resultFromCtx

/-- `flow_require_no_args`. -/
def flowRequireNoArgs (env : Environment) (command : StringView) (origin : Origin)
    (args : List Arg) (usageHint : StringView) : Prog Bool := do
  let resolved ← env.resolveArgs args
  if ← Prog.shouldStop then return false
  if resolved.isEmpty then return true
  report .error .unexpectedArgument (sv "flow") command origin
    (sv "Command does not accept arguments") usageHint
  return false

/-- The loop of `block_propagate_to_parent_scope`, which ends at the first refused write. -/
def propagateVars : List StringView → Prog Bool
  | [] => return true
  | key :: rest => do
    let ctx ← context
    if !ctx.state.varDefinedCurrent key then propagateVars rest
    else if ← inParentView (varSetCurrent key (ctx.state.varGetVisible key)) then
      propagateVars rest
    else return false

/-- `block_propagate_to_parent_scope`. -/
def blockPropagateToParentScope (frame : BlockFrame) : Prog Bool := do
  let ctx ← context
  if !frame.variableScopePushed || ctx.state.scope.visibleScopeDepth ≤ 1 then return true
  propagateVars frame.propagateVars

/-- `block_pop_frame` of `endblock()`; `none` when it fails. -/
def blockPopFrame (command : StringView) (origin : Origin) : Prog (Option BlockFrame) := do
  let ctx ← context
  match ctx.state.scope.blockFrames.getLast? with
  | none => return some blockFrameZero
  | some frame =>
    if (ctx.state.execCurrent.map ExecContext.kind) != some .block then
      report .error .invalidContext (sv "flow") command origin
        (sv "block() frame mismatch across execution contexts")
        (sv "Ensure endblock() and return() only unwind blocks in the active execution context")
      return none
    modifyState (controlChange id List.dropLast id)
    if !(← blockPropagateToParentScope frame) then return none
    if frame.policyScopePushed then
      if (← context).state.policyPop.isNone || (← Prog.shouldStop) then
        report .error .ioFailure (sv "flow") command origin (sv "Failed to restore policy scope")
          (sv "Ensure policy stack is balanced inside block()")
        return none
      modifyState policyPopChange
    modifyWhen frame.variableScopePushed scopePopChange
    if ((← context).state.execCurrent.map ExecContext.kind) == some .block then
      modifyState (execChange List.dropLast)
    return some frame

/-- `eval_handle_endblock`. -/
def handleEndblock (env : Environment) (line col : Nat) (command : StringView)
    (args : List Arg) : Prog EvalResult := do
  if ← Prog.shouldStop then return .fatal
  let origin := originOf (← context) line col
  if !(← flowRequireNoArgs env command origin args (sv "Usage: endblock()")) then
    return ← resultFromCtx
  if (← context).state.scope.blockFrames.isEmpty then
    report .error .invalidValue (sv "flow") command origin
      (sv "endblock() called without matching block()") (sv "Add block() before endblock()")
    return ← resultFromCtx
  match ← blockPopFrame command origin with
  | none => resultFromCtx
  | some ended => do
    let _ ← emitEvent .flowBlockEnd
      [flagText ended.propagateOnReturn, flagText !ended.propagateVars.isEmpty] origin
    resultFromCtx

/-! ## Messages -/

/-- `Eval_Message_Mode`. -/
inductive MessageMode where
  | notice | status | verbose | debug | trace | warning | authorWarning | deprecation
  | sendError | fatalError | checkStart | checkPass | checkFail | configureLog | plain
  deriving DecidableEq

/-- The mode words of `msg_parse_mode`, in its order. -/
def messageModeWords : List (StringView × MessageMode) :=
  [(sv "NOTICE", .notice), (sv "STATUS", .status), (sv "VERBOSE", .verbose),
    (sv "DEBUG", .debug), (sv "TRACE", .trace), (sv "WARNING", .warning),
    (sv "AUTHOR_WARNING", .authorWarning), (sv "DEPRECATION", .deprecation),
    (sv "SEND_ERROR", .sendError), (sv "FATAL_ERROR", .fatalError),
    (sv "CHECK_START", .checkStart), (sv "CHECK_PASS", .checkPass),
    (sv "CHECK_FAIL", .checkFail), (sv "CONFIGURE_LOG", .configureLog)]

/-- `msg_parse_mode`: the mode of a leading word, `none` for a word that is no mode. -/
def msgParseMode (head : StringView) : Option MessageMode :=
  (messageModeWords.find? fun entry => svEqCi head entry.1).map Prod.snd

/-- `msg_is_cmake_false`. -/
def msgIsCmakeFalse (value : StringView) : Bool :=
  value.isEmpty || [sv "0", sv "OFF", sv "NO", sv "FALSE", sv "N", sv "IGNORE",
    sv "NOTFOUND"].any (svEqCi value) ||
  (9 ≤ value.length && svEqCi (value.drop (value.length - 9)) (sv "-NOTFOUND"))

/-- What `message(DEPRECATION)` turns into; `none` when it is silenced. -/
def deprecationMode (state : EvalState) : Option MessageMode :=
  let errorDeprecated := state.varGetVisible (sv "CMAKE_ERROR_DEPRECATED")
  let warnDeprecated := state.varGetVisible (sv "CMAKE_WARN_DEPRECATED")
  if !errorDeprecated.isEmpty && !msgIsCmakeFalse errorDeprecated then some .sendError
  else if warnDeprecated.isEmpty || !msgIsCmakeFalse warnDeprecated then some .warning
  else none

/-- A change of the `message(CHECK_*)` stack. -/
def messageCheckChange (edit : List StringView → List StringView) : StateChange where
  apply state := { state with messageCheckStack := edit state.messageCheckStack }
  keepsScopes := scopes_kept
  keepsTargets _ := rfl

/-- `eval_handle_message`, without the lines it prints. -/
def handleMessage (env : Environment) (appendConfigureLog : Nat → StringView → Prog Bool)
    (line col : Nat) (command : StringView) (args : List Arg) : Prog EvalResult := do
  if ← Prog.shouldStop then return .fatal
  let origin := originOf (← context) line col
  let resolved ← env.resolveArgs args
  if ← Prog.shouldStop then return .fatal
  let parsed := resolved.head?.bind msgParseMode
  let mode := parsed.getD .plain
  let text := (if parsed.isSome then resolved.drop 1 else resolved).flatten
  let checks := (← context).state.messageCheckStack
  if mode == .checkStart then modifyState (messageCheckChange (· ++ [text]))
  else if mode == .checkPass || mode == .checkFail then
    if checks.isEmpty then
      report .error .scriptError (sv "message") command origin
        (sv "message(CHECK_PASS/CHECK_FAIL) requires a preceding CHECK_START")
        (sv "Use message(CHECK_START ...) before CHECK_PASS/CHECK_FAIL")
      return ← resultFromCtx
    modifyState (messageCheckChange List.dropLast)
  let deprecated := deprecationMode (← context).state
  match (if mode == .deprecation then deprecated else some mode) with
  | none => resultFromCtx
  | some .configureLog => do
    let _ ← appendConfigureLog line text
    resultFromCtx
  | some mode => do
    if mode == .fatalError || mode == .sendError then
      report .error .scriptError (sv "message") command origin text []
    else if mode == .warning || mode == .authorWarning then
      report .warning .scriptWarning (sv "message") command origin text []
    resultFromCtx

/-! ## Executables -/

/-- What the target handlers call outside `eval_project.c`. -/
structure TargetHooks where
  /-- `eval_target_apply_defined_initializers`. -/
  applyDefinedInitializers : Origin → StringView → Prog Bool
  /-- `apply_global_compile_state_to_target`. -/
  applyGlobalCompileState : Origin → StringView → Prog Bool
  /-- `eval_property_write` on a target. -/
  propertyWrite : Origin → StringView → StringView → StringView → Prog Bool
  /-- `eval_path_resolve_for_cmake_arg` against the current source directory. -/
  pathResolve : StringView → Prog StringView

/-- An edit of the record of one target that keeps its name. -/
def editTargetChange (name : StringView) (edit : TargetRecord → TargetRecord)
    (keepsName : ∀ record, (edit record).name = record.name) : StateChange where
  apply state := { state with semantic := { state.semantic with
    targets := state.semantic.targets.map fun record =>
      if record.name = name then edit record else record } }
  keepsScopes := scopes_kept
  keepsTargets state := by
    simp only [EvalState.targetNames, List.map_map]
    refine List.map_congr_left fun record _ => ?_
    simp only [Function.comp]
    split
    · exact keepsName record
    · rfl

/-- `emit_bool_target_prop_true`. -/
def emitBoolTargetPropTrue (hooks : TargetHooks) (origin : Origin) (name key : StringView) :
    Prog Bool := do
  if !(← emitEvent .targetPropSet [name, key, sv "1", sv "SET"] origin) then return false
  hooks.propertyWrite origin name key (sv "TRUE")

/-- `apply_subdir_system_default_to_target`. -/
def applySubdirSystemDefault (origin : Origin) (name : StringView) : Prog Bool := do
  let raw := (← context).state.varGetVisible (sv "NOBIFY_SUBDIR_SYSTEM_DEFAULT")
  if raw.isEmpty || [sv "0", sv "FALSE", sv "OFF"].any (svEqCi raw) then return true
  emitEvent .targetPropSet [name, sv "SYSTEM", sv "1", sv "SET"] origin

/-- The properties set on the way to the declaration, in order, until one fails. -/
def emitBoolTargetProps (hooks : TargetHooks) (origin : Origin) (name : StringView) :
    List StringView → Prog Bool
  | [] => return true
  | key :: rest => do
    if ← emitBoolTargetPropTrue hooks origin name key then
      emitBoolTargetProps hooks origin name rest
    else return false

/-- The option words before the sources of an executable: the properties they set, and the
sources. -/
def executableOptions : List StringView → Bool × Bool × Bool × List StringView
  | [] => (false, false, false, [])
  | arg :: rest =>
    let (win32, bundle, exclude, sources) := executableOptions rest
    if svEqCi arg (sv "WIN32") then (true, bundle, exclude, sources)
    else if svEqCi arg (sv "MACOSX_BUNDLE") then (win32, true, exclude, sources)
    else if svEqCi arg (sv "EXCLUDE_FROM_ALL") then (win32, bundle, true, sources)
    else (false, false, false, arg :: rest)

/-- The source loop at the end of `eval_handle_add_executable`. -/
def addSources (hooks : TargetHooks) (origin : Origin) (name : StringView) :
    List StringView → Prog Unit
  | [] => return ()
  | source :: rest => do
    if source.isEmpty then addSources hooks origin name rest
    else
      let path ← hooks.pathResolve source
      if ← Prog.shouldStop then return ()
      if ← emitEvent .targetAddSource [name, sv "PRIVATE", path] origin then
        addSources hooks origin name rest

/-- The alias branch of `eval_handle_add_executable`. -/
def addExecutableAlias (command : StringView) (origin : Origin) (name : StringView)
    (args : List StringView) : Prog EvalResult := do
  match args with
  | [real] =>
    let state := (← context).state
    if real ∉ state.targetNames then
      report .error .notFound (sv "dispatcher") command origin
        (sv "ALIAS target does not exist") real
      resultFromCtx
    else if real ∈ state.semantic.targetAliases then
      report .error .invalidState (sv "dispatcher") command origin
        (sv "ALIAS target cannot reference another ALIAS target") real
      resultFromCtx
    else
      perform (.declareTarget ⟨name, .executable, false, true, real⟩ [] origin)
      modifyState (editTargetChange name
        (fun record => { record with isAlias := true, aliasOf := real }) fun _ => rfl)
      modifyState
        { apply := fun state => { state with semantic := { state.semantic with
            targetAliases := state.semantic.targetAliases ++ [name] } }
          keepsScopes := scopes_kept
          keepsTargets := fun _ => rfl }
      resultFromCtx
  | _ =>
    report .error .missingRequired (sv "dispatcher") command origin
      (sv "add_executable(ALIAS ...) expects exactly alias name and real target")
      (sv "Usage: add_executable(<name> ALIAS <target>)")
    resultFromCtx

/-- The declaring branch of `eval_handle_add_executable`: properties, declaration, sources. -/
def declareExecutable (hooks : TargetHooks) (origin : Origin) (name : StringView)
    (imported importedGlobal : Bool) (props sources : List StringView) : Prog EvalResult := do
  if !(← hooks.applyDefinedInitializers origin name) then return ← resultFromCtx
  if !imported then
    if !(← applySubdirSystemDefault origin name) then return ← resultFromCtx
  if !(← emitBoolTargetProps hooks origin name props) then return ← resultFromCtx
  if !imported then
    let _ ← hooks.applyGlobalCompileState origin name
  let ctx ← context
  perform (.declareTarget ⟨name, .executable, imported, false, []⟩
    ((ctx.state.execCurrent.map ExecContext.sourceDir).getD []) origin)
  if ctx.shouldStop then return .fatal
  modifyState (editTargetChange name
    (fun record => { record with targetType := .executable, imported, importedGlobal })
    fun _ => rfl)
  if !imported then addSources hooks origin name sources
  resultFromCtx

/-- `eval_handle_add_executable`. The record is registered together with its event; the source
registers it before the properties, which do not read it. -/
def handleAddExecutable (env : Environment) (hooks : TargetHooks) (line col : Nat)
    (command : StringView) (args : List Arg) : Prog EvalResult := do
  let origin := originOf (← context) line col
  let resolved ← env.resolveArgs args
  if ← Prog.shouldStop then return ← resultFromCtx
  match resolved with
  | [] =>
    report .error .missingRequired (sv "dispatcher") command origin
      (sv "add_executable() missing target name")
      (sv "Usage: add_executable(<name> [WIN32] [MACOSX_BUNDLE] [EXCLUDE_FROM_ALL] <sources...>)")
    resultFromCtx
  | name :: rest =>
    if name ∈ (← context).state.targetNames then
      report .error .invalidState (sv "dispatcher") command origin
        (sv "Target name already exists") name
      return ← resultFromCtx
    if (rest.head?.map fun arg => svEqCi arg (sv "ALIAS")) == some true then
      return ← addExecutableAlias command origin name (rest.drop 1)
    if (rest.head?.map fun arg => svEqCi arg (sv "IMPORTED")) == some true then
      let importedGlobal := (rest[1]?.map fun arg => svEqCi arg (sv "GLOBAL")) == some true
      if !(rest.drop (if importedGlobal then 2 else 1)).isEmpty then
        report .error .unexpectedArgument (sv "dispatcher") command origin
          (sv "add_executable(IMPORTED ...) does not accept source files")
          (sv "Usage: add_executable(<name> IMPORTED [GLOBAL])")
        return ← resultFromCtx
      return ← declareExecutable hooks origin name true importedGlobal
        (sv "IMPORTED" :: if importedGlobal then [sv "IMPORTED_GLOBAL"] else []) []
    let (win32, bundle, exclude, sources) := executableOptions rest
    declareExecutable hooks origin name false false
      ((if win32 then [sv "WIN32_EXECUTABLE"] else []) ++
        (if bundle then [sv "MACOSX_BUNDLE"] else []) ++
        (if exclude then [sv "EXCLUDE_FROM_ALL"] else [])) sources

/-! ## An environment and a context to run scripts in -/

/-- Argument resolution on arguments without variable references or list separators: each
argument is one text. -/
def literalArgs (args : List Arg) : Prog (List StringView) :=
  pure (args.map fun arg => arg.items.flatten)

/-- An environment without native commands; conditions are false and nothing is deferred. -/
def bareEnvironment : Environment where
  native _ := none
  resolveArgs := literalArgs
  resolveArgsLiteral := literalArgs
  evalCondition _ := pure false
  foreachItems _ _ := pure (.inl .ok)
  whileIterationLimit _ := pure (.ok, 10000)
  policyIsNew _ := pure false
  refreshCompat := pure ()
  unwindBlocksForReturn := pure true
  afterRoot := pure .ok

/-- Hooks of a project without property definitions and without global compile state. -/
def bareHooks : TargetHooks where
  applyDefinedInitializers _ _ := pure true
  applyGlobalCompileState _ _ := pure true
  propertyWrite _ _ _ _ := pure true
  pathResolve := pure

/-- The environment with the handlers of this module. -/
def handlerEnvironment : Environment :=
  { bareEnvironment with
    native := fun name =>
      if svEqCi name (sv "block") then some (handleBlock bareEnvironment)
      else if svEqCi name (sv "endblock") then some (handleEndblock bareEnvironment)
      else if svEqCi name (sv "message") then
        some (handleMessage bareEnvironment fun _ _ => pure true)
      else if svEqCi name (sv "add_executable") then
        some (handleAddExecutable bareEnvironment bareHooks)
      else none }

/-- The state before the first command, with one empty scope. -/
def freshState : EvalState where
  scope := ⟨[Lib.Table.empty], 1, Lib.Table.empty, [], [], []⟩
  messageCheckStack := []
  semantic :=
    { directories := [], properties := [], targets := [], targetAliases := [], tests := []
      installComponents := [], exports := []
      package := ⟨⟨[], false, false, 0, 0⟩, [], [], [], []⟩
      fileApiQueries := [], fileApiNextReplyNonce := 0, fetchcontent := ⟨[], [], []⟩ }
  command := ⟨[], [], []⟩
  file := ⟨[], [], [], [], [], 0, 0, 0, 0, 0⟩
  envOverrides := Lib.Table.empty
  canonical := ⟨[], []⟩
  propertyDefinitions := []
  policyLevels := []
  visiblePolicyDepth := 0
  execContexts := [⟨.root, .toplevel, [], [], [], none, 0, .none⟩]
  cpackModuleLoaded := false
  cpackComponentModuleLoaded := false
  fetchcontentModuleLoaded := false

/-- The default compatibility settings: permissive, no error budget. -/
def freshContext : EvalExecContext where
  state := freshState
  runtime := ⟨.permissive, .warn, 0, true, ⟨0, 0, 0, 0, 0, 0, 0⟩, false, false⟩
  stream := []
  transactions := []
  stopRequested := false
  pushCount := 0

/-- An unquoted argument. -/
def wordArg (word : String) : Arg := ⟨.unquoted, [sv word]⟩

end Nobify.Evaluator
