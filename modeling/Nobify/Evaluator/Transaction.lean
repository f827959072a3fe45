import Mathlib.Algebra.GroupWithZero.Nat
import Nobify.Evaluator.Event

/-!
# Command transactions

`eval_command_tx_begin` copies some forty fields of the context by hand, and
`eval_command_tx_finish` writes the copies back when the command failed. Both are written out
here field by field, as the source does it: the copies are kept in the source's own
intermediate forms (entry lists for tables, node snapshots for directories), and the restore
rebuilds the fields from them. Fields that the source never copies are simply not mentioned.

While a transaction is active, events and diagnostics are buffered in it; seven event kinds
go straight to the stream. Out-of-memory paths are not modelled.
-/

namespace Nobify.Evaluator

open Nobify.Lib (Table)

/-! ## The execution context -/

/-- `Eval_Compat_Profile`. -/
inductive CompatProfile where
  | permissive
  | strict
  | ciStrict
  deriving DecidableEq

/-- `Eval_Unsupported_Policy`. -/
inductive UnsupportedPolicy where
  | warn
  | error
  | noopWarn
  deriving DecidableEq

/-- `Eval_Run_Report`, without the overall status that is derived from the counts. -/
structure RunReport where
  warningCount : Nat
  errorCount : Nat
  inputErrorCount : Nat
  engineLimitationCount : Nat
  ioEnvErrorCount : Nat
  policyConflictCount : Nat
  unsupportedCount : Nat

/-- `Eval_Runtime_State`, with the logger's strict mode beside it. -/
structure RuntimeState where
  compatProfile : CompatProfile
  unsupportedPolicy : UnsupportedPolicy
  errorBudget : Nat
  continueOnErrorSnapshot : Bool
  runReport : RunReport
  inVariableWatchNotification : Bool
  /-- `g_diag.strict_mode`. -/
  strictMode : Bool

/-- `Eval_Directory_Node_Snapshot`. -/
structure DirectoryNodeSnapshot where
  sourceDir : StringView
  binaryDir : StringView
  parentSourceDir : StringView
  parentBinaryDir : StringView
  declaredTargets : List StringView
  declaredTests : List StringView
  definitionBindings : List (StringView × StringView)
  macroNames : List StringView
  listfileStack : List StringView

/-- `Eval_Deferred_Dir_Frame_Snapshot`. -/
structure DeferredDirFrameSnapshot where
  sourceDir : StringView
  binaryDir : StringView
  calls : List DeferredCall

/-- `Eval_Command_Transaction`: buffered projections, pending counts and the copies. -/
structure Transaction where
  preserveScopeVarsOnFailure : Bool
  sawErrorDiag : Bool
  pendingWarningCount : Nat
  pendingErrorCount : Nat
  projections : List Projection
  scopeVars : List (List (StringView × StringView))
  visibleScopeDepth : Nat
  cacheEntries : List (StringView × CacheValue)
  envOverrides : List (StringView × EnvValue)
  messageCheckStack : List StringView
  directoryNodes : List DirectoryNodeSnapshot
  propertyRecords : List PropertyRecord
  targetRecords : List TargetRecord
  targetAliases : List StringView
  testRecords : List TestRecord
  installComponents : List StringView
  exportEntries : List StringView
  activeFindPackages : List StringView
  foundPackages : List StringView
  notFoundPackages : List StringView
  packageRegistryEntries : List PackageRegistryEntry
  dependencyProvider : DependencyProviderState
  fileApiQueries : List FileApiQueryRecord
  fileApiNextReplyNonce : Nat
  fetchcontentDeclarations : List FetchContentDeclaration
  fetchcontentStates : List FetchContentState
  activeMakeavailable : List StringView
  userCommands : List UserCommand
  watchedVariables : List StringView
  watchedVariableCommands : List StringView
  propertyDefinitions : List PropertyDefinition
  fileGenerateJobs : List FileGenerateJob
  deferredDirs : List DeferredDirFrameSnapshot
  generatedDeferredIds : List StringView
  customCommandOutputSteps : List CustomCommandOutputStep
  nextDeferredCallId : Nat
  canonicalArtifacts : List CanonicalArtifact
  ctestSteps : List CtestStepRecord
  cpackModuleLoaded : Bool
  cpackComponentModuleLoaded : Bool
  fetchcontentModuleLoaded : Bool

/-- `EvalExecContext`. The `parent` links of the source make `transactions` a stack whose head
is `active_transaction`. -/
structure EvalExecContext where
  state : EvalState
  runtime : RuntimeState
  stream : List Event
  transactions : List Transaction
  stopRequested : Bool
  /-- Ghost: events and diagnostics pushed so far. -/
  pushCount : Nat

namespace EvalExecContext

/-- `eval_should_stop`. -/
def shouldStop (ctx : EvalExecContext) : Bool := ctx.stopRequested

/-- `eval_pending_error_count`. -/
def pendingErrorCount (ctx : EvalExecContext) : Nat :=
  ctx.runtime.runReport.errorCount + (ctx.transactions.map Transaction.pendingErrorCount).sum

/-! ## Emission -/

/-- `eval_emit_event_direct`: a depth left at zero is stamped on the way out. -/
def emitEventDirect (ctx : EvalExecContext) (event : Event) : EvalExecContext :=
  { ctx with stream := ctx.stream ++ [{ event with
      scopeDepth := if event.scopeDepth = 0 then ctx.state.scope.visibleScopeDepth
        else event.scopeDepth
      policyDepth := if event.policyDepth = 0 then ctx.state.visiblePolicyDepth
        else event.policyDepth }] }

/-- `eval_report_record_diag`. -/
def reportRecordDiag (report : RunReport) (diag : Diag) : RunReport :=
  let report := if diag.inputSeverity = .warning then
    { report with warningCount := report.warningCount + 1 } else report
  let report := if diag.effectiveSeverity = .error then
    { report with errorCount := report.errorCount + 1 } else report
  let report := match diag.code.errorClass with
    | .inputError => { report with inputErrorCount := report.inputErrorCount + 1 }
    | .engineLimitation =>
      { report with engineLimitationCount := report.engineLimitationCount + 1 }
    | .ioEnvError => { report with ioEnvErrorCount := report.ioEnvErrorCount + 1 }
    | .policyConflict => { report with policyConflictCount := report.policyConflictCount + 1 }
  if diag.code.countsAsUnsupported then
    { report with unsupportedCount := report.unsupportedCount + 1 } else report

/-- `eval_tx_flush_diag_projection`: the diagnostic becomes an event and is counted. -/
def flushDiag (ctx : EvalExecContext) (projection : DiagProjection) : EvalExecContext :=
  let ctx := ctx.emitEventDirect (Projection.diag projection).toEvent
  { ctx with runtime := { ctx.runtime with
      runReport := reportRecordDiag ctx.runtime.runReport projection.diag } }

/-- One iteration of the flush loop. -/
def flushProjection (ctx : EvalExecContext) : Projection → EvalExecContext
  | .event event => ctx.emitEventDirect event
  | .diag diag => ctx.flushDiag diag

/-- Edit the active transaction. -/
def editActive (ctx : EvalExecContext) (edit : Transaction → Transaction) : EvalExecContext :=
  match ctx.transactions with
  | [] => ctx
  | active :: parents => { ctx with transactions := edit active :: parents }

/-- `eval_tx_projection_append`. -/
def appendProjection (ctx : EvalExecContext) (projection : Projection) : EvalExecContext :=
  ctx.editActive fun tx => { tx with projections := tx.projections ++ [projection] }

/-- `eval_command_tx_push_event`. A refused push leaves the context unchanged. -/
def pushEvent (ctx : EvalExecContext) (body : EventBody) (origin : Origin)
    (allowStopped : Bool) : EvalExecContext :=
  if !allowStopped && ctx.shouldStop then ctx
  else
    let event : Event :=
      { body, origin, scopeDepth := ctx.state.scope.visibleScopeDepth,
        policyDepth := ctx.state.visiblePolicyDepth, pushIndex := ctx.pushCount,
        txDepth := ctx.transactions.length }
    let ctx := { ctx with pushCount := ctx.pushCount + 1 }
    if ctx.transactions.isEmpty || body.emitsImmediately then ctx.emitEventDirect event
    else ctx.appendProjection (.event event)

/-- What buffering a diagnostic does to the active transaction. -/
def bufferDiag (projection : DiagProjection) (tx : Transaction) : Transaction :=
  { tx with
    pendingWarningCount := tx.pendingWarningCount +
      (if projection.diag.inputSeverity = .warning then 1 else 0)
    sawErrorDiag := tx.sawErrorDiag || projection.diag.effectiveSeverity == .error
    pendingErrorCount := tx.pendingErrorCount +
      (if projection.diag.effectiveSeverity = .error then 1 else 0)
    projections := tx.projections ++ [.diag projection] }

/-- `eval_command_tx_push_diag`. -/
def pushDiag (ctx : EvalExecContext) (diag : Diag) : EvalExecContext :=
  match ctx.transactions with
  | [] =>
    { ctx with pushCount := ctx.pushCount + 1 }.flushDiag
      { diag, scopeDepth := 0, policyDepth := 0, pushIndex := ctx.pushCount, txDepth := 0 }
  | _ :: _ =>
    if ctx.shouldStop then ctx
    else
      let projection : DiagProjection :=
        { diag, scopeDepth := ctx.state.scope.visibleScopeDepth,
          policyDepth := ctx.state.visiblePolicyDepth, pushIndex := ctx.pushCount,
          txDepth := ctx.transactions.length }
      { ctx with pushCount := ctx.pushCount + 1 }.editActive (bufferDiag projection)

/-- `eval_command_tx_preserve_scope_vars_on_failure`. -/
def preserveScopeVars (ctx : EvalExecContext) : EvalExecContext :=
  ctx.editActive fun tx => { tx with preserveScopeVarsOnFailure := true }

end EvalExecContext

/-! ## Begin and finish -/

/-- One node of `eval_tx_snapshot_directory_nodes`. -/
def snapshotDirectoryNode (node : DirectoryNode) : DirectoryNodeSnapshot where
  sourceDir := node.sourceDir
  binaryDir := node.binaryDir
  parentSourceDir := node.parentSourceDir
  parentBinaryDir := node.parentBinaryDir
  declaredTargets := node.declaredTargets
  declaredTests := node.declaredTests
  definitionBindings := node.definitionBindings
  macroNames := node.macroNames
  listfileStack := node.listfileStack

/-- One node of `eval_tx_restore_directory_nodes`. -/
def restoreDirectoryNode (snapshot : DirectoryNodeSnapshot) : DirectoryNode where
  sourceDir := snapshot.sourceDir
  binaryDir := snapshot.binaryDir
  parentSourceDir := snapshot.parentSourceDir
  parentBinaryDir := snapshot.parentBinaryDir
  declaredTargets := snapshot.declaredTargets
  declaredTests := snapshot.declaredTests
  definitionBindings := snapshot.definitionBindings
  macroNames := snapshot.macroNames
  listfileStack := snapshot.listfileStack

/-- One frame of `eval_tx_snapshot_deferred_dirs`. -/
def snapshotDeferredDir (frame : DeferredDirFrame) : DeferredDirFrameSnapshot where
  sourceDir := frame.sourceDir
  binaryDir := frame.binaryDir
  calls := frame.calls

/-- One frame of `eval_tx_restore_deferred_dirs`. -/
def restoreDeferredDir (snapshot : DeferredDirFrameSnapshot) : DeferredDirFrame where
  sourceDir := snapshot.sourceDir
  binaryDir := snapshot.binaryDir
  calls := snapshot.calls

/-- `eval_command_tx_begin`: the copies, with empty counts and buffer. -/
def snapshotState (state : EvalState) : Transaction where
  preserveScopeVarsOnFailure := false
  sawErrorDiag := false
  pendingWarningCount := 0
  pendingErrorCount := 0
  projections := []
  scopeVars := state.scope.scopes.map Table.entries
  visibleScopeDepth := state.scope.visibleScopeDepth
  cacheEntries := state.scope.cacheEntries.entries
  envOverrides := state.envOverrides.entries
  messageCheckStack := state.messageCheckStack
  directoryNodes := state.semantic.directories.map snapshotDirectoryNode
  propertyRecords := state.semantic.properties
  targetRecords := state.semantic.targets
  targetAliases := state.semantic.targetAliases
  testRecords := state.semantic.tests
  installComponents := state.semantic.installComponents
  exportEntries := state.semantic.exports
  activeFindPackages := state.semantic.package.activeFindPackages
  foundPackages := state.semantic.package.foundPackages
  notFoundPackages := state.semantic.package.notFoundPackages
  packageRegistryEntries := state.semantic.package.registryEntries
  dependencyProvider := state.semantic.package.dependencyProvider
  fileApiQueries := state.semantic.fileApiQueries
  fileApiNextReplyNonce := state.semantic.fileApiNextReplyNonce
  fetchcontentDeclarations := state.semantic.fetchcontent.declarations
  fetchcontentStates := state.semantic.fetchcontent.states
  activeMakeavailable := state.semantic.fetchcontent.activeMakeavailable
  userCommands := state.command.userCommands
  watchedVariables := state.command.watchedVariables
  watchedVariableCommands := state.command.watchedVariableCommands
  propertyDefinitions := state.propertyDefinitions
  fileGenerateJobs := state.file.fileGenerateJobs
  deferredDirs := state.file.deferredDirs.map snapshotDeferredDir
  generatedDeferredIds := state.file.generatedDeferredIds
  customCommandOutputSteps := state.file.customCommandOutputSteps
  nextDeferredCallId := state.file.nextDeferredCallId
  canonicalArtifacts := state.canonical.artifacts
  ctestSteps := state.canonical.ctestSteps
  cpackModuleLoaded := state.cpackModuleLoaded
  cpackComponentModuleLoaded := state.cpackComponentModuleLoaded
  fetchcontentModuleLoaded := state.fetchcontentModuleLoaded

/-- The loop of `eval_tx_restore_var_table` calls: each copied table is rebuilt in place. -/
def overwriteScopes : List (List (StringView × StringView)) → List VarTable → List VarTable
  | copy :: copies, _ :: scopes => Table.ofEntries copy :: overwriteScopes copies scopes
  | _, scopes => scopes

/-- The scope array after a rollback: cut to the copied count, and rebuilt from the copies
unless the transaction preserves variables. -/
def restoreScopes (tx : Transaction) (scopes : List VarTable) : List VarTable :=
  let count := tx.scopeVars.length
  let scopes := if count < scopes.length then scopes.take count else scopes
  if tx.preserveScopeVarsOnFailure then scopes else overwriteScopes tx.scopeVars scopes

/-- The restore half of `eval_command_tx_finish`. -/
def restoreState (tx : Transaction) (state : EvalState) : EvalState :=
  { state with
    scope := { state.scope with
      scopes := restoreScopes tx state.scope.scopes
      visibleScopeDepth := tx.visibleScopeDepth
      cacheEntries := Table.ofEntries tx.cacheEntries }
    envOverrides := Table.ofEntries tx.envOverrides
    messageCheckStack := tx.messageCheckStack
    semantic := { state.semantic with
      directories := tx.directoryNodes.map restoreDirectoryNode
      properties := tx.propertyRecords
      targets := tx.targetRecords
      targetAliases := tx.targetAliases
      tests := tx.testRecords
      installComponents := tx.installComponents
      exports := tx.exportEntries
      package := { state.semantic.package with
        activeFindPackages := tx.activeFindPackages
        foundPackages := tx.foundPackages
        notFoundPackages := tx.notFoundPackages
        registryEntries := tx.packageRegistryEntries
        dependencyProvider := tx.dependencyProvider }
      fileApiQueries := tx.fileApiQueries
      fileApiNextReplyNonce := tx.fileApiNextReplyNonce
      fetchcontent := { state.semantic.fetchcontent with
        declarations := tx.fetchcontentDeclarations
        states := tx.fetchcontentStates
        activeMakeavailable := tx.activeMakeavailable } }
    command := { state.command with
      userCommands := tx.userCommands
      watchedVariables := tx.watchedVariables
      watchedVariableCommands := tx.watchedVariableCommands }
    propertyDefinitions := tx.propertyDefinitions
    file := { state.file with
      fileGenerateJobs := tx.fileGenerateJobs
      deferredDirs := tx.deferredDirs.map restoreDeferredDir
      generatedDeferredIds := tx.generatedDeferredIds
      customCommandOutputSteps := tx.customCommandOutputSteps
      nextDeferredCallId := tx.nextDeferredCallId }
    canonical := { state.canonical with
      artifacts := tx.canonicalArtifacts
      ctestSteps := tx.ctestSteps }
    cpackModuleLoaded := tx.cpackModuleLoaded
    cpackComponentModuleLoaded := tx.cpackComponentModuleLoaded
    fetchcontentModuleLoaded := tx.fetchcontentModuleLoaded }

namespace EvalExecContext

/-- `eval_command_tx_begin`. -/
def txBegin (ctx : EvalExecContext) : EvalExecContext :=
  { ctx with transactions := snapshotState ctx.state :: ctx.transactions }

/-- `eval_command_tx_finish` of the active transaction: restore when the command failed, flush
what is kept, and return to the parent. -/
def txFinish (ctx : EvalExecContext) (commitState : Bool) : EvalExecContext :=
  match ctx.transactions with
  | [] => ctx
  | active :: parents =>
    let restored := if commitState then ctx else { ctx with state := restoreState active ctx.state }
    let flushed := (flushedProjections active.projections commitState).foldl flushProjection restored
    { flushed with transactions := parents }

end EvalExecContext

end Nobify.Evaluator
