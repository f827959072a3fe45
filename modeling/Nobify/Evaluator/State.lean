import Nobify.Text
import Nobify.Lib.Table

/-!
# Evaluator state

The records of `evaluator_internal.h` that a command handler can read or change, grouped as
the source groups them: scopes, semantic state, command state, file state, process state and
canonical state. Arenas, pointers and cached copies of other fields are left out, and an
`arena_arr` is the list of its items and an `stb_ds` table an insertion-ordered table.

The operations on scopes, policy levels and targets are the source's own; none of them opens
or closes a transaction or touches the event stream.
-/

namespace Nobify.Evaluator

open Nobify.Lib (Table)

/-! ## Syntax trees -/

/-- `Arg_Kind`: how an argument was written. -/
inductive ArgKind where
  | unquoted
  | quoted
  | bracket

/-- `Arg`: the token texts of one argument. -/
structure Arg where
  kind : ArgKind
  items : List StringView

/-- `Node`: one statement of a list file. -/
inductive Node where
  | command (line col : Nat) (name : StringView) (args : List Arg)
  | ifStmt (line col : Nat) (condition : List Arg) (thenBlock : List Node)
      (elseifClauses : List (List Arg × List Node)) (elseBlock : List Node)
  | foreachStmt (line col : Nat) (args : List Arg) (body : List Node)
  | whileStmt (line col : Nat) (condition : List Arg) (body : List Node)
  | functionDef (line col : Nat) (name : StringView) (params : List Arg) (body : List Node)
  | macroDef (line col : Nat) (name : StringView) (params : List Arg) (body : List Node)

/-- The line a node starts on. -/
def Node.line : Node → Nat
  | .command line .. | .ifStmt line .. | .foreachStmt line .. | .whileStmt line ..
  | .functionDef line .. | .macroDef line .. => line

/-- The column a node starts at. -/
def Node.col : Node → Nat
  | .command _ col .. | .ifStmt _ col .. | .foreachStmt _ col .. | .whileStmt _ col ..
  | .functionDef _ col .. | .macroDef _ col .. => col

/-! ## Scopes and control stacks -/

/-- The variables of one scope. -/
abbrev VarTable := Table StringView StringView

/-- `Eval_Cache_Value`. -/
structure CacheValue where
  data : StringView
  type : StringView
  doc : StringView

/-- `Eval_Process_Env_Value`. -/
structure EnvValue where
  text : StringView
  isSet : Bool

/-- `Macro_Frame`: the bindings of one running macro. -/
structure MacroFrame where
  bindings : List (StringView × StringView)

/-- `Block_Frame`: what an open `block()` has to undo. -/
structure BlockFrame where
  variableScopePushed : Bool
  policyScopePushed : Bool
  propagateVars : List StringView
  propagateOnReturn : Bool
  deriving DecidableEq

/-- `Eval_Scope_State`. -/
structure ScopeState where
  /-- Every scope ever pushed; those at or above the visible depth are stale. -/
  scopes : List VarTable
  /-- Number of scopes in view. -/
  visibleScopeDepth : Nat
  cacheEntries : Table StringView CacheValue
  /-- Running macros, innermost last. -/
  macroFrames : List MacroFrame
  /-- Open blocks, innermost last. -/
  blockFrames : List BlockFrame
  returnPropagateVars : List StringView

/-- `Eval_Return_Context`. -/
inductive ReturnContext where
  | toplevel
  | includeFile
  | functionCall
  | macroCall
  deriving DecidableEq

/-- `Eval_Flow_Signal`. -/
inductive FlowSignal where
  | none
  | breakLoop
  | continueLoop
  | returnOut
  deriving DecidableEq

/-- `Eval_Exec_Context_Kind`. -/
inductive ExecContextKind where
  | root
  | includeFile
  | subdirectory
  | functionCall
  | macroCall
  | block
  | deferred
  deriving DecidableEq

/-- `Eval_Exec_Context`: one frame of the execution stack. -/
structure ExecContext where
  kind : ExecContextKind
  returnContext : ReturnContext
  sourceDir : StringView
  binaryDir : StringView
  listDir : StringView
  currentFile : Option StringView
  loopDepth : Nat
  pendingFlow : FlowSignal
  deriving DecidableEq

/-- `Policy_Slot_State`: one policy at one level. -/
inductive PolicySlot where
  | inherit
  | old
  | new
  | unsetShadow

/-- `Eval_Policy_Level`: the policies one level sets; the others inherit. -/
abbrev PolicyLevel := List (Nat × PolicySlot)

/-! ## Semantic state -/

/-- `User_Command_Kind`. -/
inductive UserCommandKind where
  | functionCommand
  | macroCommand
  deriving DecidableEq

/-- `User_Command`: a registered function or macro. -/
structure UserCommand where
  name : StringView
  kind : UserCommandKind
  params : List StringView
  body : List Node

/-- `Cmake_Target_Type`. -/
inductive TargetType where
  | executable
  | libraryStatic
  | libraryShared
  | libraryModule
  | libraryInterface
  | libraryObject
  | libraryUnknown
  deriving DecidableEq

/-- `Eval_Target_Record`. -/
structure TargetRecord where
  name : StringView
  declaredDir : StringView
  targetType : TargetType
  imported : Bool
  importedGlobal : Bool
  isAlias : Bool
  aliasGlobal : Bool
  aliasOf : StringView

/-- `Eval_Test_Record`. -/
structure TestRecord where
  name : StringView
  declaredDir : StringView
  workingDirectory : StringView

/-- `Eval_Directory_Node`. -/
structure DirectoryNode where
  sourceDir : StringView
  binaryDir : StringView
  parentSourceDir : StringView
  parentBinaryDir : StringView
  declaredTargets : List StringView
  declaredTests : List StringView
  definitionBindings : List (StringView × StringView)
  macroNames : List StringView
  listfileStack : List StringView

/-- `Eval_Property_Record`. -/
structure PropertyRecord where
  scopeUpper : StringView
  objectId : StringView
  propertyUpper : StringView
  value : StringView

/-- `Eval_Dependency_Provider_State`. -/
structure DependencyProviderState where
  commandName : StringView
  supportsFindPackage : Bool
  supportsFetchcontentMakeavailableSerial : Bool
  activeFindPackageDepth : Nat
  activeFetchcontentMakeavailableDepth : Nat

/-- `Eval_Package_Registry_Entry`. -/
structure PackageRegistryEntry where
  packageName : StringView
  installDir : StringView

/-- `Eval_Package_Model`. -/
structure PackageModel where
  dependencyProvider : DependencyProviderState
  activeFindPackages : List StringView
  foundPackages : List StringView
  notFoundPackages : List StringView
  registryEntries : List PackageRegistryEntry

/-- `Eval_File_Api_Query_Record`. -/
structure FileApiQueryRecord where
  clientName : StringView
  clientQueryFile : StringView
  kindUpper : StringView
  kindJson : StringView
  versions : StringView
  sharedQuery : Bool

/-- `Eval_FetchContent_Declaration`, by the fields that identify it. -/
structure FetchContentDeclaration where
  name : StringView
  canonicalName : StringView
  args : List StringView

/-- `Eval_FetchContent_State`. -/
structure FetchContentState where
  name : StringView
  canonicalName : StringView
  populationProcessed : Bool
  populated : Bool
  sourceDir : StringView
  binaryDir : StringView

/-- `Eval_FetchContent_Model`. -/
structure FetchContentModel where
  declarations : List FetchContentDeclaration
  states : List FetchContentState
  activeMakeavailable : List StringView

/-- `Eval_Semantic_State`; the one-field models of the source are their field. -/
structure SemanticState where
  directories : List DirectoryNode
  properties : List PropertyRecord
  targets : List TargetRecord
  targetAliases : List StringView
  tests : List TestRecord
  installComponents : List StringView
  exports : List StringView
  package : PackageModel
  fileApiQueries : List FileApiQueryRecord
  fileApiNextReplyNonce : Nat
  fetchcontent : FetchContentModel

/-! ## Command, file, process and canonical state -/

/-- `Eval_Command_State`. -/
structure CommandState where
  /-- Functions and macros, latest last. -/
  userCommands : List UserCommand
  watchedVariables : List StringView
  watchedVariableCommands : List StringView

/-- `Eval_Property_Definition`. -/
structure PropertyDefinition where
  scopeUpper : StringView
  propertyUpper : StringView
  inherited : Bool
  briefDocs : Option StringView
  fullDocs : Option StringView
  initializeFromVariable : Option StringView

/-- `Eval_File_Generate_Job`, by the fields that identify it. -/
structure FileGenerateJob where
  commandName : StringView
  outputPath : StringView
  content : Option StringView

/-- `Eval_Deferred_Call`. -/
structure DeferredCall where
  id : StringView
  commandName : StringView
  args : List Arg

/-- `Eval_Deferred_Dir_Frame`. -/
structure DeferredDirFrame where
  sourceDir : StringView
  binaryDir : StringView
  calls : List DeferredCall

/-- `Eval_Custom_Command_Output_Step`. -/
structure CustomCommandOutputStep where
  effectiveFirstOutput : StringView
  stepKey : StringView

/-- `Eval_File_Lock`. -/
structure FileLock where
  path : StringView
  ownerFileDepth : Nat
  ownerFunctionDepth : Nat

/-- `Eval_File_State`. -/
structure FileState where
  fileLocks : List FileLock
  fileGenerateJobs : List FileGenerateJob
  /-- Deferred calls, one frame a directory. -/
  deferredDirs : List DeferredDirFrame
  generatedDeferredIds : List StringView
  customCommandOutputSteps : List CustomCommandOutputStep
  nextDeferredCallId : Nat
  nextBuildStepId : Nat
  nextReplayActionId : Nat
  nextExportId : Nat
  nextCpackPackageId : Nat

/-- `Eval_Canonical_Artifact`. -/
structure CanonicalArtifact where
  producer : StringView
  kind : StringView
  status : StringView
  primaryPath : StringView

/-- `Eval_Ctest_Step_Record`, by the fields that identify it. -/
structure CtestStepRecord where
  commandName : StringView
  status : StringView
  primaryArtifactIndex : Option Nat

/-- `Eval_Canonical_State`. -/
structure CanonicalState where
  artifacts : List CanonicalArtifact
  ctestSteps : List CtestStepRecord

/-- The part of `EvalExecContext` that handlers edit in place. The event stream, the
transactions and the run report live beside it in `EvalExecContext`. -/
structure EvalState where
  scope : ScopeState
  messageCheckStack : List StringView
  semantic : SemanticState
  command : CommandState
  file : FileState
  envOverrides : Table StringView EnvValue
  canonical : CanonicalState
  propertyDefinitions : List PropertyDefinition
  /-- Policy levels; those at or above the visible depth are stale. -/
  policyLevels : List PolicyLevel
  /-- Number of policy levels in view. -/
  visiblePolicyDepth : Nat
  /-- Execution stack, innermost last. -/
  execContexts : List ExecContext
  cpackModuleLoaded : Bool
  cpackComponentModuleLoaded : Bool
  fetchcontentModuleLoaded : Bool

/-- The names of the targets on record. -/
def EvalState.targetNames (state : EvalState) : List StringView :=
  state.semantic.targets.map TargetRecord.name

/-! ## Variables, scopes, policy levels and execution frames -/

namespace EvalState

/-- The variable table in view, written through `edit`. -/
def editCurrentScope (state : EvalState) (edit : VarTable → VarTable) : EvalState :=
  { state with scope := { state.scope with
      scopes := state.scope.scopes.modify (state.scope.visibleScopeDepth - 1) edit } }

/-- `eval_var_set_current` without its stop check and watch notification. -/
def setCurrent (state : EvalState) (key value : StringView) : EvalState :=
  if state.scope.visibleScopeDepth = 0 then state
  else state.editCurrentScope fun table => table.put (svToCstr key) value

/-- `eval_var_unset_current` without its checks; the order of the other entries is kept. -/
def unsetCurrent (state : EvalState) (key : StringView) : EvalState :=
  if state.scope.visibleScopeDepth = 0 then state
  else state.editCurrentScope fun table => table.erase (svToCstr key)

/-- The same state with another number of scopes in view. -/
def withVisibleDepth (state : EvalState) (depth : Nat) : EvalState :=
  { state with scope := { state.scope with visibleScopeDepth := depth } }

/-- The innermost visible scope that holds a key. -/
def lookupVisible (scopes : List VarTable) (key : StringView) : Option StringView :=
  scopes.reverse.findSome? fun table => table.get? (svToCstr key)

/-- `eval_var_get_visible`: visible scopes innermost first, then the cache, else empty. -/
def varGetVisible (state : EvalState) (key : StringView) : StringView :=
  if state.scope.visibleScopeDepth = 0 then []
  else
    match lookupVisible (state.scope.scopes.take state.scope.visibleScopeDepth) key with
    | some value => value
    | none => ((state.scope.cacheEntries.get? (svToCstr key)).map CacheValue.data).getD []

/-- `eval_var_defined_visible`. -/
def varDefinedVisible (state : EvalState) (key : StringView) : Bool :=
  state.scope.visibleScopeDepth != 0 &&
    ((lookupVisible (state.scope.scopes.take state.scope.visibleScopeDepth) key).isSome ||
      state.scope.cacheEntries.contains (svToCstr key))

/-- `eval_var_defined_current`. -/
def varDefinedCurrent (state : EvalState) (key : StringView) : Bool :=
  match state.scope.scopes[state.scope.visibleScopeDepth - 1]? with
  | some table => state.scope.visibleScopeDepth != 0 && table.contains (svToCstr key)
  | none => false

/-- `eval_scope_push`: a stale scope is cleared and reused before the array grows. -/
def scopePush (state : EvalState) : EvalState :=
  let depth := state.scope.visibleScopeDepth
  let scopes := if depth < state.scope.scopes.length then state.scope.scopes.set depth Table.empty
    else state.scope.scopes ++ [Table.empty]
  { state with scope := { state.scope with scopes, visibleScopeDepth := depth + 1 } }

/-- `eval_scope_pop`: the outermost scope is never popped, and the array keeps its length. -/
def scopePop (state : EvalState) : EvalState :=
  if 1 < state.scope.visibleScopeDepth then
    { state with scope := { state.scope with
        scopes := state.scope.scopes.set (state.scope.visibleScopeDepth - 1) Table.empty
        visibleScopeDepth := state.scope.visibleScopeDepth - 1 } }
  else state

/-- `policy_set_depth_var`. -/
def setPolicyDepthVar (state : EvalState) : EvalState :=
  state.setCurrent (sv "NOBIFY_POLICY_STACK_DEPTH") (Nat.toDigits 10 state.visiblePolicyDepth)

/-- `policy_stack_bootstrap`: the first use opens level one. -/
def policyBootstrap (state : EvalState) : EvalState :=
  if state.visiblePolicyDepth = 0 then
    let policyLevels := if state.policyLevels.isEmpty then [[]] else state.policyLevels.set 0 []
    { state with policyLevels, visiblePolicyDepth := 1 }.setPolicyDepthVar
  else state

/-- `eval_policy_push` on a running context. -/
def policyPush (state : EvalState) : EvalState :=
  let state := state.policyBootstrap
  let depth := state.visiblePolicyDepth
  let policyLevels := if depth < state.policyLevels.length then state.policyLevels.set depth []
    else state.policyLevels ++ [[]]
  { state with policyLevels, visiblePolicyDepth := depth + 1 }.setPolicyDepthVar

/-- `eval_policy_pop` on a running context; `none` when only the first level is left. -/
def policyPop (state : EvalState) : Option EvalState :=
  let state := state.policyBootstrap
  if state.visiblePolicyDepth ≤ 1 then none
  else some { state with
    policyLevels := state.policyLevels.set (state.visiblePolicyDepth - 1) []
    visiblePolicyDepth := state.visiblePolicyDepth - 1 }.setPolicyDepthVar

/-- `eval_exec_current`. -/
def execCurrent (state : EvalState) : Option ExecContext := state.execContexts.getLast?

end EvalState

end Nobify.Evaluator
