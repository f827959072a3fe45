import Nobify.Evaluator.State

/-!
# Events and diagnostics

The canonical Event IR, cut down to what the evaluator's bookkeeping reads. Four kinds carry
a payload of their own: diagnostics, the two command brackets and target declarations. Every
other kind of `EVENT_KIND_LIST` is listed by name with its text fields, so a handler can push
it but cannot forge one of the four.

`pushIndex` and `txDepth` are ghosts that nothing reads: the first numbers events and
diagnostics in the order they are handed to `eval_command_tx_push_event` and
`eval_command_tx_push_diag`, the second is the number of transactions active at that moment,
so it names the transaction an event belongs to while that transaction lasts.
-/

namespace Nobify.Evaluator

/-- `Event_Origin`. -/
structure Origin where
  filePath : StringView
  line : Nat
  col : Nat
  deriving DecidableEq

/-- `Event_Diag_Severity`. -/
inductive Severity where
  | note
  | warning
  | error
  deriving DecidableEq

/-- `Eval_Diag_Code`. -/
inductive DiagCode where
  | parseError
  | unknownCommand
  | missingRequired
  | unexpectedArgument
  | duplicateArgument
  | invalidValue
  | invalidState
  | invalidContext
  | outOfRange
  | conflictingOptions
  | notFound
  | unsupportedOperation
  | notImplemented
  | ioFailure
  | policyConflict
  | numericOverflow
  | scriptWarning
  | scriptError
  | legacyWarning
  deriving DecidableEq

/-- `Eval_Error_Class`. -/
inductive ErrorClass where
  | inputError
  | engineLimitation
  | ioEnvError
  | policyConflict

/-- `eval_diag_error_class`, the class column of `EVAL_DIAG_CODE_LIST`. -/
def DiagCode.errorClass : DiagCode → ErrorClass
  | .unknownCommand | .unsupportedOperation | .notImplemented => .engineLimitation
  | .ioFailure => .ioEnvError
  | .policyConflict => .policyConflict
  | _ => .inputError

/-- `eval_diag_counts_as_unsupported`. -/
def DiagCode.countsAsUnsupported : DiagCode → Bool
  | .unknownCommand | .unsupportedOperation | .notImplemented => true
  | _ => false

/-- The arguments of a diagnostic. -/
structure Diag where
  inputSeverity : Severity
  effectiveSeverity : Severity
  code : DiagCode
  component : StringView
  command : StringView
  origin : Origin
  cause : StringView
  hint : StringView
  deriving DecidableEq

/-- `Event_Command_Dispatch_Kind`. -/
inductive DispatchKind where
  | builtin
  | functionCommand
  | macroCommand
  | unknown
  deriving DecidableEq

/-- `Event_Command_Status`. -/
inductive CommandStatus where
  | success
  | error
  | unsupported
  deriving DecidableEq

/-- What the two brackets of one dispatched command share. -/
structure CommandInfo where
  name : StringView
  dispatchKind : DispatchKind
  argc : Nat
  deriving DecidableEq

/-- The kinds of `EVENT_KIND_LIST` without a payload of their own here. -/
inductive PlainKind where
  | includeBegin | includeEnd | addSubdirectoryBegin | addSubdirectoryEnd
  | cmakeLanguageCall | cmakeLanguageEval | cmakeLanguageDeferQueue
  | directoryEnter | directoryLeave | directoryPropertyMutate | globalPropertyMutate
  | varSet | varUnset | scopePush | scopePop | policyPush | policyPop | policySet
  | flowReturn | flowIfEval | flowBranchTaken | flowLoopBegin | flowLoopEnd | flowBreak
  | flowContinue | flowDeferQueue | flowDeferFlush | flowBlockBegin | flowBlockEnd
  | flowFunctionBegin | flowFunctionEnd | flowMacroBegin | flowMacroEnd
  | fsWriteFile | fsAppendFile | fsReadFile | fsGlob | fsMkdir | fsRemove | fsCopy | fsRename
  | fsCreateLink | fsChmod | fsArchiveCreate | fsArchiveExtract | fsTransferDownload
  | fsTransferUpload | procExecRequest | procExecResult
  | stringReplace | stringConfigure | stringRegex | stringHash | stringTimestamp
  | listAppend | listPrepend | listInsert | listRemove | listTransform | listSort
  | mathExpr | pathNormalize | pathCompare | pathConvert
  | testEnable | testAdd | installRuleAdd
  | cpackAddInstallType | cpackAddComponentGroup | cpackAddComponent | cpackPackageDeclare
  | cpackPackageAddGenerator | cpackPackageArchiveNameOverride
  | packageFindResult | projectDeclare | projectMinimumRequired
  | targetAddSource | targetFileSetDeclare | targetFileSetAddBaseDir
  | sourceMarkGenerated | sourcePropertyMutate | targetAddDependency
  | buildStepDeclare | buildStepAddOutput | buildStepAddByproduct | buildStepAddDependency
  | buildStepAddCommand
  | targetPropSet | targetLinkLibraries | targetLinkOptions | targetLinkDirectories
  | targetIncludeDirectories | targetCompileDefinitions | targetCompileOptions
  | targetCompileFeatures
  | exportInstall | exportBuildDeclare | exportBuildAddTarget | exportPackageRegistry
  | replayActionDeclare | replayActionAddInput | replayActionAddOutput | replayActionAddArgv
  | replayActionAddEnv
  deriving DecidableEq

/-- The payload of `EVENT_TARGET_DECLARE`. -/
structure TargetDeclaration where
  name : StringView
  targetType : TargetType
  imported : Bool
  isAlias : Bool
  aliasOf : StringView
  deriving DecidableEq

/-- Kind and payload of an event. -/
inductive EventBody where
  | diag (diag : Diag)
  | commandBegin (info : CommandInfo)
  | commandEnd (info : CommandInfo) (status : CommandStatus)
  | targetDeclare (declaration : TargetDeclaration)
  | plain (kind : PlainKind) (fields : List StringView)
  deriving DecidableEq

/-- `Event`. -/
structure Event where
  body : EventBody
  origin : Origin
  scopeDepth : Nat
  policyDepth : Nat
  /-- Ghost: position among all pushes. -/
  pushIndex : Nat
  /-- Ghost: transactions active at the push. -/
  txDepth : Nat

/-- `eval_tx_event_emits_immediately`: the seven kinds that bypass a transaction's buffer. -/
def EventBody.emitsImmediately : EventBody → Bool
  | .commandBegin _ => true
  | .plain .includeBegin _ | .plain .includeEnd _ => true
  | .plain .addSubdirectoryBegin _ | .plain .addSubdirectoryEnd _ => true
  | .plain .directoryEnter _ | .plain .directoryLeave _ => true
  | _ => false

/-- `Eval_Tx_Diag_Projection`: a buffered diagnostic. -/
structure DiagProjection where
  diag : Diag
  scopeDepth : Nat
  policyDepth : Nat
  /-- Ghost: position among all pushes. -/
  pushIndex : Nat
  /-- Ghost: transactions active at the push. -/
  txDepth : Nat

/-- `Eval_Tx_Projection`. -/
inductive Projection where
  | event (event : Event)
  | diag (diag : DiagProjection)

/-- `eval_tx_projection_keep_on_failure`: what a rollback still lets through. -/
def Projection.keepOnFailure : Projection → Bool
  | .diag _ => true
  | .event buffered =>
    match buffered.body with
    | .commandBegin _ | .commandEnd _ _ => true
    | _ => false

/-- The event a projection becomes when it is flushed, depths aside. -/
def Projection.toEvent : Projection → Event
  | .event buffered => buffered
  | .diag buffered =>
    { body := .diag buffered.diag, origin := buffered.diag.origin,
      scopeDepth := buffered.scopeDepth, policyDepth := buffered.policyDepth,
      pushIndex := buffered.pushIndex, txDepth := buffered.txDepth }

/-- The projections a finishing transaction flushes. -/
def flushedProjections (projections : List Projection) (commitState : Bool) : List Projection :=
  projections.filter fun projection => commitState || projection.keepOnFailure

end Nobify.Evaluator
