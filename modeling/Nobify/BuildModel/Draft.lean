import Nobify.BuildModel.Types

/-!
# The draft of a build model

`Build_Model_Draft`, the record that `bm_builder_apply_event` fills, that `bm_validate_draft`
checks and that `bm_freeze_draft` copies. The directory, target and step records are those of the
frozen model; the records below are the ones a frozen model keeps beside them. A record that is
written by one event has the payload of the event as its parent structure.
-/

namespace Nobify.BuildModel

/-! ## Enumerations -/

/-- `BM_Replay_Phase`. -/
inductive ReplayPhase where
  | configure
  | build
  | test
  | install
  | exportPhase
  | package
  | hostOnly
  deriving DecidableEq

/-- `BM_Replay_Action_Kind`. -/
inductive ReplayActionKind where
  | filesystem
  | process
  | probe
  | dependencyMaterialization
  | testDriver
  | hostEffect
  deriving DecidableEq

/-- `BM_Replay_Opcode`. -/
inductive ReplayOpcode where
  | none
  | fsMkdir
  | fsWriteText
  | fsAppendText
  | fsCopyFile
  | fsCopyTree
  | fsRemove
  | fsRemoveRecurse
  | fsRename
  | fsCreateLink
  | fsChmod
  | fsChmodRecurse
  | hostDownloadLocal
  | hostArchiveCreatePaxr
  | hostArchiveExtractTar
  | hostLockAcquire
  | hostLockRelease
  | probeTryCompileSource
  | probeTryCompileProject
  | probeTryRun
  | depsFetchcontentSourceDir
  | depsFetchcontentLocalArchive
  | testDriverCtestEmptyBinaryDirectory
  | testDriverCtestStartLocal
  | testDriverCtestConfigureSelf
  | testDriverCtestBuildSelf
  | testDriverCtestTest
  | testDriverCtestSleep
  | testDriverCtestCoverageLocal
  | testDriverCtestMemcheckLocal
  deriving DecidableEq

/-- `BM_Install_Rule_Kind`. -/
inductive InstallRuleKind where
  | target
  | file
  | program
  | directory
  deriving DecidableEq

/-- `BM_Export_Kind`. -/
inductive ExportKind where
  | install
  | buildTree
  | packageRegistry
  deriving DecidableEq

/-- `BM_Export_Source_Kind`. -/
inductive ExportSourceKind where
  | installExport
  | targets
  | exportSet
  | package
  deriving DecidableEq

/-! ## Records -/

/-- `BM_Project_Record`. -/
structure ProjectRecord where
  present : Bool := false
  name : StringView := []
  version : StringView := []
  description : StringView := []
  homepageUrl : StringView := []
  languages : List StringView := []
  minimumRequiredVersion : StringView := []
  minimumRequiredFatalIfTooOld : Bool := false
  deriving DecidableEq

/-- `Event_Replay_Action_Declare`. -/
structure ReplayDeclaration where
  actionKey : StringView
  kind : ReplayActionKind
  opcode : ReplayOpcode
  phase : ReplayPhase
  workingDirectory : StringView := []
  deriving DecidableEq

/-- `BM_Replay_Action_Record`. -/
structure ReplayActionRecord extends ReplayDeclaration where
  id : Nat
  ownerDirectoryId : Option DirectoryId
  inputs : List StringView := []
  outputs : List StringView := []
  argv : List StringView := []
  environment : List StringView := []
  deriving DecidableEq

/-- `BM_Source_Generated_Mark_Record`. -/
structure SourceGeneratedMark where
  path : StringView
  directorySourceDir : StringView
  directoryBinaryDir : StringView
  generated : Bool
  deriving DecidableEq

/-- `BM_Source_Property_Mutation_Record`, with the file of its provenance. -/
structure SourcePropertyMutation where
  path : StringView
  directorySourceDir : StringView
  directoryBinaryDir : StringView
  key : StringView
  value : StringView
  op : MutateOp
  filePath : StringView := []
  deriving DecidableEq

/-- `Event_Test_Add`. -/
structure TestDeclaration where
  name : StringView
  command : StringView
  workingDir : StringView := []
  commandExpandLists : Bool := false
  configurations : List StringView := []
  deriving DecidableEq

/-- `BM_Test_Record`. -/
structure TestRecord extends TestDeclaration where
  id : Nat
  ownerDirectoryId : Option DirectoryId
  deriving DecidableEq

/-- `Event_Install_Rule_Add`. -/
structure InstallRuleDeclaration where
  kind : InstallRuleKind
  item : StringView
  destination : StringView := []
  rename : StringView := []
  component : StringView := []
  archiveComponent : StringView := []
  libraryComponent : StringView := []
  runtimeComponent : StringView := []
  includesComponent : StringView := []
  publicHeaderComponent : StringView := []
  namelinkComponent : StringView := []
  exportName : StringView := []
  archiveDestination : StringView := []
  libraryDestination : StringView := []
  runtimeDestination : StringView := []
  includesDestination : StringView := []
  publicHeaderDestination : StringView := []
  deriving DecidableEq

/-- `BM_Install_Rule_Record`. -/
structure InstallRuleRecord extends InstallRuleDeclaration where
  id : Nat
  ownerDirectoryId : Option DirectoryId
  resolvedTargetId : Option TargetId := none
  deriving DecidableEq

/-- `BM_Export_Record`. -/
structure ExportRecord where
  id : Nat
  ownerDirectoryId : Option DirectoryId
  kind : ExportKind
  sourceKind : ExportSourceKind
  exportKey : StringView := []
  name : StringView := []
  exportNamespace : StringView := []
  destination : StringView := []
  fileName : StringView := []
  component : StringView := []
  outputFilePath : StringView := []
  cxxModulesDirectory : StringView := []
  registryPath : StringView := []
  enabled : Bool := true
  append : Bool := false
  targetNames : List StringView := []
  targetIds : List (Option TargetId) := []
  deriving DecidableEq

/-- `Event_Package_Find_Result`. -/
structure PackageFindResult where
  packageName : StringView
  mode : StringView := []
  foundPath : StringView := []
  found : Bool := false
  required : Bool := false
  quiet : Bool := false
  deriving DecidableEq

/-- `BM_Package_Record`. -/
structure PackageRecord extends PackageFindResult where
  id : Nat
  ownerDirectoryId : Option DirectoryId
  deriving DecidableEq

/-- `BM_CPack_Install_Type_Record`. -/
structure CPackInstallTypeRecord where
  id : Nat
  ownerDirectoryId : Option DirectoryId
  name : StringView
  displayName : StringView
  deriving DecidableEq

/-- `BM_CPack_Component_Group_Record`. -/
structure CPackComponentGroupRecord where
  id : Nat
  ownerDirectoryId : Option DirectoryId
  name : StringView
  displayName : StringView
  description : StringView
  parentGroupName : StringView
  parentGroupId : Option Nat := none
  expanded : Bool
  boldTitle : Bool
  deriving DecidableEq

/-- `BM_CPack_Component_Record`. -/
structure CPackComponentRecord where
  id : Nat
  ownerDirectoryId : Option DirectoryId
  name : StringView
  displayName : StringView
  description : StringView
  groupName : StringView
  groupId : Option Nat := none
  dependencyNames : List StringView
  dependencyIds : List (Option Nat) := []
  installTypeNames : List StringView
  installTypeIds : List (Option Nat) := []
  archiveFile : StringView
  plist : StringView
  required : Bool
  hidden : Bool
  disabled : Bool
  downloaded : Bool
  deriving DecidableEq

/-- `BM_CPack_Package_Record`. -/
structure CPackPackageRecord where
  id : Nat
  ownerDirectoryId : Option DirectoryId
  packageKey : StringView
  packageName : StringView
  packageVersion : StringView
  packageFileName : StringView
  packageDirectory : StringView
  archiveFileName : StringView
  archiveFileExtension : StringView
  componentsGrouping : StringView
  projectConfigFile : StringView
  generators : List StringView := []
  componentsAll : List StringView
  archiveNameOverrides : List (StringView × StringView) := []
  includeToplevelDirectory : Bool
  archiveComponentInstall : Bool
  deriving DecidableEq

/-! ## The draft -/

/-- `Build_Model_Draft`. -/
structure Draft where
  hasSemanticEntities : Bool := false
  testingEnabled : Bool := false
  project : ProjectRecord := {}
  globalProperties : UsageItems := {}
  directories : List DirectoryRecord := []
  rootDirectoryId : Option DirectoryId := none
  targets : List TargetRecord := []
  buildSteps : List BuildStepRecord := []
  replayActions : List ReplayActionRecord := []
  generatedSourceMarks : List SourceGeneratedMark := []
  sourcePropertyMutations : List SourcePropertyMutation := []
  tests : List TestRecord := []
  installRules : List InstallRuleRecord := []
  exports : List ExportRecord := []
  packages : List PackageRecord := []
  cpackInstallTypes : List CPackInstallTypeRecord := []
  cpackComponentGroups : List CPackComponentGroupRecord := []
  cpackComponents : List CPackComponentRecord := []
  cpackPackages : List CPackPackageRecord := []
  targetNameIndex : List (StringView × TargetId) := []
  testNameIndex : List (StringView × Nat) := []
  packageNameIndex : List (StringView × Nat) := []
  deriving DecidableEq

/-- The id stored under a name, as the `bm_draft_find_..._id` lookups find it: the first entry. -/
def findInIndex (index : List (StringView × Nat)) (name : StringView) : Option Nat :=
  (index.find? fun entry => entry.1 = name).map Prod.snd

/-- `bm_draft_find_target_id`. -/
def Draft.findTargetId (draft : Draft) (name : StringView) : Option TargetId :=
  findInIndex draft.targetNameIndex name

/-- `bm_draft_find_target`. -/
def Draft.findTarget (draft : Draft) (name : StringView) : Option TargetRecord := do
  let id ← draft.findTargetId name
  draft.targets[id]?

/-- `bm_draft_get_directory`. -/
def Draft.getDirectory (draft : Draft) (id : Option DirectoryId) : Option DirectoryRecord := do
  let id ← id
  draft.directories[id]?

/-! ## Diagnostics -/

/-- `Diag_Severity`. -/
inductive Severity where
  | warning
  | error
  deriving DecidableEq

/-- What `bm_diag_emit` hands to the sink, less the position. -/
structure Diagnostic where
  severity : Severity := .error
  component : String
  command : String
  cause : String
  hint : String
  deriving DecidableEq

end Nobify.BuildModel
