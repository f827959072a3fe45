import Nobify.BuildModel.Draft
import Nobify.BuildModel.BuilderTarget

/-!
# The events the builder reads

The events of the stream with the role `EVENT_ROLE_BUILD_SEMANTIC`, one type for each handler of
`bm_builder_apply_event`; an event without that role is `other`. The strings of an event are
copied into the draft. An operation on a property is the same enumeration twice in the source,
`Cmake_Target_Property_Op` and `Event_Property_Mutate_Op`, and one type here.
-/

namespace Nobify.BuildModel

open Evaluator (CmakeVisibility UsageFamily PropertyOp ItemEntry)

/-- `Cmake_Target_Type`. -/
inductive CmakeTargetType where
  | executable
  | libraryStatic
  | libraryShared
  | libraryModule
  | libraryInterface
  | libraryObject
  | libraryUnknown

/-- The item lists that a target event appends to. -/
inductive TargetItemList where
  | usage (family : UsageFamily)
  | compileFeatures

/-- `EVENT_PROJECT_...`. -/
inductive ProjectEvent where
  | declare (name version description homepageUrl languages : StringView)
  | minimumRequired (version : StringView) (fatalIfTooOld : Bool)

/-- `Event_Directory_Property_Mutate`. A property whose items were not typed has no typed
items. -/
structure PropertyMutation where
  propertyName : StringView
  op : PropertyOp
  before : Bool := false
  system : Bool := false
  items : List StringView
  typedItems : List (StringView × LinkItemMetadata) := []

/-- `EVENT_DIRECTORY_...` and `EVENT_GLOBAL_PROPERTY_MUTATE`. -/
inductive DirectoryEvent where
  | enter (sourceDir binaryDir : StringView)
  | leave (sourceDir binaryDir : StringView)
  | propertyMutate (mutation : PropertyMutation)
  | globalPropertyMutate (mutation : PropertyMutation)

/-- `Event_Target_Prop_Set`. -/
structure TargetPropSet where
  key : StringView
  value : StringView
  op : PropertyOp
  typedItems : List (StringView × LinkItemMetadata) := []

/-- What an event says about the target it names. -/
inductive TargetChange where
  | addSource (path : StringView) (visibility : CmakeVisibility) (sourceKind : TargetSourceKind)
    (fileSetName : StringView)
  | fileSetDeclare (setName : StringView) (setKind : FileSetKind) (visibility : CmakeVisibility)
  | fileSetAddBaseDir (setName path : StringView)
  | addDependency (dependencyName : StringView)
  | item (list : TargetItemList) (entry : ItemEntry)

/-- `EVENT_TARGET_...`. -/
inductive TargetEvent where
  | declare (name : StringView) (targetType : CmakeTargetType) (imported isAlias : Bool)
    (aliasOf : StringView)
  | propSet (targetName : StringView) (property : TargetPropSet)
  | change (targetName : StringView) (change : TargetChange)

/-- `Event_Build_Step_Declare`. -/
structure StepDeclaration where
  stepKey : StringView
  stepKind : BuildStepKind
  ownerTargetName : StringView := []
  append : Bool := false
  verbatim : Bool := false
  usesTerminal : Bool := false
  commandExpandLists : Bool := false
  dependsExplicitOnly : Bool := false
  codegen : Bool := false
  workingDirectory : StringView := []
  comment : StringView := []
  mainDependency : StringView := []
  depfile : StringView := []
  jobPool : StringView := []
  jobServerAware : StringView := []

/-- What an event adds to the step it names. -/
inductive StepChange where
  | addOutput (path : StringView)
  | addByproduct (path : StringView)
  | addPathToken (item : StringView)
  | addTargetRef (item targetName : StringView)
  | addCommand (argv : List StringView)

/-- `EVENT_SOURCE_...` and `EVENT_BUILD_STEP_...`. -/
inductive BuildGraphEvent where
  | sourceMarkGenerated (mark : SourceGeneratedMark)
  | sourcePropertyMutate (path directorySourceDir directoryBinaryDir key value : StringView)
    (op : PropertyOp)
  | stepDeclare (declaration : StepDeclaration)
  | stepChange (stepKey : StringView) (change : StepChange)

/-- What an event adds to the replay action it names. -/
inductive ReplayChange where
  | addInput (path : StringView)
  | addOutput (path : StringView)
  | addArgv (argIndex : Nat) (value : StringView)
  | addEnv (key value : StringView)

/-- `EVENT_REPLAY_ACTION_...`. -/
inductive ReplayEvent where
  | declare (declaration : ReplayDeclaration)
  | change (actionKey : StringView) (change : ReplayChange)

/-- `EVENT_TEST_...`. -/
inductive TestEvent where
  | enable (enabled : Bool)
  | add (declaration : TestDeclaration)

/-- `EVENT_EXPORT_...`. -/
inductive ExportEvent where
  | install (exportName exportNamespace destination fileName component : StringView)
  | buildDeclare (exportKey : StringView) (sourceKind : ExportSourceKind)
    (logicalName filePath exportNamespace cxxModulesDirectory : StringView) (append : Bool)
  | buildAddTarget (exportKey targetName : StringView)
  | packageRegistry (packageName registryPath : StringView) (enabled : Bool)

/-- `Event_Cpack_Add_Component`. -/
structure ComponentDeclaration where
  name : StringView
  displayName : StringView := []
  description : StringView := []
  group : StringView := []
  depends : StringView := []
  installTypes : StringView := []
  archiveFile : StringView := []
  plist : StringView := []
  required : Bool := false
  hidden : Bool := false
  disabled : Bool := false
  downloaded : Bool := false

/-- `Event_Cpack_Package_Declare`. -/
structure PackageDeclaration where
  packageKey : StringView
  packageName : StringView := []
  packageVersion : StringView := []
  packageFileName : StringView := []
  packageDirectory : StringView := []
  archiveFileName : StringView := []
  archiveFileExtension : StringView := []
  componentsGrouping : StringView := []
  projectConfigFile : StringView := []
  includeToplevelDirectory : Bool := false
  archiveComponentInstall : Bool := false
  componentsAll : StringView := []

/-- `EVENT_PACKAGE_FIND_RESULT` and `EVENT_CPACK_...`. -/
inductive PackageEvent where
  | findResult (result : PackageFindResult)
  | addInstallType (name displayName : StringView)
  | addComponentGroup (name displayName description parentGroup : StringView)
    (expanded boldTitle : Bool)
  | addComponent (declaration : ComponentDeclaration)
  | packageDeclare (declaration : PackageDeclaration)
  | packageAddGenerator (packageKey generator : StringView)
  | packageArchiveNameOverride (packageKey archiveKey archiveFileName : StringView)

/-- The payload of an event. -/
inductive BuildEventBody where
  | project (event : ProjectEvent)
  | directory (event : DirectoryEvent)
  | target (event : TargetEvent)
  | buildGraph (event : BuildGraphEvent)
  | replay (event : ReplayEvent)
  | test (event : TestEvent)
  | installRuleAdd (declaration : InstallRuleDeclaration)
  | exportEvent (event : ExportEvent)
  | package (event : PackageEvent)
  | other

/-- `Event`, with the file of its origin. -/
structure BuildEvent where
  filePath : StringView := []
  body : BuildEventBody

/-! ## Names of the kinds -/

/-- The label of the event that appends to a list of items. -/
def TargetItemList.kindName : TargetItemList → String
  | .usage .linkLibraries => "target_link_libraries"
  | .usage .linkOptions => "target_link_options"
  | .usage .linkDirectories => "target_link_directories"
  | .usage .includeDirectories => "target_include_directories"
  | .usage .compileDefinitions => "target_compile_definitions"
  | .usage .compileOptions => "target_compile_options"
  | .compileFeatures => "target_compile_features"

/-- `event_kind_name`; an event without the role is never reported. -/
def BuildEventBody.kindName : BuildEventBody → String
  | .project (.declare ..) => "project_declare"
  | .project (.minimumRequired ..) => "project_minimum_required"
  | .directory (.enter ..) => "directory_enter"
  | .directory (.leave ..) => "directory_leave"
  | .directory (.propertyMutate _) => "directory_property_mutate"
  | .directory (.globalPropertyMutate _) => "global_property_mutate"
  | .target (.declare ..) => "target_declare"
  | .target (.propSet ..) => "target_prop_set"
  | .target (.change _ (.addSource ..)) => "target_add_source"
  | .target (.change _ (.fileSetDeclare ..)) => "target_file_set_declare"
  | .target (.change _ (.fileSetAddBaseDir ..)) => "target_file_set_add_base_dir"
  | .target (.change _ (.addDependency _)) => "target_add_dependency"
  | .target (.change _ (.item list _)) => list.kindName
  | .buildGraph (.sourceMarkGenerated _) => "source_mark_generated"
  | .buildGraph (.sourcePropertyMutate ..) => "source_property_mutate"
  | .buildGraph (.stepDeclare _) => "build_step_declare"
  | .buildGraph (.stepChange _ (.addOutput _)) => "build_step_add_output"
  | .buildGraph (.stepChange _ (.addByproduct _)) => "build_step_add_byproduct"
  | .buildGraph (.stepChange _ (.addPathToken _)) => "build_step_add_dependency"
  | .buildGraph (.stepChange _ (.addTargetRef ..)) => "build_step_add_dependency"
  | .buildGraph (.stepChange _ (.addCommand _)) => "build_step_add_command"
  | .replay (.declare _) => "replay_action_declare"
  | .replay (.change _ (.addInput _)) => "replay_action_add_input"
  | .replay (.change _ (.addOutput _)) => "replay_action_add_output"
  | .replay (.change _ (.addArgv ..)) => "replay_action_add_argv"
  | .replay (.change _ (.addEnv ..)) => "replay_action_add_env"
  | .test (.enable _) => "test_enable"
  | .test (.add _) => "test_add"
  | .installRuleAdd _ => "install_rule_add"
  | .exportEvent (.install ..) => "export_install"
  | .exportEvent (.buildDeclare ..) => "export_build_declare"
  | .exportEvent (.buildAddTarget ..) => "export_build_add_target"
  | .exportEvent (.packageRegistry ..) => "export_package_registry"
  | .package (.findResult _) => "package_find_result"
  | .package (.addInstallType ..) => "cpack_add_install_type"
  | .package (.addComponentGroup ..) => "cpack_add_component_group"
  | .package (.addComponent _) => "cpack_add_component"
  | .package (.packageDeclare _) => "cpack_package_declare"
  | .package (.packageAddGenerator ..) => "cpack_package_add_generator"
  | .package (.packageArchiveNameOverride ..) => "cpack_package_archive_name_override"
  | .other => "unknown_event"

end Nobify.BuildModel
