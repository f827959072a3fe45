import Nobify.Text

/-!
# The frozen build model

Records of `Build_Model`, cut down to the fields that the effective queries, the build-order
views, the step views and the freeze passes read. A draft has the same records, with the fields
that freeze computes still empty. Identifiers are positions in the record
lists, as `bm_builder_apply_event` assigns them; `BM_..._ID_INVALID` is `none`.
-/

namespace Nobify.BuildModel

/-- `BM_Target_Id`. -/
abbrev TargetId := Nat

/-- `BM_Directory_Id`. -/
abbrev DirectoryId := Nat

/-- `BM_Build_Step_Id`. -/
abbrev BuildStepId := Nat

/-- `BM_Visibility`. -/
inductive Visibility where
  | privateItem
  | publicItem
  | interfaceItem
  deriving DecidableEq

/-- The numbers of the enumeration, compared by `bm_query_append_joined_items` and by the
same-family property expansion. -/
def Visibility.rank : Visibility → Nat
  | .privateItem => 0
  | .publicItem => 1
  | .interfaceItem => 2

/-- `BM_Target_Kind`. -/
inductive TargetKind where
  | executable
  | staticLibrary
  | sharedLibrary
  | moduleLibrary
  | interfaceLibrary
  | objectLibrary
  | utility
  | unknownLibrary
  deriving DecidableEq

/-- `BM_Build_Step_Kind`. -/
inductive BuildStepKind where
  | outputRule
  | customTarget
  | targetPreBuild
  | targetPreLink
  | targetPostBuild
  deriving DecidableEq

/-- `EVENT_USAGE_INTERFACE_...`. -/
inductive InterfaceFilter where
  | any
  | build
  | install
  deriving DecidableEq

/-- `Event_Link_Item_Config_Filter`. -/
inductive ConfigFilter where
  | all
  | debugOnly
  | nondebugOnly
  | matchList
  deriving DecidableEq

/-- `EVENT_LINK_ITEM_...`. -/
inductive LinkItemKind where
  | rawValue
  | targetPropertyImplicit
  | targetPropertyExplicit
  | targetRef
  deriving DecidableEq

/-- `Event_Link_Item_Metadata`. -/
structure LinkItemMetadata where
  interfaceFilter : InterfaceFilter := .any
  configFilter : ConfigFilter := .all
  linkOnly : Bool := false
  configurations : List StringView := []
  compileLanguages : List StringView := []
  platformIds : List StringView := []
  kind : LinkItemKind := .rawValue
  value : StringView := []
  targetName : StringView := []
  propertyName : StringView := []
  deriving DecidableEq

/-- `BM_String_Item_View`, with the two `BM_Item_Flags` and the file of its provenance. -/
structure StringItem where
  value : StringView
  visibility : Visibility
  before : Bool := false
  system : Bool := false
  filePath : StringView := []
  semantic : LinkItemMetadata := {}
  deriving DecidableEq

/-- `BM_Link_Item_View`. -/
structure LinkItem extends StringItem where
  targetId : Option TargetId := none
  deriving DecidableEq

/-- `Event_Property_Mutate_Op`. -/
inductive MutateOp where
  | set
  | appendList
  | appendString
  | prependList
  deriving DecidableEq

/-- `BM_Raw_Property_Record`, with the two modifier flags. -/
structure RawPropertyRecord where
  name : StringView
  op : MutateOp
  before : Bool := false
  system : Bool := false
  items : List StringView
  deriving DecidableEq

/-- The item lists of `BM_Global_Property_State` and `BM_Directory_Record`. -/
structure UsageItems where
  includeDirectories : List StringItem := []
  systemIncludeDirectories : List StringItem := []
  linkLibraries : List LinkItem := []
  linkDirectories : List StringItem := []
  compileDefinitions : List StringItem := []
  compileOptions : List StringItem := []
  linkOptions : List StringItem := []
  rawProperties : List RawPropertyRecord := []
  deriving DecidableEq

/-- `BM_Directory_Record`. -/
structure DirectoryRecord extends UsageItems where
  id : DirectoryId := 0
  parentId : Option DirectoryId := none
  ownerDirectoryId : Option DirectoryId := none
  sourceDir : StringView
  binaryDir : StringView
  deriving DecidableEq

/-- `BM_Target_Source_Kind`. -/
inductive TargetSourceKind where
  | regular
  | headerFileSet
  | cxxModuleFileSet
  deriving DecidableEq

/-- `BM_Target_Source_Record`. -/
structure TargetSourceRecord where
  kind : TargetSourceKind := .regular
  visibility : Visibility := .privateItem
  rawPath : StringView
  effectivePath : StringView := []
  fileSetName : StringView := []
  generated : Bool := false
  headerFileOnly : Bool := false
  language : StringView := []
  producerStepId : Option BuildStepId := none
  compileDefinitions : List StringItem := []
  compileOptions : List StringItem := []
  includeDirectories : List StringItem := []
  rawProperties : List RawPropertyRecord := []
  deriving DecidableEq

/-- `BM_Target_File_Set_Kind`. -/
inductive FileSetKind where
  | headers
  | cxxModules
  deriving DecidableEq

/-- `BM_Target_File_Set_Record`. -/
structure FileSetRecord where
  name : StringView
  kind : FileSetKind := .headers
  visibility : Visibility := .privateItem
  baseDirs : List StringView := []
  sourceIndices : List Nat := []
  rawFiles : List StringView := []
  effectiveFiles : List StringView := []
  deriving DecidableEq

/-- `BM_Imported_Config_Record`. -/
structure ImportedConfigRecord where
  config : StringView
  effectiveFile : StringView := []
  effectiveLinkerFile : StringView := []
  linkLanguages : List StringView := []
  deriving DecidableEq

/-- `BM_Imported_Config_Map_Record`. -/
structure ImportedConfigMapRecord where
  config : StringView
  mappedConfigs : List StringView := []
  deriving DecidableEq

/-- `BM_Target_Artifact_Property_Record`. -/
structure ArtifactPropertyRecord where
  name : StringView
  value : StringView
  deriving DecidableEq

/-- `BM_Target_Record`. -/
structure TargetRecord where
  id : TargetId := 0
  name : StringView
  ownerDirectoryId : Option DirectoryId := none
  kind : TargetKind
  declared : Bool := false
  imported : Bool := false
  importedGlobal : Bool := false
  isAlias : Bool := false
  aliasGlobal : Bool := false
  excludeFromAll : Bool := false
  win32Executable : Bool := false
  macosxBundle : Bool := false
  aliasOfName : StringView := []
  aliasOfId : Option TargetId := none
  sources : List StringView := []
  sourceRecords : List TargetSourceRecord := []
  fileSets : List FileSetRecord := []
  explicitDependencyNames : List StringView := []
  explicitDependencyIds : List (Option TargetId) := []
  linkLibraries : List LinkItem := []
  linkOptions : List StringItem := []
  linkDirectories : List StringItem := []
  includeDirectories : List StringItem := []
  compileDefinitions : List StringItem := []
  compileOptions : List StringItem := []
  compileFeatures : List StringItem := []
  artifactProperties : List ArtifactPropertyRecord := []
  folder : StringView := []
  importedConfigMaps : List ImportedConfigMapRecord := []
  importedConfigs : List ImportedConfigRecord := []
  rawProperties : List RawPropertyRecord := []
  deriving DecidableEq

/-- The `producer_step_id` of each source record. -/
def TargetRecord.sourceProducers (target : TargetRecord) : List (Option BuildStepId) :=
  target.sourceRecords.map TargetSourceRecord.producerStepId

/-- `BM_Build_Step_Dependency_Record`: a path token with the producer or the file that freeze
found for it, or a reference to a target by name with its id. -/
inductive StepDependency where
  | pathToken (rawToken : StringView) (producerStepId : Option BuildStepId := none)
    (fileDependency : StringView := [])
  | targetRef (targetName : StringView) (targetId : Option TargetId)
  deriving DecidableEq

/-- `BM_Build_Step_Record`. -/
structure BuildStepRecord where
  id : BuildStepId := 0
  stepKey : StringView := []
  ownerDirectoryId : Option DirectoryId
  kind : BuildStepKind
  ownerTargetName : StringView := []
  ownerTargetId : Option TargetId := none
  append : Bool := false
  verbatim : Bool := false
  usesTerminal : Bool := false
  commandExpandLists : Bool := false
  dependsExplicitOnly : Bool := false
  codegen : Bool := false
  workingDirectory : StringView := []
  comment : StringView := []
  mainDependency : StringView := []
  depfile : StringView := []
  jobPool : StringView := []
  jobServerAware : StringView := []
  rawOutputs : List StringView := []
  rawByproducts : List StringView := []
  effectiveOutputs : List StringView := []
  effectiveByproducts : List StringView := []
  rawDependencyTokens : List StringView := []
  dependencies : List StepDependency := []
  resolvedTargetDependencies : List TargetId := []
  resolvedProducerDependencies : List BuildStepId := []
  resolvedFileDependencies : List StringView := []
  commands : List (List StringView) := []
  deriving DecidableEq

/-- `Build_Model`. -/
structure Model where
  directories : List DirectoryRecord := []
  targets : List TargetRecord := []
  buildSteps : List BuildStepRecord := []
  targetNameIndex : List (StringView × TargetId) := []
  globalProperties : UsageItems := {}
  knownConfigurations : List StringView := []

/-- `BM_Query_Usage_Mode`. -/
inductive UsageMode where
  | compile
  | link
  deriving DecidableEq

/-- `BM_Query_Eval_Context`. -/
structure QueryContext where
  config : StringView := []
  platformId : StringView := []
  compileLanguage : StringView := []
  installPrefix : StringView := []
  currentTargetId : Option TargetId := none
  usageMode : UsageMode := .compile
  buildInterfaceActive : Bool := false
  buildLocalInterfaceActive : Bool := false
  installInterfaceActive : Bool := false

end Nobify.BuildModel
