import Nobify.BuildModel.Builder
import Nobify.BuildModel.ExecCycles
import Nobify.BuildModel.Freeze
import Nobify.BuildModel.Validate
import Nobify.Genex.Scan

/-!
# Freezing a draft

`bm_freeze_draft` copies a draft, fills in what the names of the draft stand for, lists the
configurations the model names and checks the execution graph. A pass that fails makes the whole
freeze fail; what it handed to the sink is kept, so a failure that nobody is told of can be seen.
An array that is indexed without a check is a `fault` when the index lies outside of it.
-/

namespace Nobify.BuildModel

open Evaluator (PropertyOp)

/-! ## Outcomes -/

/-- Why a freeze ends without a model. -/
inductive FreezeStop where
  /-- An array is indexed outside of its range. -/
  | fault
  /-- A null pointer is returned, after these diagnostics. -/
  | failed (reported : List Diagnostic)
  deriving DecidableEq

/-- A pass of the freeze. -/
abbrev Freezing := Except FreezeStop

/-- A pass that reports one error and fails. -/
def freezeError {α : Type} (cause hint : String) : Freezing α :=
  .error (.failed [{ component := "build_model_freeze", command := "freeze", cause, hint }])

/-- A pass that returns `false` and reports nothing. -/
def silently {α : Type} : Freezing α := .error (.failed [])

/-- Report an error unless a condition holds. -/
def require (holds : Bool) (cause hint : String) : Freezing Unit :=
  if holds then .ok () else freezeError cause hint

/-- The value that is there, or an error. -/
def known {α : Type} (value : Option α) (cause hint : String) : Freezing α :=
  match value with
  | some value => .ok value
  | none => freezeError cause hint

/-- An array access without a check of the index. -/
def indexed {α : Type} (records : List α) (index : Option Nat) : Freezing α :=
  match index.bind (records[·]?) with
  | some record => .ok record
  | none => .error .fault

/-! ## Invariants -/

/-- A loop of `bm_freeze_check_invariants` over records with an id. -/
def checkIds {α : Type} (id : α → Nat) (cause hint : String) (records : List α) : Freezing Unit :=
  require (records.map id = List.range records.length) cause hint

/-- The owner of a record is no directory, or one that is there. -/
def ownerFits (draft : Draft) (owner : Option DirectoryId) : Bool :=
  owner.all (· < draft.directories.length)

/-- A loop of `bm_freeze_check_invariants` over records with an id and an owner. The first record
that breaks either rule is reported. -/
def checkOwned {α : Type} (draft : Draft) (id : α → Nat) (owner : α → Option DirectoryId)
    (idCause idHint ownerCause ownerHint : String) (records : List α) : Freezing Unit :=
  records.zipIdx.forM fun (record, index) => do
    require (id record = index) idCause idHint
    require (ownerFits draft (owner record)) ownerCause ownerHint

/-- `bm_freeze_check_invariants`. -/
def freezeCheckInvariants (draft : Draft) : Freezing Unit := do
  require (!(draft.hasSemanticEntities && draft.rootDirectoryId.isNone))
    "draft is missing root directory"
    "run validation before freeze and fix root directory reconstruction"
  checkIds DirectoryRecord.id "directory ids are not contiguous"
    "freeze requires validated contiguous ids" draft.directories
  checkOwned draft TargetRecord.id TargetRecord.ownerDirectoryId "target ids are not contiguous"
    "freeze requires validated contiguous ids" "target owner_directory_id is invalid"
    "freeze requires validated entity ownership" draft.targets
  checkOwned draft BuildStepRecord.id BuildStepRecord.ownerDirectoryId
    "build step ids are not contiguous" "freeze requires validated contiguous build step ids"
    "build step owner_directory_id is invalid" "freeze requires validated build step ownership"
    draft.buildSteps
  checkOwned draft ReplayActionRecord.id ReplayActionRecord.ownerDirectoryId
    "replay action ids are not contiguous" "freeze requires validated contiguous replay action ids"
    "replay action owner_directory_id is invalid"
    "freeze requires validated replay action ownership" draft.replayActions
  checkOwned draft ExportRecord.id ExportRecord.ownerDirectoryId "export ids are not contiguous"
    "freeze requires validated contiguous export ids" "export owner_directory_id is invalid"
    "freeze requires validated export ownership" draft.exports

/-! ## Copies -/

/-- `Build_Model` with the records that only code generation reads. -/
structure FrozenModel extends Model where
  testingEnabled : Bool := false
  project : ProjectRecord := {}
  rootDirectoryId : Option DirectoryId := none
  replayActions : List ReplayActionRecord := []
  tests : List TestRecord := []
  installRules : List InstallRuleRecord := []
  exports : List ExportRecord := []
  packages : List PackageRecord := []
  cpackInstallTypes : List CPackInstallTypeRecord := []
  cpackComponentGroups : List CPackComponentGroupRecord := []
  cpackComponents : List CPackComponentRecord := []
  cpackPackages : List CPackPackageRecord := []
  testNameIndex : List (StringView × Nat) := []
  packageNameIndex : List (StringView × Nat) := []

/-- What `bm_clone_target_source_records` and `bm_clone_target_file_sets` reset. -/
def clearResolved (target : TargetRecord) : TargetRecord :=
  { target with
    aliasOfId := none
    explicitDependencyIds := []
    sourceRecords := target.sourceRecords.map fun source => { source with producerStepId := none }
    fileSets := target.fileSets.map fun fileSet =>
      { fileSet with sourceIndices := [], rawFiles := [], effectiveFiles := [] } }

/-- The alias branch of `bm_clone_targets`. -/
def cloneAlias (draft : Draft) (target : TargetRecord) : Freezing TargetRecord :=
  if target.aliasOfName = [] then .ok target
  else do
    let id ← known (draft.findTargetId target.aliasOfName)
      "alias target could not be resolved during freeze"
      "fix unresolved alias targets before freeze"
    let aliased ← indexed draft.targets (some id)
    let aliasGlobal := if aliased.imported then aliased.importedGlobal else true
    .ok { target with aliasOfId := some id, kind := aliased.kind, aliasGlobal }

/-- The loop of `bm_clone_targets` over explicit dependencies. -/
def cloneDependencies (draft : Draft) (names : List StringView) :
    Freezing (List (Option TargetId)) :=
  names.mapM fun name => do
    let id ← known (draft.findTargetId name) "target dependency could not be resolved during freeze"
      "run validation and fix unresolved explicit dependencies"
    .ok (some id)

/-- One round of `bm_clone_targets`. -/
def cloneTarget (draft : Draft) (source : TargetRecord) : Freezing TargetRecord := do
  let target ← cloneAlias draft (clearResolved source)
  let explicitDependencyIds ← cloneDependencies draft source.explicitDependencyNames
  .ok { target with explicitDependencyIds }

/-- `bm_clone_build_step_dependencies`. -/
def StepDependency.unresolved : StepDependency → StepDependency
  | .pathToken rawToken _ _ => .pathToken rawToken
  | .targetRef targetName _ => .targetRef targetName none

/-- One round of `bm_clone_build_steps`. -/
def cloneBuildStep (step : BuildStepRecord) : BuildStepRecord :=
  { step with
    ownerTargetId := none
    resolvedTargetDependencies := []
    resolvedProducerDependencies := []
    resolvedFileDependencies := []
    dependencies := step.dependencies.map StepDependency.unresolved }

/-- One round of `bm_clone_install_rules`. -/
def cloneInstallRule (draft : Draft) (rule : InstallRuleRecord) : Freezing InstallRuleRecord :=
  if rule.kind = .target then do
    let id ← known (draft.findTargetId rule.item)
      "install rule target could not be resolved during freeze"
      "fix unresolved install target names before freeze"
    .ok { rule with resolvedTargetId := some id }
  else .ok { rule with resolvedTargetId := none }

/-- The targets of an export: those of its install rules, or those it names. -/
def exportTargetIds (draft : Draft) (installRules : List InstallRuleRecord)
    (record : ExportRecord) : Freezing (List (Option TargetId)) :=
  match record.kind with
  | .install =>
    (installRules.filter fun rule =>
      rule.kind = .target && rule.exportName = record.name).mapM fun rule => do
      let id ← known rule.resolvedTargetId
        "install export target could not be resolved during freeze"
        "fix unresolved install target names before freezing exports"
      .ok (some id)
  | .buildTree =>
    record.targetNames.mapM fun name => do
      let id ← known (draft.findTargetId name)
        "build-tree export target could not be resolved during freeze"
        "fix unresolved export target names before freezing standalone exports"
      .ok (some id)
  | .packageRegistry => .ok []

/-- One round of `bm_clone_exports`, on the copied install rules. -/
def cloneExport (draft : Draft) (installRules : List InstallRuleRecord) (record : ExportRecord) :
    Freezing ExportRecord := do
  let targetIds ← exportTargetIds draft installRules record
  .ok { record with targetIds }

/-- A name of a component that may be missing, as `bm_clone_cpack` looks it up. -/
def findIfGiven (find : StringView → Option Nat) (name : StringView) (cause hint : String) :
    Freezing (Option Nat) :=
  if name = [] then .ok none
  else do
    let id ← known (find name) cause hint
    .ok (some id)

/-- Names that all have to be found. -/
def findEach (find : StringView → Option Nat) (names : List StringView) (cause hint : String) :
    Freezing (List (Option Nat)) :=
  names.mapM fun name => do
    let id ← known (find name) cause hint
    .ok (some id)

/-- The component group loop of `bm_clone_cpack`. -/
def cloneCPackComponentGroup (draft : Draft) (record : CPackComponentGroupRecord) :
    Freezing CPackComponentGroupRecord := do
  let parentGroupId ← findIfGiven draft.findComponentGroupId record.parentGroupName
    "component group parent could not be resolved during freeze"
    "fix unresolved CPack parent groups before freeze"
  .ok { record with parentGroupId }

/-- The component loop of `bm_clone_cpack`. -/
def cloneCPackComponent (draft : Draft) (record : CPackComponentRecord) :
    Freezing CPackComponentRecord := do
  let groupId ← findIfGiven draft.findComponentGroupId record.groupName
    "component group could not be resolved during freeze"
    "fix unresolved CPack component groups before freeze"
  let dependencyIds ← findEach draft.findComponentId record.dependencyNames
    "component dependency could not be resolved during freeze"
    "fix unresolved CPack component dependencies before freeze"
  let installTypeIds ← findEach draft.findInstallTypeId record.installTypeNames
    "component install type could not be resolved during freeze"
    "fix unresolved install type references before freeze"
  .ok { record with groupId, dependencyIds, installTypeIds }

/-- The copies of `bm_freeze_draft`. -/
def cloneDraft (draft : Draft) : Freezing FrozenModel := do
  let targets ← draft.targets.mapM (cloneTarget draft)
  let installRules ← draft.installRules.mapM (cloneInstallRule draft)
  let exports ← draft.exports.mapM (cloneExport draft installRules)
  let cpackComponentGroups ← draft.cpackComponentGroups.mapM (cloneCPackComponentGroup draft)
  let cpackComponents ← draft.cpackComponents.mapM (cloneCPackComponent draft)
  .ok {
    testingEnabled := draft.testingEnabled
    rootDirectoryId := draft.rootDirectoryId
    project := draft.project
    globalProperties := draft.globalProperties
    directories := draft.directories
    targets
    targetNameIndex := targets.map fun target => (target.name, target.id)
    buildSteps := draft.buildSteps.map cloneBuildStep
    replayActions := draft.replayActions.map fun action => { action with actionKey := [] }
    tests := draft.tests
    testNameIndex := draft.tests.map fun test => (test.name, test.id)
    installRules
    exports
    packages := draft.packages
    packageNameIndex := draft.packages.map fun package => (package.packageName, package.id)
    cpackInstallTypes := draft.cpackInstallTypes
    cpackComponentGroups
    cpackComponents
    cpackPackages := draft.cpackPackages }

/-! ## Names of targets -/

/-- `bm_freeze_resolve_alias_target_id`, which indexes the targets without a check. -/
def freezeAliasGo (model : Model) : Nat → TargetId → Freezing (Option TargetId)
  | 0, _ => .ok none
  | remaining + 1, current => do
    let target ← indexed model.targets (some current)
    if target.isAlias then
      match target.aliasOfId with
      | some next => freezeAliasGo model remaining next
      | none => .ok none
    else .ok (some current)

/-- A name in the draft, followed through aliases. -/
def freezeTargetName (draft : Draft) (model : Model) (name : StringView) :
    Freezing (Option TargetId) :=
  match draft.findTargetId name with
  | some id => freezeAliasGo model model.targets.length id
  | none => .ok none

/-- The owner target of a step, as `bm_resolve_build_step_effective_paths` looks it up. -/
def freezeOwnerTarget (draft : Draft) (step : BuildStepRecord) : Freezing (Option TargetId) :=
  if step.ownerTargetName = [] then .ok none
  else do
    let id ← known (draft.findTargetId step.ownerTargetName)
      "build step owner target could not be resolved during freeze"
      "declare the owner target before emitting target hook steps"
    .ok (some id)

/-- One round of `bm_resolve_build_step_effective_paths`. The owner directory is looked up before
anything is reported. -/
def freezeEffectivePaths (draft : Draft) (model : Model) (step : BuildStepRecord) :
    Freezing BuildStepRecord :=
  match step.ownerDirectoryId.bind (model.directories[·]?) with
  | none => silently
  | some owner => do
    let ownerTargetId ← freezeOwnerTarget draft step
    .ok { step with
      ownerTargetId
      workingDirectory := rebaseIfGiven owner.binaryDir step.workingDirectory
      depfile := rebaseIfGiven owner.binaryDir step.depfile
      effectiveOutputs := step.rawOutputs.map (pathRebase owner.binaryDir)
      effectiveByproducts := step.rawByproducts.map (pathRebase owner.binaryDir) }

/-- One round of a loop of `bm_resolve_link_item_target_ids`. -/
def freezeLinkItem (draft : Draft) (model : Model) (item : LinkItem) : Freezing LinkItem :=
  if item.semantic.kind = .targetRef ∧ item.semantic.targetName ≠ [] then do
    let targetId ← freezeTargetName draft model item.semantic.targetName
    .ok { item with targetId }
  else .ok item

/-- `bm_resolve_link_item_target_ids`. -/
def freezeLinkItems (draft : Draft) (model : Model) : Freezing Model := do
  let targets ← model.targets.mapM fun target => do
    let linkLibraries ← target.linkLibraries.mapM (freezeLinkItem draft model)
    .ok { target with linkLibraries }
  let directories ← model.directories.mapM fun directory => do
    let linkLibraries ← directory.linkLibraries.mapM (freezeLinkItem draft model)
    .ok { directory with linkLibraries }
  let linkLibraries ← model.globalProperties.linkLibraries.mapM (freezeLinkItem draft model)
  .ok { model with
    targets, directories, globalProperties := { model.globalProperties with linkLibraries } }

/-- One dependency of a step, as `bm_resolve_build_step_dependencies` resolves it. -/
def freezeDependency (draft : Draft) (model : Model) (owner : DirectoryRecord) :
    StepDependency → Freezing StepDependency
  | .pathToken rawToken _ _ =>
    match freezePathToken model owner rawToken with
    | .producer id => .ok (.pathToken rawToken (some id) [])
    | .file path => .ok (.pathToken rawToken none path)
  | .targetRef targetName _ => do
    let targetId ← freezeTargetName draft model targetName
    .ok (.targetRef targetName targetId)

/-- One round of `bm_resolve_build_step_dependencies`. -/
def freezeStepDependencies (draft : Draft) (model : Model) (step : BuildStepRecord) :
    Freezing BuildStepRecord := do
  let owner ← indexed model.directories step.ownerDirectoryId
  let dependencies ← step.dependencies.mapM (freezeDependency draft model owner)
  let supplies := (pathTokens dependencies).map (freezePathToken model owner)
  .ok { step with
    dependencies
    resolvedTargetDependencies := step.resolvedTargetDependencies ++ referencedTargets dependencies
    resolvedProducerDependencies :=
      step.resolvedProducerDependencies ++ supplies.filterMap Supply.producer?
    resolvedFileDependencies :=
      step.resolvedFileDependencies ++ supplies.filterMap Supply.file? }

/-! ## Imported targets -/

/-- `bm_freeze_trim_current_dir_prefixes`. -/
def trimCurrentDir : StringView → StringView
  | '.' :: '/' :: rest => trimCurrentDir rest
  | '.' :: '\\' :: rest => trimCurrentDir rest
  | path => path

/-- `bm_freeze_path_has_prefix`. -/
def freezePathStartsWith (path base : StringView) : Bool :=
  let path := trimCurrentDir path
  let base := trimCurrentDir base
  !base.isEmpty && base.isPrefixOf path &&
    (path.length == base.length || ((path.drop base.length).head?.any Genex.isSeparator))

/-- `bm_imported_config_set_path`: the first path stays. -/
def importedConfigPath (sourceDir raw dest : StringView) : StringView :=
  if dest ≠ [] then dest
  else if pathIsAbs raw || freezePathStartsWith raw sourceDir then normalizePath raw
  else pathRebase sourceDir raw

/-- `bm_imported_config_ensure` and a change of the record it returns. -/
def withImportedConfig (config : StringView) (change : ImportedConfigRecord → ImportedConfigRecord)
    (records : List ImportedConfigRecord) : List ImportedConfigRecord :=
  (modifyFirst (·.config = config) change records).getD (records ++ [change { config }])

/-- `bm_imported_config_map_ensure` and a change of the record it returns. -/
def withImportedConfigMap (config : StringView)
    (change : ImportedConfigMapRecord → ImportedConfigMapRecord)
    (records : List ImportedConfigMapRecord) : List ImportedConfigMapRecord :=
  (modifyFirst (·.config = config) change records).getD (records ++ [change { config }])

/-- What comes after a start of a name, when something does. -/
def afterStart (start : String) (name : StringView) : Option StringView :=
  if (sv start).isPrefixOf name && (sv start).length < name.length then
    some (name.drop (sv start).length)
  else none

/-- The configuration that a property of an imported target is about: the empty one for the plain
name in any case, or the text after the name and an underscore. -/
def importedPropertyConfig (property : String) (name : StringView) : Option StringView :=
  if svEqCi name (sv property) then some [] else afterStart (property ++ "_") name

/-- One property of an imported target, as `bm_materialize_imported_target_metadata` reads it. -/
def materializeImportedProperty (sourceDir : StringView) (target : TargetRecord)
    (property : RawPropertyRecord) : TargetRecord :=
  let value := property.items.headD []
  let values := property.items.flatMap splitCmakeList
  if let some config := importedPropertyConfig "IMPORTED_LOCATION" property.name then
    { target with
      importedConfigs := withImportedConfig config (fun record =>
        { record with effectiveFile := importedConfigPath sourceDir value record.effectiveFile })
        target.importedConfigs }
  else if let some config := importedPropertyConfig "IMPORTED_IMPLIB" property.name then
    { target with
      importedConfigs := withImportedConfig config (fun record =>
        { record with
          effectiveLinkerFile := importedConfigPath sourceDir value record.effectiveLinkerFile })
        target.importedConfigs }
  else if let some config :=
      importedPropertyConfig "IMPORTED_LINK_INTERFACE_LANGUAGES" property.name then
    { target with
      importedConfigs := withImportedConfig config (fun record =>
        { record with linkLanguages := record.linkLanguages ++ values }) target.importedConfigs }
  else if let some config := afterStart "MAP_IMPORTED_CONFIG_" property.name then
    { target with
      importedConfigMaps := withImportedConfigMap config (fun record =>
        { record with mappedConfigs := record.mappedConfigs ++ values })
        target.importedConfigMaps }
  else target

/-- One round of `bm_materialize_imported_target_metadata`. -/
def materializeImportedTarget (model : Model) (target : TargetRecord) : TargetRecord :=
  let sourceDir := ((target.ownerDirectoryId.bind (model.directories[·]?)).map
    DirectoryRecord.sourceDir).getD []
  if target.imported then
    target.rawProperties.foldl (materializeImportedProperty sourceDir) target
  else target

/-! ## Sources -/

/-- `bm_path_strip_prefix`. -/
def pathStripBase (value base : StringView) : StringView :=
  let value := normalizePath value
  let base := normalizePath base
  if !svHasPathPrefix value base then []
  else if value.length = base.length then sv "."
  else value.drop (base.length + 1)

/-- The paths that a source or a source property may stand for. -/
structure SourceCandidates where
  direct : StringView
  source : StringView
  binary : StringView
  stripped : StringView

/-- `bm_source_candidates_for_target` and `bm_source_property_candidates`. -/
def sourceCandidates (sourceDir binaryDir path : StringView) : SourceCandidates where
  direct := normalizePath path
  source := pathRebaseIfNeeded sourceDir path
  binary := pathRebaseIfNeeded binaryDir path
  stripped := pathStripBase (pathRebaseIfNeeded sourceDir path) sourceDir

/-- A candidate that names a file. -/
def namesFile (path : StringView) : Bool := path ≠ [] && path ≠ sv "."

/-- `bm_find_generated_source_mark`. -/
def findGeneratedSourceMark (draft : Draft) (path : StringView) : Option SourceGeneratedMark :=
  draft.generatedSourceMarks.find? (·.path = path)

/-- One round of `bm_resolve_target_source_records`: a path that some step writes goes before a
path that is only marked as generated. -/
def resolveSourceRecord (draft : Draft) (model : Model) (owner : DirectoryRecord)
    (source : TargetSourceRecord) : TargetSourceRecord :=
  let paths := sourceCandidates owner.sourceDir owner.binaryDir source.rawPath
  let producer := findProducerStepIdByPath model
  let mark := findGeneratedSourceMark draft
  let strippedProducer := if namesFile paths.stripped then producer paths.stripped else none
  let strippedMark := if namesFile paths.stripped then mark paths.stripped else none
  let effectivePath :=
    if (producer paths.direct).isSome || (mark paths.direct).isSome then paths.direct
    else if strippedProducer.isSome || strippedMark.isSome then paths.stripped
    else if (producer paths.binary).isSome || (mark paths.binary).isSome then paths.binary
    else paths.source
  let found := (producer paths.direct).or
    (strippedProducer.or ((producer paths.binary).or (producer paths.source)))
  let marked := (mark paths.direct).or
    (strippedMark.or ((mark paths.binary).or (mark paths.source)))
  match found with
  | some id => { source with effectivePath, generated := true, producerStepId := some id }
  | none =>
    { source with effectivePath, generated := (marked.map (·.generated)).getD source.generated }

/-- `bm_resolve_target_source_records`. -/
def resolveTargetSources (draft : Draft) (model : Model) (target : TargetRecord) :
    Freezing TargetRecord := do
  let owner ← indexed model.directories target.ownerDirectoryId
  .ok { target with sourceRecords := target.sourceRecords.map (resolveSourceRecord draft model owner) }

/-- One mark of `bm_apply_generated_source_marks`. -/
def applyGeneratedMark (target : TargetRecord) (mark : SourceGeneratedMark) : TargetRecord :=
  { target with
    sourceRecords := target.sourceRecords.map fun source =>
      if source.effectivePath = mark.path then
        { source with generated := mark.generated || source.generated }
      else source }

/-- `bm_source_property_matches_target_source`. -/
def sourcePropertyMatches (owner : DirectoryRecord) (source : TargetSourceRecord)
    (mutation : SourcePropertyMutation) : Bool :=
  let list := fun paths : SourceCandidates =>
    [paths.direct, paths.source, paths.binary, paths.stripped].filter namesFile
  let ofSource := list (sourceCandidates owner.sourceDir owner.binaryDir source.rawPath)
  let ofMutation := list
    (sourceCandidates mutation.directorySourceDir mutation.directoryBinaryDir mutation.path)
  ofSource.any (· ∈ ofMutation)

/-- The operation of a mutation as the item lists take it. -/
def MutateOp.toPropertyOp : MutateOp → PropertyOp
  | .set => .set
  | .appendList => .appendList
  | .appendString => .appendString
  | .prependList => .prependList

/-- `bm_source_property_apply_item_mutation`, with the values of `bm_source_property_apply`. -/
def mutateSourceItems (mutation : SourcePropertyMutation) (dest : List StringItem) :
    List StringItem :=
  let values :=
    if mutation.op = .appendString then [mutation.value] else splitCmakeList mutation.value
  let items := values.map fun value =>
    ({ value
       visibility := .privateItem
       before := mutation.op = .prependList
       filePath := mutation.filePath } : StringItem)
  applyItemMutation dest items mutation.op.toPropertyOp

/-- `bm_source_property_apply`. -/
def applySourceProperty (mutation : SourcePropertyMutation) (source : TargetSourceRecord) :
    TargetSourceRecord :=
  let named := fun (name : String) => svEqCiQuery mutation.key (sv name)
  let record : RawPropertyRecord :=
    { name := mutation.key, op := mutation.op, items := [mutation.value] }
  let source := { source with rawProperties := source.rawProperties ++ [record] }
  if named "GENERATED" then { source with generated := svTruthy mutation.value }
  else if named "HEADER_FILE_ONLY" then { source with headerFileOnly := svTruthy mutation.value }
  else if named "LANGUAGE" then { source with language := mutation.value }
  else if named "COMPILE_DEFINITIONS" then
    { source with compileDefinitions := mutateSourceItems mutation source.compileDefinitions }
  else if named "COMPILE_OPTIONS" then
    { source with compileOptions := mutateSourceItems mutation source.compileOptions }
  else if named "INCLUDE_DIRECTORIES" then
    { source with includeDirectories := mutateSourceItems mutation source.includeDirectories }
  else source

/-- One mutation of `bm_apply_source_property_mutations` on one target. -/
def mutateTargetSources (model : Model) (mutation : SourcePropertyMutation)
    (target : TargetRecord) : Freezing TargetRecord := do
  let owner ← indexed model.directories target.ownerDirectoryId
  .ok { target with
    sourceRecords := target.sourceRecords.map fun source =>
      if sourcePropertyMatches owner source mutation then applySourceProperty mutation source
      else source }

/-- One round of `bm_populate_target_file_sets`. -/
def populateTargetFileSets (target : TargetRecord) : TargetRecord :=
  { target with
    fileSets := target.fileSets.map fun fileSet =>
      let members := target.sourceRecords.zipIdx.filter (·.1.fileSetName = fileSet.name)
      { fileSet with
        sourceIndices := fileSet.sourceIndices ++ members.map (·.2)
        rawFiles := fileSet.rawFiles ++ members.map (·.1.rawPath)
        effectiveFiles := fileSet.effectiveFiles ++ members.map (·.1.effectivePath) } }

/-! ## The passes -/

/-- A pass over the targets. -/
def overTargets (pass : TargetRecord → Freezing TargetRecord) (model : Model) : Freezing Model := do
  let targets ← model.targets.mapM pass
  .ok { model with targets }

/-- A pass over the build steps. -/
def overSteps (pass : BuildStepRecord → Freezing BuildStepRecord) (model : Model) :
    Freezing Model := do
  let buildSteps ← model.buildSteps.mapM pass
  .ok { model with buildSteps }

/-- `bm_promote_custom_target_kinds`. -/
def freezePromote (model : Model) : Freezing Model :=
  match promoteCustomTargetKinds model with
  | some promoted => .ok promoted
  | none => silently

/-- `bm_resolve_target_source_records` and `bm_apply_generated_source_marks`. -/
def freezeSources (draft : Draft) (model : Model) : Freezing Model := do
  let model ← overTargets (resolveTargetSources draft model) model
  overTargets (fun target => .ok (draft.generatedSourceMarks.foldl applyGeneratedMark target)) model

/-- `bm_apply_source_property_mutations`. -/
def freezeSourceMutations (draft : Draft) (model : Model) : Freezing Model :=
  draft.sourcePropertyMutations.foldlM (fun model mutation =>
    overTargets (mutateTargetSources model mutation) model) model

/-- The passes from `bm_resolve_build_step_effective_paths` to `bm_populate_target_file_sets`. -/
def resolveModel (draft : Draft) (model : Model) : Freezing Model := do
  let model ← overSteps (freezeEffectivePaths draft model) model
  let model ← freezeLinkItems draft model
  let model ← overTargets (fun target => .ok (materializeImportedTarget model target)) model
  let model ← freezePromote model
  let model ← overSteps (freezeStepDependencies draft model) model
  let model ← freezeSources draft model
  let model ← freezeSourceMutations draft model
  overTargets (fun target => .ok (populateTargetFileSets target)) model

/-! ## Known configurations -/

/-- `bm_known_config_canonical_name`. -/
def knownConfigCanonicalName (config : StringView) : StringView :=
  if svEqCiQuery config (sv "DEBUG") then sv "Debug"
  else if svEqCiQuery config (sv "RELEASE") then sv "Release"
  else if svEqCiQuery config (sv "RELWITHDEBINFO") then sv "RelWithDebInfo"
  else if svEqCiQuery config (sv "MINSIZEREL") then sv "MinSizeRel"
  else config

/-- `bm_known_config_should_replace`: a spelling with a lower-case letter is preferred. -/
def knownConfigShouldReplace (existing candidate : StringView) : Bool :=
  !existing.any Char.isLower && candidate.any Char.isLower

/-- The entry that `bm_known_configs_push_unique_ci` leaves where it finds the configuration. -/
def knownConfigSpelling (config existing : StringView) : StringView :=
  if knownConfigCanonicalName existing ≠ existing then knownConfigCanonicalName existing
  else if knownConfigShouldReplace existing config then config
  else existing

/-- `bm_known_configs_push_unique_ci`. -/
def pushKnownConfig (configs : List StringView) (config : StringView) : List StringView :=
  if config = [] then configs
  else
    let config := knownConfigCanonicalName config
    (modifyFirst (svEqCiQuery · config) (knownConfigSpelling config) configs).getD
      (configs ++ [config])

/-- A string to look into, or the name of a configuration. -/
inductive ConfigSource where
  | scanned (text : StringView)
  | named (config : StringView)

/-- What `bm_collect_known_configurations` does with one string. -/
def collectConfigSource (configs : List StringView) : ConfigSource → List StringView
  | .scanned text => Genex.collectKnownConfigs text configs
  | .named config => pushKnownConfig configs config

/-- `bm_known_configs_scan_item_array` and `bm_known_configs_scan_link_item_array`. -/
def itemSources (items : List StringItem) : List ConfigSource := items.map (.scanned ·.value)

/-- `bm_known_configs_scan_raw_properties`. -/
def rawPropertySources (properties : List RawPropertyRecord) : List ConfigSource :=
  properties.flatMap fun property => property.items.map .scanned

/-- The names of artifact properties that end with a configuration. -/
def configPrefixes : List String :=
  ["OUTPUT_NAME_", "ARCHIVE_OUTPUT_NAME_", "LIBRARY_OUTPUT_NAME_", "RUNTIME_OUTPUT_NAME_",
    "ARCHIVE_OUTPUT_DIRECTORY_", "LIBRARY_OUTPUT_DIRECTORY_", "RUNTIME_OUTPUT_DIRECTORY_"]

/-- The names of artifact properties that start with a configuration. -/
def legacySuffixes : List String :=
  ["_OUTPUT_NAME", "_ARCHIVE_OUTPUT_NAME", "_LIBRARY_OUTPUT_NAME", "_RUNTIME_OUTPUT_NAME"]

/-- `bm_known_configs_scan_artifact_property_name`. -/
def artifactNameSources (name : StringView) : List ConfigSource :=
  (configPrefixes.filterMap fun start =>
    let size := (sv start).length
    if size < name.length && svEqCiQuery (name.take size) (sv start) then
      some (.named (name.drop size))
    else none) ++
  (legacySuffixes.filterMap fun ending =>
    let rest := name.length - (sv ending).length
    if 0 < rest && svEqCiQuery (name.drop rest) (sv ending) then some (.named (name.take rest))
    else none)

/-- The strings of a global state or a directory. -/
def usageSources (usage : UsageItems) : List ConfigSource :=
  itemSources usage.includeDirectories ++ itemSources usage.systemIncludeDirectories ++
    itemSources usage.compileDefinitions ++ itemSources usage.compileOptions ++
    itemSources usage.linkOptions ++ itemSources usage.linkDirectories ++
    itemSources (usage.linkLibraries.map LinkItem.toStringItem) ++
    rawPropertySources usage.rawProperties

/-- The strings of a directory, in the order of its own loop. -/
def directorySources (directory : DirectoryRecord) : List ConfigSource :=
  itemSources directory.includeDirectories ++ itemSources directory.systemIncludeDirectories ++
    itemSources (directory.linkLibraries.map LinkItem.toStringItem) ++
    itemSources directory.linkDirectories ++ itemSources directory.compileDefinitions ++
    itemSources directory.compileOptions ++ itemSources directory.linkOptions ++
    rawPropertySources directory.rawProperties

/-- The strings of a source of a target. -/
def sourceRecordSources (source : TargetSourceRecord) : List ConfigSource :=
  itemSources source.compileDefinitions ++ itemSources source.compileOptions ++
    itemSources source.includeDirectories ++ rawPropertySources source.rawProperties

/-- The strings of a target. -/
def targetSources (target : TargetRecord) : List ConfigSource :=
  itemSources target.includeDirectories ++ itemSources target.compileDefinitions ++
    itemSources target.compileOptions ++ itemSources target.compileFeatures ++
    itemSources (target.linkLibraries.map LinkItem.toStringItem) ++
    itemSources target.linkOptions ++ itemSources target.linkDirectories ++
    target.artifactProperties.flatMap (fun property =>
      artifactNameSources property.name ++ [.scanned property.value]) ++
    rawPropertySources target.rawProperties ++
    target.sourceRecords.flatMap sourceRecordSources ++
    target.importedConfigs.map (.named ·.config) ++
    target.importedConfigMaps.flatMap (fun map =>
      .named map.config :: map.mappedConfigs.map .named)

/-- The strings of an install rule. -/
def installRuleSources (rule : InstallRuleRecord) : List ConfigSource :=
  [rule.item, rule.destination, rule.rename, rule.archiveDestination, rule.libraryDestination,
    rule.runtimeDestination, rule.includesDestination, rule.publicHeaderDestination].map .scanned

/-- The strings of an export. -/
def exportSources (record : ExportRecord) : List ConfigSource :=
  [record.outputFilePath, record.destination, record.fileName, record.cxxModulesDirectory].map
    .scanned

/-- The strings of a replay action. -/
def replaySources (action : ReplayActionRecord) : List ConfigSource :=
  (action.workingDirectory :: action.inputs ++ action.outputs ++ action.argv ++
    action.environment).map .scanned

/-- The strings of a build step. -/
def stepSources (step : BuildStepRecord) : List ConfigSource :=
  (step.workingDirectory :: step.depfile :: step.comment :: step.rawOutputs ++
    step.rawByproducts ++ step.rawDependencyTokens ++ step.commands.flatten).map .scanned

/-- The strings of a model, in the order of `bm_collect_known_configurations`. -/
def FrozenModel.configSources (model : FrozenModel) : List ConfigSource :=
  usageSources model.globalProperties ++ model.directories.flatMap directorySources ++
    model.targets.flatMap targetSources ++
    model.tests.flatMap (·.configurations.map .named) ++
    model.installRules.flatMap installRuleSources ++
    model.exports.flatMap exportSources ++
    model.replayActions.flatMap replaySources ++
    model.buildSteps.flatMap stepSources

/-- `bm_collect_known_configurations`. -/
def collectKnownConfigurations (model : FrozenModel) : List StringView :=
  model.configSources.foldl collectConfigSource []

/-! ## The execution graph -/

/-- The paths that are written twice, each with the hint for its kind: the loops of
`bm_validate_duplicate_step_producers` for one list of paths of a step. -/
def duplicateProducers (model : Model) (index : Nat) (paths : List StringView)
    (own : BuildStepRecord → List StringView) (other : BuildStepRecord → List StringView)
    (ownFirst : Bool) (cause ownHint otherHint : String) : List Diagnostic :=
  paths.zipIdx.flatMap fun (path, position) =>
    model.buildSteps.zipIdx.flatMap fun (step, stepIndex) =>
      let start := if stepIndex = index then position + 1 else 0
      let again := ((own step).drop start).flatMap fun written =>
        errorIf (path = written) "freeze" cause ownHint
      let crossed := (other step).flatMap fun written =>
        errorIf (path = written) "freeze" cause otherHint
      if ownFirst then again ++ crossed else crossed ++ again

/-- `bm_validate_duplicate_step_producers`. -/
def validateDuplicateStepProducers (model : Model) : List Diagnostic :=
  model.buildSteps.zipIdx.flatMap fun (step, index) =>
    duplicateProducers model index step.effectiveOutputs BuildStepRecord.effectiveOutputs
      BuildStepRecord.effectiveByproducts true
      "duplicate build-step producer for effective output path"
      "ensure each effective output path is owned by exactly one build step"
      "ensure outputs and byproducts do not overlap across producer steps" ++
    duplicateProducers model index step.effectiveByproducts BuildStepRecord.effectiveByproducts
      BuildStepRecord.effectiveOutputs false
      "duplicate build-step producer for effective byproduct path"
      "ensure each effective byproduct path is owned by exactly one build step"
      "ensure byproducts do not overlap with effective outputs"

/-- `bm_target_kind_is_hook_owner`. -/
def TargetKind.isHookOwner : TargetKind → Bool
  | .executable | .staticLibrary | .sharedLibrary | .moduleLibrary => true
  | _ => false

/-- One round of `bm_validate_step_owner_contracts`. -/
def validateStepOwnerContract (model : Model) (step : BuildStepRecord) : List Diagnostic :=
  let owner := step.ownerTargetId.bind (model.targets[·]?)
  let isLocal := fun target : TargetRecord => !target.isAlias && !target.imported
  if step.ownerTargetId.isSome && owner.isNone then
    errorIf true "freeze" "build step owner target id is invalid"
      "freeze must only preserve resolved owner target ids"
  else
    match step.kind with
    | .outputRule => []
    | .customTarget =>
      errorIf (!owner.any fun target => target.kind = .utility && isLocal target) "freeze"
        "custom-target build step must belong to a local utility target"
        "attach custom-target execution only to non-alias, non-imported utility targets"
    | _ =>
      errorIf (!owner.any fun target => target.kind.isHookOwner && isLocal target) "freeze"
        "target hook build step must belong to a concrete local build target"
        "attach PRE_BUILD/PRE_LINK/POST_BUILD only to local executable or library targets"

/-- One round of `bm_validate_target_source_producers`. -/
def validateSourceProducer (model : Model) (source : TargetSourceRecord) : List Diagnostic :=
  match source.producerStepId with
  | none => []
  | some id =>
    match model.buildSteps[id]? with
    | none =>
      errorIf true "freeze" "target source points at an invalid producer step id"
        "fix producer-step linkage during freeze resolution"
    | some producer =>
      errorIf (!(source.generated && source.effectivePath ∈ producer.writes)) "freeze"
        "target source producer step does not own the effective generated path"
        "link generated sources only to build steps that produce the effective path"

/-- The checks of `bm_validate_execution_graph` before the search for cycles. -/
def validateProducers (model : Model) : List Diagnostic :=
  validateDuplicateStepProducers model ++
    model.buildSteps.flatMap (validateStepOwnerContract model) ++
    model.targets.flatMap fun target => target.sourceRecords.flatMap (validateSourceProducer model)

/-- The errors of `bm_exec_visit_edge`. -/
def cycleErrors (trail : Lib.Trail OrderNode) : List Diagnostic :=
  trail.reports.flatMap fun _ =>
    errorIf true "freeze" "execution dependency cycle detected in frozen build graph"
      "break the cycle between targets and build steps before code generation"

/-- `bm_validate_execution_cycles_for_context` with what it reports, also when a view query fails.
The search of the source runs along the edges of `execEdges`, which do not depend on the path. -/
def traceExecutionCycles (genexEval : GenexEval) (model : Model) (ctx : QueryContext) :
    Except (List Diagnostic) (List Diagnostic) :=
  let nodes := execNodes model
  match Lib.traceFrom (execEdges genexEval model ctx) nodes.length nodes .start with
  | .ok trail => .ok (cycleErrors trail)
  | .error trail => .error (cycleErrors trail)

/-- `bm_validate_execution_graph`: what it reports, and whether it returns `true`. -/
def validateExecutionGraph (genexEval : GenexEval) (model : Model) :
    Except (List Diagnostic) (List Diagnostic) :=
  (model.knownConfigurations ++ [[]]).foldlM (fun reported config =>
    match traceExecutionCycles genexEval model (freezeContext config) with
    | .ok more => .ok (reported ++ more)
    | .error more => .error (reported ++ more)) (validateProducers model)

/-! ## Freeze -/

/-- The model before the execution graph is checked. -/
def freezeModel (draft : Draft) : Freezing FrozenModel := do
  freezeCheckInvariants draft
  let copied ← cloneDraft draft
  let resolved ← resolveModel draft copied.toModel
  let model : FrozenModel := { copied with toModel := resolved }
  .ok { model with knownConfigurations := collectKnownConfigurations model }

/-- `bm_freeze_draft`. -/
def freezeDraft (genexEval : GenexEval) (draft : Draft) : Freezing FrozenModel := do
  let model ← freezeModel draft
  match validateExecutionGraph genexEval model.toModel with
  | .ok [] => .ok model
  | .ok reported => .error (.failed reported)
  | .error reported => .error (.failed reported)

end Nobify.BuildModel
