import Nobify.BuildModel.BuildEvent

/-!
# The builder

`bm_builder_apply_event` and its handlers. A handler either changes the draft or reports an error;
an error is fatal, and the builder then takes no further event. Every failing path goes through
`bm_builder_error`. Running out of memory is not modelled, so what a handler reports here is what
the event itself makes it report.
-/

namespace Nobify.BuildModel

open Evaluator (CmakeVisibility UsageFamily PropertyOp ItemEntry PropSetEvent)

/-- What a handler passes to `bm_builder_error`. -/
structure BuilderError where
  cause : String
  hint : String

/-- The result of a handler. -/
abbrev Handled := Except BuilderError

/-- `bm_builder_error`. -/
def builderError {α : Type} (cause hint : String) : Handled α := .error { cause, hint }

/-- The active directory, or the error of an event that needs one. -/
def activeDirectory (current : Option DirectoryId) (cause hint : String) : Handled DirectoryId :=
  match current with
  | some id => .ok id
  | none => builderError cause hint

/-- The first record that matches is changed in place. -/
def modifyFirst {α : Type} (selects : α → Bool) (change : α → α) (records : List α) :
    Option (List α) :=
  (records.findIdx? selects).map fun index => records.modify index change

/-- `bm_split_cmake_list`: the parts between semicolons, trimmed, without the empty ones. -/
def splitCmakeList (raw : StringView) : List StringView :=
  ((raw.splitOn ';').map svTrim).filter (· ≠ [])

/-- `bm_sv_truthy`. -/
def svTruthy (text : StringView) : Bool :=
  svEqCi text (sv "1") || svEqCi text (sv "on") || svEqCi text (sv "yes") ||
    svEqCi text (sv "true") || svEqCi text (sv "y")

/-- `bm_target_property_op_from_event`, and the cast of the operation of a source property. -/
def mutateOpFromEvent : PropertyOp → MutateOp
  | .set => .set
  | .appendList => .appendList
  | .appendString => .appendString
  | .prependList => .prependList

/-! ## Project -/

/-- `bm_builder_handle_project_event`. -/
def handleProjectEvent (draft : Draft) : ProjectEvent → Draft
  | .declare name version description homepageUrl languages =>
    let project : ProjectRecord :=
      { draft.project with
        present := true, name, version, description, homepageUrl
        languages := splitCmakeList languages }
    { draft with project }
  | .minimumRequired version fatalIfTooOld =>
    let project : ProjectRecord :=
      { draft.project with
        minimumRequiredVersion := version, minimumRequiredFatalIfTooOld := fatalIfTooOld }
    { draft with project }

/-! ## Directories -/

/-- The items of `bm_directory_apply_mutation`: the typed items when there are any, else the plain
ones. -/
def mutationItems (filePath : StringView) (mutation : PropertyMutation) : List StringItem :=
  let before := mutation.before || mutation.op = .prependList
  let system := mutation.system
  let item := fun (value, semantic) =>
    { value, visibility := .privateItem, before, system, filePath, semantic }
  if mutation.typedItems = [] then mutation.items.map fun value => item (value, {})
  else mutation.typedItems.map item

/-- The items of `bm_directory_apply_link_mutation`: only the typed items count. -/
def mutationLinkItems (filePath : StringView) (mutation : PropertyMutation) : List LinkItem :=
  let before := mutation.before || mutation.op = .prependList
  mutation.typedItems.map fun (value, semantic) =>
    unresolvedLinkItem
      { value, visibility := .privateItem, before, system := mutation.system, filePath, semantic }

/-- `bm_record_raw_property` of a mutation. -/
def mutationRawProperty (mutation : PropertyMutation) : RawPropertyRecord where
  name := mutation.propertyName
  op := mutateOpFromEvent mutation.op
  before := mutation.before
  system := mutation.system
  items := mutation.items

/-- `bm_apply_property_event`. -/
def applyPropertyEvent (filePath : StringView) (mutation : PropertyMutation) (usage : UsageItems) :
    UsageItems :=
  let named := fun property => svEqCi mutation.propertyName (sv property)
  let mutate := fun dest : List StringItem =>
    applyItemMutation dest (mutationItems filePath mutation) mutation.op
  let raw := usage.rawProperties ++ [mutationRawProperty mutation]
  if named "INCLUDE_DIRECTORIES" then
    if mutation.system then
      { usage with systemIncludeDirectories := mutate usage.systemIncludeDirectories }
    else { usage with includeDirectories := mutate usage.includeDirectories }
  else if named "LINK_DIRECTORIES" then
    { usage with linkDirectories := mutate usage.linkDirectories }
  else if named "LINK_LIBRARIES" then
    let linkItems := mutationLinkItems filePath mutation
    { usage with
      linkLibraries := applyItemMutation usage.linkLibraries linkItems mutation.op
      rawProperties := raw }
  else if named "COMPILE_DEFINITIONS" then
    { usage with compileDefinitions := mutate usage.compileDefinitions }
  else if named "COMPILE_OPTIONS" then
    { usage with compileOptions := mutate usage.compileOptions }
  else if named "LINK_OPTIONS" then
    { usage with linkOptions := mutate usage.linkOptions }
  else { usage with rawProperties := raw }

/-- `bm_builder_handle_directory_event`, on the draft and the directory stack, innermost first. -/
def handleDirectoryEvent (filePath : StringView) (draft : Draft) (stack : List DirectoryId) :
    DirectoryEvent → Handled (Draft × List DirectoryId)
  | .enter sourceDir binaryDir =>
    let id := draft.directories.length
    let directory : DirectoryRecord :=
      { id, parentId := stack.head?, ownerDirectoryId := some id, sourceDir, binaryDir }
    let rootDirectoryId := draft.rootDirectoryId.or (some id)
    .ok ({ draft with directories := draft.directories ++ [directory], rootDirectoryId },
      id :: stack)
  | .leave sourceDir binaryDir => do
    let id ← activeDirectory stack.head? "directory leave without an active directory"
      "emit matched directory enter/leave pairs"
    match draft.directories[id]? with
    | none =>
      builderError "directory leave does not match active directory frame"
        "preserve exact enter/leave nesting"
    | some current =>
      if current.sourceDir = sourceDir ∧ current.binaryDir = binaryDir then
        .ok (draft, stack.tail)
      else
        builderError "directory leave does not match active directory frame"
          "preserve exact enter/leave nesting"
  | .propertyMutate mutation => do
    let id ← activeDirectory stack.head? "directory property mutation without an active directory"
      "emit directory enter before mutating directory properties"
    let change := fun directory : DirectoryRecord =>
      { directory with toUsageItems := applyPropertyEvent filePath mutation directory.toUsageItems }
    .ok ({ draft with directories := draft.directories.modify id change }, stack)
  | .globalPropertyMutate mutation =>
    let globalProperties := applyPropertyEvent filePath mutation draft.globalProperties
    .ok ({ draft with globalProperties }, stack)

/-! ## Targets -/

/-- `bm_target_kind_from_event`. -/
def targetKindFromEvent : CmakeTargetType → TargetKind
  | .executable => .executable
  | .libraryStatic => .staticLibrary
  | .libraryShared => .sharedLibrary
  | .libraryModule => .moduleLibrary
  | .libraryInterface => .interfaceLibrary
  | .libraryObject => .objectLibrary
  | .libraryUnknown => .unknownLibrary

/-- The record and the index entry of a new target, as `bm_target_ensure_placeholder` appends them
for a name that is not known. The alias id is still the zero the record was cleared to. -/
def appendPlaceholder (draft : Draft) (owner : DirectoryId) (name : StringView) : Draft :=
  let id := draft.targets.length
  let target : TargetRecord :=
    { id, name, ownerDirectoryId := some owner, kind := .utility, aliasOfId := some 0 }
  { draft with
    targets := draft.targets ++ [target]
    targetNameIndex := draft.targetNameIndex ++ [(name, id)] }

/-- The record of a known target is changed in place. -/
def modifyTarget (draft : Draft) (name : StringView) (change : TargetRecord → TargetRecord) :
    Option Draft :=
  (draft.findTargetId name).map fun id =>
    { draft with targets := draft.targets.modify id change }

/-- The record after its declaration. -/
def declareTarget (owner : DirectoryId) (targetType : CmakeTargetType) (imported isAlias : Bool)
    (aliasOf : StringView) (target : TargetRecord) : TargetRecord :=
  { target with
    ownerDirectoryId := some owner
    kind := targetKindFromEvent targetType
    imported
    importedGlobal := imported && target.importedGlobal
    isAlias
    aliasGlobal := false
    declared := true
    aliasOfId := none
    aliasOfName := aliasOf }

/-- `bm_target_artifact_property_is_supported`. -/
def artifactPropertyIsSupported (key : StringView) : Bool :=
  let exactKeys := [sv "OUTPUT_NAME", sv "PREFIX", sv "SUFFIX", sv "ARCHIVE_OUTPUT_NAME",
    sv "LIBRARY_OUTPUT_NAME", sv "RUNTIME_OUTPUT_NAME", sv "ARCHIVE_OUTPUT_DIRECTORY",
    sv "LIBRARY_OUTPUT_DIRECTORY", sv "RUNTIME_OUTPUT_DIRECTORY"]
  let configPrefixes := [sv "OUTPUT_NAME_", sv "ARCHIVE_OUTPUT_NAME_", sv "LIBRARY_OUTPUT_NAME_",
    sv "RUNTIME_OUTPUT_NAME_", sv "ARCHIVE_OUTPUT_DIRECTORY_", sv "LIBRARY_OUTPUT_DIRECTORY_",
    sv "RUNTIME_OUTPUT_DIRECTORY_"]
  let legacySuffixes := [sv "_OUTPUT_NAME", sv "_ARCHIVE_OUTPUT_NAME", sv "_LIBRARY_OUTPUT_NAME",
    sv "_RUNTIME_OUTPUT_NAME"]
  exactKeys.any (svEqCi key) || configPrefixes.any (fun head =>
      head.length < key.length && svEqCi (key.take head.length) head) ||
    legacySuffixes.any (fun tail =>
      tail.length < key.length && svEqCi (key.drop (key.length - tail.length)) tail)

/-- `bm_target_record_artifact_property` for a supported key: the first record of that name is
replaced, else one is appended. -/
def recordArtifactProperty (key value : StringView) (target : TargetRecord) : TargetRecord :=
  let record : ArtifactPropertyRecord := { name := key, value }
  let replaced := modifyFirst (fun found : ArtifactPropertyRecord => svEqCi found.name key)
    (fun _ => record) target.artifactProperties
  { target with artifactProperties := replaced.getD (target.artifactProperties ++ [record]) }

/-- A property key that stands for a part of an item list: the list, whether it is the
`INTERFACE_` form, and the system flag. -/
structure PromotedKey where
  list : TargetItemList
  isInterface : Bool := false
  system : Bool := false

/-- The keys of `bm_target_promote_property_set`. -/
def promotedKey (key : StringView) : Option PromotedKey :=
  let named := fun property => svEqCi key (sv property)
  if named "INCLUDE_DIRECTORIES" then some { list := .usage .includeDirectories }
  else if named "INTERFACE_INCLUDE_DIRECTORIES" then
    some { list := .usage .includeDirectories, isInterface := true }
  else if named "INTERFACE_SYSTEM_INCLUDE_DIRECTORIES" then
    some { list := .usage .includeDirectories, isInterface := true, system := true }
  else if named "COMPILE_DEFINITIONS" then some { list := .usage .compileDefinitions }
  else if named "INTERFACE_COMPILE_DEFINITIONS" then
    some { list := .usage .compileDefinitions, isInterface := true }
  else if named "COMPILE_OPTIONS" then some { list := .usage .compileOptions }
  else if named "INTERFACE_COMPILE_OPTIONS" then
    some { list := .usage .compileOptions, isInterface := true }
  else if named "COMPILE_FEATURES" then some { list := .compileFeatures }
  else if named "INTERFACE_COMPILE_FEATURES" then
    some { list := .compileFeatures, isInterface := true }
  else if named "LINK_LIBRARIES" then some { list := .usage .linkLibraries }
  else if named "INTERFACE_LINK_LIBRARIES" then
    some { list := .usage .linkLibraries, isInterface := true }
  else if named "LINK_OPTIONS" then some { list := .usage .linkOptions }
  else if named "INTERFACE_LINK_OPTIONS" then
    some { list := .usage .linkOptions, isInterface := true }
  else if named "LINK_DIRECTORIES" then some { list := .usage .linkDirectories }
  else if named "INTERFACE_LINK_DIRECTORIES" then
    some { list := .usage .linkDirectories, isInterface := true }
  else none

/-- The change that `bm_target_promote_property_set` makes to the list of a promoted key. -/
def promoteTargetProperty (filePath : StringView) (key : PromotedKey) (op : PropertyOp)
    (typedItems : List (StringView × LinkItemMetadata)) (target : TargetRecord) : TargetRecord :=
  let visibility := if key.isInterface then Visibility.interfaceItem else .privateItem
  let items := typedItems.map fun (value, semantic) =>
    { value, visibility, system := key.system, filePath, semantic : StringItem }
  let mutate := fun dest : List StringItem =>
    applyPromotedItemMutation id dest items op visibility key.system
  match key.list with
  | .usage .includeDirectories =>
    { target with includeDirectories := mutate target.includeDirectories }
  | .usage .compileDefinitions =>
    { target with compileDefinitions := mutate target.compileDefinitions }
  | .usage .compileOptions => { target with compileOptions := mutate target.compileOptions }
  | .usage .linkOptions => { target with linkOptions := mutate target.linkOptions }
  | .usage .linkDirectories => { target with linkDirectories := mutate target.linkDirectories }
  | .usage .linkLibraries =>
    let linkLibraries := applyPromotedItemMutation LinkItem.toStringItem target.linkLibraries
      (items.map unresolvedLinkItem) op visibility key.system
    { target with linkLibraries }
  | .compileFeatures => { target with compileFeatures := mutate target.compileFeatures }

/-- The two import flags follow their properties, which are kept as raw properties as well. -/
def setImportFlags (property : TargetPropSet) (target : TargetRecord) : TargetRecord :=
  let truthy := svTruthy property.value
  if svEqCi property.key (sv "IMPORTED") then
    { target with imported := truthy, importedGlobal := truthy && target.importedGlobal }
  else if svEqCi property.key (sv "IMPORTED_GLOBAL") then { target with importedGlobal := truthy }
  else target

/-- `bm_target_record_raw_set`. -/
def recordRawSet (property : TargetPropSet) (target : TargetRecord) : TargetRecord :=
  let raw : RawPropertyRecord :=
    { name := property.key, op := mutateOpFromEvent property.op, items := [property.value] }
  { target with rawProperties := target.rawProperties ++ [raw] }

/-- A property that is promoted goes to its item list, any other becomes a raw property. -/
def promoteOrRecord (filePath : StringView) (property : TargetPropSet) (target : TargetRecord) :
    TargetRecord :=
  match promotedKey property.key with
  | some key =>
    if property.op = .appendString then recordRawSet property target
    else promoteTargetProperty filePath key property.op property.typedItems target
  | none => recordRawSet property target

/-- `EVENT_TARGET_PROP_SET` on the record of its target. -/
def setTargetProperty (filePath : StringView) (property : TargetPropSet) (target : TargetRecord) :
    TargetRecord :=
  let named := fun key => svEqCi property.key (sv key)
  let truthy := svTruthy property.value
  if artifactPropertyIsSupported property.key ∧ property.op ≠ .appendString then
    recordArtifactProperty property.key property.value target
  else if named "FOLDER" then { target with folder := property.value }
  else if named "EXCLUDE_FROM_ALL" then { target with excludeFromAll := truthy }
  else if named "WIN32_EXECUTABLE" then { target with win32Executable := truthy }
  else if named "MACOSX_BUNDLE" then { target with macosxBundle := truthy }
  else promoteOrRecord filePath property (setImportFlags property target)

/-- `bm_target_append_item` and `bm_target_append_link_item` as the target events call them. -/
def appendTargetItem (filePath : StringView) (list : TargetItemList) (entry : ItemEntry)
    (target : TargetRecord) : TargetRecord :=
  let plain : StringItem := { entryItem entry false false with filePath }
  let placed : StringItem := { entryItem entry entry.isBefore false with filePath }
  let included : StringItem := { entryItem entry entry.isBefore entry.isSystem with filePath }
  let append := fun dest : List StringItem => applyItemMutation dest [plain] .appendList
  let place := fun (dest : List StringItem) item =>
    applyItemMutation dest [item] (entryMutation entry)
  match list with
  | .usage .linkLibraries =>
    let linkLibraries := applyItemMutation target.linkLibraries [unresolvedLinkItem plain]
      .appendList
    { target with linkLibraries }
  | .usage .linkOptions => { target with linkOptions := place target.linkOptions placed }
  | .usage .linkDirectories => { target with linkDirectories := append target.linkDirectories }
  | .usage .includeDirectories =>
    { target with includeDirectories := place target.includeDirectories included }
  | .usage .compileDefinitions =>
    { target with compileDefinitions := append target.compileDefinitions }
  | .usage .compileOptions => { target with compileOptions := place target.compileOptions placed }
  | .compileFeatures => { target with compileFeatures := append target.compileFeatures }

/-- The source record and, for a regular source that is not an interface source, the entry of
`sources`. -/
def addTargetSource (path : StringView) (visibility : CmakeVisibility)
    (sourceKind : TargetSourceKind) (fileSetName : StringView) (target : TargetRecord) :
    TargetRecord :=
  let record : TargetSourceRecord :=
    { kind := sourceKind, visibility := visibilityFromEvent visibility, rawPath := path
      fileSetName }
  let sources :=
    if sourceKind = .regular ∧ visibility ≠ .interfaceItem then target.sources ++ [path]
    else target.sources
  { target with sources, sourceRecords := target.sourceRecords ++ [record] }

/-- A file set of the name is appended if there is none: `bm_target_ensure_file_set`. -/
def ensureFileSet (name : StringView) (fileSets : List FileSetRecord) : List FileSetRecord :=
  if fileSets.any (fun set => set.name = name) then fileSets else fileSets ++ [{ name := name }]

/-- The errors of the events that name a target. -/
def unknownTarget : TargetChange → BuilderError
  | .addSource .. => ⟨"target source references an unknown target",
      "declare the target before adding sources"⟩
  | .fileSetDeclare .. => ⟨"target file set references an unknown target",
      "declare the target before file sets"⟩
  | .fileSetAddBaseDir .. => ⟨"target file set base dir references an unknown target",
      "declare the target before file sets"⟩
  | .addDependency _ => ⟨"target dependency references an unknown target",
      "declare the target before adding dependencies"⟩
  | .item (.usage .linkLibraries) _ => ⟨"target link libraries references an unknown target",
      "declare the target first"⟩
  | .item (.usage .linkOptions) _ => ⟨"target link options references an unknown target",
      "declare the target first"⟩
  | .item (.usage .linkDirectories) _ => ⟨"target link directories references an unknown target",
      "declare the target first"⟩
  | .item (.usage .includeDirectories) _ =>
    ⟨"target include directories references an unknown target", "declare the target first"⟩
  | .item (.usage .compileDefinitions) _ =>
    ⟨"target compile definitions references an unknown target", "declare the target first"⟩
  | .item (.usage .compileOptions) _ => ⟨"target compile options references an unknown target",
      "declare the target first"⟩
  | .item .compileFeatures _ => ⟨"target compile features references an unknown target",
      "declare the target first"⟩

/-- The events that name a target, on its record. -/
def changeTarget (filePath : StringView) (target : TargetRecord) :
    TargetChange → Handled TargetRecord
  | .addSource path visibility sourceKind fileSetName =>
    if fileSetName ≠ [] ∧ !target.fileSets.any (fun set => set.name = fileSetName) then
      builderError "target source references an unknown file set"
        "emit file set declaration before file set members"
    else .ok (addTargetSource path visibility sourceKind fileSetName target)
  | .fileSetDeclare setName setKind visibility =>
    let fileSets := ensureFileSet setName target.fileSets
    let conflicts := fun set : FileSetRecord =>
      set.name ≠ [] ∧ set.baseDirs ≠ [] ∧
        (set.kind ≠ setKind ∨ set.visibility ≠ visibilityFromEvent visibility)
    let declared := fun set : FileSetRecord =>
      { set with kind := setKind, visibility := visibilityFromEvent visibility }
    let selects := fun set : FileSetRecord => decide (set.name = setName)
    if (fileSets.find? selects).any fun set => conflicts set then
      builderError "target file set declaration conflicts with an existing file set"
        "keep repeated file set declarations consistent"
    else .ok { target with fileSets := (modifyFirst selects declared fileSets).getD fileSets }
  | .fileSetAddBaseDir setName path =>
    let selects := fun set : FileSetRecord => decide (set.name = setName)
    let append := fun set : FileSetRecord => { set with baseDirs := set.baseDirs ++ [path] }
    match modifyFirst selects append target.fileSets with
    | some fileSets => .ok { target with fileSets }
    | none =>
      builderError "target file set base dir references an unknown file set"
        "emit file set declaration before base dirs"
  | .addDependency dependencyName =>
    .ok { target with
          explicitDependencyNames := target.explicitDependencyNames ++ [dependencyName] }
  | .item list entry => .ok (appendTargetItem filePath list entry target)

/-- `bm_builder_handle_target_event`. -/
def handleTargetBuildEvent (filePath : StringView) (current : Option DirectoryId) (draft : Draft) :
    TargetEvent → Handled Draft
  | .declare name targetType imported isAlias aliasOf => do
    let owner ← activeDirectory current "target declaration without an active directory"
      "emit directory enter before declaring targets"
    let declared := declareTarget owner targetType imported isAlias aliasOf
    match draft.findTarget name with
    | some target =>
      if target.declared then builderError "duplicate target name" "ensure target names are unique"
      else .ok ((modifyTarget draft name declared).getD draft)
    | none =>
      let draft := appendPlaceholder draft owner name
      .ok ((modifyTarget draft name declared).getD draft)
  | .propSet targetName property =>
    match modifyTarget draft targetName (setTargetProperty filePath property), current with
    | some draft, _ => .ok draft
    | none, some owner =>
      let draft := appendPlaceholder draft owner targetName
      .ok ((modifyTarget draft targetName (setTargetProperty filePath property)).getD draft)
    | none, none =>
      builderError "target property references an unknown target"
        "declare the target before setting properties"
  | .change targetName change =>
    match draft.findTarget targetName with
    | none => .error (unknownTarget change)
    | some target => do
      let changed ← changeTarget filePath target change
      .ok ((modifyTarget draft targetName fun _ => changed).getD draft)

/-! ## Build steps -/

/-- The record of a declared step. -/
def declaredStep (id : BuildStepId) (owner : DirectoryId) (step : StepDeclaration) :
    BuildStepRecord where
  id
  stepKey := step.stepKey
  ownerDirectoryId := some owner
  kind := step.stepKind
  ownerTargetName := step.ownerTargetName
  append := step.append
  verbatim := step.verbatim
  usesTerminal := step.usesTerminal
  commandExpandLists := step.commandExpandLists
  dependsExplicitOnly := step.dependsExplicitOnly
  codegen := step.codegen
  workingDirectory := step.workingDirectory
  comment := step.comment
  mainDependency := step.mainDependency
  depfile := step.depfile
  jobPool := step.jobPool
  jobServerAware := step.jobServerAware

/-- The events that add to a step. -/
def changeStep (change : StepChange) (step : BuildStepRecord) : BuildStepRecord :=
  match change with
  | .addOutput path => { step with rawOutputs := step.rawOutputs ++ [path] }
  | .addByproduct path => { step with rawByproducts := step.rawByproducts ++ [path] }
  | .addPathToken item =>
    { step with
      rawDependencyTokens := step.rawDependencyTokens ++ [item]
      dependencies := step.dependencies ++ [.pathToken item] }
  | .addTargetRef item targetName =>
    { step with
      rawDependencyTokens := step.rawDependencyTokens ++ [item]
      dependencies := step.dependencies ++ [.targetRef targetName none] }
  | .addCommand argv => { step with commands := step.commands ++ [argv] }

/-- `bm_builder_handle_build_graph_event`. -/
def handleBuildGraphEvent (filePath : StringView) (current : Option DirectoryId) (draft : Draft) :
    BuildGraphEvent → Handled Draft
  | .sourceMarkGenerated mark =>
    .ok { draft with generatedSourceMarks := draft.generatedSourceMarks ++ [mark] }
  | .sourcePropertyMutate path directorySourceDir directoryBinaryDir key value op =>
    let record : SourcePropertyMutation :=
      { path, directorySourceDir, directoryBinaryDir, key, value, op := mutateOpFromEvent op
        filePath }
    .ok { draft with sourcePropertyMutations := draft.sourcePropertyMutations ++ [record] }
  | .stepDeclare declaration => do
    let owner ← activeDirectory current "build step declaration without an active directory"
      "emit directory enter before build steps"
    if draft.buildSteps.any fun step => step.stepKey = declaration.stepKey then
      builderError "duplicate build step key" "build step keys must be unique"
    else
      let step := declaredStep draft.buildSteps.length owner declaration
      .ok { draft with buildSteps := draft.buildSteps ++ [step] }
  | .stepChange stepKey change =>
    match modifyFirst (fun step => step.stepKey = stepKey) (changeStep change) draft.buildSteps with
    | some buildSteps => .ok { draft with buildSteps }
    | none =>
      builderError "build step item references an unknown step key"
        "emit build step declaration before step items"

/-! ## Replay actions, tests, install rules, exports and packages -/

/-- The events that add to a replay action. -/
def changeReplayAction (action : ReplayActionRecord) : ReplayChange → Handled ReplayActionRecord
  | .addInput path => .ok { action with inputs := action.inputs ++ [path] }
  | .addOutput path => .ok { action with outputs := action.outputs ++ [path] }
  | .addArgv argIndex value =>
    if argIndex ≠ action.argv.length then
      builderError "replay action argv must be emitted in append order"
        "emit replay argv entries with contiguous zero-based arg_index"
    else .ok { action with argv := action.argv ++ [value] }
  | .addEnv key value =>
    if key = [] then
      builderError "replay action environment entry is missing a key"
        "emit KEY before VALUE for replay env entries"
    else .ok { action with environment := action.environment ++ [key ++ '=' :: value] }

/-- `bm_builder_handle_replay_event`. -/
def handleReplayEvent (current : Option DirectoryId) (draft : Draft) : ReplayEvent → Handled Draft
  | .declare declaration => do
    let owner ← activeDirectory current "replay action declaration without an active directory"
      "emit directory enter before replay actions"
    if declaration.actionKey = [] then
      builderError "replay action key is empty"
        "emit a stable replay action key before replay items"
    else if draft.replayActions.any fun action => action.actionKey = declaration.actionKey then
      builderError "duplicate replay action key" "replay action keys must be unique"
    else
      let action : ReplayActionRecord :=
        { declaration with id := draft.replayActions.length, ownerDirectoryId := some owner }
      .ok { draft with replayActions := draft.replayActions ++ [action] }
  | .change actionKey change =>
    let selects := fun action : ReplayActionRecord => decide (action.actionKey = actionKey)
    match draft.replayActions.find? selects with
    | none =>
      builderError "replay action item references an unknown action key"
        "emit replay action declaration before replay items"
    | some action => do
      let changed ← changeReplayAction action change
      let replayActions := (modifyFirst selects (fun _ => changed) draft.replayActions).getD
        draft.replayActions
      .ok { draft with replayActions }

/-- `bm_builder_handle_test_event`. -/
def handleTestEvent (current : Option DirectoryId) (draft : Draft) : TestEvent → Handled Draft
  | .enable enabled => .ok { draft with testingEnabled := enabled }
  | .add declaration => do
    let owner ← activeDirectory current "test declaration without an active directory"
      "emit directory enter before adding tests"
    let test : TestRecord :=
      { declaration with id := draft.tests.length, ownerDirectoryId := some owner }
    .ok { draft with
          tests := draft.tests ++ [test]
          testNameIndex := draft.testNameIndex ++ [(test.name, test.id)] }

/-- `bm_builder_handle_install_event`. -/
def handleInstallEvent (current : Option DirectoryId) (draft : Draft)
    (declaration : InstallRuleDeclaration) : Handled Draft := do
  let owner ← activeDirectory current "install rule without an active directory"
    "emit directory enter before adding install rules"
  let rule : InstallRuleRecord :=
    { declaration with id := draft.installRules.length, ownerDirectoryId := some owner }
  .ok { draft with installRules := draft.installRules ++ [rule] }

/-- `bm_builder_handle_export_event`. -/
def handleExportEvent (current : Option DirectoryId) (draft : Draft) : ExportEvent → Handled Draft
  | .install exportName exportNamespace destination fileName component => do
    let owner ← activeDirectory current "export install without an active directory"
      "emit directory enter before adding installed exports"
    let record : ExportRecord :=
      { id := draft.exports.length, ownerDirectoryId := some owner, kind := .install
        sourceKind := .installExport, name := exportName, exportNamespace, destination, fileName
        component }
    .ok { draft with exports := draft.exports ++ [record] }
  | .buildDeclare exportKey sourceKind logicalName filePath exportNamespace cxxModulesDirectory
      append => do
    let owner ← activeDirectory current "build-tree export without an active directory"
      "emit directory enter before adding standalone exports"
    let record : ExportRecord :=
      { id := draft.exports.length, ownerDirectoryId := some owner, kind := .buildTree, sourceKind
        exportKey, name := logicalName, outputFilePath := filePath, exportNamespace
        cxxModulesDirectory, append }
    .ok { draft with exports := draft.exports ++ [record] }
  | .buildAddTarget exportKey targetName =>
    let selects := fun record : ExportRecord =>
      exportKey ≠ [] && decide (record.exportKey = exportKey)
    let append := fun record : ExportRecord =>
      { record with targetNames := record.targetNames ++ [targetName] }
    match modifyFirst selects append draft.exports with
    | some exports => .ok { draft with exports }
    | none =>
      builderError "export target membership references an unknown export key"
        "emit EVENT_EXPORT_BUILD_DECLARE before EVENT_EXPORT_BUILD_ADD_TARGET"
  | .packageRegistry packageName registryPath enabled => do
    let owner ← activeDirectory current "package registry export without an active directory"
      "emit directory enter before adding standalone exports"
    let record : ExportRecord :=
      { id := draft.exports.length, ownerDirectoryId := some owner, kind := .packageRegistry
        sourceKind := .package, name := packageName, registryPath, enabled }
    .ok { draft with exports := draft.exports ++ [record] }

/-- The record of a CPack component. -/
def declaredComponent (id : Nat) (owner : DirectoryId) (component : ComponentDeclaration) :
    CPackComponentRecord where
  id
  ownerDirectoryId := some owner
  name := component.name
  displayName := component.displayName
  description := component.description
  groupName := component.group
  dependencyNames := splitCmakeList component.depends
  installTypeNames := splitCmakeList component.installTypes
  archiveFile := component.archiveFile
  plist := component.plist
  required := component.required
  hidden := component.hidden
  disabled := component.disabled
  downloaded := component.downloaded

/-- The record of a CPack package plan. -/
def declaredPackage (id : Nat) (owner : DirectoryId) (package : PackageDeclaration) :
    CPackPackageRecord where
  id
  ownerDirectoryId := some owner
  packageKey := package.packageKey
  packageName := package.packageName
  packageVersion := package.packageVersion
  packageFileName := package.packageFileName
  packageDirectory := package.packageDirectory
  archiveFileName := package.archiveFileName
  archiveFileExtension := package.archiveFileExtension
  componentsGrouping := package.componentsGrouping
  projectConfigFile := package.projectConfigFile
  componentsAll := splitCmakeList package.componentsAll
  includeToplevelDirectory := package.includeToplevelDirectory
  archiveComponentInstall := package.archiveComponentInstall

/-- `bm_builder_handle_package_event`. -/
def handlePackageEvent (current : Option DirectoryId) (draft : Draft) (event : PackageEvent) :
    Handled Draft := do
  let owner ← activeDirectory current "package or CPack event without an active directory"
    "emit directory enter before recording package state"
  match event with
  | .findResult result =>
    let package : PackageRecord :=
      { result with id := draft.packages.length, ownerDirectoryId := some owner }
    .ok { draft with
          packages := draft.packages ++ [package]
          packageNameIndex := draft.packageNameIndex ++ [(package.packageName, package.id)] }
  | .addInstallType name displayName =>
    let installType : CPackInstallTypeRecord :=
      { id := draft.cpackInstallTypes.length, ownerDirectoryId := some owner, name, displayName }
    .ok { draft with cpackInstallTypes := draft.cpackInstallTypes ++ [installType] }
  | .addComponentGroup name displayName description parentGroup expanded boldTitle =>
    let group : CPackComponentGroupRecord :=
      { id := draft.cpackComponentGroups.length, ownerDirectoryId := some owner, name, displayName
        description, parentGroupName := parentGroup, expanded, boldTitle }
    .ok { draft with cpackComponentGroups := draft.cpackComponentGroups ++ [group] }
  | .addComponent declaration =>
    let component := declaredComponent draft.cpackComponents.length owner declaration
    .ok { draft with cpackComponents := draft.cpackComponents ++ [component] }
  | .packageDeclare declaration =>
    let record := declaredPackage draft.cpackPackages.length owner declaration
    .ok { draft with cpackPackages := draft.cpackPackages ++ [record] }
  | .packageAddGenerator packageKey generator =>
    let append := fun record : CPackPackageRecord =>
      { record with generators := record.generators ++ [generator] }
    match modifyFirst (fun record => record.packageKey = packageKey) append draft.cpackPackages with
    | some cpackPackages => .ok { draft with cpackPackages }
    | none =>
      builderError "CPack package generator referenced unknown package plan"
        "emit cpack_package_declare before cpack_package_add_generator"
  | .packageArchiveNameOverride packageKey archiveKey archiveFileName =>
    let append := fun record : CPackPackageRecord =>
      { record with
        archiveNameOverrides := record.archiveNameOverrides ++ [(archiveKey, archiveFileName)] }
    match modifyFirst (fun record => record.packageKey = packageKey) append draft.cpackPackages with
    | some cpackPackages => .ok { draft with cpackPackages }
    | none =>
      builderError "CPack archive name override referenced unknown package plan"
        "emit cpack_package_declare before cpack_package_archive_name_override"

/-! ## The builder -/

/-- `BM_Builder`, with what its sink was told. The directory stack is innermost first. -/
structure Builder where
  draft : Draft := {}
  directoryStack : List DirectoryId := []
  hasFatalError : Bool := false
  diagnostics : List Diagnostic := []

/-- `bm_builder_current_directory_id`. -/
def Builder.currentDirectoryId (builder : Builder) : Option DirectoryId :=
  builder.directoryStack.head?

/-- The dispatch of `bm_builder_apply_event`, on the draft and the directory stack. -/
def handleEvent (filePath : StringView) (draft : Draft) (stack : List DirectoryId) :
    BuildEventBody → Handled (Draft × List DirectoryId)
  | .project event => .ok (handleProjectEvent draft event, stack)
  | .directory event => handleDirectoryEvent filePath draft stack event
  | .target event => (handleTargetBuildEvent filePath stack.head? draft event).map (·, stack)
  | .buildGraph event => (handleBuildGraphEvent filePath stack.head? draft event).map (·, stack)
  | .replay event => (handleReplayEvent stack.head? draft event).map (·, stack)
  | .test event => (handleTestEvent stack.head? draft event).map (·, stack)
  | .installRuleAdd declaration =>
    (handleInstallEvent stack.head? draft declaration).map (·, stack)
  | .exportEvent event => (handleExportEvent stack.head? draft event).map (·, stack)
  | .package event => (handlePackageEvent stack.head? draft event).map (·, stack)
  | .other => .ok (draft, stack)

/-- Whether the event has the role `EVENT_ROLE_BUILD_SEMANTIC`. -/
def BuildEventBody.isBuildSemantic : BuildEventBody → Bool
  | .other => false
  | _ => true

/-- `bm_builder_apply_event`: the builder after the event, and whether the event was taken. -/
def Builder.applyEvent (builder : Builder) (event : BuildEvent) : Builder × Bool :=
  if builder.hasFatalError then (builder, false)
  else if !event.body.isBuildSemantic then (builder, true)
  else
    let draft := { builder.draft with hasSemanticEntities := true }
    match handleEvent event.filePath draft builder.directoryStack event.body with
    | .ok (draft, directoryStack) => ({ builder with draft, directoryStack }, true)
    | .error error =>
      let diagnostic : Diagnostic :=
        { component := "build_model_builder", command := event.body.kindName
          cause := error.cause, hint := error.hint }
      ({ builder with
          draft, hasFatalError := true, diagnostics := builder.diagnostics ++ [diagnostic] },
        false)

/-- `bm_builder_apply_stream`: the events one after the other until one fails. -/
def Builder.applyStream (builder : Builder) : List BuildEvent → Builder × Bool
  | [] => (builder, true)
  | event :: rest =>
    match builder.applyEvent event with
    | (builder, true) => builder.applyStream rest
    | (builder, false) => (builder, false)

/-- `bm_builder_finalize`: the builder, and the draft unless something is wrong. -/
def Builder.finalize (builder : Builder) : Builder × Option Draft :=
  if builder.hasFatalError then (builder, none)
  else if builder.directoryStack.length ≠ 0 then
    let diagnostic : Diagnostic :=
      { component := "build_model_builder", command := "finalize"
        cause := "directory stack not empty at end of stream"
        hint := "ensure every EVENT_DIRECTORY_ENTER has a matching EVENT_DIRECTORY_LEAVE" }
    ({ builder with hasFatalError := true, diagnostics := builder.diagnostics ++ [diagnostic] },
      none)
  else (builder, some builder.draft)

end Nobify.BuildModel
