import Mathlib.Algebra.Group.Nat.Defs
import Nobify.BuildModel.Draft
import Nobify.Lib.ReportSearch

/-!
# Validation of a draft

`bm_validate_draft` runs four passes over a draft and accepts it when none of them reports an
error. A pass is the list of what it hands to the sink. The checks that a number stands for a
member of an enumeration are left out: the types of the draft leave no other number.
-/

namespace Nobify.BuildModel

/-! ## Checks -/

/-- The error of a check that fails. -/
def errorIf (failed : Bool) (command cause hint : String) : List Diagnostic :=
  if failed then [{ component := "build_model_validate", command, cause, hint }] else []

/-- `bm_validate_owner_directory`. -/
def validateOwnerDirectory (draft : Draft) (ownerDirectoryId : Option DirectoryId)
    (entityKind : String) : List Diagnostic :=
  errorIf (draft.getDirectory ownerDirectoryId).isNone "structural"
    "entity owner_directory_id is invalid" entityKind

/-- `bm_validate_contiguous_id`. -/
def validateContiguousId (id index : Nat) (cause hint : String) : List Diagnostic :=
  errorIf (id ≠ index) "structural" cause hint

/-- The loop of `bm_validate_directory_chain`, with the steps that are left. -/
def validateDirectoryChain (draft : Draft) : Nat → Option DirectoryId → List Diagnostic
  | _, none => []
  | remaining, some current =>
    match draft.directories[current]?, remaining with
    | none, _ =>
      errorIf true "structural" "directory parent chain is invalid"
        "fix parent ids in directory records"
    | some _, 0 =>
      errorIf true "structural" "directory parent chain contains a cycle"
        "ensure directory parent ids form a tree"
    | some directory, remaining + 1 =>
      validateDirectoryChain draft remaining directory.parentId

/-! ## Replay actions -/

/-- The kind of action that an opcode belongs to. -/
def ReplayOpcode.kind? : ReplayOpcode → Option ReplayActionKind
  | .none => .none
  | .fsMkdir | .fsWriteText | .fsAppendText | .fsCopyFile | .fsCopyTree | .fsRemove
  | .fsRemoveRecurse | .fsRename | .fsCreateLink | .fsChmod | .fsChmodRecurse => some .filesystem
  | .hostDownloadLocal | .hostArchiveCreatePaxr | .hostArchiveExtractTar | .hostLockAcquire
  | .hostLockRelease => some .hostEffect
  | .probeTryCompileSource | .probeTryCompileProject | .probeTryRun => some .probe
  | .depsFetchcontentSourceDir | .depsFetchcontentLocalArchive => some .dependencyMaterialization
  | .testDriverCtestEmptyBinaryDirectory | .testDriverCtestStartLocal
  | .testDriverCtestConfigureSelf | .testDriverCtestBuildSelf | .testDriverCtestTest
  | .testDriverCtestSleep | .testDriverCtestCoverageLocal
  | .testDriverCtestMemcheckLocal => some .testDriver

/-- `bm_validate_replay_opcode_kind`. -/
def validateReplayOpcodeKind (action : ReplayActionRecord) : List Diagnostic :=
  errorIf (action.opcode.kind?.any (· ≠ action.kind)) "structural"
    "replay action opcode is incompatible with replay action kind"
    "emit filesystem opcodes only for filesystem actions and host opcodes only for host-effect actions"

/-- `bm_validate_parse_count_token`: a decimal number, in a `size_t` that wraps. -/
def parseCountToken (token : StringView) : Option Nat :=
  if token.isEmpty || !token.all fun char => '0' ≤ char && char ≤ '9' then none
  else some (token.foldl (fun value char => (value * 10 + (char.toNat - '0'.toNat)) % 2 ^ 64) 0)

/-- The token at `position` says how many of the arguments follow the first `fixed` ones. -/
def countsPayload (argv : List StringView) (position fixed : Nat) : Bool :=
  (argv[position]?.bind parseCountToken).any fun payload =>
    argv.length = (fixed + payload) % 2 ^ 64

/-- The switch of `bm_validate_replay_payload_shape`. -/
def replayPayloadFits (action : ReplayActionRecord) : Bool :=
  let inputs := action.inputs.length
  let outputs := action.outputs.length
  let argv := action.argv.length
  let plain := action.environment.isEmpty
  let shape := fun inputCount outputCount argvCount =>
    inputs = inputCount && outputs = outputCount && argv = argvCount && plain
  match action.opcode with
  | .none => true
  | .fsMkdir => inputs = 0 && 0 < outputs && argv = 0 && plain
  | .fsWriteText => shape 0 1 2
  | .fsAppendText => shape 0 1 1
  | .fsCopyFile => shape 1 1 1
  | .fsCopyTree => shape 1 1 2
  | .fsRemove | .fsRemoveRecurse => inputs = 0 && 0 < outputs && argv = 0 && plain
  | .fsRename => shape 1 1 2
  | .fsCreateLink => shape 1 1 3
  | .fsChmod | .fsChmodRecurse => inputs = 0 && 0 < outputs && argv = 1 && plain
  | .hostDownloadLocal => shape 1 1 2
  | .hostArchiveCreatePaxr => 0 < inputs && outputs = 1 && argv = 1 && plain
  | .hostArchiveExtractTar => shape 1 1 0
  | .hostLockAcquire | .hostLockRelease => shape 0 1 0
  | .probeTryCompileSource => 0 < inputs && outputs = 1 && 1 ≤ argv && plain
  | .probeTryCompileProject => inputs = 1 && outputs = 1 && 1 ≤ argv && plain
  | .probeTryRun => inputs = 0 && outputs = 1 && 1 ≤ argv && plain
  | .depsFetchcontentSourceDir => shape 0 2 1
  | .depsFetchcontentLocalArchive => shape 1 2 4
  | .testDriverCtestEmptyBinaryDirectory => shape 0 1 0
  | .testDriverCtestStartLocal => shape 0 2 3
  | .testDriverCtestConfigureSelf => shape 0 2 0
  | .testDriverCtestBuildSelf => shape 0 1 2
  | .testDriverCtestTest => shape 0 1 2
  | .testDriverCtestSleep => shape 0 0 1
  | .testDriverCtestCoverageLocal =>
    outputs = 1 && 4 ≤ argv && plain && countsPayload action.argv 3 4
  | .testDriverCtestMemcheckLocal =>
    inputs = 2 && outputs = 2 && 14 ≤ argv && plain && countsPayload action.argv 13 14

/-- `bm_validate_replay_payload_shape`. -/
def validateReplayPayloadShape (action : ReplayActionRecord) : List Diagnostic :=
  errorIf (!replayPayloadFits action) "structural"
    "replay action payload shape is invalid for opcode"
    "emit inputs/outputs/argv/environment using the frozen payload layout for the selected replay opcode"

/-! ## The structural pass -/

/-- The checks of a list of records, one record after the other. -/
def validateEach {α : Type} (check : Nat → α → List Diagnostic) (records : List α) :
    List Diagnostic :=
  (records.mapIdx check).flatten

/-- The pairs of entries of a list, each with a later one. -/
def laterPairs {α : Type} : List α → List (α × α)
  | [] => []
  | first :: rest => rest.map (first, ·) ++ laterPairs rest

/-- The directory loop of `bm_validate_structural_pass`. -/
def validateDirectory (draft : Draft) (index : Nat) (directory : DirectoryRecord) :
    List Diagnostic :=
  validateContiguousId directory.id index "directory id mismatch"
    "directory ids must be contiguous" ++
  errorIf (directory.ownerDirectoryId ≠ some directory.id) "structural"
    "directory owner_directory_id must equal directory id" "fix directory ownership" ++
  errorIf (directory.parentId.any (draft.directories.length ≤ ·)) "structural"
    "directory parent_id is invalid" "fix directory stack reconstruction" ++
  validateDirectoryChain draft draft.directories.length directory.parentId

/-- The source loop of `bm_validate_structural_pass`. -/
def validateSource (source : TargetSourceRecord) : List Diagnostic :=
  errorIf (source.kind = .regular && !source.fileSetName.isEmpty) "structural"
    "regular target source may not reference a file set name"
    "keep file set references only on file set members" ++
  errorIf (source.kind ≠ .regular && source.fileSetName.isEmpty) "structural"
    "file set member is missing a file set name"
    "attach file set members to a declared target file set"

/-- The target loop of `bm_validate_structural_pass`. -/
def validateTarget (draft : Draft) (index : Nat) (target : TargetRecord) : List Diagnostic :=
  validateContiguousId target.id index "target id mismatch" "target ids must be contiguous" ++
  errorIf target.name.isEmpty "structural" "target has empty name"
    "ensure EVENT_TARGET_DECLARE carries a target name" ++
  errorIf (!target.declared) "structural" "target placeholder was never declared"
    "ensure target property events do not outlive a missing EVENT_TARGET_DECLARE" ++
  target.sourceRecords.flatMap validateSource ++
  target.fileSets.flatMap (fun fileSet =>
    errorIf fileSet.name.isEmpty "structural" "target file set has empty name"
      "ensure file set declarations carry a stable set name") ++
  validateOwnerDirectory draft target.ownerDirectoryId "target"

/-- `bm_validate_duplicate_target_names`. -/
def validateDuplicateTargetNames (draft : Draft) : List Diagnostic :=
  (laterPairs draft.targets).flatMap fun (target, later) =>
    errorIf (target.name = later.name) "structural"
      "duplicate target name remains in finalized draft"
      "target names must be unique before freeze"

/-- The step loop of `bm_validate_structural_pass`. -/
def validateStep (draft : Draft) (index : Nat) (step : BuildStepRecord) : List Diagnostic :=
  validateContiguousId step.id index "build step id mismatch" "build step ids must be contiguous" ++
  validateOwnerDirectory draft step.ownerDirectoryId "build step"

/-- The replay loop of `bm_validate_structural_pass`. -/
def validateReplayAction (draft : Draft) (index : Nat) (action : ReplayActionRecord) :
    List Diagnostic :=
  validateContiguousId action.id index "replay action id mismatch"
    "replay action ids must be contiguous" ++
  validateOwnerDirectory draft action.ownerDirectoryId "replay action" ++
  errorIf action.actionKey.isEmpty "structural" "replay action has empty action_key"
    "ensure EVENT_REPLAY_ACTION_DECLARE carries a stable replay key" ++
  validateReplayOpcodeKind action ++ validateReplayPayloadShape action

/-- The test loop of `bm_validate_structural_pass`. -/
def validateTest (draft : Draft) (index : Nat) (test : TestRecord) : List Diagnostic :=
  validateContiguousId test.id index "test id mismatch" "test ids must be contiguous" ++
  errorIf (test.name.isEmpty || test.command.isEmpty) "structural"
    "test is missing required fields" "tests require name and command" ++
  validateOwnerDirectory draft test.ownerDirectoryId "test"

/-- An install rule says where to. -/
def InstallRuleDeclaration.hasDestination (rule : InstallRuleDeclaration) : Bool :=
  !rule.destination.isEmpty || (rule.kind = .target &&
      (!rule.archiveDestination.isEmpty || !rule.libraryDestination.isEmpty ||
        !rule.runtimeDestination.isEmpty || !rule.includesDestination.isEmpty ||
        !rule.publicHeaderDestination.isEmpty))

/-- The install rule loop of `bm_validate_structural_pass`. -/
def validateInstallRule (draft : Draft) (index : Nat) (rule : InstallRuleRecord) :
    List Diagnostic :=
  validateContiguousId rule.id index "install rule id mismatch"
    "install rule ids must be contiguous" ++
  errorIf (rule.item.isEmpty || !rule.hasDestination) "structural"
    "install rule is missing required fields"
    "install rules require an item and at least one destination" ++
  validateOwnerDirectory draft rule.ownerDirectoryId "install rule"

/-- The export loop of `bm_validate_structural_pass`. -/
def validateExport (draft : Draft) (index : Nat) (record : ExportRecord) : List Diagnostic :=
  validateContiguousId record.id index "export id mismatch" "export ids must be contiguous" ++
  (match record.kind with
  | .install =>
    errorIf (record.name.isEmpty || record.destination.isEmpty) "structural"
      "install export is missing required fields"
      "install exports require a name and destination"
  | .buildTree =>
    errorIf record.outputFilePath.isEmpty "structural" "build-tree export is missing FILE"
      "standalone build-tree exports require an output file path"
  | .packageRegistry =>
    errorIf (record.name.isEmpty || record.registryPath.isEmpty) "structural"
      "package registry export is missing required fields"
      "package registry exports require package name and prefix") ++
  validateOwnerDirectory draft record.ownerDirectoryId "export"

/-- The package loop of `bm_validate_structural_pass`. -/
def validatePackage (draft : Draft) (index : Nat) (package : PackageRecord) : List Diagnostic :=
  validateContiguousId package.id index "package id mismatch" "package ids must be contiguous" ++
  errorIf package.packageName.isEmpty "structural" "package result is missing package name"
    "package results require package_name" ++
  validateOwnerDirectory draft package.ownerDirectoryId "package"

/-- The loops of `bm_validate_structural_pass` over install types, component groups and
components: the id, the name and the owner of a record. -/
def validateCPackRecord (draft : Draft) (id index : Nat) (name : StringView)
    (ownerDirectoryId : Option DirectoryId) (idCause idHint nameCause nameHint entity : String) :
    List Diagnostic :=
  validateContiguousId id index idCause idHint ++
  errorIf name.isEmpty "structural" nameCause nameHint ++
  validateOwnerDirectory draft ownerDirectoryId entity

/-- The install type loop. -/
def validateCPackInstallType (draft : Draft) (index : Nat) (record : CPackInstallTypeRecord) :
    List Diagnostic :=
  validateCPackRecord draft record.id index record.name record.ownerDirectoryId
    "CPack install type id mismatch" "CPack install type ids must be contiguous"
    "CPack install type is missing name" "install types require a name" "cpack install type"

/-- The component group loop. -/
def validateCPackComponentGroup (draft : Draft) (index : Nat)
    (record : CPackComponentGroupRecord) : List Diagnostic :=
  validateCPackRecord draft record.id index record.name record.ownerDirectoryId
    "CPack component group id mismatch" "CPack component group ids must be contiguous"
    "CPack component group is missing name" "component groups require a name"
    "cpack component group"

/-- The component loop. -/
def validateCPackComponent (draft : Draft) (index : Nat) (record : CPackComponentRecord) :
    List Diagnostic :=
  validateCPackRecord draft record.id index record.name record.ownerDirectoryId
    "CPack component id mismatch" "CPack component ids must be contiguous"
    "CPack component is missing name" "components require a name" "cpack component"

/-- The package loop of the packages of CPack. -/
def validateCPackPackage (draft : Draft) (index : Nat) (record : CPackPackageRecord) :
    List Diagnostic :=
  validateContiguousId record.id index "CPack package id mismatch"
    "CPack package ids must be contiguous" ++
  errorIf record.packageKey.isEmpty "structural" "CPack package snapshot is missing key"
    "package snapshots require a stable package key" ++
  errorIf record.packageName.isEmpty "structural" "CPack package snapshot is missing package name"
    "package snapshots require an effective package name" ++
  errorIf record.packageFileName.isEmpty "structural"
    "CPack package snapshot is missing package file name"
    "package snapshots require an effective package file name" ++
  errorIf record.generators.isEmpty "structural" "CPack package snapshot has no generators"
    "package snapshots require at least one effective generator" ++
  errorIf (record.componentsGrouping ∉
      [[], sv "ONE_PER_GROUP", sv "IGNORE", sv "ALL_COMPONENTS_IN_ONE"]) "structural"
    "CPack package snapshot has unsupported CPACK_COMPONENTS_GROUPING"
    "supported archive component groupings are ONE_PER_GROUP, IGNORE, and ALL_COMPONENTS_IN_ONE" ++
  validateOwnerDirectory draft record.ownerDirectoryId "cpack package"

/-- `bm_validate_structural_pass`. -/
def validateStructuralPass (draft : Draft) : List Diagnostic :=
  errorIf (draft.hasSemanticEntities && draft.rootDirectoryId.isNone) "structural"
    "missing root directory for semantic model"
    "ensure the event stream emits a directory root before other semantic entities" ++
  validateEach (validateDirectory draft) draft.directories ++
  validateEach (validateTarget draft) draft.targets ++
  validateDuplicateTargetNames draft ++
  draft.sourcePropertyMutations.flatMap (fun mutation =>
    errorIf (mutation.path.isEmpty || mutation.key.isEmpty) "structural"
      "source property mutation is missing path or property key"
      "emit source property mutations with resolved source path and property key") ++
  validateEach (validateStep draft) draft.buildSteps ++
  validateEach (validateReplayAction draft) draft.replayActions ++
  validateEach (validateTest draft) draft.tests ++
  validateEach (validateInstallRule draft) draft.installRules ++
  validateEach (validateExport draft) draft.exports ++
  validateEach (validatePackage draft) draft.packages ++
  validateEach (validateCPackInstallType draft) draft.cpackInstallTypes ++
  validateEach (validateCPackComponentGroup draft) draft.cpackComponentGroups ++
  validateEach (validateCPackComponent draft) draft.cpackComponents ++
  validateEach (validateCPackPackage draft) draft.cpackPackages

/-! ## The resolution pass -/

/-- `bm_draft_find_install_type_id`. -/
def Draft.findInstallTypeId (draft : Draft) (name : StringView) : Option Nat :=
  (draft.cpackInstallTypes.find? (·.name = name)).map CPackInstallTypeRecord.id

/-- `bm_draft_find_component_group_id`. -/
def Draft.findComponentGroupId (draft : Draft) (name : StringView) : Option Nat :=
  (draft.cpackComponentGroups.find? (·.name = name)).map CPackComponentGroupRecord.id

/-- `bm_draft_find_component_id`. -/
def Draft.findComponentId (draft : Draft) (name : StringView) : Option Nat :=
  (draft.cpackComponents.find? (·.name = name)).map CPackComponentRecord.id

/-- The file set of a source, as the source loop of `bm_validate_resolution_pass` checks it. -/
def resolveFileSet (target : TargetRecord) (source : TargetSourceRecord) : List Diagnostic :=
  if source.fileSetName.isEmpty then []
  else
    match target.fileSets.find? (·.name = source.fileSetName) with
    | none =>
      errorIf true "resolution" "target source file set reference cannot be resolved"
        "declare the file set before attaching members"
    | some fileSet =>
      errorIf ((source.kind = .headerFileSet && fileSet.kind ≠ .headers) ||
          (source.kind = .cxxModuleFileSet && fileSet.kind ≠ .cxxModules)) "resolution"
        "target source file set kind does not match the referenced file set"
        "keep file set member kinds aligned with the declared file set"

/-- The target loop of `bm_validate_resolution_pass`. -/
def resolveTarget (draft : Draft) (target : TargetRecord) : List Diagnostic :=
  (if target.isAlias && target.aliasOfName.isEmpty then
    errorIf true "resolution" "alias target is missing alias_of"
      "alias targets must reference a declared target"
  else
    errorIf (target.isAlias && (draft.findTargetId target.aliasOfName).isNone) "resolution"
      "alias target references an unknown target" "declare the aliased target before the alias") ++
  target.explicitDependencyNames.flatMap (fun name =>
    errorIf (draft.findTargetId name).isNone "resolution"
      "explicit target dependency cannot be resolved"
      "declare the dependency target before freeze") ++
  target.sourceRecords.flatMap (resolveFileSet target)

/-- The export loop of `bm_validate_resolution_pass`. -/
def resolveExport (draft : Draft) (record : ExportRecord) : List Diagnostic :=
  match record.kind with
  | .install =>
    errorIf (!draft.installRules.any fun rule =>
        rule.kind = .target && rule.exportName = record.name) "resolution"
      "install export has no associated install(TARGETS ... EXPORT ...) rules"
      "associate at least one install target rule with the export name"
  | .buildTree =>
    record.targetNames.flatMap fun name =>
      errorIf (draft.findTargetId name).isNone "resolution"
        "build-tree export references an unknown target"
        "declare standalone export targets before exporting them"
  | .packageRegistry => []

/-- The component loop of `bm_validate_resolution_pass`. -/
def resolveCPackComponent (draft : Draft) (component : CPackComponentRecord) : List Diagnostic :=
  errorIf (!component.groupName.isEmpty &&
      (draft.findComponentGroupId component.groupName).isNone) "resolution"
    "component group cannot be resolved"
    "declare the referenced component group before the component" ++
  component.dependencyNames.flatMap (fun name =>
    errorIf (draft.findComponentId name).isNone "resolution"
      "component dependency cannot be resolved"
      "declare referenced components before using DEPENDS") ++
  component.installTypeNames.flatMap (fun name =>
    errorIf (draft.findInstallTypeId name).isNone "resolution"
      "component install type cannot be resolved"
      "declare referenced install types before using them")

/-- `bm_validate_resolution_pass`. -/
def validateResolutionPass (draft : Draft) : List Diagnostic :=
  draft.targets.flatMap (resolveTarget draft) ++
  draft.buildSteps.flatMap (fun step =>
    errorIf (!step.ownerTargetName.isEmpty &&
        (draft.findTargetId step.ownerTargetName).isNone) "resolution"
      "build step owner target cannot be resolved"
      "declare the owner target before emitting target hook or custom-target steps") ++
  draft.installRules.flatMap (fun rule =>
    errorIf (rule.kind = .target && (draft.findTargetId rule.item).isNone) "resolution"
      "install target rule references an unknown target"
      "declare the target before installing it") ++
  draft.exports.flatMap (resolveExport draft) ++
  draft.cpackComponentGroups.flatMap (fun group =>
    errorIf (!group.parentGroupName.isEmpty &&
        (draft.findComponentGroupId group.parentGroupName).isNone) "resolution"
      "component group parent cannot be resolved"
      "declare the parent group before referencing it") ++
  draft.cpackComponents.flatMap (resolveCPackComponent draft)

/-! ## Cycles of explicit dependencies -/

/-- The targets that `bm_cycle_visit` goes to: a name that is not found is passed over. -/
def explicitEdges (draft : Draft) (id : TargetId) : Option (List TargetId) :=
  (draft.targets[id]?).map fun target =>
    target.explicitDependencyNames.filterMap draft.findTargetId

/-- `bm_validate_explicit_cycles`: an error for each edge into the path, and none when the search
leaves the draft. -/
def validateExplicitCycles (draft : Draft) : Option (List Diagnostic) :=
  let count := draft.targets.length
  (Lib.traceFrom (explicitEdges draft) count (List.range count) .start).toOption.map fun trail =>
    trail.reports.flatMap fun _ =>
      errorIf true "cycles" "explicit target dependency cycle detected"
        "remove or break the dependency cycle between targets"

/-! ## The semantic pass -/

/-- `bm_target_has_local_build_flags`. -/
def TargetRecord.hasLocalBuildFlags (target : TargetRecord) : Bool :=
  target.excludeFromAll || target.win32Executable || target.macosxBundle

/-- `bm_target_has_typed_payload`: a scalar output property is an artifact property too. -/
def TargetRecord.hasTypedPayload (target : TargetRecord) : Bool :=
  !target.linkLibraries.isEmpty || !target.linkOptions.isEmpty ||
    !target.linkDirectories.isEmpty || !target.includeDirectories.isEmpty ||
    !target.compileDefinitions.isEmpty || !target.compileOptions.isEmpty ||
    !target.compileFeatures.isEmpty || !target.artifactProperties.isEmpty ||
    !target.folder.isEmpty

/-- The loop of `bm_validate_semantic_pass`. -/
def validateSemantics (target : TargetRecord) : List Diagnostic :=
  errorIf (target.kind = .interfaceLibrary && !target.sources.isEmpty) "semantic"
    "interface library may not own concrete source files"
    "remove sources or change the target kind" ++
  (if target.kind = .interfaceLibrary then
    target.linkLibraries.flatMap fun item =>
      errorIf (item.visibility = .privateItem) "semantic"
        "interface library may not carry private link libraries"
        "use PUBLIC or INTERFACE visibility for interface targets"
  else []) ++
  errorIf (target.isAlias &&
      (!target.sources.isEmpty || !target.sourceRecords.isEmpty || !target.fileSets.isEmpty ||
        !target.explicitDependencyNames.isEmpty || target.hasTypedPayload ||
        !target.rawProperties.isEmpty || target.hasLocalBuildFlags)) "semantic"
    "alias target may not own sources, dependencies or build payload"
    "leave alias targets as lightweight references only" ++
  errorIf (target.imported && (!target.artifactProperties.isEmpty || target.hasLocalBuildFlags))
    "semantic" "imported target may not declare local build outputs or build-only flags"
    "remove local output properties and build-only flags from imported targets" ++
  errorIf (target.importedGlobal && !target.imported) "semantic"
    "IMPORTED_GLOBAL may only be set on imported targets"
    "remove IMPORTED_GLOBAL or declare the target as imported" ++
  (if target.kind = .interfaceLibrary then []
  else (laterPairs target.sources).flatMap fun (source, later) =>
    if source = later then
      [{ severity := .warning
         component := "build_model_validate"
         command := "semantic"
         cause := "duplicate source path inside target"
         hint := "deduplicate repeated source entries on the same target" }]
    else []) ++
  (laterPairs target.fileSets).flatMap (fun (fileSet, later) =>
    errorIf (fileSet.name = later.name) "semantic" "duplicate file set name inside target"
      "keep file set names unique per target")

/-- `bm_validate_semantic_pass`. -/
def validateSemanticPass (draft : Draft) : List Diagnostic :=
  draft.targets.flatMap validateSemantics

/-! ## The whole validation -/

/-- What `bm_validate_draft` hands to the sink. -/
def validateDraft (draft : Draft) : List Diagnostic :=
  validateStructuralPass draft ++ validateResolutionPass draft ++
    (match validateExplicitCycles draft with
    | some reports => reports ++ validateSemanticPass draft
    | none =>
      errorIf true "cycles" "cycle validation failed internally"
        "ensure a valid scratch arena is provided for cycle detection")

/-- The value that `bm_validate_draft` returns: no error was reported. -/
def validateAccepts (draft : Draft) : Bool :=
  (validateDraft draft).all (·.severity ≠ .error)

end Nobify.BuildModel
