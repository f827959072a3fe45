import Nobify.BuildModel.StepView

/-!
# Freeze passes

The passes of `bm_freeze_draft` that fill in what the queries start from: effective paths of
build steps, target ids of link items, kinds of custom targets and the dependencies of steps.
Each pass works on the whole model; the name index and the directories are never changed.
-/

namespace Nobify.BuildModel

open Option

/-! ## Effective paths -/

/-- `bm_path_rebase` of a path that may be missing. -/
def rebaseIfGiven (base path : StringView) : StringView :=
  if path = [] then [] else pathRebase base path

/-- One step of `bm_resolve_build_step_effective_paths`, on the copy that `bm_clone_build_steps`
made of it. -/
def resolveEffectivePaths (model : Model) (step : BuildStepRecord) : Option BuildStepRecord :=
  (step.ownerDirectoryId.bind (model.directories[·]?)).bind fun owner =>
    let withPaths := { step with
      ownerTargetId := none
      workingDirectory := rebaseIfGiven owner.binaryDir step.workingDirectory
      depfile := rebaseIfGiven owner.binaryDir step.depfile
      effectiveOutputs := step.rawOutputs.map (pathRebase owner.binaryDir)
      effectiveByproducts := step.rawByproducts.map (pathRebase owner.binaryDir)
      resolvedTargetDependencies := []
      resolvedProducerDependencies := []
      resolvedFileDependencies := [] }
    if step.ownerTargetName = [] then some withPaths
    else (findTargetByNameId model step.ownerTargetName).map fun id =>
      { withPaths with ownerTargetId := some id }

/-- `bm_resolve_build_step_effective_paths`. -/
def resolveBuildStepEffectivePaths (model : Model) : Option Model :=
  (model.buildSteps.mapM (resolveEffectivePaths model)).map fun buildSteps =>
    { model with buildSteps }

/-! ## Link items and custom targets -/

/-- The loop body of `bm_resolve_link_item_target_ids`. -/
def resolveLinkItemTargetId (model : Model) (item : LinkItem) : LinkItem :=
  if item.semantic.kind = .targetRef ∧ item.semantic.targetName ≠ [] then
    { item with targetId := targetIdByNameResolved model item.semantic.targetName }
  else item

/-- The link items of global state or a directory, resolved. -/
def UsageItems.resolveLinks (model : Model) (items : UsageItems) : UsageItems :=
  { items with linkLibraries := items.linkLibraries.map (resolveLinkItemTargetId model) }

/-- `bm_resolve_link_item_target_ids`. -/
def resolveLinkItemTargetIds (model : Model) : Model :=
  { model with
    targets := model.targets.map fun target =>
      { target with linkLibraries := target.linkLibraries.map (resolveLinkItemTargetId model) }
    directories := model.directories.map fun directory =>
      { directory with toUsageItems := directory.toUsageItems.resolveLinks model }
    globalProperties := model.globalProperties.resolveLinks model }

/-- `bm_promote_custom_target_kinds`: `none` for an owner id outside the model. -/
def promoteCustomTargetKinds (model : Model) : Option Model :=
  let owners := (model.buildSteps.filter (·.kind = .customTarget)).filterMap (·.ownerTargetId)
  if owners.all (· < model.targets.length) then
    some { model with
      targets := model.targets.mapIdx fun id target =>
        if id ∈ owners ∧ target.isAlias = false ∧ target.imported = false ∧
            target.kind = .unknownLibrary then
          { target with kind := .utility }
        else target }
  else none

/-! ## Step dependencies -/

/-- The paths a step writes. -/
def BuildStepRecord.writes (step : BuildStepRecord) : List StringView :=
  step.effectiveOutputs ++ step.effectiveByproducts

/-- `bm_find_producer_step_id_by_path`. -/
def findProducerStepIdByPath (model : Model) (path : StringView) : Option BuildStepId :=
  model.buildSteps.findIdx? fun step => path ∈ step.writes

/-- What a path token stands for: a step that writes it, or a file. -/
inductive Supply where
  | producer (id : BuildStepId)
  | file (path : StringView)

/-- The path token branch of `bm_resolve_build_step_dependencies`. -/
def freezePathToken (model : Model) (owner : DirectoryRecord) (token : StringView) : Supply :=
  match findProducerStepIdByPath model (normalizePath token) with
  | some producer => .producer producer
  | none =>
    let effective := pathRebaseIfNeeded owner.sourceDir token
    match findProducerStepIdByPath model effective with
    | some producer => .producer producer
    | none => .file effective

/-- The record that `bm_resolve_build_step_dependencies` leaves for a dependency. -/
def freezeRecord (model : Model) (owner : DirectoryRecord) : StepDependency → StepDependency
  | .pathToken rawToken _ _ =>
    match freezePathToken model owner rawToken with
    | .producer id => .pathToken rawToken (some id) []
    | .file path => .pathToken rawToken none path
  | .targetRef targetName _ => .targetRef targetName (targetIdByNameResolved model targetName)

/-- The path tokens among dependency records. -/
def pathTokens (records : List StepDependency) : List StringView :=
  records.filterMap fun
    | .pathToken rawToken _ _ => some rawToken
    | .targetRef _ _ => none

/-- The resolved target references among dependency records. -/
def referencedTargets (records : List StepDependency) : List TargetId :=
  records.filterMap fun
    | .pathToken _ _ _ => none
    | .targetRef _ targetId => targetId

/-- The producers among supplies. -/
def Supply.producer? : Supply → Option BuildStepId
  | .producer id => some id
  | .file _ => none

/-- The files among supplies. -/
def Supply.file? : Supply → Option StringView
  | .producer _ => none
  | .file path => some path

/-- One step of `bm_resolve_build_step_dependencies`. -/
def resolveStepDependencies (model : Model) (step : BuildStepRecord) : BuildStepRecord :=
  (step.ownerDirectoryId.bind (model.directories[·]?)).elim step fun owner =>
    let records := step.dependencies.map (freezeRecord model owner)
    let supplies := (pathTokens records).map (freezePathToken model owner)
    { step with
      dependencies := records
      resolvedTargetDependencies := step.resolvedTargetDependencies ++ referencedTargets records
      resolvedProducerDependencies :=
        step.resolvedProducerDependencies ++ supplies.filterMap Supply.producer?
      resolvedFileDependencies :=
        step.resolvedFileDependencies ++ supplies.filterMap Supply.file? }

/-- `bm_resolve_build_step_dependencies`. -/
def resolveBuildStepDependencies (model : Model) : Model :=
  { model with buildSteps := model.buildSteps.map (resolveStepDependencies model) }

/-- The passes in the order of `bm_freeze_draft`. -/
def freezePasses (draft : Model) : Option Model :=
  (resolveBuildStepEffectivePaths draft).bind fun model =>
    (promoteCustomTargetKinds (resolveLinkItemTargetIds model)).map resolveBuildStepDependencies

/-! ## What the passes leave for the queries -/

/-- A step whose frozen lists are what freeze finds for its path tokens. -/
structure FrozenStep (model : Model) (step : BuildStepRecord) (owner : DirectoryRecord) : Prop where
  owned : step.ownerDirectoryId.bind (model.directories[·]?) = some owner
  producers : step.resolvedProducerDependencies =
    ((pathTokens step.dependencies).map (freezePathToken model owner)).filterMap Supply.producer?
  files : step.resolvedFileDependencies =
    ((pathTokens step.dependencies).map (freezePathToken model owner)).filterMap Supply.file?

/-- Steps before their dependencies are resolved: in a known directory and with empty lists. -/
def StepsOwned (model : Model) : Prop :=
  ∀ step ∈ model.buildSteps, (step.ownerDirectoryId.bind (model.directories[·]?)).isSome = true ∧
    step.resolvedProducerDependencies = [] ∧ step.resolvedFileDependencies = []

/-- The first pass puts every step into a known directory and empties its lists. -/
theorem resolveBuildStepEffectivePaths_owned {draft model : Model}
    (resolved : resolveBuildStepEffectivePaths draft = some model) : StepsOwned model := by
  obtain ⟨steps, mapped, rfl⟩ := map_eq_some_iff.mp resolved
  intro step member
  obtain ⟨raw, -, made⟩ := (Lib.mem_of_mapM_eq_some mapped).mp member
  obtain ⟨owner, owned, rest⟩ := bind_eq_some_iff.mp made
  simp only at rest
  split at rest
  · cases rest
    exact ⟨by simp [owned], rfl, rfl⟩
  · obtain ⟨id, -, rfl⟩ := map_eq_some_iff.mp rest
    exact ⟨by simp [owned], rfl, rfl⟩

/-- Resolving link items leaves steps in known directories. -/
theorem StepsOwned.resolveLinkItemTargetIds {model : Model} (steps : StepsOwned model) :
    StepsOwned (resolveLinkItemTargetIds model) := by
  intro step member
  obtain ⟨owned, producers, files⟩ := steps step member
  refine ⟨?_, producers, files⟩
  obtain ⟨owner, found⟩ := isSome_iff_exists.mp owned
  obtain ⟨id, same, inside⟩ := bind_eq_some_iff.mp found
  simp [same, BuildModel.resolveLinkItemTargetIds, inside]

/-- Promoting custom targets leaves steps in known directories. -/
theorem StepsOwned.promoteCustomTargetKinds {model promoted : Model} (steps : StepsOwned model)
    (done : promoteCustomTargetKinds model = some promoted) : StepsOwned promoted := by
  unfold BuildModel.promoteCustomTargetKinds at done
  simp only at done
  split at done
  · cases done
    exact steps
  · cases done

/-- Resolving dependencies does not change who writes a path. -/
theorem findProducerStepIdByPath_resolved (model : Model) (path : StringView) :
    findProducerStepIdByPath (resolveBuildStepDependencies model) path =
      findProducerStepIdByPath model path := by
  have writes : ∀ step : BuildStepRecord,
      (resolveStepDependencies model step).writes = step.writes := by
    intro step
    unfold resolveStepDependencies
    cases step.ownerDirectoryId.bind (model.directories[·]?) with
    | none => rfl
    | some owner => rfl
  unfold findProducerStepIdByPath resolveBuildStepDependencies
  simp only [List.findIdx?_map, Function.comp_def, writes]

/-- Freeze leaves the path tokens of a step as they are. -/
theorem pathTokens_freezeRecord (model : Model) (owner : DirectoryRecord)
    (records : List StepDependency) :
    pathTokens (records.map (freezeRecord model owner)) = pathTokens records := by
  induction records with
  | nil => rfl
  | cons record rest ih =>
    cases record with
    | pathToken token producer file =>
      have kept : ∃ found path, freezeRecord model owner (.pathToken token producer file) =
          .pathToken token found path := by
        unfold freezeRecord
        simp only
        split
        · exact ⟨_, _, rfl⟩
        · exact ⟨_, _, rfl⟩
      obtain ⟨found, path, same⟩ := kept
      rw [List.map_cons, same]
      show token :: pathTokens (rest.map (freezeRecord model owner)) = token :: pathTokens rest
      rw [ih]
    | targetRef name id => exact ih

/-- After the passes every step has the lists that freeze finds. -/
theorem freezePasses_frozenStep {draft model : Model} (frozen : freezePasses draft = some model)
    {step : BuildStepRecord} (member : step ∈ model.buildSteps) :
    ∃ owner, FrozenStep model step owner := by
  obtain ⟨withPaths, paths, rest⟩ := bind_eq_some_iff.mp frozen
  obtain ⟨promoted, promotion, rfl⟩ := map_eq_some_iff.mp rest
  have steps := (resolveBuildStepEffectivePaths_owned paths).resolveLinkItemTargetIds
    |>.promoteCustomTargetKinds promotion
  obtain ⟨before, listed, rfl⟩ := List.mem_map.mp member
  obtain ⟨owned, producers, files⟩ := steps before listed
  obtain ⟨owner, found⟩ := isSome_iff_exists.mp owned
  have tokens : freezePathToken (resolveBuildStepDependencies promoted) owner =
      freezePathToken promoted owner := by
    funext token
    simp only [freezePathToken, findProducerStepIdByPath_resolved]
  refine ⟨owner, ?_, ?_, ?_⟩
  · have same : (resolveStepDependencies promoted before).ownerDirectoryId =
        before.ownerDirectoryId := by simp [resolveStepDependencies, found]
    rw [same]
    exact found
  · simp [resolveStepDependencies, found, producers, tokens, pathTokens_freezeRecord]
  · simp [resolveStepDependencies, found, files, tokens, pathTokens_freezeRecord]

end Nobify.BuildModel
