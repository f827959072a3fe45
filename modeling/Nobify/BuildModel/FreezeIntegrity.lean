import Nobify.BuildModel.FreezeNames

/-!
# A frozen model refers only to what is there

The passes of freeze in their order: the steps get their paths, link items their targets, steps
their dependencies and sources their producers. On a draft of the builder no array is indexed
outside of its range, a freeze that stops before the execution graph is checked has reported an
error, and a model that is returned refers only to what is there and what the draft names.
-/

namespace Nobify.BuildModel

open Nobify.Lib (bind_eq_ok getElem?_of_mapM mem_of_mapM map_eq_of_mapM getElem?_of_map_eq
  mem_of_map_eq Avoids)
open List

variable {after before copied model : Model} {path : StringView} {id : BuildStepId} {draft : Draft}
  {step : BuildStepRecord}

/-! ## Steps -/

/-- The owner target of a step is the one it names. -/
def OwnerResolved (model : Model) (step : BuildStepRecord) : Prop :=
  (step.ownerTargetName = [] ∧ step.ownerTargetId = none) ∨
    ∃ id, step.ownerTargetId = some id ∧ TargetCalled model step.ownerTargetName id

/-- A dependency of a step refers to what it names: a path token to a step that writes the path,
a reference to the target behind the name. -/
def DependencyResolved (model : Model) (owner : DirectoryRecord) : StepDependency → Prop
  | .pathToken token producer _ => ∀ id, producer = some id →
    WritesPath model id (normalizePath token) ∨
      WritesPath model id (pathRebaseIfNeeded owner.sourceDir token)
  | .targetRef name targetId => ∀ id, targetId = some id → ReachesTarget model name id

/-- A step refers to what is there. -/
structure StepResolved (model : Model) (step : BuildStepRecord) : Prop where
  owner : OwnerResolved model step
  dependencies : ∃ directory, step.ownerDirectoryId.bind (model.directories[·]?) = some directory ∧
    ∀ dependency ∈ step.dependencies, DependencyResolved model directory dependency
  targets : ∀ id ∈ step.resolvedTargetDependencies, id < model.targets.length
  producers : ∀ id ∈ step.resolvedProducerDependencies, id < model.buildSteps.length

/-- A producer writes the path it was found by. -/
theorem writesPath_of_findProducer (found : findProducerStepIdByPath model path = some id) :
    WritesPath model id path := by
  obtain ⟨inside, writes, _⟩ := List.findIdx?_eq_some_iff_getElem.mp found
  exact ⟨model.buildSteps[id], List.getElem?_eq_getElem inside, by simpa using writes⟩

/-- A producer that stands for a token writes its path. -/
theorem writesPath_of_freezePathToken {owner : DirectoryRecord} {token : StringView}
    (supplied : freezePathToken model owner token = .producer id) :
    WritesPath model id (normalizePath token) ∨
      WritesPath model id (pathRebaseIfNeeded owner.sourceDir token) := by
  unfold freezePathToken at supplied
  split at supplied
  · next producer found =>
    cases supplied
    exact .inl (writesPath_of_findProducer found)
  · dsimp only at supplied
    split at supplied
    · next producer found =>
      cases supplied
      exact .inr (writesPath_of_findProducer found)
    · cases supplied

/-- A step that writes a path is there. -/
theorem WritesPath.inRange (writes : WritesPath model id path) : id < model.buildSteps.length := by
  obtain ⟨step, here, _⟩ := writes
  exact (List.getElem?_eq_some_iff.mp here).1

/-- Writing a path is about the paths of steps. -/
theorem WritesPath.congr
    (same : after.buildSteps.map BuildStepRecord.writes = before.buildSteps.map BuildStepRecord.writes)
    (writes : WritesPath before id path) : WritesPath after id path := by
  obtain ⟨step, here, listed⟩ := writes
  obtain ⟨other, there, agrees⟩ := getElem?_of_map_eq same here
  exact ⟨other, there, agrees ▸ listed⟩

section

variable (linked : Linked draft model)

include linked

/-- A dependency that is resolved. -/
theorem freezeDependency_ok {owner : DirectoryRecord} {dependency resolved : StepDependency}
    (passed : freezeDependency draft model owner dependency = .ok resolved) :
    resolved.unresolved = dependency.unresolved ∧ DependencyResolved model owner resolved := by
  cases dependency with
  | pathToken token producer file =>
    simp only [freezeDependency] at passed
    split at passed
    · next id supplied =>
      cases passed
      refine ⟨rfl, fun other same => ?_⟩
      cases same
      exact writesPath_of_freezePathToken supplied
    · cases passed
      refine ⟨rfl, fun other same => ?_⟩
      cases same
  | targetRef name targetId =>
    obtain ⟨found, walked, made⟩ := bind_eq_ok.mp passed
    cases made
    refine ⟨rfl, fun id same => ?_⟩
    rw [same] at walked
    exact reaches_of_freezeTargetName linked walked

/-- What resolving dependencies keeps of a step. -/
structure KeepsStep (before after : BuildStepRecord) : Prop where
  stored : after.stored = before.stored
  writes : after.writes = before.writes
  ownerTargetId : after.ownerTargetId = before.ownerTargetId

/-- A step whose dependencies are resolved. -/
theorem freezeStepDependencies_ok {resolved : BuildStepRecord}
    (fresh : step.resolvedTargetDependencies = [] ∧ step.resolvedProducerDependencies = [])
    (owner : OwnerResolved model step)
    (passed : freezeStepDependencies draft model step = .ok resolved) :
    KeepsStep step resolved ∧ StepResolved model resolved := by
  obtain ⟨directory, located, rest⟩ := bind_eq_ok.mp passed
  obtain ⟨dependencies, mapped, made⟩ := bind_eq_ok.mp rest
  have each : ∀ dependency ∈ dependencies, DependencyResolved model directory dependency := by
    intro dependency mem
    obtain ⟨source, _, round⟩ := mem_of_mapM mapped mem
    exact (freezeDependency_ok linked round).2
  have stored : dependencies.map StepDependency.unresolved =
      step.dependencies.map StepDependency.unresolved :=
    map_eq_of_mapM mapped fun source _ dependency round => (freezeDependency_ok linked round).1
  cases made
  refine ⟨⟨?_, rfl, rfl⟩, owner, ⟨directory, indexed_eq_ok.mp located, each⟩, ?_, ?_⟩
  · simp only [BuildStepRecord.stored, stored]
  · intro id mem
    dsimp only at mem
    rw [fresh.1, nil_append] at mem
    obtain ⟨dependency, listed, referenced⟩ := mem_filterMap.mp mem
    cases dependency with
    | pathToken token producer file => cases referenced
    | targetRef name targetId =>
      obtain ⟨first, _, follows⟩ := each _ listed id referenced
      exact follows.inRange
  · intro id mem
    dsimp only at mem
    rw [fresh.2, nil_append] at mem
    obtain ⟨supply, listed, producer⟩ := mem_filterMap.mp mem
    obtain ⟨token, _, supplied⟩ := mem_map.mp listed
    cases supply with
    | file path => cases producer
    | producer found =>
      cases producer
      rcases writesPath_of_freezePathToken supplied with writes | writes
      · exact writes.inRange
      · exact writes.inRange

/-- Resolving the dependencies of steps is loud. -/
theorem loud_freezeStepDependencies (listed : step ∈ model.buildSteps)
    : Avoids FreezeStop.Quiet (freezeStepDependencies draft model step) := by
  refine (loud_indexed (linked.stepOwners step listed)).bind fun owner _ => ?_
  refine (Avoids.mapM fun dependency _ => ?_).bind fun _ _ => Avoids.ok _
  cases dependency with
  | pathToken token producer file =>
    simp only [freezeDependency]
    split
    · exact Avoids.ok _
    · exact Avoids.ok _
  | targetRef name targetId =>
    exact (loud_freezeTargetName linked name).bind fun _ _ => Avoids.ok _

/-- A step with its owner and its paths. -/
theorem freezeEffectivePaths_ok {resolved : BuildStepRecord}
    (passed : freezeEffectivePaths draft model step = .ok resolved) :
    resolved.stored = step.stored ∧ OwnerResolved model resolved ∧
      resolved.resolvedTargetDependencies = step.resolvedTargetDependencies ∧
      resolved.resolvedProducerDependencies = step.resolvedProducerDependencies := by
  unfold freezeEffectivePaths at passed
  split at passed
  · cases passed
  · obtain ⟨owner, found, made⟩ := bind_eq_ok.mp passed
    cases made
    refine ⟨rfl, ?_, rfl, rfl⟩
    unfold freezeOwnerTarget at found
    split at found
    · next unnamed =>
      cases found
      exact .inl ⟨unnamed, rfl⟩
    · obtain ⟨id, known, set⟩ := bind_eq_ok.mp found
      cases set
      exact .inr ⟨id, rfl, linked.names _ id (known_eq_ok.mp known)⟩

/-- Resolving the paths of steps is loud. -/
theorem loud_freezeEffectivePaths (listed : step ∈ model.buildSteps) :
    Avoids FreezeStop.Quiet (freezeEffectivePaths draft model step) := by
  obtain ⟨owner, owned, bound⟩ := linked.stepOwners step listed
  have located : step.ownerDirectoryId.bind (model.directories[·]?) =
      some model.directories[owner] := by simp [owned, bound]
  unfold freezeEffectivePaths
  rw [located]
  dsimp only
  refine Avoids.bind ?_ fun _ _ => Avoids.ok _
  unfold freezeOwnerTarget
  split
  · exact Avoids.ok none
  · exact (loud_known _ _ _).bind fun id _ => Avoids.ok (some id)

end

/-! ## The run of the passes -/

/-- Steps that have their owner and no resolved dependencies yet. -/
def StepsPlaced (model : Model) : Prop :=
  ∀ step ∈ model.buildSteps, OwnerResolved model step ∧
    step.resolvedTargetDependencies = [] ∧ step.resolvedProducerDependencies = []

variable (same : SameTargets before after)

include same

/-- The owner of a step is about cores. -/
theorem OwnerResolved.congr (owner : OwnerResolved before step) : OwnerResolved after step :=
  owner.imp_right fun ⟨id, here, names⟩ => ⟨id, here, names.congr same⟩

/-- Placed steps are about cores and steps. -/
theorem StepsPlaced.congr (steps : after.buildSteps = before.buildSteps)
    (placed : StepsPlaced before) :
    StepsPlaced after := by
  intro step mem
  rw [steps] at mem
  obtain ⟨owner, fresh⟩ := placed step mem
  exact ⟨owner.congr same, fresh⟩

/-- A resolved step is about cores, directories and the paths of steps. -/
theorem StepResolved.congr (directories : after.directories = before.directories)
    (writes : after.buildSteps.map BuildStepRecord.writes = before.buildSteps.map BuildStepRecord.writes)
    (resolved : StepResolved before step) : StepResolved after step := by
  have targetCount : after.targets.length = before.targets.length := by
    simpa using congrArg List.length same
  have stepCount : after.buildSteps.length = before.buildSteps.length := by
    simpa using congrArg List.length writes
  obtain ⟨directory, located, each⟩ := resolved.dependencies
  refine ⟨resolved.owner.congr same, ⟨directory, by rw [directories]; exact located, ?_⟩, ?_, ?_⟩
  · intro dependency mem
    have found := each dependency mem
    cases dependency with
    | pathToken token producer file =>
      intro id here
      exact (found id here).imp (fun left => left.congr writes) (fun right => right.congr writes)
    | targetRef name targetId =>
      intro id here
      exact (found id here).congr same
  · intro id mem
    rw [targetCount]
    exact resolved.targets id mem
  · intro id mem
    rw [stepCount]
    exact resolved.producers id mem

omit same

/-- The copy has open link items and cleared steps. -/
theorem Copied.linksOpen (copied : Copied draft model) (links : draft.LinksOpen) :
    LinksOpen model where
  targets target mem item listed := by
    obtain ⟨source, there, made⟩ := mem_of_mapM copied.targets mem
    rw [(cloneTarget_ok made).links] at listed
    exact links.targets source there item listed
  directories := copied.directories ▸ links.directories
  globals := copied.globalProperties ▸ links.globals

/-- What holds once the steps have their paths. -/
structure Pathed (draft : Draft) (before after : Model) : Prop where
  linked : Linked draft after
  targets : after.targets = before.targets
  directories : after.directories = before.directories
  globalProperties : after.globalProperties = before.globalProperties
  stored : after.buildSteps.map BuildStepRecord.stored =
    before.buildSteps.map BuildStepRecord.stored
  placed : StepsPlaced after

/-- The paths of steps. -/
theorem overSteps_paths (linked : Linked draft before)
    (fresh : ∀ step ∈ before.buildSteps, step.resolvedTargetDependencies = [] ∧ step.resolvedProducerDependencies = [])
    (passed : overSteps (freezeEffectivePaths draft before) before = .ok after) :
    Pathed draft before after := by
  obtain ⟨steps, mapped, made⟩ := bind_eq_ok.mp passed
  have stored : steps.map BuildStepRecord.stored = before.buildSteps.map BuildStepRecord.stored :=
    map_eq_of_mapM mapped fun step _ resolved round => (freezeEffectivePaths_ok linked round).1
  have owners : steps.map BuildStepRecord.ownerDirectoryId =
      before.buildSteps.map BuildStepRecord.ownerDirectoryId :=
    map_eq_of_mapM mapped fun step _ resolved round =>
      congrArg (fun stored => stored.2.1) (freezeEffectivePaths_ok linked round).1
  cases made
  have same : SameTargets before { before with buildSteps := steps } := rfl
  refine ⟨linked.congr same rfl owners, rfl, rfl, rfl, stored, ?_⟩
  intro step mem
  obtain ⟨source, listed, round⟩ := mem_of_mapM mapped mem
  obtain ⟨_, owner, targets, producers⟩ := freezeEffectivePaths_ok linked round
  obtain ⟨noTargets, noProducers⟩ := fresh source listed
  exact ⟨owner.congr same, targets.trans noTargets, producers.trans noProducers⟩

/-- What holds once the dependencies of steps are resolved. -/
structure Wired (before after : Model) : Prop where
  targets : after.targets = before.targets
  directories : after.directories = before.directories
  globalProperties : after.globalProperties = before.globalProperties
  stored : after.buildSteps.map BuildStepRecord.stored =
    before.buildSteps.map BuildStepRecord.stored
  resolved : ∀ step ∈ after.buildSteps, StepResolved after step

/-- The dependencies of steps. -/
theorem overSteps_dependencies (linked : Linked draft before) (placed : StepsPlaced before)
    (passed : overSteps (freezeStepDependencies draft before) before = .ok after) :
    Wired before after := by
  obtain ⟨steps, mapped, made⟩ := bind_eq_ok.mp passed
  have round : ∀ step ∈ before.buildSteps, ∀ resolved,
      freezeStepDependencies draft before step = .ok resolved →
      KeepsStep step resolved ∧ StepResolved before resolved := by
    intro step mem resolved done
    obtain ⟨owner, fresh⟩ := placed step mem
    exact freezeStepDependencies_ok linked fresh owner done
  have stored : steps.map BuildStepRecord.stored = before.buildSteps.map BuildStepRecord.stored :=
    map_eq_of_mapM mapped fun step mem resolved done => (round step mem resolved done).1.stored
  have writes : steps.map BuildStepRecord.writes = before.buildSteps.map BuildStepRecord.writes :=
    map_eq_of_mapM mapped fun step mem resolved done => (round step mem resolved done).1.writes
  cases made
  refine ⟨rfl, rfl, rfl, stored, ?_⟩
  intro step mem
  obtain ⟨source, listed, done⟩ := mem_of_mapM mapped mem
  have resolved := (round source listed step done).2
  have same : SameTargets before { before with buildSteps := steps } := rfl
  exact resolved.congr same rfl writes

/-- Promoting custom targets is loud. -/
theorem loud_freezePromote (placed : StepsPlaced model) :
    Avoids FreezeStop.Quiet (freezePromote model) := by
  have inside : ((model.buildSteps.filter (·.kind = .customTarget)).filterMap
      (·.ownerTargetId)).all (· < model.targets.length) = true := by
    rw [all_eq_true]
    intro id mem
    obtain ⟨step, listed, owner⟩ := mem_filterMap.mp mem
    have stepListed := (mem_filter.mp listed).1
    rcases (placed step stepListed).1 with ⟨_, missing⟩ | ⟨found, same, names⟩
    · rw [missing] at owner
      cases owner
    · rw [same] at owner
      cases owner
      exact decide_eq_true names.inRange
  unfold freezePromote promoteCustomTargetKinds
  simp only [inside, ↓reduceIte]
  exact Avoids.ok _

/-- What the passes make of a copy: everything refers to what the draft names, sources aside. -/
structure Resolved (draft : Draft) (model : Model) : Prop where
  linked : Linked draft model
  storedSteps : model.buildSteps.map BuildStepRecord.stored =
    draft.buildSteps.map BuildStepRecord.stored
  storedDirectories : model.directories.map DirectoryRecord.stored =
    draft.directories.map DirectoryRecord.stored
  storedGlobals : model.globalProperties.linkLibraries.map LinkItem.toStringItem =
    draft.globalProperties.linkLibraries.map LinkItem.toStringItem
  links : LinksResolved model
  steps : ∀ step ∈ model.buildSteps, StepResolved model step

/-- A resolved model survives a change of other parts. -/
theorem SameFrame.resolved (same : SameFrame before after) (resolved : Resolved draft before) :
    Resolved draft after where
  linked := same.linked resolved.linked
  storedSteps := same.buildSteps ▸ resolved.storedSteps
  storedDirectories := same.directories ▸ resolved.storedDirectories
  storedGlobals := same.globalProperties ▸ resolved.storedGlobals
  links := same.linksResolved resolved.links
  steps step mem := by
    rw [same.buildSteps] at mem
    exact (resolved.steps step mem).congr same.targets same.directories (by rw [same.buildSteps])

/-- Copying a step keeps what the draft stores of it. -/
theorem stored_cloneBuildStep (step : BuildStepRecord) :
    (cloneBuildStep step).stored = step.stored := by
  have again : StepDependency.unresolved ∘ StepDependency.unresolved =
      StepDependency.unresolved := by
    funext dependency
    cases dependency <;> rfl
  simp only [cloneBuildStep, BuildStepRecord.stored, List.map_map, again]

/-- A copied step has no resolved dependencies. -/
theorem Copied.fresh (copied : Copied draft model) :
    ∀ step ∈ model.buildSteps, step.resolvedTargetDependencies = [] ∧
      step.resolvedProducerDependencies = [] := by
  intro step mem
  rw [copied.buildSteps] at mem
  obtain ⟨source, _, rfl⟩ := mem_map.mp mem
  exact ⟨rfl, rfl⟩

/-- The link items of the model after the paths are still open. -/
theorem Pathed.linksOpen (pathed : Pathed draft before after) (open_ : LinksOpen before) :
    LinksOpen after where
  targets := pathed.targets ▸ open_.targets
  directories := pathed.directories ▸ open_.directories
  globals := pathed.globalProperties ▸ open_.globals

/-- The facts about names survive the pass over link items. -/
theorem LinkPass.linked (pass : LinkPass before after) (linked : Linked draft before) :
    Linked draft after := by
  have count : after.directories.length = before.directories.length := by
    simpa using congrArg List.length pass.directories
  exact linked.congr pass.targets count (by rw [pass.buildSteps])

/-- Reading imported metadata keeps the frame. -/
theorem materialize_frame
    (passed : overTargets (fun target => .ok (materializeImportedTarget before target)) before = .ok after) :
    SameFrame before after := by
  refine overTargets_frame (fun target changed round => ?_) passed
  cases round
  exact keepsTarget_materialize before target

/-- Filling file sets keeps the frame. -/
theorem populate_frame
    (passed : overTargets (fun target => .ok (populateTargetFileSets target)) before = .ok after) :
    SameFrame before after := by
  refine overTargets_frame (fun target changed round => ?_) passed
  cases round
  exact ⟨rfl, rfl⟩

/-- The model between the link items and the dependencies of steps. -/
structure Middle (draft : Draft) (model : Model) : Prop where
  linked : Linked draft model
  placed : StepsPlaced model
  storedSteps : model.buildSteps.map BuildStepRecord.stored =
    draft.buildSteps.map BuildStepRecord.stored
  storedDirectories : model.directories.map DirectoryRecord.stored =
    draft.directories.map DirectoryRecord.stored
  storedGlobals : model.globalProperties.linkLibraries.map LinkItem.toStringItem =
    draft.globalProperties.linkLibraries.map LinkItem.toStringItem
  links : LinksResolved model

/-- The model after the link items. -/
theorem middle_of_links {pathed : Model} (built : draft.Built) (copy : Copied draft copied)
    (paths : Pathed draft copied pathed) (passed : freezeLinkItems draft pathed = .ok model) :
    Middle draft model := by
  have pass := freezeLinkItems_ok paths.linked (paths.linksOpen (copy.linksOpen built.links)) passed
  have copiedSteps : copied.buildSteps.map BuildStepRecord.stored =
      draft.buildSteps.map BuildStepRecord.stored := by
    rw [copy.buildSteps, List.map_map]
    exact map_congr_left fun step _ => stored_cloneBuildStep step
  refine ⟨pass.linked paths.linked, paths.placed.congr pass.targets pass.buildSteps, ?_, ?_, ?_,
    pass.resolved⟩
  · rw [pass.buildSteps, paths.stored, copiedSteps]
  · rw [pass.directories, paths.directories, copy.directories]
  · rw [pass.globals, paths.globalProperties, copy.globalProperties]

/-- The model in the middle survives a change of other parts. -/
theorem SameFrame.middle (same : SameFrame before after) (middle : Middle draft before) :
    Middle draft after where
  linked := same.linked middle.linked
  placed := middle.placed.congr same.targets same.buildSteps
  storedSteps := same.buildSteps ▸ middle.storedSteps
  storedDirectories := same.directories ▸ middle.storedDirectories
  storedGlobals := same.globalProperties ▸ middle.storedGlobals
  links := same.linksResolved middle.links

/-- The dependencies of steps make the model resolved. -/
theorem resolved_of_dependencies (middle : Middle draft before)
    (passed : overSteps (freezeStepDependencies draft before) before = .ok after) :
    Resolved draft after := by
  have wired := overSteps_dependencies middle.linked middle.placed passed
  have same : SameTargets before after := congrArg (List.map TargetRecord.core) wired.targets
  have owners : after.buildSteps.map BuildStepRecord.ownerDirectoryId =
      before.buildSteps.map BuildStepRecord.ownerDirectoryId := by
    have both := congrArg (List.map fun stored => stored.2.1) wired.stored
    rw [List.map_map, List.map_map] at both
    exact both
  refine ⟨middle.linked.congr same (by rw [wired.directories]) owners, ?_, ?_, ?_, ?_,
    wired.resolved⟩
  · rw [wired.stored, middle.storedSteps]
  · rw [wired.directories, middle.storedDirectories]
  · rw [wired.globalProperties, middle.storedGlobals]
  · refine ⟨?_, ?_, ?_⟩
    · intro target mem item listed
      rw [wired.targets] at mem
      exact (middle.links.targets target mem item listed).congr same
    · intro directory mem item listed
      rw [wired.directories] at mem
      exact (middle.links.directories directory mem item listed).congr same
    · intro item listed
      rw [wired.globalProperties] at listed
      exact (middle.links.globals item listed).congr same

/-- The passes resolve the copy of a draft. -/
theorem resolveModel_ok (built : draft.Built) (copy : Copied draft copied)
    (passed : resolveModel draft copied = .ok model) : Resolved draft model := by
  unfold resolveModel at passed
  obtain ⟨pathed, byPaths, rest⟩ := bind_eq_ok.mp passed
  obtain ⟨linkedModel, byLinks, rest⟩ := bind_eq_ok.mp rest
  obtain ⟨imported, byImport, rest⟩ := bind_eq_ok.mp rest
  obtain ⟨promoted, byPromotion, rest⟩ := bind_eq_ok.mp rest
  obtain ⟨wired, byDependencies, rest⟩ := bind_eq_ok.mp rest
  obtain ⟨sourced, bySources, rest⟩ := bind_eq_ok.mp rest
  obtain ⟨mutated, byMutations, byFileSets⟩ := bind_eq_ok.mp rest
  have paths := overSteps_paths (copy.linked built.formed) copy.fresh byPaths
  have middle := middle_of_links built copy paths byLinks
  have ready : Middle draft promoted :=
    (freezePromote_frame byPromotion).middle ((materialize_frame byImport).middle middle)
  have resolved := resolved_of_dependencies ready byDependencies
  have after := (freezeSources_frame bySources).trans (freezeSourceMutations_frame byMutations)
  exact (after.trans (populate_frame byFileSets)).resolved resolved

/-- Source passes are loud. -/
theorem loud_sources (linked : Linked draft model) :
    Avoids FreezeStop.Quiet (freezeSources draft model) := by
  refine (loud_overTargets fun target mem => ?_).bind fun sourced _ => ?_
  · exact (loud_indexed (linked.targetOwners target mem)).bind fun _ _ => Avoids.ok _
  · exact loud_overTargets fun target _ => Avoids.ok _

/-- Source properties are loud. -/
theorem loud_sourceMutations (linked : Linked draft model) :
    Avoids FreezeStop.Quiet (freezeSourceMutations draft model) := by
  refine Avoids.foldlM (fun mutation _ state kept => ?_) (fun mutation _ state next kept round => ?_)
    linked
  · exact loud_overTargets fun target mem =>
      (loud_indexed (kept.targetOwners target mem)).bind fun _ _ => Avoids.ok _
  · exact (overTargets_frame (fun _ _ => keepsTarget_mutateTargetSources) round).linked kept

/-- The passes over the copy of a draft are loud. -/
theorem loud_resolveModel (built : draft.Built) (copy : Copied draft copied) :
    Avoids FreezeStop.Quiet (resolveModel draft copied) := by
  have linked := copy.linked built.formed
  refine ((Avoids.mapM fun step mem => loud_freezeEffectivePaths linked mem).bind
    fun _ _ => Avoids.ok _).bind fun pathed byPaths => ?_
  have paths := overSteps_paths linked copy.fresh byPaths
  refine (loud_freezeLinkItems paths.linked).bind fun linkedModel byLinks => ?_
  have middle := middle_of_links built copy paths byLinks
  refine (loud_overTargets fun target _ => Avoids.ok _).bind fun imported byImport => ?_
  have importedMiddle := (materialize_frame byImport).middle middle
  refine (loud_freezePromote importedMiddle.placed).bind fun promoted byPromotion => ?_
  have ready := (freezePromote_frame byPromotion).middle importedMiddle
  refine ((Avoids.mapM fun step mem => loud_freezeStepDependencies ready.linked mem).bind
    fun _ _ => Avoids.ok _).bind fun wired byDependencies => ?_
  have resolved := resolved_of_dependencies ready byDependencies
  refine (loud_sources resolved.linked).bind fun sourced bySources => ?_
  have sourcedLinked := (freezeSources_frame bySources).linked resolved.linked
  refine (loud_sourceMutations sourcedLinked).bind fun mutated _ => ?_
  exact loud_overTargets fun target _ => Avoids.ok _

/-- Before the execution graph is checked a freeze does not fail quietly. -/
theorem loud_freezeModel (built : draft.Built) : Avoids FreezeStop.Quiet (freezeModel draft) := by
  refine (loud_freezeCheckInvariants draft).bind fun _ _ => ?_
  refine (loud_cloneDraft built.formed.indexInRange).bind fun copied cloned => ?_
  exact (loud_resolveModel built (cloneDraft_ok cloned)).bind fun _ _ => Avoids.ok _

/-! ## The frozen model -/

/-- A model that refers to nothing outside of it, and to what the draft names. -/
structure Intact (draft : Draft) (model : Model) : Prop extends Resolved draft model where
  /-- A step is at the position of its id. -/
  stepIds : ∀ (index : Nat) (step : BuildStepRecord),
    model.buildSteps[index]? = some step → step.id = index
  /-- The producer of a source writes its path. -/
  sources : ∀ target ∈ model.targets, ∀ source ∈ target.sourceRecords, ∀ id,
    source.producerStepId = some id → WritesPath model id source.effectivePath

/-- A model whose sources pass the check of the execution graph. -/
theorem writesPath_of_validateProducers (clean : validateProducers model = [])
    {target : TargetRecord} (listed : target ∈ model.targets) {source : TargetSourceRecord}
    (mem : source ∈ target.sourceRecords) (produced : source.producerStepId = some id) :
    WritesPath model id source.effectivePath := by
  obtain ⟨_, sources⟩ := append_eq_nil_iff.mp clean
  have checked : validateSourceProducer model source = [] :=
    flatMap_eq_nil_iff.mp (flatMap_eq_nil_iff.mp sources target listed) source mem
  unfold validateSourceProducer at checked
  rw [produced] at checked
  dsimp only at checked
  split at checked
  · simp [errorIf] at checked
  · next producer found =>
    refine ⟨producer, found, ?_⟩
    by_contra outside
    simp [errorIf, outside] at checked

/-- What the check of the execution graph starts with is reported. -/
theorem validateExecutionGraph_reports {genexEval : GenexEval} {reported : List Diagnostic}
    (checked : validateExecutionGraph genexEval model = .ok reported) :
    validateProducers model <+: reported := by
  unfold validateExecutionGraph at checked
  generalize validateProducers model = early at checked ⊢
  generalize model.knownConfigurations ++ [[]] = configs at checked
  induction configs generalizing early with
  | nil =>
    cases checked
    exact List.prefix_refl _
  | cons config rest ih =>
    rw [foldlM_cons] at checked
    obtain ⟨next, round, later⟩ := bind_eq_ok.mp checked
    split at round
    · cases round
      exact (List.prefix_append _ _).trans (ih _ later)
    · cases round

/-- A frozen model is intact. -/
theorem intact_of_freezeDraft {genexEval : GenexEval} {model : FrozenModel} (built : draft.Built)
    (frozen : freezeDraft genexEval draft = .ok model) : Intact draft model.toModel := by
  obtain ⟨made, before, checked⟩ := bind_eq_ok.mp frozen
  split at checked
  · next clean =>
    cases checked
    obtain ⟨_, _, rest⟩ := bind_eq_ok.mp before
    obtain ⟨copied, cloned, rest⟩ := bind_eq_ok.mp rest
    obtain ⟨resolvedModel, passed, set⟩ := bind_eq_ok.mp rest
    have frame : SameFrame resolvedModel model.toModel := by
      cases set
      exact ⟨rfl, rfl, rfl, rfl, rfl⟩
    have resolved := frame.resolved (resolveModel_ok built (cloneDraft_ok cloned) passed)
    have producers : validateProducers model.toModel = [] :=
      List.prefix_nil.mp (validateExecutionGraph_reports clean)
    refine { resolved with stepIds := ?_, sources := ?_ }
    · intro index step here
      obtain ⟨source, there, agrees⟩ := getElem?_of_map_eq resolved.storedSteps.symm here
      have id : source.id = step.id := congrArg Prod.fst agrees
      rw [← id]
      exact built.formed.stepIds index source there
    · intro target listed source mem id produced
      exact writesPath_of_validateProducers producers listed mem produced
  · cases checked
  · cases checked

/-- A freeze of a draft of the builder does not index an array out of its range, and a model that
it returns is intact: targets and steps are at the positions of their ids, and every alias,
dependency, owner, link item and producer is absent or in range and is what the draft names,
behind the aliases where freeze follows them. -/
theorem frozen_model_intact (genexEval : GenexEval) (stream : List BuildEvent) {draft : Draft}
    (finalized : (Builder.feed {} stream).finalize.2 = some draft) :
    freezeDraft genexEval draft ≠ .error .fault ∧
      ∀ model, freezeDraft genexEval draft = .ok model → Intact draft model.toModel := by
  have built := built_of_finalize finalized
  refine ⟨?_, fun model frozen => intact_of_freezeDraft built frozen⟩
  have loud : Avoids FreezeStop.Quiet (freezeModel draft) := loud_freezeModel built
  intro faulted
  unfold freezeDraft at faulted
  cases outcome : freezeModel draft with
  | error stop =>
    rw [outcome] at faulted
    cases faulted
    exact loud _ outcome trivial
  | ok model =>
    rw [outcome] at faulted
    simp only [bind, Except.bind] at faulted
    split at faulted
    · cases faulted
    · cases faulted
    · cases faulted

/-- An executable with a generated source that links an alias of a library it depends on. -/
def aliasStream : List BuildEvent :=
  [{ body := .directory (.enter (sv "/s") (sv "/b")) },
    { body := .target (.declare (sv "lib") .libraryStatic false false []) },
    { body := .target (.declare (sv "N::lib") .libraryStatic false true (sv "lib")) },
    { body := .target (.declare (sv "app") .executable false false []) },
    { body := .target (.change (sv "app") (.addDependency (sv "lib"))) },
    { body := .target (.change (sv "app") (.item (.usage .linkLibraries)
      { item := sv "N::lib", visibility := .privateItem,
        semantic := { kind := .targetRef, targetName := sv "N::lib" } })) },
    { body := .target (.change (sv "app") (.addSource (sv "g.c") .privateItem .regular [])) },
    { body := .buildGraph (.stepDeclare { stepKey := sv "k", stepKind := .outputRule }) },
    { body := .buildGraph (.stepChange (sv "k") (.addOutput (sv "g.c"))) },
    { body := .directory (.leave (sv "/s") (sv "/b")) }]

/-- The draft of the stream. -/
def aliasDraft : Draft := (Builder.feed {} aliasStream).draft

/-- The draft is accepted and frozen, and the model is intact. -/
theorem frozen_model_intact_aliasStream : validateAccepts aliasDraft = true ∧
      ∃ model, freezeDraft plainGenexEval aliasDraft = .ok model ∧
        Intact aliasDraft model.toModel := by
  have finalized : (Builder.feed {} aliasStream).finalize.2 = some aliasDraft := by decide +kernel
  have succeeds : (freezeDraft plainGenexEval aliasDraft).toBool = true := by decide +kernel
  refine ⟨by decide +kernel, ?_⟩
  cases outcome : freezeDraft plainGenexEval aliasDraft with
  | error stop =>
    rw [outcome] at succeeds
    cases succeeds
  | ok model =>
    exact ⟨model, rfl, (frozen_model_intact plainGenexEval aliasStream finalized).2 model outcome⟩

end Nobify.BuildModel
