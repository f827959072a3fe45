import Nobify.BuildModel.Builder

/-!
# What an event can do to a draft

About fifty kinds of events change one draft. What an event can do to the directories, the
targets, the steps and the name index is said once, by `DraftEdit`: it leaves them alone, appends
one record, or changes one record without touching its identity.
-/

namespace Nobify.BuildModel

open Evaluator (PropertyOp ItemEntry)
open List

variable (owner : Option DirectoryId)

variable {filePath name : StringView} {current : Option DirectoryId} {changed draft : Draft}
  {changedStack stack : List DirectoryId}

/-! ## Edits of records -/

/-- The directory keeps its identity, and its new link items are not resolved. -/
structure DirectoryEdit (before after : DirectoryRecord) : Prop where
  id : after.id = before.id
  parentId : after.parentId = before.parentId
  ownerDirectoryId : after.ownerDirectoryId = before.ownerDirectoryId
  sourceDir : after.sourceDir = before.sourceDir
  binaryDir : after.binaryDir = before.binaryDir
  links : ∀ item ∈ after.linkLibraries, item ∈ before.linkLibraries ∨ item.targetId = none

/-- What an event may change of a target: the name and the id stay, a new owner is an active
directory, and new link items, sources and dependencies are not resolved. -/
structure TargetEdit (owner : Option DirectoryId) (before after : TargetRecord) : Prop where
  id : after.id = before.id
  name : after.name = before.name
  ownerDirectoryId : after.ownerDirectoryId = before.ownerDirectoryId ∨
      (owner.isSome = true ∧ after.ownerDirectoryId = owner)
  links : ∀ item ∈ after.linkLibraries, item ∈ before.linkLibraries ∨ item.targetId = none
  sources : ∀ source ∈ after.sourceRecords,
    source ∈ before.sourceRecords ∨ source.producerStepId = none
  dependencies : after.explicitDependencyIds = before.explicitDependencyIds

/-- A dependency that freeze has not resolved yet. -/
def StepDependency.isUnresolved : StepDependency → Bool
  | .pathToken _ producerStepId _ => producerStepId = none
  | .targetRef _ targetId => targetId = none

/-- The step keeps its identity, and its new dependencies are not resolved. -/
structure StepEdit (before after : BuildStepRecord) : Prop where
  id : after.id = before.id
  stepKey : after.stepKey = before.stepKey
  ownerDirectoryId : after.ownerDirectoryId = before.ownerDirectoryId
  ownerTargetId : after.ownerTargetId = before.ownerTargetId
  dependencies : ∀ dependency ∈ after.dependencies,
    dependency ∈ before.dependencies ∨ dependency.isUnresolved = true
  resolved : after.resolvedTargetDependencies = before.resolvedTargetDependencies ∧
    after.resolvedProducerDependencies = before.resolvedProducerDependencies

/-- A target that changes none of these fields. -/
theorem TargetEdit.of_eq {owner : Option DirectoryId} {before after : TargetRecord}
    (id : after.id = before.id) (name : after.name = before.name)
    (ownerDirectoryId : after.ownerDirectoryId = before.ownerDirectoryId)
    (links : after.linkLibraries = before.linkLibraries)
    (sources : after.sourceRecords = before.sourceRecords)
    (dependencies : after.explicitDependencyIds = before.explicitDependencyIds) :
    TargetEdit owner before after where
  id
  name
  ownerDirectoryId := .inl ownerDirectoryId
  links _ mem := .inl (links ▸ mem)
  sources _ mem := .inl (sources ▸ mem)
  dependencies

/-- One edit after the other. -/
theorem TargetEdit.trans {owner : Option DirectoryId} {first second third : TargetRecord}
    (left : TargetEdit owner first second) (right : TargetEdit owner second third) :
    TargetEdit owner first third where
  id := right.id.trans left.id
  name := right.name.trans left.name
  ownerDirectoryId := by
    rcases right.ownerDirectoryId with same | moved
    · rw [same]
      exact left.ownerDirectoryId
    · exact .inr moved
  links item mem := by
    rcases right.links item mem with kept | unresolved
    · exact left.links item kept
    · exact .inr unresolved
  sources source mem := by
    rcases right.sources source mem with kept | unresolved
    · exact left.sources source kept
    · exact .inr unresolved
  dependencies := right.dependencies.trans left.dependencies

/-- A mutation keeps items or adds the given ones. -/
theorem mem_applyItemMutation {ι : Type} {dest items : List ι} {op : PropertyOp} {item : ι}
    (mem : item ∈ applyItemMutation dest items op) : item ∈ dest ∨ item ∈ items := by
  cases op <;> simp only [applyItemMutation, mem_append] at mem
  case set => exact .inr mem
  all_goals exact mem.elim (fun left => by tauto) (fun right => by tauto)

/-- So does a promoted mutation. -/
theorem mem_applyPromotedItemMutation {ι : Type} {view : ι → StringItem} {dest items : List ι}
    {op : PropertyOp} {visibility : Visibility} {system : Bool} {item : ι}
    (mem : item ∈ applyPromotedItemMutation view dest items op visibility system) :
    item ∈ dest ∨ item ∈ items := by
  unfold applyPromotedItemMutation at mem
  split at mem
  · exact mem_applyItemMutation mem
  · rcases mem_append.mp mem with kept | added
    · exact .inl (mem_filter.mp kept).1
    · exact .inr added

variable {mutation : PropertyMutation}

/-- The items a mutation makes of typed items are not resolved. -/
theorem mutationLinkItems_unresolved {item : LinkItem}
    (mem : item ∈ mutationLinkItems filePath mutation) : item.targetId = none := by
  simp only [mutationLinkItems, mem_map] at mem
  obtain ⟨_, _, rfl⟩ := mem
  rfl

/-- A property event keeps link items or adds unresolved ones. -/
theorem applyPropertyEvent_links {usage : UsageItems} {item : LinkItem}
    (mem : item ∈ (applyPropertyEvent filePath mutation usage).linkLibraries) :
    item ∈ usage.linkLibraries ∨ item.targetId = none := by
  unfold applyPropertyEvent at mem
  dsimp only at mem
  split at mem
  · split at mem <;> exact .inl mem
  · split at mem
    · exact .inl mem
    · split at mem
      · rcases mem_applyItemMutation mem with kept | added
        · exact .inl kept
        · exact .inr (mutationLinkItems_unresolved added)
      · split at mem
        · exact .inl mem
        · split at mem
          · exact .inl mem
          · split at mem <;> exact .inl mem

/-- A directory property changes the items of the directory. -/
theorem directoryEdit_applyPropertyEvent (filePath : StringView) (mutation : PropertyMutation)
    (directory : DirectoryRecord) :
    DirectoryEdit directory
      { directory with
        toUsageItems := applyPropertyEvent filePath mutation directory.toUsageItems } where
  id := rfl
  parentId := rfl
  ownerDirectoryId := rfl
  sourceDir := rfl
  binaryDir := rfl
  links _ mem := applyPropertyEvent_links mem

/-- A declaration moves the target to the active directory. -/
theorem targetEdit_declareTarget (owner : DirectoryId) (targetType : CmakeTargetType)
    (imported isAlias : Bool) (aliasOf : StringView) (target : TargetRecord) :
    TargetEdit (some owner) target (declareTarget owner targetType imported isAlias aliasOf target)
    where
  id := rfl
  name := rfl
  ownerDirectoryId := .inr ⟨rfl, rfl⟩
  links _ mem := .inl mem
  sources _ mem := .inl mem
  dependencies := rfl

/-- A promoted property changes one item list. -/
theorem targetEdit_promoteTargetProperty (filePath : StringView) (key : PromotedKey)
    (op : PropertyOp) (typedItems : List (StringView × LinkItemMetadata)) (target : TargetRecord) :
    TargetEdit owner target (promoteTargetProperty filePath key op typedItems target) := by
  unfold promoteTargetProperty
  dsimp only
  split
  case h_6 =>
    refine ⟨rfl, rfl, .inl rfl, fun item mem => ?_, fun _ mem => .inl mem, rfl⟩
    rcases mem_applyPromotedItemMutation mem with kept | added
    · exact .inl kept
    · obtain ⟨_, _, rfl⟩ := mem_map.mp added
      exact .inr rfl
  all_goals exact .of_eq rfl rfl rfl rfl rfl rfl

/-- The import flags are no part of what is kept. -/
theorem targetEdit_setImportFlags (property : TargetPropSet) (target : TargetRecord) :
    TargetEdit owner target (setImportFlags property target) := by
  unfold setImportFlags
  dsimp only
  split
  · exact .of_eq rfl rfl rfl rfl rfl rfl
  · split
    · exact .of_eq rfl rfl rfl rfl rfl rfl
    · exact .of_eq rfl rfl rfl rfl rfl rfl

section

variable (filePath : StringView) (property : TargetPropSet) (target : TargetRecord)

/-- A promoted or raw property changes one list. -/
theorem targetEdit_promoteOrRecord :
    TargetEdit owner target (promoteOrRecord filePath property target) := by
  unfold promoteOrRecord
  split
  · split
    · exact .of_eq rfl rfl rfl rfl rfl rfl
    · exact targetEdit_promoteTargetProperty _ _ _ _ _ _
  · exact .of_eq rfl rfl rfl rfl rfl rfl

/-- A property event changes the target in one place. -/
theorem targetEdit_setTargetProperty :
    TargetEdit owner target (setTargetProperty filePath property target) := by
  unfold setTargetProperty
  dsimp only
  split
  · exact .of_eq rfl rfl rfl rfl rfl rfl
  split
  · exact .of_eq rfl rfl rfl rfl rfl rfl
  split
  · exact .of_eq rfl rfl rfl rfl rfl rfl
  split
  · exact .of_eq rfl rfl rfl rfl rfl rfl
  split
  · exact .of_eq rfl rfl rfl rfl rfl rfl
  · exact (targetEdit_setImportFlags _ _ _).trans (targetEdit_promoteOrRecord _ _ _ _)

/-- An item event appends to one item list. -/
theorem targetEdit_appendTargetItem (list : TargetItemList) (entry : ItemEntry)
    (target : TargetRecord) :
    TargetEdit owner target (appendTargetItem filePath list entry target) := by
  unfold appendTargetItem
  dsimp only
  split
  case h_1 =>
    refine ⟨rfl, rfl, .inl rfl, fun item mem => ?_, fun _ mem => .inl mem, rfl⟩
    dsimp only at mem
    rcases mem_applyItemMutation mem with kept | added
    · exact .inl kept
    · obtain rfl := mem_singleton.mp added
      exact .inr rfl
  all_goals exact .of_eq rfl rfl rfl rfl rfl rfl

end

/-- An event that names a target changes its record in one place. -/
theorem targetEdit_changeTarget {target changed : TargetRecord} {change : TargetChange}
    (handled : changeTarget filePath target change = .ok changed) :
    TargetEdit owner target changed := by
  cases change with
  | addSource path visibility sourceKind fileSetName =>
    simp only [changeTarget] at handled
    split at handled
    · cases handled
    · cases handled
      refine ⟨rfl, rfl, .inl rfl, fun _ mem => .inl mem, fun source mem => ?_, rfl⟩
      rcases mem_append.mp mem with kept | added
      · exact .inl kept
      · obtain rfl := mem_singleton.mp added
        exact .inr rfl
  | fileSetDeclare setName setKind visibility =>
    simp only [changeTarget] at handled
    split at handled
    · cases handled
    · cases handled
      exact .of_eq rfl rfl rfl rfl rfl rfl
  | fileSetAddBaseDir setName path =>
    simp only [changeTarget] at handled
    split at handled
    · cases handled
      exact .of_eq rfl rfl rfl rfl rfl rfl
    · cases handled
  | addDependency dependencyName =>
    cases handled
    exact .of_eq rfl rfl rfl rfl rfl rfl
  | item list entry =>
    cases handled
    exact targetEdit_appendTargetItem _ _ _ _ _

/-- An event that names a step adds to its record. -/
theorem stepEdit_changeStep (change : StepChange) (step : BuildStepRecord) :
    StepEdit step (changeStep change step) := by
  cases change with
  | addOutput path => exact ⟨rfl, rfl, rfl, rfl, fun _ mem => .inl mem, rfl, rfl⟩
  | addByproduct path => exact ⟨rfl, rfl, rfl, rfl, fun _ mem => .inl mem, rfl, rfl⟩
  | addCommand argv => exact ⟨rfl, rfl, rfl, rfl, fun _ mem => .inl mem, rfl, rfl⟩
  | addPathToken item =>
    refine ⟨rfl, rfl, rfl, rfl, fun dependency mem => ?_, rfl, rfl⟩
    rcases mem_append.mp mem with kept | added
    · exact .inl kept
    · obtain rfl := mem_singleton.mp added
      exact .inr rfl
  | addTargetRef item targetName =>
    refine ⟨rfl, rfl, rfl, rfl, fun dependency mem => ?_, rfl, rfl⟩
    rcases mem_append.mp mem with kept | added
    · exact .inl kept
    · obtain rfl := mem_singleton.mp added
      exact .inr rfl

/-! ## Edits of the draft -/

/-- The parts of a draft that the invariants are about are the same. -/
structure SameCore (before after : Draft) : Prop where
  globalProperties : after.globalProperties = before.globalProperties
  directories : after.directories = before.directories
  targets : after.targets = before.targets
  buildSteps : after.buildSteps = before.buildSteps
  targetNameIndex : after.targetNameIndex = before.targetNameIndex

/-- What an event can do to the core of the draft and to the directory stack. -/
inductive DraftEdit (before : Draft) (stack : List DirectoryId) :
    Draft → List DirectoryId → Prop where
  /-- Other parts of the draft change. -/
  | outside {after : Draft} (same : SameCore before after) : DraftEdit before stack after stack
  /-- A directory is entered. -/
  | enter {after : Draft} (directory : DirectoryRecord)
      (id : directory.id = before.directories.length)
      (parentId : directory.parentId = stack.head?)
      (ownerDirectoryId : directory.ownerDirectoryId = some directory.id)
      (links : directory.linkLibraries = [])
      (same : SameCore { before with directories := before.directories ++ [directory] } after) :
      DraftEdit before stack after (directory.id :: stack)
  /-- The innermost directory is left. -/
  | leave {after : Draft} (same : SameCore before after) : DraftEdit before stack after stack.tail
  /-- A directory is changed. -/
  | directory {after : Draft} (index : DirectoryId) (change : DirectoryRecord → DirectoryRecord)
      (edits : ∀ record, DirectoryEdit record (change record))
      (same : SameCore { before with directories := before.directories.modify index change }
        after) : DraftEdit before stack after stack
  /-- The global properties are changed. -/
  | globalProperties {after : Draft} (usage : UsageItems) (links : ∀ item ∈ usage.linkLibraries,
        item ∈ before.globalProperties.linkLibraries ∨ item.targetId = none)
      (same : SameCore { before with globalProperties := usage } after) :
      DraftEdit before stack after stack
  /-- A target of a new name is appended. -/
  | newTarget {after : Draft} (target : TargetRecord)
      (fresh : before.findTargetId target.name = none)
      (id : target.id = before.targets.length)
      (ownerDirectoryId : stack.head?.isSome = true ∧ target.ownerDirectoryId = stack.head?)
      (links : ∀ item ∈ target.linkLibraries, item.targetId = none)
      (sources : ∀ source ∈ target.sourceRecords, source.producerStepId = none)
      (dependencies : target.explicitDependencyIds = [])
      (same : SameCore
        { before with
          targets := before.targets ++ [target]
          targetNameIndex := before.targetNameIndex ++ [(target.name, target.id)] } after) :
      DraftEdit before stack after stack
  /-- A target is changed. -/
  | target {after : Draft} (index : TargetId) (change : TargetRecord → TargetRecord)
      (edits : ∀ record, before.targets[index]? = some record →
        TargetEdit stack.head? record (change record))
      (same : SameCore { before with targets := before.targets.modify index change } after) :
      DraftEdit before stack after stack
  /-- A step is appended. -/
  | newStep {after : Draft} (step : BuildStepRecord) (id : step.id = before.buildSteps.length)
      (ownerDirectoryId : stack.head?.isSome = true ∧ step.ownerDirectoryId = stack.head?)
      (ownerTargetId : step.ownerTargetId = none)
      (dependencies : step.dependencies = [])
      (resolved : step.resolvedTargetDependencies = [] ∧ step.resolvedProducerDependencies = [])
      (same : SameCore { before with buildSteps := before.buildSteps ++ [step] } after) :
      DraftEdit before stack after stack
  /-- A step is changed. -/
  | step {after : Draft} (index : BuildStepId) (change : BuildStepRecord → BuildStepRecord)
      (edits : ∀ record, StepEdit record (change record))
      (same : SameCore { before with buildSteps := before.buildSteps.modify index change } after) :
      DraftEdit before stack after stack

/-- A draft has its own core. -/
theorem SameCore.refl (draft : Draft) : SameCore draft draft := ⟨rfl, rfl, rfl, rfl, rfl⟩

/-- A handler that goes on after the check for an active directory found one. -/
theorem of_activeDirectory_bind {β : Type} {cause hint : String} {next : DirectoryId → Handled β}
    {result : β} (handled : (activeDirectory current cause hint >>= next) = .ok result) :
    ∃ id, current = some id ∧ next id = .ok result := by
  cases current with
  | none => cases handled
  | some id => exact ⟨id, rfl, handled⟩

/-- What `modifyFirst` returns is a change at one index. -/
theorem modifyFirst_eq_some {α : Type} {selects : α → Bool} {change : α → α}
    {records changed : List α} (found : modifyFirst selects change records = some changed) :
    ∃ index, changed = records.modify index change := by
  simp only [modifyFirst, Option.map_eq_some_iff] at found
  obtain ⟨index, _, rfl⟩ := found
  exact ⟨index, rfl⟩

/-- The name of a target just appended is found at its position. -/
theorem findTargetId_appendPlaceholder {owner : DirectoryId}
    (fresh : draft.findTargetId name = none) :
    (appendPlaceholder draft owner name).findTargetId name = some draft.targets.length := by
  have absent : draft.targetNameIndex.find? (fun entry => entry.1 = name) = none := by
    simpa [Draft.findTargetId, findInIndex] using fresh
  simp [Draft.findTargetId, findInIndex, appendPlaceholder, List.find?_append, absent]

variable {change : TargetRecord → TargetRecord}

/-- A new target and a first change of it. -/
theorem draftEdit_newTarget {owner : DirectoryId} (top : stack.head? = some owner)
    (fresh : draft.findTargetId name = none)
    (edits : ∀ record, TargetEdit stack.head? record (change record)) :
    DraftEdit draft stack ((modifyTarget (appendPlaceholder draft owner name) name change).getD
        (appendPlaceholder draft owner name)) stack := by
  let placeholder : TargetRecord :=
    { id := draft.targets.length, name, ownerDirectoryId := some owner, kind := .utility
      aliasOfId := some 0 }
  have edit := edits placeholder
  have owned : (change placeholder).ownerDirectoryId = stack.head? := by
    rcases edit.ownerDirectoryId with same | moved
    · rw [same, top]
    · exact moved.2
  have named : (change placeholder).name = name := edit.name
  have shape : modifyTarget (appendPlaceholder draft owner name) name change =
      some { draft with
        targets := draft.targets ++ [change placeholder]
        targetNameIndex := draft.targetNameIndex ++ [(name, draft.targets.length)] } := by
    rw [modifyTarget, findTargetId_appendPlaceholder fresh]
    simp [appendPlaceholder, placeholder, modify_eq_take_drop]
  rw [shape]
  refine .newTarget (change placeholder) (by rw [named]; exact fresh) edit.id
    ⟨by simp [top], owned⟩ (fun item mem => ?_) (fun source mem => ?_) edit.dependencies ?_
  · exact (edit.links item mem).elim (fun kept => by cases kept) fun same => same
  · exact (edit.sources source mem).elim (fun kept => by cases kept) fun same => same
  · refine ⟨rfl, rfl, rfl, rfl, ?_⟩
    simp [named, edit.id, placeholder]

/-- A known target is changed in place. -/
theorem draftEdit_modifyTarget (found : modifyTarget draft name change = some changed)
    (edits : ∀ record, draft.findTarget name = some record → TargetEdit stack.head? record (change
      record)) : DraftEdit draft stack changed stack := by
  simp only [modifyTarget, Option.map_eq_some_iff] at found
  obtain ⟨index, known, rfl⟩ := found
  refine .target index change (fun record here => edits record ?_) (.refl _)
  simp [Draft.findTarget, known, here]

/-- A target that is found has its name in the index. -/
theorem modifyTarget_of_findTarget {target : TargetRecord} (change : TargetRecord → TargetRecord)
    (found : draft.findTarget name = some target) :
    ∃ changed, modifyTarget draft name change = some changed := by
  simp only [Draft.findTarget, Option.bind_eq_bind, Option.bind_eq_some_iff] at found
  obtain ⟨index, known, _⟩ := found
  exact ⟨_, by rw [modifyTarget, known]; rfl⟩

/-- The index of a draft names positions of targets. -/
def Draft.IndexInRange (draft : Draft) : Prop :=
  ∀ name id, draft.findTargetId name = some id → id < draft.targets.length

/-- With such an index a target that is not found is not in the index. -/
theorem findTargetId_eq_none (inRange : draft.IndexInRange) (unknown : draft.findTarget name = none)
    : draft.findTargetId name = none := by
  cases known : draft.findTargetId name with
  | none => rfl
  | some id =>
    have bound := inRange name id known
    simp [Draft.findTarget, known, bound] at unknown

/-- A target event edits the draft. -/
theorem draftEdit_handleTargetBuildEvent {event : TargetEvent} (inRange : draft.IndexInRange)
    (handled : handleTargetBuildEvent filePath stack.head? draft event = .ok changed) :
    DraftEdit draft stack changed stack := by
  cases event with
  | declare name targetType imported isAlias aliasOf =>
    obtain ⟨owner, top, handled⟩ := of_activeDirectory_bind handled
    have edits : ∀ record, TargetEdit stack.head? record
        (declareTarget owner targetType imported isAlias aliasOf record) := by
      intro record
      rw [top]
      exact targetEdit_declareTarget ..
    dsimp only at handled
    split at handled
    next target found =>
      split at handled
      · cases handled
      · obtain ⟨after, shape⟩ := modifyTarget_of_findTarget
          (declareTarget owner targetType imported isAlias aliasOf) found
        rw [shape] at handled
        cases handled
        exact draftEdit_modifyTarget shape fun record _ => edits record
    next unknown =>
      cases handled
      exact draftEdit_newTarget top (findTargetId_eq_none inRange unknown) edits
  | propSet targetName property =>
    simp only [handleTargetBuildEvent] at handled
    split at handled
    next after shape =>
      cases handled
      exact draftEdit_modifyTarget shape fun record _ => targetEdit_setTargetProperty ..
    next owner shape top =>
      cases handled
      have fresh : draft.findTargetId targetName = none := by
        simpa [modifyTarget] using shape
      exact draftEdit_newTarget top fresh fun record => targetEdit_setTargetProperty ..
    next => cases handled
  | change targetName change =>
    simp only [handleTargetBuildEvent] at handled
    split at handled
    next => cases handled
    next target found =>
      cases outcome : changeTarget filePath target change with
      | error error =>
        rw [outcome] at handled
        cases handled
      | ok record =>
        rw [outcome] at handled
        obtain ⟨after, shape⟩ := modifyTarget_of_findTarget (fun _ => record) found
        have same : after = changed := by simpa [shape, bind, Except.bind] using handled
        subst same
        refine draftEdit_modifyTarget shape fun before here => ?_
        obtain rfl : target = before := by simpa [found] using here
        exact targetEdit_changeTarget _ outcome

/-- A build graph event edits the draft. -/
theorem draftEdit_handleBuildGraphEvent {event : BuildGraphEvent}
    (handled : handleBuildGraphEvent filePath stack.head? draft event = .ok changed) :
    DraftEdit draft stack changed stack := by
  cases event with
  | sourceMarkGenerated mark =>
    cases handled
    exact .outside ⟨rfl, rfl, rfl, rfl, rfl⟩
  | sourcePropertyMutate path directorySourceDir directoryBinaryDir key value op =>
    cases handled
    exact .outside ⟨rfl, rfl, rfl, rfl, rfl⟩
  | stepDeclare declaration =>
    obtain ⟨owner, top, handled⟩ := of_activeDirectory_bind handled
    split at handled
    · cases handled
    · cases handled
      exact .newStep (declaredStep draft.buildSteps.length owner declaration) rfl
        ⟨by simp [top], top.symm⟩ rfl rfl ⟨rfl, rfl⟩ (.refl _)
  | stepChange stepKey change =>
    simp only [handleBuildGraphEvent] at handled
    split at handled
    next buildSteps shape =>
      obtain ⟨index, rfl⟩ := modifyFirst_eq_some shape
      cases handled
      exact .step index (changeStep change) (stepEdit_changeStep change) (.refl _)
    next => cases handled

/-- A directory event edits the draft and the stack. -/
theorem draftEdit_handleDirectoryEvent {event : DirectoryEvent}
    (handled : handleDirectoryEvent filePath draft stack event = .ok (changed, changedStack)) :
    DraftEdit draft stack changed changedStack := by
  cases event with
  | enter sourceDir binaryDir =>
    cases handled
    exact .enter { id := draft.directories.length, parentId := stack.head?
                   ownerDirectoryId := some draft.directories.length, sourceDir, binaryDir }
      rfl rfl rfl rfl ⟨rfl, rfl, rfl, rfl, rfl⟩
  | leave sourceDir binaryDir =>
    obtain ⟨id, top, handled⟩ := of_activeDirectory_bind handled
    split at handled
    · cases handled
    · split at handled
      · cases handled
        exact .leave (.refl _)
      · cases handled
  | propertyMutate mutation =>
    obtain ⟨id, top, handled⟩ := of_activeDirectory_bind handled
    cases handled
    exact .directory id _ (directoryEdit_applyPropertyEvent filePath mutation) (.refl _)
  | globalPropertyMutate mutation =>
    cases handled
    exact .globalProperties _ (fun _ mem => applyPropertyEvent_links mem) (.refl _)

/-- The other handlers leave the core alone. -/
theorem sameCore_handleReplayEvent {event : ReplayEvent}
    (handled : handleReplayEvent current draft event = .ok changed) : SameCore draft changed := by
  cases event with
  | declare declaration =>
    obtain ⟨owner, _, handled⟩ := of_activeDirectory_bind handled
    split at handled
    · cases handled
    · split at handled
      · cases handled
      · cases handled
        exact ⟨rfl, rfl, rfl, rfl, rfl⟩
  | change actionKey change =>
    simp only [handleReplayEvent] at handled
    split at handled
    · cases handled
    next action _ =>
      cases outcome : changeReplayAction action change with
      | error error =>
        rw [outcome] at handled
        cases handled
      | ok record =>
        rw [outcome] at handled
        cases handled
        exact ⟨rfl, rfl, rfl, rfl, rfl⟩

theorem sameCore_handleTestEvent {event : TestEvent}
    (handled : handleTestEvent current draft event = .ok changed) : SameCore draft changed := by
  cases event with
  | enable enabled =>
    cases handled
    exact ⟨rfl, rfl, rfl, rfl, rfl⟩
  | add declaration =>
    obtain ⟨owner, _, handled⟩ := of_activeDirectory_bind handled
    cases handled
    exact ⟨rfl, rfl, rfl, rfl, rfl⟩

theorem sameCore_handleInstallEvent {declaration : InstallRuleDeclaration}
    (handled : handleInstallEvent current draft declaration = .ok changed) :
    SameCore draft changed := by
  obtain ⟨owner, _, handled⟩ := of_activeDirectory_bind handled
  cases handled
  exact ⟨rfl, rfl, rfl, rfl, rfl⟩

theorem sameCore_handleExportEvent {event : ExportEvent}
    (handled : handleExportEvent current draft event = .ok changed) : SameCore draft changed := by
  cases event with
  | buildAddTarget exportKey targetName =>
    simp only [handleExportEvent] at handled
    split at handled
    · cases handled
      exact ⟨rfl, rfl, rfl, rfl, rfl⟩
    · cases handled
  | _ =>
    obtain ⟨owner, _, handled⟩ := of_activeDirectory_bind handled
    cases handled
    exact ⟨rfl, rfl, rfl, rfl, rfl⟩

theorem sameCore_handlePackageEvent {event : PackageEvent}
    (handled : handlePackageEvent current draft event = .ok changed) : SameCore draft changed := by
  obtain ⟨owner, _, handled⟩ := of_activeDirectory_bind handled
  cases event with
  | packageAddGenerator packageKey generator =>
    dsimp only at handled
    split at handled
    · cases handled
      exact ⟨rfl, rfl, rfl, rfl, rfl⟩
    · cases handled
  | packageArchiveNameOverride packageKey archiveKey archiveFileName =>
    dsimp only at handled
    split at handled
    · cases handled
      exact ⟨rfl, rfl, rfl, rfl, rfl⟩
    · cases handled
  | _ =>
    cases handled
    exact ⟨rfl, rfl, rfl, rfl, rfl⟩

/-- The draft of a handler that keeps the stack. -/
theorem of_map_stack {result : Handled Draft}
    (handled : result.map (·, stack) = .ok (changed, changedStack)) :
    result = .ok changed ∧ changedStack = stack := by
  cases result with
  | error error => cases handled
  | ok draft =>
    cases handled
    exact ⟨rfl, rfl⟩

/-- Every event that is taken is an edit. -/
theorem draftEdit_handleEvent {body : BuildEventBody} (inRange : draft.IndexInRange)
    (handled : handleEvent filePath draft stack body = .ok (changed, changedStack)) :
    DraftEdit draft stack changed changedStack := by
  cases body with
  | project event =>
    cases handled
    cases event <;> exact .outside ⟨rfl, rfl, rfl, rfl, rfl⟩
  | directory event => exact draftEdit_handleDirectoryEvent handled
  | target event =>
    obtain ⟨handled, rfl⟩ := of_map_stack handled
    exact draftEdit_handleTargetBuildEvent inRange handled
  | buildGraph event =>
    obtain ⟨handled, rfl⟩ := of_map_stack handled
    exact draftEdit_handleBuildGraphEvent handled
  | replay event =>
    obtain ⟨handled, rfl⟩ := of_map_stack handled
    exact .outside (sameCore_handleReplayEvent handled)
  | test event =>
    obtain ⟨handled, rfl⟩ := of_map_stack handled
    exact .outside (sameCore_handleTestEvent handled)
  | installRuleAdd declaration =>
    obtain ⟨handled, rfl⟩ := of_map_stack handled
    exact .outside (sameCore_handleInstallEvent handled)
  | exportEvent event =>
    obtain ⟨handled, rfl⟩ := of_map_stack handled
    exact .outside (sameCore_handleExportEvent handled)
  | package event =>
    obtain ⟨handled, rfl⟩ := of_map_stack handled
    exact .outside (sameCore_handlePackageEvent handled)
  | other =>
    cases handled
    exact .outside (.refl _)

end Nobify.BuildModel
