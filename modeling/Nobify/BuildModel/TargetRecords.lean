import Nobify.BuildModel.BuilderInvariant

/-!
# What events leave on a target

A list of a target's record that only property events add to holds, after a stream, what the
property events about the target added, in their order: no other event touches it.
-/

namespace Nobify.BuildModel

open Nobify.Lib (replay)
open List Option

variable {filePath targetName : StringView}

/-! ## Lists that property events add to -/

section Gathering

variable {α : Type} (part : TargetRecord → List α) (added : TargetPropSet → List α)

/-- Only property events add to the list. -/
structure Gathers : Prop where
  placeholder : ∀ (id : TargetId) (name : StringView) (owner : DirectoryId),
    part { id, name, ownerDirectoryId := some owner, kind := .utility, aliasOfId := some 0 } = []
  declared : ∀ owner targetType imported isAlias aliasOf target,
    part (declareTarget owner targetType imported isAlias aliasOf target) = part target
  changed : ∀ filePath target change after, changeTarget filePath target change = .ok after →
    part after = part target
  set : ∀ filePath property target,
    part (setTargetProperty filePath property target) = part target ++ added property

/-- The index leads from a name to a target of that name. -/
def Draft.IndexNames (draft : Draft) : Prop :=
  ∀ name id, draft.findTargetId name = some id →
    ∃ target, draft.targets[id]? = some target ∧ target.name = name

/-- What the record of a name holds. -/
def Draft.held (draft : Draft) (name : StringView) : List α := (draft.findTarget name).elim [] part

/-- The property events about a target of the name. -/
def BuildEventBody.setsOf (name : StringView) : BuildEventBody → List TargetPropSet
  | .target (.propSet targetName property) => if targetName = name then [property] else []
  | _ => []

/-- The property events about a target, in a stream. -/
def setsOf (name : StringView) (stream : List BuildEvent) : List TargetPropSet :=
  stream.flatMap fun event => event.body.setsOf name

variable {part added} {draft changed : Draft} (name : StringView)

theorem held_congr (targets : changed.targets = draft.targets)
    (index : changed.targetNameIndex = draft.targetNameIndex) :
    changed.held part name = draft.held part name := by
  unfold Draft.held Draft.findTarget Draft.findTargetId
  rw [targets, index]

variable {change : TargetRecord → TargetRecord} {more : List α}

/-- A change of a known target is a change of what its name holds. -/
theorem held_modifyTarget (named : draft.IndexNames)
    (found : modifyTarget draft targetName change = some changed)
    (changes : ∀ target, draft.findTarget targetName = some target → part (change target) = part
      target ++ more) :
    changed.held part name = draft.held part name ++ if targetName = name then more else [] := by
  obtain ⟨index, known, rfl⟩ := map_eq_some_iff.mp found
  obtain ⟨target, here, called⟩ := named _ _ known
  have foundTarget : draft.findTarget targetName = some target := by
    rw [Draft.findTarget, known]
    exact here
  have modified : ∀ id, (draft.targets.modify index change)[id]? =
      if index = id then (draft.targets[id]?).map change else draft.targets[id]? := by
    intro id
    rw [List.getElem?_modify]
    split <;> simp
  unfold Draft.held Draft.findTarget Draft.findTargetId
  by_cases same : targetName = name
  · subst same
    have position : findInIndex draft.targetNameIndex targetName = some index := known
    rw [if_pos rfl, position]
    show (draft.targets.modify index change)[index]?.elim [] part =
      draft.targets[index]?.elim [] part ++ more
    rw [modified, if_pos rfl, here]
    exact changes target foundTarget
  · rw [if_neg same, append_nil]
    cases other : findInIndex draft.targetNameIndex name with
    | none => rfl
    | some id =>
      show (draft.targets.modify index change)[id]?.elim [] part = draft.targets[id]?.elim [] part
      have apart : index ≠ id := by
        rintro rfl
        obtain ⟨again, there, calledToo⟩ := named _ _ other
        obtain rfl := some.inj (here.symm.trans there)
        exact same (called.symm.trans calledToo)
      rw [modified, if_neg apart]

/-- Before its first change a new target is a placeholder. -/
theorem findTargetId_appendPlaceholder_other (owner : DirectoryId) (other : targetName ≠ name) :
    (appendPlaceholder draft owner targetName).findTargetId name = draft.findTargetId name := by
  unfold Draft.findTargetId findInIndex appendPlaceholder
  rw [List.find?_append, List.find?_singleton, if_neg (by simpa using other), or_none]

theorem targets_appendPlaceholder {id : TargetId} (inRange : id < draft.targets.length)
    (owner : DirectoryId) (targetName : StringView) :
    (appendPlaceholder draft owner targetName).targets[id]? = draft.targets[id]? :=
  List.getElem?_append_left inRange

theorem Draft.IndexNames.appendPlaceholder (named : draft.IndexNames)
    (fresh : draft.findTargetId targetName = none) (owner : DirectoryId) :
    (appendPlaceholder draft owner targetName).IndexNames := by
  intro name id found
  by_cases same : targetName = name
  · subst same
    rw [findTargetId_appendPlaceholder fresh] at found
    cases found
    exact ⟨_, List.getElem?_concat_length, rfl⟩
  · rw [findTargetId_appendPlaceholder_other name owner same] at found
    obtain ⟨target, here, called⟩ := named name id found
    have inRange := (List.getElem?_eq_some_iff.mp here).1
    exact ⟨target, (targets_appendPlaceholder inRange owner targetName).trans here, called⟩

variable (gathers : Gathers part added)

include gathers

section

variable (named : draft.IndexNames)

include named

/-- A placeholder holds nothing. -/
theorem held_appendPlaceholder (fresh : draft.findTargetId targetName = none)
    (owner : DirectoryId) :
    (appendPlaceholder draft owner targetName).held part name = draft.held part name := by
  unfold Draft.held Draft.findTarget
  by_cases same : targetName = name
  · subst same
    rw [findTargetId_appendPlaceholder fresh, fresh]
    show (draft.targets ++ [_])[draft.targets.length]?.elim [] part = []
    rw [List.getElem?_concat_length]
    exact gathers.placeholder _ _ _
  · rw [findTargetId_appendPlaceholder_other name owner same]
    cases found : draft.findTargetId name with
    | none => rfl
    | some id =>
      obtain ⟨target, here, -⟩ := named name id found
      have inRange := (List.getElem?_eq_some_iff.mp here).1
      exact congrArg (Option.elim · [] part) (targets_appendPlaceholder inRange owner targetName)

/-- A new target holds what its first change adds. -/
theorem held_newTarget (fresh : draft.findTargetId targetName = none) (owner : DirectoryId)
    (changes : ∀ target, part (change target) = part target ++ more) :
    ((modifyTarget (appendPlaceholder draft owner targetName) targetName change).getD
        (appendPlaceholder draft owner targetName)).held part name =
      draft.held part name ++ if targetName = name then more else [] := by
  have known : (appendPlaceholder draft owner targetName).findTargetId targetName =
      some draft.targets.length := findTargetId_appendPlaceholder fresh
  have found : modifyTarget (appendPlaceholder draft owner targetName) targetName change =
      some { appendPlaceholder draft owner targetName with
        targets := (appendPlaceholder draft owner targetName).targets.modify
          draft.targets.length change } := by
    rw [modifyTarget, known]
    rfl
  have step := held_modifyTarget name (named.appendPlaceholder fresh owner) found
    fun target _ => changes target
  rw [held_appendPlaceholder name gathers named fresh owner] at step
  rw [found]
  exact step

/-- An event about a target. -/
theorem held_handleTargetBuildEvent {current : Option DirectoryId} {event : TargetEvent}
    (handled : handleTargetBuildEvent filePath current draft event = .ok changed) :
    changed.held part name =
      draft.held part name ++ ((BuildEventBody.target event).setsOf name).flatMap added := by
  have inRange : draft.IndexInRange := fun name id found => by
    obtain ⟨target, here, -⟩ := named name id found
    exact (List.getElem?_eq_some_iff.mp here).1
  cases event with
  | declare targetName targetType imported isAlias aliasOf =>
    obtain ⟨owner, -, handled⟩ := of_activeDirectory_bind handled
    have keeps : ∀ target, part (declareTarget owner targetType imported isAlias aliasOf target) =
        part target ++ [] := fun target => by
      rw [append_nil]
      exact gathers.declared owner targetType imported isAlias aliasOf target
    have nothing : (if targetName = name then ([] : List α) else []) = [] := ite_self _
    dsimp only at handled
    split at handled
    next target found =>
      split at handled
      · cases handled
      · obtain ⟨after, shape⟩ := modifyTarget_of_findTarget
          (declareTarget owner targetType imported isAlias aliasOf) found
        rw [shape] at handled
        cases handled
        have step := held_modifyTarget name named shape fun target _ => keeps target
        rw [nothing] at step
        exact step
    next unknown =>
      cases handled
      have step := held_newTarget name gathers named
        (findTargetId_eq_none inRange unknown) owner keeps
      rw [nothing] at step
      exact step
  | propSet targetName property =>
    have adds : ((BuildEventBody.target (.propSet targetName property)).setsOf name).flatMap added =
        if targetName = name then added property else [] := by
      show (if targetName = name then [property] else []).flatMap added = _
      split
      · exact flatMap_singleton added property
      · rfl
    rw [adds]
    simp only [handleTargetBuildEvent] at handled
    split at handled
    next after shape =>
      cases handled
      exact held_modifyTarget name named shape fun target _ => gathers.set filePath property target
    next owner shape =>
      cases handled
      have fresh : draft.findTargetId targetName = none := by
        simpa [modifyTarget] using shape
      exact held_newTarget name gathers named fresh owner fun target =>
        gathers.set filePath property target
    next => cases handled
  | change targetName change =>
    simp only [handleTargetBuildEvent] at handled
    split at handled
    next => cases handled
    next target found =>
      cases outcome : changeTarget filePath target change with
      | error error =>
        rw [outcome] at handled
        cases handled
      | ok record =>
        rw [outcome] at handled
        obtain ⟨after, shape⟩ := modifyTarget_of_findTarget (fun _ => record) found
        have same : after = changed := by simpa [shape, bind, Except.bind] using handled
        subst same
        have step := held_modifyTarget name named shape fun before here => by
          obtain rfl : target = before := by simpa [found] using here
          rw [append_nil]
          exact gathers.changed filePath target change record outcome
        rw [ite_self] at step
        exact step

end

omit gathers

/-! ## Streams -/

variable {stack changedStack : List DirectoryId}

/-- The other events leave the targets alone. -/
theorem targets_handleDirectoryEvent {event : DirectoryEvent}
    (handled : handleDirectoryEvent filePath draft stack event = .ok (changed, changedStack)) :
    changed.targets = draft.targets ∧ changed.targetNameIndex = draft.targetNameIndex := by
  cases event with
  | enter sourceDir binaryDir =>
    cases handled
    exact ⟨rfl, rfl⟩
  | leave sourceDir binaryDir =>
    obtain ⟨id, -, handled⟩ := of_activeDirectory_bind handled
    split at handled
    · cases handled
    · split at handled
      · cases handled
        exact ⟨rfl, rfl⟩
      · cases handled
  | propertyMutate mutation =>
    obtain ⟨id, -, handled⟩ := of_activeDirectory_bind handled
    cases handled
    exact ⟨rfl, rfl⟩
  | globalPropertyMutate mutation =>
    cases handled
    exact ⟨rfl, rfl⟩

theorem targets_handleBuildGraphEvent {current : Option DirectoryId} {event : BuildGraphEvent}
    (handled : handleBuildGraphEvent filePath current draft event = .ok changed) :
    changed.targets = draft.targets ∧ changed.targetNameIndex = draft.targetNameIndex := by
  cases event with
  | sourceMarkGenerated mark =>
    cases handled
    exact ⟨rfl, rfl⟩
  | sourcePropertyMutate path directorySourceDir directoryBinaryDir key value op =>
    cases handled
    exact ⟨rfl, rfl⟩
  | stepDeclare declaration =>
    obtain ⟨owner, -, handled⟩ := of_activeDirectory_bind handled
    split at handled
    · cases handled
    · cases handled
      exact ⟨rfl, rfl⟩
  | stepChange stepKey change =>
    simp only [handleBuildGraphEvent] at handled
    split at handled
    · cases handled
      exact ⟨rfl, rfl⟩
    · cases handled

theorem SameCore.sameTargets (same : SameCore draft changed) :
    changed.targets = draft.targets ∧ changed.targetNameIndex = draft.targetNameIndex :=
  ⟨same.targets, same.targetNameIndex⟩

/-- An event adds what its property events add. -/
theorem held_handleEvent (gathers : Gathers part added) (named : draft.IndexNames)
    {body : BuildEventBody}
    (handled : handleEvent filePath draft stack body = .ok (changed, changedStack)) :
    changed.held part name = draft.held part name ++ (body.setsOf name).flatMap added := by
  have kept : changed.targets = draft.targets ∧ changed.targetNameIndex = draft.targetNameIndex →
      changed.held part name = draft.held part name ++ [] := fun same => by
    rw [append_nil]
    exact held_congr name same.1 same.2
  cases body with
  | target event =>
    obtain ⟨handled, -⟩ := of_map_stack handled
    exact held_handleTargetBuildEvent name gathers named handled
  | project event =>
    cases handled
    cases event <;> exact kept ⟨rfl, rfl⟩
  | directory event => exact kept (targets_handleDirectoryEvent handled)
  | buildGraph event =>
    exact kept (targets_handleBuildGraphEvent (of_map_stack handled).1)
  | replay event => exact kept (sameCore_handleReplayEvent (of_map_stack handled).1).sameTargets
  | test event => exact kept (sameCore_handleTestEvent (of_map_stack handled).1).sameTargets
  | installRuleAdd declaration =>
    exact kept (sameCore_handleInstallEvent (of_map_stack handled).1).sameTargets
  | exportEvent event =>
    exact kept (sameCore_handleExportEvent (of_map_stack handled).1).sameTargets
  | package event => exact kept (sameCore_handlePackageEvent (of_map_stack handled).1).sameTargets
  | other =>
    cases handled
    exact kept ⟨rfl, rfl⟩

theorem Draft.WellFormed.indexNames (formed : draft.WellFormed) : draft.IndexNames :=
  fun _ _ found => formed.findTargetId found

include gathers

theorem held_applyEvent {builder : Builder} {event : BuildEvent} (formed : builder.draft.WellFormed)
    (taken : (builder.applyEvent event).2 = true) :
    (builder.applyEvent event).1.draft.held part name =
      builder.draft.held part name ++ (event.body.setsOf name).flatMap added := by
  obtain ⟨-, ⟨semantic, same⟩ | ⟨draft, stack, handled, after⟩⟩ := applyEvent_taken taken
  · have none : event.body.setsOf name = [] := by
      cases body : event.body with
      | target event => rw [body] at semantic; cases event <;> cases semantic
      | _ => rfl
    rw [same, none, flatMap_nil, append_nil]
  · have same : SameCore builder.draft { builder.draft with hasSemanticEntities := true } :=
      ⟨rfl, rfl, rfl, rfl, rfl⟩
    have step := held_handleEvent name gathers (formed.congr same).indexNames handled
    rw [after]
    exact step.trans (congrArg (· ++ _) (held_congr name rfl rfl))

/-- A stream adds what its property events about the name add, in their order. -/
theorem held_feed {stream : List BuildEvent} {builder : Builder} (formed : builder.WellFormed)
    (taken : builder.Takes stream) :
    (builder.feed stream).draft.held part name =
      builder.draft.held part name ++ (setsOf name stream).flatMap added := by
  induction stream generalizing builder with
  | nil => exact (append_nil _).symm
  | cons event rest ih =>
    obtain ⟨first, later⟩ := taken
    have step := held_applyEvent name gathers formed.draft first
    have run := ih (formed.applyEvent first) later
    have split : setsOf name (event :: rest) = event.body.setsOf name ++ setsOf name rest :=
      flatMap_cons
    rw [split, flatMap_append, ← append_assoc, ← step]
    exact run

/-- A finished draft holds what the property events about the name added. -/
theorem held_of_finalize {stream : List BuildEvent} {draft : Draft}
    (finished : (Builder.feed {} stream).finalize.2 = some draft) :
    draft.held part name = (setsOf name stream).flatMap added := by
  obtain ⟨clean, -, rfl⟩ := finalize_eq_some_iff.mp finished
  have taken : Builder.Takes {} stream := (takes_iff stream rfl).mpr clean
  exact (held_feed name gathers Builder.wellFormed_create taken).trans (nil_append _)

end Gathering

end Nobify.BuildModel
