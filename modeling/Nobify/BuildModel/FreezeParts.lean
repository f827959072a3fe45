import Nobify.BuildModel.FreezeNames

/-!
# What the passes of freeze leave alone

A pass of freeze changes one part of a target and copies the others. A part of the records that
does not depend on what a pass changes is the same before and after it.
-/

namespace Nobify.BuildModel

open Nobify.Lib (bind_eq_ok map_eq_of_mapM foldlM_keeps)

section Parts

variable {α : Type} (part : TargetRecord → α)

/-- The targets of the models have the same part. -/
def SamePart (before after : Model) : Prop := after.targets.map part = before.targets.map part

/-- The part does not depend on link items and on the kind of a target. -/
structure IgnoresLinks : Prop where
  links : ∀ target linkLibraries, part { target with linkLibraries } = part target
  kind : ∀ target kind, part { target with kind } = part target

/-- The part does not depend on source records and file sets. -/
structure IgnoresSources : Prop where
  records : ∀ target sourceRecords, part { target with sourceRecords } = part target
  fileSets : ∀ target fileSets, part { target with fileSets } = part target

/-- The part does not depend on what freeze reads from the properties of imported targets. -/
structure IgnoresImports : Prop where
  configs : ∀ target importedConfigs, part { target with importedConfigs } = part target
  maps : ∀ target importedConfigMaps, part { target with importedConfigMaps } = part target

variable {part} {draft : Draft} {before after : Model}

theorem samePart_overTargets {pass : TargetRecord → Freezing TargetRecord}
    (kept : ∀ target changed, pass target = .ok changed → part changed = part target)
    (passed : overTargets pass before = .ok after) : SamePart part before after := by
  obtain ⟨targets, mapped, made⟩ := bind_eq_ok.mp passed
  cases made
  exact map_eq_of_mapM mapped fun target _ changed round => kept target changed round

theorem samePart_overSteps {pass : BuildStepRecord → Freezing BuildStepRecord}
    (passed : overSteps pass before = .ok after) : SamePart part before after := by
  obtain ⟨steps, -, made⟩ := bind_eq_ok.mp passed
  cases made
  rfl

theorem samePart_freezeLinkItems (ignores : IgnoresLinks part)
    (passed : freezeLinkItems draft before = .ok after) : SamePart part before after := by
  obtain ⟨targets, mapped, rest⟩ := bind_eq_ok.mp passed
  obtain ⟨directories, -, rest⟩ := bind_eq_ok.mp rest
  obtain ⟨globals, -, made⟩ := bind_eq_ok.mp rest
  cases made
  refine map_eq_of_mapM mapped fun target _ changed round => ?_
  obtain ⟨items, -, set⟩ := bind_eq_ok.mp round
  cases set
  exact ignores.links target items

theorem samePart_freezePromote (ignores : IgnoresLinks part)
    (passed : freezePromote before = .ok after) : SamePart part before after := by
  unfold freezePromote promoteCustomTargetKinds at passed
  dsimp only at passed
  split at passed
  · rename_i promoted same
    cases passed
    split at same
    · cases same
      refine List.ext_getElem? fun index => ?_
      rw [List.getElem?_map, List.getElem?_map, List.getElem?_mapIdx]
      cases before.targets[index]? with
      | none => rfl
      | some target =>
        dsimp only [Option.map_some]
        split
        · exact congrArg some (ignores.kind target .utility)
        · rfl
    · cases same
  · cases passed

theorem part_materializeImportedProperty (ignores : IgnoresImports part) (sourceDir : StringView)
    (target : TargetRecord) (property : RawPropertyRecord) :
    part (materializeImportedProperty sourceDir target property) = part target := by
  unfold materializeImportedProperty
  dsimp only
  split
  · exact ignores.configs target _
  split
  · exact ignores.configs target _
  split
  · exact ignores.configs target _
  split
  · exact ignores.maps target _
  · rfl

theorem part_materializeImportedTarget (ignores : IgnoresImports part) (model : Model)
    (target : TargetRecord) : part (materializeImportedTarget model target) = part target := by
  have all : ∀ (sourceDir : StringView) (properties : List RawPropertyRecord)
      (target : TargetRecord),
      part (properties.foldl (materializeImportedProperty sourceDir) target) = part target := by
    intro sourceDir properties
    induction properties with
    | nil => exact fun _ => rfl
    | cons property rest ih =>
      intro target
      exact (ih _).trans (part_materializeImportedProperty ignores sourceDir target property)
  unfold materializeImportedTarget
  dsimp only
  split
  · exact all _ _ target
  · rfl

theorem samePart_materialize (ignores : IgnoresImports part)
    (passed : overTargets (fun target => .ok (materializeImportedTarget before target)) before =
      .ok after) : SamePart part before after := by
  refine samePart_overTargets (fun target changed round => ?_) passed
  cases round
  exact part_materializeImportedTarget ignores before target

theorem samePart_freezeSources (ignores : IgnoresSources part)
    (passed : freezeSources draft before = .ok after) : SamePart part before after := by
  have marked : ∀ (marks : List SourceGeneratedMark) (target : TargetRecord),
      part (marks.foldl applyGeneratedMark target) = part target := by
    intro marks
    induction marks with
    | nil => exact fun _ => rfl
    | cons mark rest ih => exact fun target => (ih _).trans (ignores.records target _)
  obtain ⟨resolved, first, second⟩ := bind_eq_ok.mp passed
  have paths : SamePart part before resolved := by
    refine samePart_overTargets (fun target changed round => ?_) first
    obtain ⟨owner, -, set⟩ := bind_eq_ok.mp round
    cases set
    exact ignores.records target _
  have marks : SamePart part resolved after := by
    refine samePart_overTargets (fun target changed round => ?_) second
    cases round
    exact marked _ target
  exact marks.trans paths

theorem samePart_freezeSourceMutations (ignores : IgnoresSources part)
    (passed : freezeSourceMutations draft before = .ok after) : SamePart part before after := by
  have start : SamePart part before before := rfl
  refine foldlM_keeps (fun mutation _ state next kept round => ?_) start passed
  have mutated : SamePart part state next := by
    refine samePart_overTargets (fun target changed step => ?_) round
    obtain ⟨owner, -, set⟩ := bind_eq_ok.mp step
    cases set
    exact ignores.records target _
  exact mutated.trans kept

theorem samePart_populate (ignores : IgnoresSources part)
    (passed : overTargets (fun target => .ok (populateTargetFileSets target)) before =
      .ok after) : SamePart part before after := by
  refine samePart_overTargets (fun target changed round => ?_) passed
  cases round
  exact ignores.fileSets target _

end Parts

end Nobify.BuildModel
