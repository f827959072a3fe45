import Nobify.BuildModel.BuilderInvariant
import Nobify.BuildModel.FreezeDraft
import Nobify.Lib.ExceptLoop

/-!
# Names in a frozen model

Freeze resolves names in a dozen passes, each over the model the passes before it have left. What
the passes do not touch is said once, as the core of a target; the facts about names depend on the
cores alone and so survive every later pass. A pass that fails is loud: it does not index an array
outside of its range, and it has reported an error.
-/

namespace Nobify.BuildModel

open Nobify.Lib (bind_eq_ok forall₂_of_mapM getElem?_of_mapM mem_of_mapM map_eq_of_mapM
  getElem?_of_map_eq mem_of_map_eq foldlM_keeps Avoids)
open List

variable {draft : Draft} {after before model : Model} {name : StringView}
  {final first id : TargetId} {target : TargetRecord}

/-! ## Link items of a draft -/

/-- No link item of the draft has a target yet. -/
structure Draft.LinksOpen (draft : Draft) : Prop where
  targets : ∀ target ∈ draft.targets, ∀ item ∈ target.linkLibraries, item.targetId = none
  directories : ∀ directory ∈ draft.directories, ∀ item ∈ directory.linkLibraries,
    item.targetId = none
  globals : ∀ item ∈ draft.globalProperties.linkLibraries, item.targetId = none

/-- Open link items are about the core of the draft. -/
theorem Draft.LinksOpen.congr {before after : Draft} (same : SameCore before after)
    (links : before.LinksOpen) : after.LinksOpen where
  targets := same.targets ▸ links.targets
  directories := same.directories ▸ links.directories
  globals := same.globalProperties ▸ links.globals

/-- An edit adds only link items without a target. -/
theorem DraftEdit.linksOpen {before after : Draft} {stack changedStack : List DirectoryId}
    (edit : DraftEdit before stack after changedStack) (open_ : before.LinksOpen) :
    after.LinksOpen := by
  cases edit with
  | outside same | leave same => exact open_.congr same
  | enter directory id parentId ownerDirectoryId links same =>
    refine Draft.LinksOpen.congr same ⟨open_.targets, ?_, open_.globals⟩
    intro other mem item listed
    rcases mem_append.mp mem with old | added
    · exact open_.directories other old item listed
    · obtain rfl := mem_singleton.mp added
      rw [links] at listed
      cases listed
  | directory index change edits same =>
    refine Draft.LinksOpen.congr same ⟨open_.targets, ?_, open_.globals⟩
    refine Nobify.Lib.forall_mem_modify open_.directories fun record _ before item listed => ?_
    rcases (edits record).links item listed with kept | unresolved
    · exact before item kept
    · exact unresolved
  | globalProperties usage links same =>
    refine Draft.LinksOpen.congr same ⟨open_.targets, open_.directories, ?_⟩
    intro item listed
    rcases links item listed with kept | unresolved
    · exact open_.globals item kept
    · exact unresolved
  | newTarget target fresh id owned links sources dependencies same =>
    refine Draft.LinksOpen.congr same ⟨?_, open_.directories, open_.globals⟩
    intro other mem item listed
    rcases mem_append.mp mem with old | added
    · exact open_.targets other old item listed
    · obtain rfl := mem_singleton.mp added
      exact links item listed
  | target index change edits same =>
    refine Draft.LinksOpen.congr same ⟨?_, open_.directories, open_.globals⟩
    refine Nobify.Lib.forall_mem_modify open_.targets fun record here before item listed => ?_
    rcases (edits record here).links item listed with kept | unresolved
    · exact before item kept
    · exact unresolved
  | newStep step id owned ownerTarget dependencies resolved same =>
    exact Draft.LinksOpen.congr same ⟨open_.targets, open_.directories, open_.globals⟩
  | step index change edits same =>
    exact Draft.LinksOpen.congr same ⟨open_.targets, open_.directories, open_.globals⟩

/-- What freeze relies on. -/
structure Draft.Built (draft : Draft) : Prop where
  formed : draft.WellFormed
  links : draft.LinksOpen

/-- An event that is taken keeps the link items open. -/
theorem linksOpen_applyEvent {builder : Builder} {event : BuildEvent}
    (formed : builder.WellFormed) (open_ : builder.draft.LinksOpen)
    (taken : (builder.applyEvent event).2 = true) :
    (builder.applyEvent event).1.draft.LinksOpen := by
  obtain ⟨_, ⟨_, same⟩ | ⟨draft, stack, handled, after⟩⟩ := applyEvent_taken taken
  · rw [same]
    exact open_
  · have same : SameCore builder.draft { builder.draft with hasSemanticEntities := true } :=
      ⟨rfl, rfl, rfl, rfl, rfl⟩
    have marked := formed.draft.congr same
    have edit := draftEdit_handleEvent marked.indexInRange handled
    rw [after]
    exact edit.linksOpen (open_.congr same)

/-- A draft that the builder returns. -/
theorem built_of_finalize {stream : List BuildEvent}
    (finalized : (Builder.feed {} stream).finalize.2 = some draft) : draft.Built := by
  obtain ⟨clean, _, rfl⟩ := finalize_eq_some_iff.mp finalized
  have taken : Builder.Takes {} stream := (takes_iff stream rfl).mpr clean
  have step : ∀ (event : BuildEvent) (builder : Builder), (builder.applyEvent event).2 = true →
      builder.WellFormed ∧ builder.draft.LinksOpen →
      (builder.applyEvent event).1.WellFormed ∧ (builder.applyEvent event).1.draft.LinksOpen := by
    intro event builder here kept
    exact ⟨kept.1.applyEvent here, linksOpen_applyEvent kept.1 kept.2 here⟩
  have both : (Builder.feed {} stream).WellFormed ∧ (Builder.feed {} stream).draft.LinksOpen :=
    Nobify.Lib.along_invariant _ step taken ⟨Builder.wellFormed_create, by simp, by simp, by simp⟩
  exact ⟨both.1.draft, both.2⟩

/-! ## What a target is called -/

/-- The fields of a target that no pass after the copy changes. -/
structure TargetCore where
  id : TargetId
  name : StringView
  ownerDirectoryId : Option DirectoryId
  isAlias : Bool
  aliasOfName : StringView
  aliasOfId : Option TargetId
  explicitDependencyNames : List StringView
  explicitDependencyIds : List (Option TargetId)
  links : List StringItem

/-- The core of a target. -/
def TargetRecord.core (target : TargetRecord) : TargetCore where
  id := target.id
  name := target.name
  ownerDirectoryId := target.ownerDirectoryId
  isAlias := target.isAlias
  aliasOfName := target.aliasOfName
  aliasOfId := target.aliasOfId
  explicitDependencyNames := target.explicitDependencyNames
  explicitDependencyIds := target.explicitDependencyIds
  links := target.linkLibraries.map LinkItem.toStringItem

/-- What of a target is stored in the draft. -/
def TargetRecord.stored (target : TargetRecord) : TargetCore :=
  { target.core with aliasOfId := none, explicitDependencyIds := [] }

/-- What of a step is stored in the draft. -/
def BuildStepRecord.stored (step : BuildStepRecord) :
    BuildStepId × Option DirectoryId × StringView × List StepDependency :=
  (step.id, step.ownerDirectoryId, step.ownerTargetName,
    step.dependencies.map StepDependency.unresolved)

/-- What of a directory is stored in the draft. -/
def DirectoryRecord.stored (directory : DirectoryRecord) :
    DirectoryId × StringView × List StringItem :=
  (directory.id, directory.sourceDir, directory.linkLibraries.map LinkItem.toStringItem)

/-- The id is that of the target with this name. -/
def TargetCalled (model : Model) (name : StringView) (id : TargetId) : Prop :=
  ∃ target, model.targets[id]? = some target ∧ target.name = name

/-- Aliases lead from one target to another that is no alias. -/
inductive Follows (model : Model) : TargetId → TargetId → Prop where
  | here {id : TargetId} {target : TargetRecord} (found : model.targets[id]? = some target)
      (real : target.isAlias = false) : Follows model id id
  | through {id next final : TargetId} {target : TargetRecord}
      (found : model.targets[id]? = some target) (isAlias : target.isAlias = true)
      (aliased : target.aliasOfId = some next) (rest : Follows model next final) :
      Follows model id final

/-- The id is that of the target with this name, behind its aliases. -/
def ReachesTarget (model : Model) (name : StringView) (id : TargetId) : Prop :=
  ∃ first, TargetCalled model name first ∧ Follows model first id

/-- The step with this id writes the path. -/
def WritesPath (model : Model) (id : BuildStepId) (path : StringView) : Prop :=
  ∃ step, model.buildSteps[id]? = some step ∧ path ∈ step.writes

/-- The models have targets of the same cores. -/
def SameTargets (before after : Model) : Prop :=
  after.targets.map TargetRecord.core = before.targets.map TargetRecord.core

variable (same : SameTargets before after)

include same

/-- Names are about cores. -/
theorem TargetCalled.congr (names : TargetCalled before name id) : TargetCalled after name id := by
  obtain ⟨target, here, rfl⟩ := names
  obtain ⟨other, there, agrees⟩ := getElem?_of_map_eq same here
  exact ⟨other, there, congrArg TargetCore.name agrees⟩

/-- Aliases are about cores. -/
theorem Follows.congr (follows : Follows before first final) : Follows after first final := by
  induction follows with
  | here found real =>
    obtain ⟨other, there, agrees⟩ := getElem?_of_map_eq same found
    have notAlias : other.isAlias = false := (congrArg TargetCore.isAlias agrees).trans real
    exact .here there notAlias
  | through found isAlias aliased _ ih =>
    obtain ⟨other, there, agrees⟩ := getElem?_of_map_eq same found
    have also : other.isAlias = true := (congrArg TargetCore.isAlias agrees).trans isAlias
    have next := (congrArg TargetCore.aliasOfId agrees).trans aliased
    exact .through there also next ih

/-- What is behind a name is about cores. -/
theorem ReachesTarget.congr (reaches : ReachesTarget before name id) :
    ReachesTarget after name id := by
  obtain ⟨first, names, follows⟩ := reaches
  exact ⟨first, names.congr same, follows.congr same⟩

omit same

/-- A name is that of a target. -/
theorem TargetCalled.inRange (names : TargetCalled model name id) : id < model.targets.length := by
  obtain ⟨target, here, _⟩ := names
  exact (List.getElem?_eq_some_iff.mp here).1

/-- Aliases lead to a target. -/
theorem Follows.inRange (follows : Follows model first final) : final < model.targets.length := by
  induction follows with
  | here found real => exact (List.getElem?_eq_some_iff.mp found).1
  | through found isAlias aliased rest ih => exact ih

/-! ## Loud failures -/

/-- An outcome without an error that somebody is told of. -/
def FreezeStop.Quiet : FreezeStop → Prop
  | .fault => True
  | .failed reported => ∀ diagnostic ∈ reported, diagnostic.severity ≠ .error

/-- A reported error is heard. -/
theorem loud_freezeError {α : Type} (cause hint : String) :
    Avoids FreezeStop.Quiet (freezeError cause hint : Freezing α) := by
  apply Avoids.error
  intro silent
  exact silent _ mem_cons_self rfl

/-- A condition that does not hold is reported. -/
theorem loud_require (holds : Bool) (cause hint : String) :
    Avoids FreezeStop.Quiet (require holds cause hint) := by
  unfold require
  split
  · exact Avoids.ok ()
  · exact loud_freezeError cause hint

/-- A value that is missing is reported. -/
theorem loud_known {α : Type} (value : Option α) (cause hint : String) :
    Avoids FreezeStop.Quiet (known value cause hint) := by
  cases value with
  | none => exact loud_freezeError cause hint
  | some value => exact Avoids.ok value

/-- A value that is there is returned. -/
theorem known_eq_ok {α : Type} {value : Option α} {cause hint : String} {found : α} :
    known value cause hint = .ok found ↔ value = some found := by
  cases value with
  | none => simp [known, freezeError]
  | some value => simp [known]

/-- An index inside of the array. -/
theorem indexed_eq_ok {α : Type} {records : List α} {index : Option Nat} {record : α} :
    indexed records index = .ok record ↔ index.bind (records[·]?) = some record := by
  unfold indexed
  split
  · next found same => simp [same]
  · next missing => simp [missing]

/-- An access inside of the array does not fault. -/
theorem loud_indexed {α : Type} {records : List α} {index : Option Nat}
    (inside : ∃ position, index = some position ∧ position < records.length) :
    Avoids FreezeStop.Quiet (indexed records index) := by
  obtain ⟨position, rfl, bound⟩ := inside
  have here : indexed records (some position) = .ok records[position] := by
    rw [indexed_eq_ok]
    simp [bound]
  rw [here]
  exact Avoids.ok _

/-- Looking up names is loud. -/
theorem loud_findEach (find : StringView → Option Nat) (names : List StringView)
    (cause hint : String) : Avoids FreezeStop.Quiet (findEach find names cause hint) :=
  Avoids.mapM fun name _ => (loud_known (find name) cause hint).bind fun id _ => Avoids.ok (some id)

/-- Looking up a name that may be missing is loud. -/
theorem loud_findIfGiven (find : StringView → Option Nat) (name : StringView)
    (cause hint : String) : Avoids FreezeStop.Quiet (findIfGiven find name cause hint) := by
  unfold findIfGiven
  split
  · exact Avoids.ok none
  · exact (loud_known (find name) cause hint).bind fun id _ => Avoids.ok (some id)

/-- The check of the invariants is loud. -/
theorem loud_freezeCheckInvariants (draft : Draft) :
    Avoids FreezeStop.Quiet (freezeCheckInvariants draft) := by
  have each : ∀ {α : Type} (id : α → Nat) (owner : α → Option DirectoryId)
      (idCause idHint ownerCause ownerHint : String) (records : List (α × Nat)),
      Avoids FreezeStop.Quiet (records.forM fun numbered => do
        require (id numbered.1 = numbered.2) idCause idHint
        require (ownerFits draft (owner numbered.1)) ownerCause ownerHint) := by
    intro α id owner idCause idHint ownerCause ownerHint records
    induction records with
    | nil => exact Avoids.ok _
    | cons record rest ih =>
      refine Avoids.bind ?_ fun _ _ => ih
      exact (loud_require _ _ _).bind fun _ _ => loud_require _ _ _
  unfold freezeCheckInvariants checkIds checkOwned
  refine (loud_require _ _ _).bind fun _ _ => ?_
  refine (loud_require _ _ _).bind fun _ _ => ?_
  refine (each _ _ _ _ _ _ _).bind fun _ _ => ?_
  refine (each _ _ _ _ _ _ _).bind fun _ _ => ?_
  refine (each _ _ _ _ _ _ _).bind fun _ _ => ?_
  exact each _ _ _ _ _ _ _

/-! ## What every pass keeps -/

/-- The facts about names that hold from the copy on. -/
structure Linked (draft : Draft) (model : Model) : Prop where
  /-- The targets store what the draft stores. -/
  stored : model.targets.map TargetRecord.stored = draft.targets.map TargetRecord.stored
  /-- The index of the draft names targets of the model. -/
  names : ∀ name id, draft.findTargetId name = some id → TargetCalled model name id
  /-- A target is at the position of its id. -/
  targetIds : ∀ (index : Nat) (target : TargetRecord),
    model.targets[index]? = some target → target.id = index
  /-- An alias names its target. -/
  aliases : ∀ target ∈ model.targets, (target.aliasOfName = [] ∧ target.aliasOfId = none) ∨
      ∃ id, target.aliasOfId = some id ∧ TargetCalled model target.aliasOfName id
  /-- The ids of explicit dependencies are those of their names, in order. -/
  dependencies : ∀ target ∈ model.targets, List.Forall₂
    (fun name id => ∃ dependency, id = some dependency ∧ TargetCalled model name dependency)
    target.explicitDependencyNames target.explicitDependencyIds
  /-- The owner of a target is a directory. -/
  targetOwners : ∀ target ∈ model.targets,
    ∃ owner, target.ownerDirectoryId = some owner ∧ owner < model.directories.length
  /-- The owner of a step is a directory. -/
  stepOwners : ∀ step ∈ model.buildSteps,
    ∃ owner, step.ownerDirectoryId = some owner ∧ owner < model.directories.length

include same in
/-- The facts are about the cores of targets, the directories and the owners of steps. -/
theorem Linked.congr (directories : after.directories.length = before.directories.length)
    (steps : after.buildSteps.map BuildStepRecord.ownerDirectoryId = before.buildSteps.map BuildStepRecord.ownerDirectoryId)
    (linked : Linked draft before) : Linked draft after where
  stored := by
    have reset : TargetRecord.stored = (fun core : TargetCore =>
        { core with aliasOfId := none, explicitDependencyIds := [] }) ∘ TargetRecord.core := rfl
    rw [← linked.stored, reset, ← List.map_map, ← List.map_map, same]
  names name id found := (linked.names name id found).congr same
  targetIds index target here := by
    obtain ⟨old, there, agrees⟩ := getElem?_of_map_eq same.symm here
    rw [← linked.targetIds index old there]
    exact (congrArg TargetCore.id agrees).symm
  aliases target mem := by
    obtain ⟨old, there, agrees⟩ := mem_of_map_eq same.symm mem
    have name : old.aliasOfName = target.aliasOfName := congrArg TargetCore.aliasOfName agrees
    have id : old.aliasOfId = target.aliasOfId := congrArg TargetCore.aliasOfId agrees
    have before := linked.aliases old there
    rw [name, id] at before
    exact before.imp_right fun ⟨aliased, here, names⟩ => ⟨aliased, here, names.congr same⟩
  dependencies target mem := by
    obtain ⟨old, there, agrees⟩ := mem_of_map_eq same.symm mem
    have names : old.explicitDependencyNames = target.explicitDependencyNames :=
      congrArg TargetCore.explicitDependencyNames agrees
    have ids : old.explicitDependencyIds = target.explicitDependencyIds :=
      congrArg TargetCore.explicitDependencyIds agrees
    have before := linked.dependencies old there
    rw [names, ids] at before
    exact before.imp fun name id ⟨dependency, here, named⟩ => ⟨dependency, here, named.congr same⟩
  targetOwners target mem := by
    obtain ⟨old, there, agrees⟩ := mem_of_map_eq same.symm mem
    have owner : old.ownerDirectoryId = target.ownerDirectoryId :=
      congrArg TargetCore.ownerDirectoryId agrees
    rw [directories, ← owner]
    exact linked.targetOwners old there
  stepOwners step mem := by
    obtain ⟨old, there, agrees⟩ := mem_of_map_eq steps.symm mem
    rw [directories, ← agrees]
    exact linked.stepOwners old there

/-! ## The copy -/

/-- What the copy of a target keeps and resolves. -/
structure ClonedTarget (draft : Draft) (source target : TargetRecord) : Prop where
  stored : target.stored = source.stored
  links : target.linkLibraries = source.linkLibraries
  aliases : (source.aliasOfName = [] ∧ target.aliasOfId = none) ∨
    ∃ id, target.aliasOfId = some id ∧ draft.findTargetId source.aliasOfName = some id
  dependencies : List.Forall₂ (fun name id => ∃ dependency, id = some dependency ∧
      draft.findTargetId name = some dependency)
    source.explicitDependencyNames target.explicitDependencyIds

/-- The names of dependencies are looked up in order. -/
theorem cloneDependencies_ok {names : List StringView} {ids : List (Option TargetId)}
    (cloned : cloneDependencies draft names = .ok ids) :
    List.Forall₂ (fun name id => ∃ dependency, id = some dependency ∧
        draft.findTargetId name = some dependency) names ids := by
  refine (forall₂_of_mapM cloned).imp fun name id round => ?_
  obtain ⟨dependency, found, made⟩ := bind_eq_ok.mp round
  cases made
  exact ⟨dependency, rfl, (known_eq_ok).mp found⟩

/-- A target that is copied. -/
theorem cloneTarget_ok {source : TargetRecord} (cloned : cloneTarget draft source = .ok target) :
    ClonedTarget draft source target := by
  unfold cloneTarget at cloned
  obtain ⟨copied, byAlias, rest⟩ := bind_eq_ok.mp cloned
  obtain ⟨ids, byNames, made⟩ := bind_eq_ok.mp rest
  have dependencies := cloneDependencies_ok byNames
  cases made
  unfold cloneAlias at byAlias
  split at byAlias
  · next plain =>
    cases byAlias
    exact ⟨rfl, rfl, .inl ⟨plain, rfl⟩, dependencies⟩
  · obtain ⟨id, found, later⟩ := bind_eq_ok.mp byAlias
    obtain ⟨aliased, _, set⟩ := bind_eq_ok.mp later
    cases set
    exact ⟨rfl, rfl, .inr ⟨id, rfl, (known_eq_ok).mp found⟩, dependencies⟩

/-- The copy of a target is loud. -/
theorem loud_cloneTarget (inRange : draft.IndexInRange) (source : TargetRecord) :
    Avoids FreezeStop.Quiet (cloneTarget draft source) := by
  have byAlias : Avoids FreezeStop.Quiet (cloneAlias draft (clearResolved source)) := by
    unfold cloneAlias
    split
    · exact Avoids.ok _
    · refine (loud_known _ _ _).bind fun id found => ?_
      have inside : id < draft.targets.length := inRange _ id (known_eq_ok.mp found)
      exact (loud_indexed ⟨id, rfl, inside⟩).bind fun aliased _ => Avoids.ok _
  have byNames : Avoids FreezeStop.Quiet (cloneDependencies draft source.explicitDependencyNames) :=
    Avoids.mapM fun name _ => (loud_known _ _ _).bind fun id _ => Avoids.ok (some id)
  exact byAlias.bind fun copied _ => byNames.bind fun ids _ => Avoids.ok _

/-- The copy of a draft is loud. -/
theorem loud_cloneDraft (inRange : draft.IndexInRange) :
    Avoids FreezeStop.Quiet (cloneDraft draft) := by
  refine (Avoids.mapM fun source _ => loud_cloneTarget inRange source).bind fun targets _ => ?_
  refine (Avoids.mapM fun rule _ => ?_).bind fun rules _ => ?_
  · unfold cloneInstallRule
    split
    · exact (loud_known _ _ _).bind fun id _ => Avoids.ok _
    · exact Avoids.ok _
  refine (Avoids.mapM fun record _ => ?_).bind fun exports _ => ?_
  · refine Avoids.bind ?_ fun ids _ => Avoids.ok _
    unfold exportTargetIds
    split
    · exact Avoids.mapM fun rule _ => (loud_known _ _ _).bind fun id _ => Avoids.ok _
    · exact Avoids.mapM fun name _ => (loud_known _ _ _).bind fun id _ => Avoids.ok _
    · exact Avoids.ok _
  refine (Avoids.mapM fun group _ => ?_).bind fun groups _ => ?_
  · exact (loud_findIfGiven _ _ _ _).bind fun id _ => Avoids.ok _
  refine (Avoids.mapM fun component _ => ?_).bind fun components _ => Avoids.ok _
  refine (loud_findIfGiven _ _ _ _).bind fun id _ => ?_
  refine (loud_findEach _ _ _ _).bind fun ids _ => ?_
  exact (loud_findEach _ _ _ _).bind fun types _ => Avoids.ok _

/-- What the copy takes over from the draft. -/
structure Copied (draft : Draft) (model : Model) : Prop where
  targets : draft.targets.mapM (cloneTarget draft) = .ok model.targets
  directories : model.directories = draft.directories
  globalProperties : model.globalProperties = draft.globalProperties
  buildSteps : model.buildSteps = draft.buildSteps.map cloneBuildStep

/-- A draft that is copied. -/
theorem cloneDraft_ok {copied : FrozenModel} (cloned : cloneDraft draft = .ok copied) :
    Copied draft copied.toModel := by
  unfold cloneDraft at cloned
  obtain ⟨targets, mapped, rest⟩ := bind_eq_ok.mp cloned
  obtain ⟨rules, _, rest⟩ := bind_eq_ok.mp rest
  obtain ⟨exports, _, rest⟩ := bind_eq_ok.mp rest
  obtain ⟨groups, _, rest⟩ := bind_eq_ok.mp rest
  obtain ⟨components, _, made⟩ := bind_eq_ok.mp rest
  cases made
  exact ⟨mapped, rfl, rfl, rfl⟩

/-- The copy of a draft of the builder refers to what is there. -/
theorem Copied.linked (copied : Copied draft model) (formed : draft.WellFormed) :
    Linked draft model := by
  have stored : model.targets.map TargetRecord.stored = draft.targets.map TargetRecord.stored :=
    map_eq_of_mapM copied.targets fun source _ target made => (cloneTarget_ok made).stored
  have names : ∀ name id, draft.findTargetId name = some id → TargetCalled model name id := by
    intro name id found
    obtain ⟨source, here, rfl⟩ := formed.findTargetId found
    obtain ⟨target, there, agrees⟩ := getElem?_of_map_eq stored here
    exact ⟨target, there, congrArg TargetCore.name agrees⟩
  refine ⟨stored, names, ?_, ?_, ?_, ?_, ?_⟩
  · intro index target here
    obtain ⟨source, there, made⟩ := getElem?_of_mapM copied.targets here
    have id : target.id = source.id := congrArg TargetCore.id (cloneTarget_ok made).stored
    rw [id]
    exact formed.targetIds index source there
  · intro target mem
    obtain ⟨source, _, made⟩ := mem_of_mapM copied.targets mem
    have cloned := cloneTarget_ok made
    have name : target.aliasOfName = source.aliasOfName :=
      congrArg TargetCore.aliasOfName cloned.stored
    rw [name]
    exact cloned.aliases.imp_right fun ⟨id, here, found⟩ => ⟨id, here, names _ id found⟩
  · intro target mem
    obtain ⟨source, _, made⟩ := mem_of_mapM copied.targets mem
    have cloned := cloneTarget_ok made
    have same : target.explicitDependencyNames = source.explicitDependencyNames :=
      congrArg TargetCore.explicitDependencyNames cloned.stored
    rw [same]
    exact cloned.dependencies.imp fun name id ⟨dependency, here, found⟩ =>
      ⟨dependency, here, names name dependency found⟩
  · intro target mem
    obtain ⟨source, listed, made⟩ := mem_of_mapM copied.targets mem
    have owner : target.ownerDirectoryId = source.ownerDirectoryId :=
      congrArg TargetCore.ownerDirectoryId (cloneTarget_ok made).stored
    rw [owner, copied.directories]
    exact formed.targetOwners source listed
  · intro step mem
    rw [copied.buildSteps] at mem
    obtain ⟨source, listed, rfl⟩ := mem_map.mp mem
    rw [copied.directories]
    exact formed.stepOwners source listed

/-! ## Passes over targets -/

/-- A change of a target that leaves its core and its link items alone. -/
def KeepsTarget (before after : TargetRecord) : Prop :=
  after.core = before.core ∧ after.linkLibraries = before.linkLibraries

/-- The models differ in other parts of their targets. -/
structure SameFrame (before after : Model) : Prop where
  targets : SameTargets before after
  links : after.targets.map TargetRecord.linkLibraries =
    before.targets.map TargetRecord.linkLibraries
  directories : after.directories = before.directories
  globalProperties : after.globalProperties = before.globalProperties
  buildSteps : after.buildSteps = before.buildSteps

/-- One pass after the other. -/
theorem SameFrame.trans {first second third : Model} (left : SameFrame first second)
    (right : SameFrame second third) : SameFrame first third where
  targets := right.targets.trans left.targets
  links := right.links.trans left.links
  directories := right.directories.trans left.directories
  globalProperties := right.globalProperties.trans left.globalProperties
  buildSteps := right.buildSteps.trans left.buildSteps

/-- The facts about names survive a change of other parts. -/
theorem SameFrame.linked (same : SameFrame before after) (linked : Linked draft before) :
    Linked draft after :=
  linked.congr same.targets (by rw [same.directories]) (by rw [same.buildSteps])

variable {pass : TargetRecord → Freezing TargetRecord}

/-- A pass that keeps every target. -/
theorem overTargets_frame
    (kept : ∀ target changed, pass target = .ok changed → KeepsTarget target changed)
    (passed : overTargets pass before = .ok after) : SameFrame before after := by
  obtain ⟨targets, mapped, made⟩ := bind_eq_ok.mp passed
  cases made
  have cores : targets.map TargetRecord.core = before.targets.map TargetRecord.core :=
    map_eq_of_mapM mapped fun target _ changed round => (kept target changed round).1
  have links : targets.map TargetRecord.linkLibraries =
      before.targets.map TargetRecord.linkLibraries :=
    map_eq_of_mapM mapped fun target _ changed round => (kept target changed round).2
  exact ⟨cores, links, rfl, rfl, rfl⟩

/-- A pass that cannot fail is loud. -/
theorem loud_overTargets (loud : ∀ target ∈ model.targets, Avoids FreezeStop.Quiet (pass target)) :
    Avoids FreezeStop.Quiet (overTargets pass model) :=
  (Avoids.mapM loud).bind fun _ _ => Avoids.ok _

/-- Changes that keep a target, one after the other. -/
theorem keepsTarget_foldl {α : Type} {change : TargetRecord → α → TargetRecord}
    (kept : ∀ target item, KeepsTarget target (change target item)) (items : List α)
    (target : TargetRecord) : KeepsTarget target (items.foldl change target) := by
  induction items generalizing target with
  | nil => exact ⟨rfl, rfl⟩
  | cons item rest ih =>
    have first := kept target item
    have later := ih (change target item)
    exact ⟨later.1.trans first.1, later.2.trans first.2⟩

/-- The metadata of an imported target are no part of the frame. -/
theorem keepsTarget_materialize (model : Model) (target : TargetRecord) :
    KeepsTarget target (materializeImportedTarget model target) := by
  unfold materializeImportedTarget
  dsimp only
  split
  · refine keepsTarget_foldl (fun target property => ?_) _ _
    unfold materializeImportedProperty
    dsimp only
    split
    · exact ⟨rfl, rfl⟩
    split
    · exact ⟨rfl, rfl⟩
    split
    · exact ⟨rfl, rfl⟩
    split
    · exact ⟨rfl, rfl⟩
    · exact ⟨rfl, rfl⟩
  · exact ⟨rfl, rfl⟩

/-- Resolving sources keeps the target. -/
theorem keepsTarget_resolveTargetSources {changed : TargetRecord}
    (resolved : resolveTargetSources draft model target = .ok changed) :
    KeepsTarget target changed := by
  obtain ⟨owner, _, made⟩ := bind_eq_ok.mp resolved
  cases made
  exact ⟨rfl, rfl⟩

/-- A source property keeps the target. -/
theorem keepsTarget_mutateTargetSources {mutation : SourcePropertyMutation} {changed : TargetRecord}
    (mutated : mutateTargetSources model mutation target = .ok changed) :
    KeepsTarget target changed := by
  obtain ⟨owner, _, made⟩ := bind_eq_ok.mp mutated
  cases made
  exact ⟨rfl, rfl⟩

/-- Promoting custom targets keeps the frame. -/
theorem freezePromote_frame (passed : freezePromote before = .ok after) :
    SameFrame before after := by
  unfold freezePromote promoteCustomTargetKinds at passed
  dsimp only at passed
  split at passed
  · next promoted same =>
    cases passed
    split at same
    · cases same
      refine ⟨?_, ?_, rfl, rfl, rfl⟩
      · refine ext_getElem? fun index => ?_
        rw [List.getElem?_map, List.getElem?_map, List.getElem?_mapIdx]
        cases before.targets[index]? with
        | none => rfl
        | some target =>
          dsimp only [Option.map_some]
          split <;> rfl
      · refine ext_getElem? fun index => ?_
        rw [List.getElem?_map, List.getElem?_map, List.getElem?_mapIdx]
        cases before.targets[index]? with
        | none => rfl
        | some target =>
          dsimp only [Option.map_some]
          split <;> rfl
    · cases same
  · cases passed

/-- Resolving sources keeps the frame. -/
theorem freezeSources_frame (passed : freezeSources draft before = .ok after) :
    SameFrame before after := by
  have marked : ∀ target mark, KeepsTarget target (applyGeneratedMark target mark) :=
    fun _ _ => ⟨rfl, rfl⟩
  obtain ⟨resolved, first, second⟩ := bind_eq_ok.mp passed
  have paths := overTargets_frame (fun _ _ => keepsTarget_resolveTargetSources) first
  refine paths.trans (overTargets_frame (fun target changed round => ?_) second)
  cases round
  exact keepsTarget_foldl marked _ target

/-- Source properties keep the frame. -/
theorem freezeSourceMutations_frame (passed : freezeSourceMutations draft before = .ok after) :
    SameFrame before after := by
  have start : SameFrame before before := ⟨rfl, rfl, rfl, rfl, rfl⟩
  refine foldlM_keeps (fun mutation _ state next kept round => ?_) start passed
  exact kept.trans (overTargets_frame (fun _ _ => keepsTarget_mutateTargetSources) round)

/-! ## Names behind aliases -/

/-- What the walk over aliases returns is behind them. -/
theorem follows_of_freezeAliasGo {remaining : Nat}
    (walked : freezeAliasGo model remaining first = .ok (some final)) :
    Follows model first final := by
  induction remaining generalizing first with
  | zero => cases walked
  | succ remaining ih =>
    obtain ⟨target, here, rest⟩ := bind_eq_ok.mp walked
    have found : model.targets[first]? = some target := indexed_eq_ok.mp here
    split at rest
    · next isAlias =>
      split at rest
      · next next aliased => exact .through found isAlias aliased (ih rest)
      · cases rest
    · next real =>
      cases rest
      exact .here found (by simpa using real)

variable (linked : Linked draft model)

include linked

/-- The walk over aliases stays inside of the targets. -/
theorem loud_freezeAliasGo (remaining : Nat) (inside : first < model.targets.length) :
    Avoids FreezeStop.Quiet (freezeAliasGo model remaining first) := by
  induction remaining generalizing first with
  | zero => exact Avoids.ok none
  | succ remaining ih =>
    refine (loud_indexed ⟨first, rfl, inside⟩).bind fun target here => ?_
    have found : model.targets[first]? = some target := indexed_eq_ok.mp here
    split
    · split
      · next next aliased =>
        rcases linked.aliases target (mem_of_getElem? found) with ⟨_, missing⟩ | ⟨id, same, names⟩
        · rw [missing] at aliased
          cases aliased
        · rw [same] at aliased
          cases aliased
          exact ih names.inRange
      · exact Avoids.ok none
    · exact Avoids.ok (some first)

/-- A name is followed to the target behind it. -/
theorem reaches_of_freezeTargetName (resolved : freezeTargetName draft model name = .ok (some id)) :
    ReachesTarget model name id := by
  unfold freezeTargetName at resolved
  split at resolved
  · next first found =>
    exact ⟨first, linked.names name first found, follows_of_freezeAliasGo resolved⟩
  · cases resolved

/-- Following a name is loud. -/
theorem loud_freezeTargetName (name : StringView) :
    Avoids FreezeStop.Quiet (freezeTargetName draft model name) := by
  unfold freezeTargetName
  split
  · next first found =>
    exact loud_freezeAliasGo linked _ (linked.names name first found).inRange
  · exact Avoids.ok none

omit linked

/-! ## Link items -/

/-- The target of a link item is the one it names, behind its aliases. -/
def LinkResolved (model : Model) (item : LinkItem) : Prop :=
  ∀ id, item.targetId = some id →
    item.semantic.kind = .targetRef ∧ ReachesTarget model item.semantic.targetName id

include same in
/-- The target of a link item is about cores. -/
theorem LinkResolved.congr {item : LinkItem} (resolved : LinkResolved before item) :
    LinkResolved after item := by
  intro id here
  obtain ⟨kind, reaches⟩ := resolved id here
  exact ⟨kind, reaches.congr same⟩

include linked

/-- A link item that is resolved. -/
theorem freezeLinkItem_ok {item resolved : LinkItem} (opened : item.targetId = none)
    (passed : freezeLinkItem draft model item = .ok resolved) :
    resolved.toStringItem = item.toStringItem ∧ LinkResolved model resolved := by
  unfold freezeLinkItem at passed
  split at passed
  · next named =>
    obtain ⟨targetId, found, made⟩ := bind_eq_ok.mp passed
    cases made
    refine ⟨rfl, fun id here => ⟨named.1, ?_⟩⟩
    have same : targetId = some id := here
    rw [same] at found
    exact reaches_of_freezeTargetName linked found
  · cases passed
    refine ⟨rfl, fun id here => ?_⟩
    rw [opened] at here
    cases here

/-- A list of link items that are resolved. -/
theorem freezeLinkItem_mapM {items resolved : List LinkItem}
    (opened : ∀ item ∈ items, item.targetId = none)
    (passed : items.mapM (freezeLinkItem draft model) = .ok resolved) :
    resolved.map LinkItem.toStringItem = items.map LinkItem.toStringItem ∧
      ∀ item ∈ resolved, LinkResolved model item := by
  constructor
  · exact map_eq_of_mapM passed fun item mem value round =>
      (freezeLinkItem_ok linked (opened item mem) round).1
  · intro item mem
    obtain ⟨source, listed, round⟩ := mem_of_mapM passed mem
    exact (freezeLinkItem_ok linked (opened source listed) round).2

/-- Resolving link items is loud. -/
theorem loud_freezeLinkItems : Avoids FreezeStop.Quiet (freezeLinkItems draft model) := by
  have each : ∀ items : List LinkItem,
      Avoids FreezeStop.Quiet (items.mapM (freezeLinkItem draft model)) := by
    intro items
    refine Avoids.mapM fun item _ => ?_
    unfold freezeLinkItem
    split
    · exact (loud_freezeTargetName linked _).bind fun _ _ => Avoids.ok _
    · exact Avoids.ok item
  refine (Avoids.mapM fun target _ => (each _).bind fun _ _ => Avoids.ok _).bind fun _ _ => ?_
  refine (Avoids.mapM fun directory _ => (each _).bind fun _ _ => Avoids.ok _).bind fun _ _ => ?_
  exact (each _).bind fun _ _ => Avoids.ok _

omit linked

/-- All link items of a model are resolved. -/
structure LinksResolved (model : Model) : Prop where
  targets : ∀ target ∈ model.targets, ∀ item ∈ target.linkLibraries, LinkResolved model item
  directories : ∀ directory ∈ model.directories, ∀ item ∈ directory.linkLibraries,
    LinkResolved model item
  globals : ∀ item ∈ model.globalProperties.linkLibraries, LinkResolved model item

/-- Resolved link items survive a change of other parts. -/
theorem SameFrame.linksResolved (same : SameFrame before after) (links : LinksResolved before) :
    LinksResolved after where
  targets target mem item listed := by
    obtain ⟨old, there, agrees⟩ := mem_of_map_eq same.links.symm mem
    rw [← agrees] at listed
    exact (links.targets old there item listed).congr same.targets
  directories directory mem item listed := by
    rw [same.directories] at mem
    exact (links.directories directory mem item listed).congr same.targets
  globals item listed := by
    rw [same.globalProperties] at listed
    exact (links.globals item listed).congr same.targets

/-- What the pass over link items does. -/
structure LinkPass (before after : Model) : Prop where
  targets : SameTargets before after
  directories : after.directories.map DirectoryRecord.stored =
    before.directories.map DirectoryRecord.stored
  globals : after.globalProperties.linkLibraries.map LinkItem.toStringItem =
    before.globalProperties.linkLibraries.map LinkItem.toStringItem
  buildSteps : after.buildSteps = before.buildSteps
  resolved : LinksResolved after

/-- No link item of the model has a target yet. -/
structure LinksOpen (model : Model) : Prop where
  targets : ∀ target ∈ model.targets, ∀ item ∈ target.linkLibraries, item.targetId = none
  directories : ∀ directory ∈ model.directories, ∀ item ∈ directory.linkLibraries,
    item.targetId = none
  globals : ∀ item ∈ model.globalProperties.linkLibraries, item.targetId = none

/-- Link items are resolved everywhere. -/
theorem freezeLinkItems_ok (linked : Linked draft before) (open_ : LinksOpen before)
    (passed : freezeLinkItems draft before = .ok after) : LinkPass before after := by
  obtain ⟨targets, byTarget, rest⟩ := bind_eq_ok.mp passed
  obtain ⟨directories, byDirectory, rest⟩ := bind_eq_ok.mp rest
  obtain ⟨globals, byGlobal, made⟩ := bind_eq_ok.mp rest
  cases made
  have cores : targets.map TargetRecord.core = before.targets.map TargetRecord.core := by
    refine map_eq_of_mapM byTarget fun target mem changed round => ?_
    obtain ⟨items, mapped, set⟩ := bind_eq_ok.mp round
    cases set
    have views := (freezeLinkItem_mapM linked (open_.targets target mem) mapped).1
    simp only [TargetRecord.core, views]
  have stored : directories.map DirectoryRecord.stored =
      before.directories.map DirectoryRecord.stored := by
    refine map_eq_of_mapM byDirectory fun directory mem changed round => ?_
    obtain ⟨items, mapped, set⟩ := bind_eq_ok.mp round
    cases set
    have views := (freezeLinkItem_mapM linked (open_.directories directory mem) mapped).1
    simp only [DirectoryRecord.stored, views]
  obtain ⟨globalViews, globalLinks⟩ := freezeLinkItem_mapM linked open_.globals byGlobal
  have same : SameTargets before
      { before with
        targets, directories
        globalProperties := { before.globalProperties with linkLibraries := globals } } := cores
  refine ⟨cores, stored, globalViews, rfl, ?_, ?_, ?_⟩
  · intro target mem item listed
    obtain ⟨source, there, round⟩ := mem_of_mapM byTarget mem
    obtain ⟨items, mapped, set⟩ := bind_eq_ok.mp round
    cases set
    have resolved := (freezeLinkItem_mapM linked (open_.targets source there) mapped).2
    exact (resolved item listed).congr same
  · intro directory mem item listed
    obtain ⟨source, there, round⟩ := mem_of_mapM byDirectory mem
    obtain ⟨items, mapped, set⟩ := bind_eq_ok.mp round
    cases set
    have resolved := (freezeLinkItem_mapM linked (open_.directories source there) mapped).2
    exact (resolved item listed).congr same
  · intro item listed
    exact (globalLinks item listed).congr same

end Nobify.BuildModel
