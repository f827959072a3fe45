import Nobify.BuildModel.FreezeParts
import Nobify.BuildModel.Producers

/-!
# Producers of sources

A source may stand for four paths. Freeze takes the first of them that a step writes or a mark
names as its effective path, and as its producer the step that writes the first of them that is
written at all. The two fit unless a path that is only marked stands before the first path that is
written.
-/

namespace Nobify.BuildModel

open Nobify.Lib (bind_eq_ok mem_of_mapM mem_of_map_eq)
open Option (any_some getD_none isSome_none isSome_some none_or or_none)
open List

/-! ## Two orders of precedence -/

section Precedence

variable {α : Type} (written marked : α → Bool)

/-- An item that is only marked stands before everything that is written. -/
def Overtakes (items : List α) : Prop :=
  ∃ before item after, items = before ++ item :: after ∧
    (∀ earlier ∈ before, written earlier = false) ∧ written item = false ∧ marked item = true ∧
    ∃ later ∈ after, written later = true

variable {written marked}

theorem overtakes_cons {item : α} {rest : List α} (unwritten : written item = false)
    (unmarked : marked item = false) :
    Overtakes written marked (item :: rest) ↔ Overtakes written marked rest := by
  constructor
  · rintro ⟨before, other, after, split, clear, plain, named, later⟩
    cases before with
    | nil =>
      cases split
      rw [unmarked] at named
      cases named
    | cons first front =>
      cases split
      exact ⟨front, other, after, rfl,
        fun earlier member => clear earlier (mem_cons_of_mem _ member), plain, named, later⟩
  · rintro ⟨before, other, after, rfl, clear, plain, named, later⟩
    refine ⟨item :: before, other, after, rfl, fun earlier member => ?_, plain, named, later⟩
    rcases mem_cons.mp member with rfl | inside
    · exact unwritten
    · exact clear earlier inside

/-- Where something is written, what is written or marked first is written, unless a mark
overtakes. -/
theorem find?_written_iff {items : List α} (some_ : ∃ item ∈ items, written item = true) :
    (items.find? fun item => written item || marked item).any written = true ↔
      ¬ Overtakes written marked items := by
  induction items with
  | nil =>
    obtain ⟨item, member, -⟩ := some_
    cases member
  | cons item rest ih =>
    cases here : written item with
    | true =>
      rw [List.find?_cons_of_pos (by rw [here, Bool.true_or]), any_some, here]
      refine iff_of_true rfl ?_
      rintro ⟨before, other, after, split, clear, plain, -⟩
      cases before with
      | nil =>
        obtain ⟨rfl, -⟩ := List.cons.inj split
        rw [here] at plain
        cases plain
      | cons first front =>
        obtain ⟨rfl, -⟩ := List.cons.inj split
        rw [clear item mem_cons_self] at here
        cases here
    | false =>
      have later : ∃ other ∈ rest, written other = true := by
        obtain ⟨other, member, holds⟩ := some_
        rcases mem_cons.mp member with rfl | inside
        · rw [here] at holds
          cases holds
        · exact ⟨other, inside, holds⟩
      cases named : marked item with
      | true =>
        rw [List.find?_cons_of_pos (by rw [named, Bool.or_true]), any_some, here]
        refine iff_of_false Bool.false_ne_true (not_not.mpr ?_)
        exact ⟨[], item, rest, rfl, fun _ member => absurd member not_mem_nil, here, named, later⟩
      | false =>
        rw [List.find?_cons_of_neg (by rw [here, named]; exact Bool.false_ne_true), ih later,
          overtakes_cons here named]

theorem find?_cons_getD (choose : α → Bool) (item default : α) (rest : List α) :
    ((item :: rest).find? choose).getD default =
      if choose item then item else (rest.find? choose).getD default := by
  rw [List.find?_cons]
  cases choose item <;> rfl

theorem findSome?_cons_or {β : Type} (read : α → Option β) (item : α) (rest : List α) :
    (item :: rest).findSome? read = (read item).or (rest.findSome? read) := by
  rw [List.findSome?_cons]
  cases read item <;> rfl

/-- What is written or marked first is also written first, if it is written. -/
theorem findSome?_of_find? {β : Type} {read : α → Option β} {marked : α → Bool} {items : List α}
    {item : α} (first : (items.find? fun other => (read other).isSome || marked other) = some item)
    (written : (read item).isSome = true) : items.findSome? read = read item := by
  induction items with
  | nil => cases first
  | cons other rest ih =>
    rw [List.find?_cons] at first
    rw [findSome?_cons_or]
    cases found : read other with
    | some value =>
      rw [found, isSome_some, Bool.true_or] at first
      cases first
      rw [found, Option.some_or]
    | none =>
      rw [found, isSome_none, Bool.false_or] at first
      rw [none_or]
      cases named : marked other with
      | true =>
        rw [named] at first
        cases first
        rw [found] at written
        cases written
      | false =>
        rw [named] at first
        exact ih first

end Precedence

/-! ## Candidates -/

/-- The paths a source may stand for, in the order in which freeze looks at them. -/
def SourceCandidates.list (paths : SourceCandidates) : List StringView :=
  paths.direct :: ((if namesFile paths.stripped then [paths.stripped] else []) ++
    [paths.binary, paths.source])

/-- Whether a step writes the path. -/
def isWritten (model : Model) (path : StringView) : Bool :=
  (findProducerStepIdByPath model path).isSome

/-- Whether a mark names the path. -/
def isMarked (draft : Draft) (path : StringView) : Bool :=
  (findGeneratedSourceMark draft path).isSome

variable {id : BuildStepId}

section Records

variable (draft : Draft) (model : Model) (owner : DirectoryRecord) (source : TargetSourceRecord)

/-- The candidates of a source. -/
def sourcePaths : List StringView :=
  (sourceCandidates owner.sourceDir owner.binaryDir source.rawPath).list

/-- The effective path is the first candidate that is written or marked, or the last one. -/
theorem resolveSourceRecord_effectivePath :
    (resolveSourceRecord draft model owner source).effectivePath =
      ((sourcePaths owner source).find? fun path =>
        isWritten model path || isMarked draft path).getD
        (sourceCandidates owner.sourceDir owner.binaryDir source.rawPath).source := by
  have chosen : ∀ paths : SourceCandidates,
      (if isWritten model paths.direct || isMarked draft paths.direct then paths.direct
        else if (if namesFile paths.stripped then findProducerStepIdByPath model paths.stripped
              else none).isSome ||
            (if namesFile paths.stripped then findGeneratedSourceMark draft paths.stripped
              else none).isSome then paths.stripped
        else if isWritten model paths.binary || isMarked draft paths.binary then paths.binary
        else paths.source) =
      (paths.list.find? fun path => isWritten model path || isMarked draft path).getD
        paths.source := by
    intro paths
    unfold SourceCandidates.list
    cases named : namesFile paths.stripped with
    | true =>
      simp only [if_pos, singleton_append, find?_cons_getD, List.find?_nil, getD_none, ite_self]
      rfl
    | false =>
      simp only [Bool.false_eq_true, if_false, nil_append, find?_cons_getD, List.find?_nil,
        getD_none, ite_self, isSome_none, Bool.or_self]
  unfold resolveSourceRecord
  dsimp only
  split
  · exact chosen _
  · exact chosen _

theorem findSome?_candidates {β : Type} (read : StringView → Option β) (paths : SourceCandidates) :
    paths.list.findSome? read =
      (read paths.direct).or ((if namesFile paths.stripped then read paths.stripped else none).or
        ((read paths.binary).or (read paths.source))) := by
  unfold SourceCandidates.list
  cases named : namesFile paths.stripped with
  | true =>
    simp only [if_pos, singleton_append, findSome?_cons_or, List.findSome?_nil, or_none]
  | false =>
    simp only [Bool.false_eq_true, if_false, nil_append, findSome?_cons_or,
      List.findSome?_nil, or_none, none_or]

/-- The producer writes the first candidate that is written. -/
theorem resolveSourceRecord_producer (fresh : source.producerStepId = none) :
    (resolveSourceRecord draft model owner source).producerStepId =
      (sourcePaths owner source).findSome? (findProducerStepIdByPath model) := by
  unfold resolveSourceRecord sourcePaths
  dsimp only
  rw [findSome?_candidates]
  split
  · rename_i id known
    exact known.symm
  · rename_i missing
    exact fresh.trans missing.symm

/-- A source with a producer is generated. -/
theorem resolveSourceRecord_generated
    (found : (sourcePaths owner source).findSome? (findProducerStepIdByPath model) = some id) :
    (resolveSourceRecord draft model owner source).generated = true := by
  unfold sourcePaths at found
  unfold resolveSourceRecord
  dsimp only
  rw [findSome?_candidates] at found
  rw [found]

end Records

/-- A source whose producer does not write its effective path: a candidate that no step writes is
marked, no earlier one is written, and a later one is. -/
def MarkOvertakes (draft : Draft) (model : Model) (owner : DirectoryRecord)
    (source : TargetSourceRecord) : Prop :=
  Overtakes (isWritten model) (isMarked draft) (sourcePaths owner source)

/-- A path that a step writes has a producer. -/
theorem isWritten_of_writesPath {model : Model} {path : StringView}
    (writes : WritesPath model id path) : isWritten model path = true := by
  obtain ⟨step, here, listed⟩ := writes
  exact List.findIdx?_isSome.trans
    (any_eq_true.mpr ⟨step, mem_of_getElem? here, decide_eq_true listed⟩)

/-- The check of a source with a producer is about its effective path. -/
theorem validateSourceProducer_eq_nil {model : Model} {source : TargetSourceRecord}
    (produced : source.producerStepId = some id) (generated : source.generated = true) :
    validateSourceProducer model source = [] ↔ WritesPath model id source.effectivePath := by
  unfold validateSourceProducer WritesPath
  rw [produced]
  dsimp only
  split
  · rename_i missing
    rw [errorIf_eq_nil]
    exact iff_of_false (by decide) fun ⟨_, here, _⟩ => by
      rw [missing] at here
      cases here
  · rename_i producer here
    rw [errorIf_eq_nil, generated, here]
    simp

/-- A source passes the check unless a mark overtakes its producer. -/
theorem validateSourceProducer_resolved_iff {draft : Draft} {model sourced : Model}
    {owner : DirectoryRecord} {source : TargetSourceRecord} (fresh : source.producerStepId = none)
    (steps : sourced.buildSteps = model.buildSteps) :
    validateSourceProducer sourced (resolveSourceRecord draft model owner source) = [] ↔
      ¬ MarkOvertakes draft model owner source := by
  have producer := resolveSourceRecord_producer draft model owner source fresh
  cases found : (sourcePaths owner source).findSome? (findProducerStepIdByPath model) with
  | none =>
    rw [found] at producer
    have clean : validateSourceProducer sourced (resolveSourceRecord draft model owner source) =
        [] := by
      unfold validateSourceProducer
      rw [producer]
    refine iff_of_true clean ?_
    rintro ⟨before, item, after, split, -, -, -, later, member, written⟩
    have none_ := List.findSome?_eq_none_iff.mp found later
      (split ▸ mem_append_right before (mem_cons_of_mem item member))
    rw [isWritten, none_] at written
    cases written
  | some id =>
    rw [found] at producer
    rw [validateSourceProducer_eq_nil producer
      (resolveSourceRecord_generated draft model owner source found),
      resolveSourceRecord_effectivePath]
    obtain ⟨path, listed, foundHere⟩ := exists_of_findSome?_eq_some found
    have written : ∃ path ∈ sourcePaths owner source, isWritten model path = true :=
      ⟨path, listed, by rw [isWritten, foundHere, isSome_some]⟩
    unfold MarkOvertakes
    rw [← find?_written_iff written]
    cases first : (sourcePaths owner source).find? fun path =>
        isWritten model path || isMarked draft path with
    | none =>
      obtain ⟨path, member, holds⟩ := written
      have unclaimed := List.find?_eq_none.mp first path member
      rw [holds, Bool.true_or] at unclaimed
      exact absurd rfl unclaimed
    | some chosen =>
      rw [Option.getD_some, any_some]
      constructor
      · rintro ⟨step, here, writes⟩
        exact isWritten_of_writesPath ⟨step, steps ▸ here, writes⟩
      · intro holds
        have same := findSome?_of_find? first holds
        obtain ⟨step, here, writes⟩ := writesPath_of_findProducer (same.symm.trans found)
        exact ⟨step, steps ▸ here, writes⟩

/-! ## The passes before the sources -/

/-- The passes of freeze before `bm_resolve_target_source_records`. -/
def resolveBeforeSources (draft : Draft) (model : Model) : Freezing Model := do
  let model ← overSteps (freezeEffectivePaths draft model) model
  let model ← freezeLinkItems draft model
  let model ← overTargets (fun target => .ok (materializeImportedTarget model target)) model
  let model ← freezePromote model
  overSteps (freezeStepDependencies draft model) model

/-- The copy of a target has no producers yet. -/
theorem fresh_cloneTarget {draft : Draft} {source target : TargetRecord}
    (cloned : cloneTarget draft source = .ok target) :
    ∀ record ∈ target.sourceRecords, record.producerStepId = none := by
  have cleared : ∀ record ∈ (clearResolved source).sourceRecords, record.producerStepId = none := by
    intro record member
    obtain ⟨other, -, rfl⟩ := mem_map.mp member
    rfl
  obtain ⟨copied, byAlias, rest⟩ := bind_eq_ok.mp cloned
  obtain ⟨ids, -, made⟩ := bind_eq_ok.mp rest
  cases made
  unfold cloneAlias at byAlias
  split at byAlias
  · cases byAlias
    exact cleared
  · obtain ⟨id, -, later⟩ := bind_eq_ok.mp byAlias
    obtain ⟨aliased, -, set⟩ := bind_eq_ok.mp later
    cases set
    exact cleared

/-- No source has a producer before the pass over sources. -/
theorem fresh_resolveBeforeSources {draft : Draft} {copied model : Model}
    (copy : Copied draft copied) (passed : resolveBeforeSources draft copied = .ok model) :
    ∀ target ∈ model.targets, ∀ source ∈ target.sourceRecords, source.producerStepId = none := by
  obtain ⟨pathed, byPaths, rest⟩ := bind_eq_ok.mp passed
  obtain ⟨linked, byLinks, rest⟩ := bind_eq_ok.mp rest
  obtain ⟨imported, byImport, rest⟩ := bind_eq_ok.mp rest
  obtain ⟨promoted, byPromotion, byDependencies⟩ := bind_eq_ok.mp rest
  have ignores : IgnoresLinks TargetRecord.sourceRecords := ⟨fun _ _ => rfl, fun _ _ => rfl⟩
  have same : SamePart TargetRecord.sourceRecords copied model :=
    (samePart_overSteps byDependencies).trans <| (samePart_freezePromote ignores byPromotion).trans <|
      (samePart_materialize ⟨fun _ _ => rfl, fun _ _ => rfl⟩ byImport).trans <|
        (samePart_freezeLinkItems ignores byLinks).trans (samePart_overSteps byPaths)
  intro target member
  obtain ⟨other, listed, agrees⟩ := mem_of_map_eq same.symm member
  obtain ⟨source, -, cloned⟩ := mem_of_mapM copy.targets listed
  rw [← agrees]
  exact fresh_cloneTarget cloned

/-! ## All sources of a draft -/

/-- The passes of a draft up to the sources. -/
def sourcedModel (draft : Draft) : Freezing (FrozenModel × Model × Model) := do
  let copied ← cloneDraft draft
  let model ← resolveBeforeSources draft copied.toModel
  let sourced ← overTargets (resolveTargetSources draft model) model
  .ok (copied, model, sourced)

theorem sourcedModel_eq_ok {draft : Draft} {copied : FrozenModel} {model sourced : Model} :
    sourcedModel draft = .ok (copied, model, sourced) ↔
      cloneDraft draft = .ok copied ∧ resolveBeforeSources draft copied.toModel = .ok model ∧
        overTargets (resolveTargetSources draft model) model = .ok sourced := by
  constructor
  · intro ran
    obtain ⟨copy, cloned, rest⟩ := bind_eq_ok.mp ran
    obtain ⟨before, reached, rest⟩ := bind_eq_ok.mp rest
    obtain ⟨after, passed, made⟩ := bind_eq_ok.mp rest
    cases made
    exact ⟨cloned, reached, passed⟩
  · rintro ⟨cloned, reached, passed⟩
    exact bind_eq_ok.mpr ⟨copied, cloned, bind_eq_ok.mpr ⟨model, reached,
      bind_eq_ok.mpr ⟨sourced, passed, rfl⟩⟩⟩

theorem exists_sourcedModel {draft : Draft} (succeeds : (sourcedModel draft).toBool = true) :
    ∃ copied model sourced, sourcedModel draft = .ok (copied, model, sourced) := by
  cases outcome : sourcedModel draft with
  | error stop =>
    rw [outcome] at succeeds
    cases succeeds
  | ok models => exact ⟨models.1, models.2.1, models.2.2, rfl⟩

/-- An executable with the source `x.c`. -/
def sourceStream (more : List BuildEvent) : List BuildEvent :=
  { body := .directory (.enter (sv "/s") (sv "/b")) } ::
    { body := .target (.declare (sv "app") .executable false false []) } ::
    { body := .target (.change (sv "app") (.addSource (sv "x.c") .privateItem .regular [])) } ::
    more ++ [{ body := .directory (.leave (sv "/s") (sv "/b")) }]

/-- A step that writes a file. -/
def writerEvents (path : StringView) : List BuildEvent :=
  [{ body := .buildGraph (.stepDeclare { stepKey := sv "k", stepKind := .outputRule }) },
    { body := .buildGraph (.stepChange (sv "k") (.addOutput path)) }]

/-- A step writes `x.c` in the binary directory. -/
def writtenDraft : Draft := (Builder.feed {} (sourceStream (writerEvents (sv "x.c")))).draft

/-- A step writes `x.c` in the source directory, and `x.c` in the binary directory is marked. -/
def overtakenStream : List BuildEvent :=
  sourceStream (writerEvents (sv "/s/x.c") ++
    [{ body := .buildGraph (.sourceMarkGenerated
      { path := sv "/b/x.c", directorySourceDir := sv "/s", directoryBinaryDir := sv "/b",
        generated := true }) }])

/-- The draft of the stream. -/
def overtakenDraft : Draft := (Builder.feed {} overtakenStream).draft

/-- The reports of `bm_validate_target_source_producers`. -/
def validateSourceProducers (model : Model) : List Diagnostic :=
  model.targets.flatMap fun target => target.sourceRecords.flatMap (validateSourceProducer model)

end Nobify.BuildModel
