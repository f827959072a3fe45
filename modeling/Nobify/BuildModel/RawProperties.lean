import Nobify.BuildModel.ImportedFiles
import Nobify.BuildModel.TargetRecords
import Nobify.BuildModel.GenexContext

/-!
# Raw properties

Every write of a property that is kept as a raw property is a record of its own, and each reader
takes the first one. So the value is that of the first write: what the operations give only when
no later write counts, or when the later ones happen to give the first value again.
-/

namespace Nobify.BuildModel

open Evaluator (PropertyOp mergePropertyValue)
open List

/-! ## What a property event records -/

/-- Whether the event leaves a raw property. -/
def TargetPropSet.recordsRaw (property : TargetPropSet) : Bool :=
  let named := fun key => svEqCi property.key (sv key)
  !(artifactPropertyIsSupported property.key && property.op ≠ .appendString) &&
    !(named "FOLDER" || named "EXCLUDE_FROM_ALL" || named "WIN32_EXECUTABLE" ||
      named "MACOSX_BUNDLE") &&
    (promotedKey property.key = none || property.op = .appendString)

/-- The record of an event. -/
def TargetPropSet.raw (property : TargetPropSet) : RawPropertyRecord where
  name := property.key
  op := mutateOpFromEvent property.op
  items := [property.value]

/-- The records of an event. -/
def TargetPropSet.rawRecords (property : TargetPropSet) : List RawPropertyRecord :=
  if property.recordsRaw then [property.raw] else []

section Events

variable (filePath : StringView) (property : TargetPropSet) (target : TargetRecord)

theorem rawProperties_promoteTargetProperty (key : PromotedKey) (op : PropertyOp)
    (typedItems : List (StringView × LinkItemMetadata)) :
    (promoteTargetProperty filePath key op typedItems target).rawProperties =
      target.rawProperties := by
  obtain ⟨list, isInterface, system⟩ := key
  cases list with
  | usage family => cases family <;> rfl
  | compileFeatures => rfl

theorem rawProperties_setImportFlags :
    (setImportFlags property target).rawProperties = target.rawProperties := by
  unfold setImportFlags
  dsimp only
  split
  · rfl
  · split <;> rfl

theorem rawProperties_setTargetProperty :
    (setTargetProperty filePath property target).rawProperties =
      target.rawProperties ++ property.rawRecords := by
  have flags := rawProperties_setImportFlags property target
  unfold setTargetProperty TargetPropSet.rawRecords TargetPropSet.recordsRaw
  dsimp only
  split
  · next artifact => simp [artifact, recordArtifactProperty]
  next plain =>
    have open_ : (artifactPropertyIsSupported property.key &&
        decide (property.op ≠ .appendString)) = false := by
      simpa using plain
    rw [open_]
    split
    · next named => simp [named]
    split
    · next named => simp [named]
    split
    · next named => simp [named]
    split
    · next named => simp [named]
    next folder excluded win32 bundle =>
      simp only [folder, excluded, win32, bundle]
      unfold promoteOrRecord
      cases promoted : promotedKey property.key with
      | none =>
        show (setImportFlags property target).rawProperties ++ _ = _
        rw [flags]
        simp [TargetPropSet.raw]
      | some key =>
        dsimp only
        by_cases appends : property.op = .appendString
        · rw [if_pos appends]
          show (setImportFlags property target).rawProperties ++ _ = _
          rw [flags]
          simp [appends, TargetPropSet.raw]
        · rw [if_neg appends, rawProperties_promoteTargetProperty, flags]
          simp [appends]

theorem importedConfigs_setTargetProperty :
    (setTargetProperty filePath property target).importedConfigs = target.importedConfigs := by
  have flags : (setImportFlags property target).importedConfigs = target.importedConfigs := by
    unfold setImportFlags
    dsimp only
    split
    · rfl
    · split <;> rfl
  have promotion : ∀ (key : PromotedKey) (target : TargetRecord),
      (promoteTargetProperty filePath key property.op property.typedItems target).importedConfigs =
        target.importedConfigs := by
    rintro ⟨list, isInterface, system⟩ target
    cases list with
    | usage family => cases family <;> rfl
    | compileFeatures => rfl
  unfold setTargetProperty promoteOrRecord
  dsimp only
  split
  · rfl
  split
  · rfl
  split
  · rfl
  split
  · rfl
  split
  · rfl
  split
  · split
    · exact flags
    · exact (promotion _ _).trans flags
  · exact flags

end Events

/-- A change of a target leaves what property events write alone. -/
theorem kept_changeTarget {filePath : StringView} {target after : TargetRecord}
    {change : TargetChange} (changed : changeTarget filePath target change = .ok after) :
    after.rawProperties = target.rawProperties ∧ after.importedConfigs = target.importedConfigs := by
  cases change with
  | item list entry =>
    cases changed
    cases list with
    | usage family => cases family <;> exact ⟨rfl, rfl⟩
    | compileFeatures => exact ⟨rfl, rfl⟩
  | addDependency dependencyName =>
    cases changed
    exact ⟨rfl, rfl⟩
  | addSource path visibility sourceKind fileSetName =>
    simp only [changeTarget] at changed
    split at changed
    · cases changed
    · cases changed
      exact ⟨rfl, rfl⟩
  | fileSetDeclare setName setKind visibility =>
    simp only [changeTarget] at changed
    split at changed
    · cases changed
    · cases changed
      exact ⟨rfl, rfl⟩
  | fileSetAddBaseDir setName path =>
    simp only [changeTarget] at changed
    split at changed
    · cases changed
      exact ⟨rfl, rfl⟩
    · cases changed

theorem gathers_rawProperties : Gathers TargetRecord.rawProperties TargetPropSet.rawRecords where
  placeholder _ _ _ := rfl
  declared _ _ _ _ _ _ := rfl
  changed _ _ _ _ changed := (kept_changeTarget changed).1
  set := rawProperties_setTargetProperty

/-- No event makes a record of an imported configuration. -/
theorem gathers_importedConfigs : Gathers TargetRecord.importedConfigs fun _ => [] where
  placeholder _ _ _ := rfl
  declared _ _ _ _ _ _ := rfl
  changed _ _ _ _ changed := (kept_changeTarget changed).2
  set filePath property target :=
    (importedConfigs_setTargetProperty filePath property target).trans (append_nil _).symm

/-! ## Values -/

section Values

variable {value : StringView} {sets : List TargetPropSet}

/-- The operations of the events, one after the other. -/
def writeAll (value : StringView) (sets : List TargetPropSet) : StringView :=
  sets.foldl (fun value set => mergePropertyValue value set.value set.op) value

/-- The operations of the events, on the empty value. -/
def appliedValue (sets : List TargetPropSet) : StringView := writeAll [] sets

/-- The value of the first event. -/
def firstValue (sets : List TargetPropSet) : StringView :=
  sets.head?.elim [] TargetPropSet.value

/-- No later event counts, or the last one that sets the value, with those that add to it, gives
the first value again. -/
def FirstStays : List TargetPropSet → Prop
  | [] => True
  | first :: later =>
    (∀ set ∈ later, set.op ≠ .set ∧ set.value = []) ∨
      ∃ before last after, later = before ++ last :: after ∧ last.op = .set ∧
        (∀ set ∈ after, set.op ≠ .set) ∧ appliedValue (last :: after) = first.value

theorem mergePropertyValue_fresh (incoming : StringView) (op : PropertyOp) :
    mergePropertyValue [] incoming op = incoming := by
  unfold mergePropertyValue
  split
  · rfl
  · split
    · next empty => exact empty.symm
    · rfl

theorem mergePropertyValue_empty {op : PropertyOp} (adds : op ≠ .set) (current : StringView) :
    mergePropertyValue current [] op = current := by
  unfold mergePropertyValue
  rw [if_neg adds, if_pos rfl]

/-- What is added makes the value longer. -/
theorem length_mergePropertyValue {op : PropertyOp} (adds : op ≠ .set)
    (current incoming : StringView) :
    current.length + incoming.length ≤ (mergePropertyValue current incoming op).length := by
  unfold mergePropertyValue
  rw [if_neg adds]
  split
  · next empty => simp [empty]
  split
  · next empty => simp [empty]
  · cases op <;> simp only [length_append, length_cons] <;> omega

/-- Events that only add keep the value exactly when they add nothing. -/
theorem writeAll_eq_self_iff (adds : ∀ set ∈ sets, set.op ≠ .set) :
    writeAll value sets = value ↔ ∀ set ∈ sets, set.value = [] := by
  have grows : ∀ (sets : List TargetPropSet) (value : StringView),
      (∀ set ∈ sets, set.op ≠ .set) → ∀ set ∈ sets,
        value.length + set.value.length ≤ (writeAll value sets).length := by
    intro sets
    induction sets with
    | nil => exact fun _ _ _ member => nomatch member
    | cons first rest ih =>
      intro value adds set member
      have here := length_mergePropertyValue (adds first mem_cons_self) value first.value
      have later : ∀ set ∈ rest, set.op ≠ .set := fun set inside =>
        adds set (mem_cons_of_mem first inside)
      have whole : (mergePropertyValue value first.value first.op).length ≤
          (writeAll value (first :: rest)).length := by
        cases rest with
        | nil => exact Nat.le_refl _
        | cons next others =>
          have step := ih (mergePropertyValue value first.value first.op) later next mem_cons_self
          exact Nat.le_trans (Nat.le_add_right _ _) step
      rcases mem_cons.mp member with rfl | inside
      · exact Nat.le_trans here whole
      · have step := ih (mergePropertyValue value first.value first.op) later set inside
        have total : (writeAll value (first :: rest)) =
            writeAll (mergePropertyValue value first.value first.op) rest := rfl
        rw [total]
        omega
  constructor
  · intro same set member
    have longer := grows sets value adds set member
    rw [same] at longer
    exact length_eq_zero_iff.mp (by omega)
  · intro empty
    induction sets generalizing value with
    | nil => rfl
    | cons first rest ih =>
      have step : writeAll value (first :: rest) = writeAll value rest := by
        show writeAll (mergePropertyValue value first.value first.op) rest = _
        rw [empty first mem_cons_self, mergePropertyValue_empty (adds first mem_cons_self)]
      rw [step]
      exact ih (fun set inside => adds set (mem_cons_of_mem first inside))
        fun set inside => empty set (mem_cons_of_mem first inside)

/-- The last event that sets the value, if there is one. -/
theorem exists_last_set (sets : List TargetPropSet) :
    (∀ set ∈ sets, set.op ≠ .set) ∨ ∃ before last after, sets = before ++ last :: after ∧
      last.op = .set ∧ ∀ set ∈ after, set.op ≠ .set := by
  induction sets with
  | nil => exact .inl fun _ member => nomatch member
  | cons first rest ih =>
    rcases ih with adds | ⟨before, last, after, rfl, sets, adds⟩
    · by_cases here : first.op = .set
      · exact .inr ⟨[], first, rest, rfl, here, adds⟩
      · refine .inl fun set member => ?_
        rcases mem_cons.mp member with rfl | inside
        · exact here
        · exact adds set inside
    · exact .inr ⟨first :: before, last, after, rfl, sets, adds⟩

/-- What comes before an event that sets the value does not count. -/
theorem writeAll_set {before after : List TargetPropSet} {last : TargetPropSet}
    (sets : last.op = .set) :
    writeAll value (before ++ last :: after) = appliedValue (last :: after) := by
  have forgets : ∀ current : StringView,
      mergePropertyValue current last.value last.op = last.value := fun current =>
    if_pos sets
  unfold appliedValue writeAll
  rw [foldl_append, foldl_cons, foldl_cons, forgets, forgets]

/-- The first value is what the operations give exactly when it stays. -/
theorem firstValue_eq_iff (sets : List TargetPropSet) :
    firstValue sets = appliedValue sets ↔ FirstStays sets := by
  cases sets with
  | nil => exact iff_of_true rfl trivial
  | cons first later =>
    have start : appliedValue (first :: later) = writeAll first.value later := by
      show writeAll (mergePropertyValue [] first.value first.op) later = _
      rw [mergePropertyValue_fresh]
    show first.value = _ ↔ _
    rw [start]
    constructor
    · intro same
      rcases exists_last_set later with adds | ⟨before, last, after, rfl, sets, adds⟩
      · have empty := (writeAll_eq_self_iff adds).mp same.symm
        exact .inl fun set member => ⟨adds set member, empty set member⟩
      · rw [writeAll_set sets] at same
        exact .inr ⟨before, last, after, rfl, sets, adds, same.symm⟩
    · rintro (nothing | ⟨before, last, after, rfl, sets, -, same⟩)
      · exact ((writeAll_eq_self_iff fun set member => (nothing set member).1).mpr
          fun set member => (nothing set member).2).symm
      · rw [writeAll_set sets]
        exact same.symm

end Values

/-! ## Readers -/

section Readers

variable {target : TargetRecord} {sets : List TargetPropSet}

/-- Every event leaves a raw property. -/
def KeptRaw (sets : List TargetPropSet) : Prop := ∀ set ∈ sets, set.recordsRaw = true

/-- The events that leave a raw property. -/
def recorded (sets : List TargetPropSet) : List TargetPropSet :=
  sets.filter TargetPropSet.recordsRaw

/-- The events for a property. -/
def setsFor (property : StringView) (sets : List TargetPropSet) : List TargetPropSet :=
  sets.filter fun set => svEqCiQuery set.key property

/-- The events for the file of a configuration. -/
def fileSets (linkerFile : Bool) (asked : StringView) (sets : List TargetPropSet) :
    List TargetPropSet :=
  sets.filter fun set => (fileConfig linkerFile set.key).any (svEqCiQuery · asked)

/-- A property event as it is written. -/
def TargetPropSet.written (set : TargetPropSet) : StringView × StringView := (set.key, set.value)

/-- Under the spelling of the configuration that comes first, the value that decides the file
gives the path of the last one. -/
def FirstFileStays (sourceDir : StringView) (linkerFile : Bool) (asked : StringView)
    (sets : List TargetPropSet) (last : TargetPropSet) : Prop :=
  ∃ config value, spelledConfig asked ((recorded sets).map TargetPropSet.key) = some config ∧
    decidingFile linkerFile config ((recorded sets).map TargetPropSet.written) = some value ∧
    importedConfigPath sourceDir value [] = importedConfigPath sourceDir last.value []

theorem flatMap_rawRecords (sets : List TargetPropSet) :
    sets.flatMap TargetPropSet.rawRecords = (recorded sets).map TargetPropSet.raw := by
  induction sets with
  | nil => rfl
  | cons set rest ih =>
    rw [flatMap_cons, ih, recorded, recorded, filter_cons, TargetPropSet.rawRecords]
    split <;> rfl

theorem rawPropertyValue_eq (kept : target.rawProperties = (recorded sets).map TargetPropSet.raw)
    {property : StringView} (raw : KeptRaw (setsFor property sets)) :
    target.rawPropertyValue property = firstValue (setsFor property sets) := by
  have same : (recorded sets).filter (fun set => svEqCiQuery set.key property) =
      setsFor property sets := by
    unfold recorded setsFor
    rw [filter_filter]
    refine filter_congr fun set member => ?_
    cases about : svEqCiQuery set.key property with
    | false => exact Bool.false_and _
    | true => exact raw set (mem_filter.mpr ⟨member, about⟩)
  have found : findRawProperty target.rawProperties property =
      (setsFor property sets).head?.map TargetPropSet.raw := by
    rw [findRawProperty, kept, List.find?_map, ← same, List.head?_filter]
    rfl
  rw [TargetRecord.rawPropertyValue, found]
  cases setsFor property sets with
  | nil => rfl
  | cons first rest => rfl

/-- A configuration whose file is set has a record. -/
theorem exists_spelledConfig {linkerFile : Bool} {asked : StringView} {last : TargetPropSet}
    (raw : KeptRaw (fileSets linkerFile asked sets))
    (ends : (fileSets linkerFile asked sets).getLast? = some last) :
    ∃ config, spelledConfig asked ((recorded sets).map TargetPropSet.key) = some config := by
  have member := mem_of_getLast? ends
  obtain ⟨listed, about⟩ := mem_filter.mp member
  obtain ⟨config, sets_, fits⟩ := (Option.any_eq_true _ _).mp about
  cases spelled : spelledConfig asked ((recorded sets).map TargetPropSet.key) with
  | some config => exact ⟨config, rfl⟩
  | none =>
    have inside : last ∈ recorded sets := mem_filter.mpr ⟨listed, raw last member⟩
    have here := List.findSome?_eq_none_iff.mp spelled _ (mem_map_of_mem inside)
    rw [recordConfig_of_fileConfig sets_, Option.filter_some, if_pos fits] at here
    cases here

theorem targetEffectiveFile_eq_iff (host : HostPlatform) (genexEval : GenexEval) {model : Model}
    {ctx : QueryContext} {id resolved : TargetId} {sourceDir : StringView} {linkerFile : Bool}
    {last : TargetPropSet} (resolves : resolveAliasTargetId model (some id) = some resolved)
    (here : model.targets[resolved]? = some target) (imported : target.imported = true)
    (records : target.importedConfigs = importedRecords sourceDir target.rawProperties)
    (kept : target.rawProperties = (recorded sets).map TargetPropSet.raw)
    (raw : KeptRaw (fileSets linkerFile ctx.config sets))
    (ends : (fileSets linkerFile ctx.config sets).getLast? = some last) :
    targetEffectiveFile host genexEval model ctx id linkerFile =
        some (importedConfigPath sourceDir last.value []) ↔
      FirstFileStays sourceDir linkerFile ctx.config sets last := by
  have names : target.rawProperties.map RawPropertyRecord.name =
      (recorded sets).map TargetPropSet.key := by
    rw [kept, List.map_map]
    rfl
  have written : target.rawProperties.map RawPropertyRecord.written =
      (recorded sets).map TargetPropSet.written := by
    rw [kept, List.map_map]
    rfl
  obtain ⟨config, spelled⟩ := exists_spelledConfig raw ends
  have reads := targetEffectiveFile_imported host genexEval linkerFile resolves here imported
    records (names ▸ spelled)
  rw [reads, written]
  constructor
  · intro same
    have path := Option.some.inj same
    cases decides : decidingFile linkerFile config ((recorded sets).map TargetPropSet.written) with
    | none =>
      rw [decides] at path
      exact absurd path.symm (importedConfigPath_ne_nil last.value [])
    | some value =>
      rw [decides] at path
      exact ⟨config, value, spelled, decides, path⟩
  · rintro ⟨other, value, spells, decides, path⟩
    obtain rfl := Option.some.inj (spelled.symm.trans spells)
    rw [decides, Option.elim_some, path]

end Readers

/-! ## Frozen models -/

/-- The passes behind a frozen model. -/
theorem resolveModel_of_freezeDraft {genexEval : GenexEval} {draft : Draft} {model : FrozenModel}
    (frozen : freezeDraft genexEval draft = .ok model) :
    ∃ copied resolved, cloneDraft draft = .ok copied ∧
      resolveModel draft copied.toModel = .ok resolved ∧
      model.targets = resolved.targets ∧ model.directories = resolved.directories := by
  obtain ⟨made, before, checked⟩ := Lib.bind_eq_ok.mp frozen
  split at checked
  · cases checked
    obtain ⟨-, -, rest⟩ := Lib.bind_eq_ok.mp before
    obtain ⟨copied, cloned, rest⟩ := Lib.bind_eq_ok.mp rest
    obtain ⟨resolved, passed, set⟩ := Lib.bind_eq_ok.mp rest
    cases set
    exact ⟨copied, resolved, cloned, passed, rfl, rfl⟩
  · cases checked
  · cases checked

/-- A property of a target reads as its operations give exactly when the first value stays, and
an imported target has the file that was set last exactly when the first file stays. -/
theorem rawProperties_applied_iff {genexEval : GenexEval} {stream : List BuildEvent}
    {draft : Draft} {model : FrozenModel}
    (finished : (Builder.feed {} stream).finalize.2 = some draft)
    (frozen : freezeDraft genexEval draft = .ok model) {name : StringView} {id : TargetId}
    (known : draft.findTargetId name = some id) :
    ∃ target, model.targets[id]? = some target ∧
      (∀ property, KeptRaw (setsFor property (setsOf name stream)) →
        (target.rawPropertyValue property = appliedValue (setsFor property (setsOf name stream)) ↔
          FirstStays (setsFor property (setsOf name stream)))) ∧
      (target.imported = true → ∀ host ctx asked linkerFile last,
        resolveAliasTargetId model.toModel (some asked) = some id →
        KeptRaw (fileSets linkerFile ctx.config (setsOf name stream)) →
        (fileSets linkerFile ctx.config (setsOf name stream)).getLast? = some last →
        (targetEffectiveFile host genexEval model.toModel ctx asked linkerFile =
            some (importedConfigPath (target.ownerSourceDir model.toModel) last.value []) ↔
          FirstFileStays (target.ownerSourceDir model.toModel) linkerFile ctx.config
            (setsOf name stream) last)) := by
  have formed : draft.WellFormed := (built_of_finalize finished).formed
  obtain ⟨source, here, -⟩ := formed.findTargetId known
  have found : draft.findTarget name = some source := by
    rw [Draft.findTarget, known]
    exact here
  have properties : source.rawProperties =
      (recorded (setsOf name stream)).map TargetPropSet.raw := by
    have held := held_of_finalize name gathers_rawProperties finished
    rw [Draft.held, found, flatMap_rawRecords] at held
    exact held
  have fresh : source.importedConfigs = [] := by
    have held := held_of_finalize name gathers_importedConfigs finished
    rw [Draft.held, found, flatMap_eq_nil_iff.mpr fun _ _ => rfl] at held
    exact held
  obtain ⟨copied, resolved, cloned, passed, targets, directories⟩ :=
    resolveModel_of_freezeDraft frozen
  obtain ⟨target, final, kept, records⟩ :=
    importedRecords_of_resolveModel (cloneDraft_ok cloned) passed here fresh
  have raws := kept.trans properties
  have place : model.targets[id]? = some target := by
    rw [targets]
    exact final
  have owner : target.ownerSourceDir resolved = target.ownerSourceDir model.toModel := by
    unfold TargetRecord.ownerSourceDir
    rw [directories]
  refine ⟨target, place, fun property raw => ?_, ?_⟩
  · rw [rawPropertyValue_eq raws raw]
    exact firstValue_eq_iff _
  · intro imported host ctx asked linkerFile last resolves raw ends
    exact targetEffectiveFile_eq_iff host genexEval resolves place imported
      (owner ▸ records imported) raws raw ends

/-- An imported library whose location is set to the values. -/
def locationStream (values : List String) : List BuildEvent :=
  { body := .directory (.enter (sv "/s") (sv "/b")) } ::
    { body := .target (.declare (sv "ext") .libraryShared true false []) } ::
    (values.map fun value =>
      { body := .target (.propSet (sv "ext")
        { key := sv "IMPORTED_LOCATION", value := sv value, op := .set }) }) ++
    [{ body := .directory (.leave (sv "/s") (sv "/b")) }]

/-- The draft of the stream. -/
def locationDraft (values : List String) : Draft :=
  (Builder.feed {} (locationStream values)).draft

theorem rawProperties_applied_iff_once :
    ∃ model target, freezeDraft plainGenexEval (locationDraft ["a"]) = .ok model ∧
      model.targets[0]? = some target ∧
      target.rawPropertyValue (sv "IMPORTED_LOCATION") = sv "a" := by
  have finished : (Builder.feed {} (locationStream ["a"])).finalize.2 =
      some (locationDraft ["a"]) :=
    finalize_eq_some_iff.mpr ⟨by decide +kernel, by decide +kernel, rfl⟩
  have succeeds : (freezeDraft plainGenexEval (locationDraft ["a"])).toBool = true := by
    decide +kernel
  have known : (locationDraft ["a"]).findTargetId (sv "ext") = some 0 := by decide +kernel
  have single : setsFor (sv "IMPORTED_LOCATION") (setsOf (sv "ext") (locationStream ["a"])) =
      [{ key := sv "IMPORTED_LOCATION", value := sv "a", op := .set }] := rfl
  cases outcome : freezeDraft plainGenexEval (locationDraft ["a"]) with
  | error stop =>
    rw [outcome] at succeeds
    cases succeeds
  | ok model =>
    obtain ⟨target, here, values, -⟩ := rawProperties_applied_iff finished outcome known
    have raw : KeptRaw (setsFor (sv "IMPORTED_LOCATION")
        (setsOf (sv "ext") (locationStream ["a"]))) := by
      rw [single]
      intro set member
      obtain rfl := mem_singleton.mp member
      decide +kernel
    have stays : FirstStays (setsFor (sv "IMPORTED_LOCATION")
        (setsOf (sv "ext") (locationStream ["a"]))) := by
      rw [single]
      exact .inl fun _ member => nomatch member
    exact ⟨model, target, rfl, here, (values (sv "IMPORTED_LOCATION") raw).mpr stays⟩

/-- With two values the property reads as the first one, and the file is the first one. -/
theorem second_location_unread :
    (Builder.feed {} (locationStream ["a", "b"])).finalize.2 = some (locationDraft ["a", "b"]) ∧
      validateAccepts (locationDraft ["a", "b"]) = true ∧
      ((freezeDraft plainGenexEval (locationDraft ["a", "b"])).toOption.map fun model =>
          (model.targets.map fun target => target.rawPropertyValue (sv "IMPORTED_LOCATION"),
            targetEffectiveFile {} plainGenexEval model.toModel {} 0 false)) =
        some ([sv "a"], some (sv "/s/a")) ∧
      appliedValue (setsFor (sv "IMPORTED_LOCATION")
        (setsOf (sv "ext") (locationStream ["a", "b"]))) = sv "b" ∧
      importedConfigPath (sv "/s") (sv "b") [] = sv "/s/b" := by
  refine ⟨finalize_eq_some_iff.mpr ⟨?_, ?_, rfl⟩, ?_, ?_, ?_, ?_⟩ <;> decide +kernel

end Nobify.BuildModel
