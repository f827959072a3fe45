import Nobify.BuildModel.FreezeParts
import Nobify.BuildModel.FreezeIntegrity
import Nobify.BuildModel.Artifact

/-!
# The files of an imported target

Freeze reads the properties of an imported target in their order. A property about a configuration
makes the record of that spelling, or changes it; the first file of a record stays. A query takes
the first record whose configuration is the asked one in any case.
-/

namespace Nobify.BuildModel

open Option (elim_none elim_some filter_some map_none map_some none_or or_none some_ne_none some_or)
open List

variable (properties : List RawPropertyRecord)

/-! ## Records of configurations -/

section Records

variable {sourceDir asked config name : StringView} {records : List ImportedConfigRecord}

/-- A change of the record of one spelling, seen by a query. -/
theorem find?_withImportedConfig {change : ImportedConfigRecord → ImportedConfigRecord}
    (keeps : ∀ record, (change record).config = record.config) :
    (withImportedConfig config change records).find? (fun record =>
        svEqCiQuery record.config asked) =
      ((records.find? fun record => svEqCiQuery record.config asked).map fun record =>
          if record.config = config then change record else record).or
        (if svEqCiQuery config asked then some (change { config }) else none) := by
  have single : ([change { config }].find? fun record => svEqCiQuery record.config asked) =
      if svEqCiQuery config asked then some (change { config }) else none := by
    rw [List.find?_singleton, keeps]
  induction records with
  | nil => exact single
  | cons record rest ih =>
    by_cases here : record.config = config
    · have changed : withImportedConfig config change (record :: rest) = change record :: rest := by
        simp [withImportedConfig, modifyFirst, List.findIdx?_cons, here]
      rw [changed, List.find?_cons, List.find?_cons, keeps]
      cases same : svEqCiQuery record.config asked with
      | true => simp [here]
      | false =>
        rw [here] at same
        have kept : (rest.find? fun record => svEqCiQuery record.config asked).map (fun record =>
            if record.config = config then change record else record) =
            rest.find? fun record => svEqCiQuery record.config asked := by
          cases found : rest.find? fun record => svEqCiQuery record.config asked with
          | none => rfl
          | some other =>
            have fits := List.find?_some found
            have apart : other.config ≠ config := fun equal => by
              rw [equal, same] at fits
              cases fits
            exact congrArg some (if_neg apart)
        simp only [kept, same, Bool.false_eq_true, ↓reduceIte, or_none]
    · have passed : withImportedConfig config change (record :: rest) =
          record :: withImportedConfig config change rest := by
        unfold withImportedConfig modifyFirst
        rw [List.findIdx?_cons, if_neg (by simpa using here)]
        cases rest.findIdx? (·.config = config) with
        | none => rfl
        | some index => rfl
      rw [passed, List.find?_cons, List.find?_cons]
      cases same : svEqCiQuery record.config asked with
      | true => simp [here]
      | false => exact ih

/-- The configuration whose record a property makes or changes. -/
def recordConfig (name : StringView) : Option StringView :=
  (importedPropertyConfig "IMPORTED_LOCATION" name).or
    ((importedPropertyConfig "IMPORTED_IMPLIB" name).or
      (importedPropertyConfig "IMPORTED_LINK_INTERFACE_LANGUAGES" name))

/-- What a property does to the record of its configuration. -/
def recordChange (sourceDir : StringView) (property : RawPropertyRecord)
    (record : ImportedConfigRecord) : ImportedConfigRecord :=
  let value := property.items.headD []
  if (importedPropertyConfig "IMPORTED_LOCATION" property.name).isSome then
    { record with effectiveFile := importedConfigPath sourceDir value record.effectiveFile }
  else if (importedPropertyConfig "IMPORTED_IMPLIB" property.name).isSome then
    { record with
      effectiveLinkerFile := importedConfigPath sourceDir value record.effectiveLinkerFile }
  else
    { record with
      linkLanguages := record.linkLanguages ++ property.items.flatMap splitCmakeList }

theorem recordChange_config (property : RawPropertyRecord) (record : ImportedConfigRecord) :
    (recordChange sourceDir property record).config = record.config := by
  unfold recordChange
  dsimp only
  split
  · rfl
  · split <;> rfl

theorem importedConfigs_materializeImportedProperty (target : TargetRecord)
    (property : RawPropertyRecord) :
    (materializeImportedProperty sourceDir target property).importedConfigs =
      (recordConfig property.name).elim target.importedConfigs fun config =>
        withImportedConfig config (recordChange sourceDir property) target.importedConfigs := by
  unfold materializeImportedProperty recordConfig recordChange
  dsimp only
  cases importedPropertyConfig "IMPORTED_LOCATION" property.name with
  | some config => rfl
  | none =>
    cases importedPropertyConfig "IMPORTED_IMPLIB" property.name with
    | some config => rfl
    | none =>
      cases importedPropertyConfig "IMPORTED_LINK_INTERFACE_LANGUAGES" property.name with
      | some config => rfl
      | none =>
        dsimp only
        split <;> rfl

end Records

/-! ## The record of a list of properties -/

section Lists

variable {sourceDir asked config : StringView}

/-- The records that properties make. -/
def importedRecords (sourceDir : StringView) (properties : List RawPropertyRecord) :
    List ImportedConfigRecord :=
  properties.foldl (fun records property =>
    (recordConfig property.name).elim records fun config =>
      withImportedConfig config (recordChange sourceDir property) records) []

/-- The changes that properties make to the record of one spelling. -/
def changedRecord (sourceDir config : StringView) (properties : List RawPropertyRecord) :
    ImportedConfigRecord :=
  (properties.filter fun property => recordConfig property.name = some config).foldl
    (fun record property => recordChange sourceDir property record) { config }

/-- The spelling of the asked configuration that comes first. -/
def spelledConfig (asked : StringView) (names : List StringView) : Option StringView :=
  names.findSome? fun name => (recordConfig name).filter (svEqCiQuery · asked)

theorem changedRecord_config : (changedRecord sourceDir config properties).config = config := by
  have all : ∀ (properties : List RawPropertyRecord) (record : ImportedConfigRecord),
      (properties.foldl (fun record property => recordChange sourceDir property record)
        record).config = record.config := by
    intro properties
    induction properties with
    | nil => exact fun _ => rfl
    | cons property rest ih => exact fun record => (ih _).trans (recordChange_config property record)
  exact all _ { config }

theorem changedRecord_concat (property : RawPropertyRecord) :
    changedRecord sourceDir config (properties ++ [property]) =
      if recordConfig property.name = some config then
        recordChange sourceDir property (changedRecord sourceDir config properties)
      else changedRecord sourceDir config properties := by
  unfold changedRecord
  rw [filter_append, foldl_append]
  by_cases here : recordConfig property.name = some config
  · rw [if_pos here, filter_singleton, decide_eq_true here]
    rfl
  · rw [if_neg here, filter_singleton, decide_eq_false here]
    rfl

/-- A spelling that comes first later is new. -/
theorem changedRecord_fresh {properties : List RawPropertyRecord}
    (unspelled : spelledConfig asked (properties.map RawPropertyRecord.name) = none)
    (fits : svEqCiQuery config asked = true) :
    changedRecord sourceDir config properties = { config } := by
  have nothing : (properties.filter fun property => recordConfig property.name = some config) =
      [] := by
    refine filter_eq_nil_iff.mpr fun property member found => ?_
    have here := List.findSome?_eq_none_iff.mp unspelled _ (mem_map_of_mem member)
    rw [of_decide_eq_true found, filter_some, if_pos fits] at here
    cases here
  rw [changedRecord, nothing]
  rfl

/-- A query finds the record of the spelling that comes first. -/
theorem find?_importedRecords :
    (importedRecords sourceDir properties).find? (fun record => svEqCiQuery record.config asked) =
      (spelledConfig asked (properties.map RawPropertyRecord.name)).map fun config =>
        changedRecord sourceDir config properties := by
  induction properties using List.reverseRecOn with
  | nil => rfl
  | append_singleton before property ih =>
    have grown : importedRecords sourceDir (before ++ [property]) =
        (recordConfig property.name).elim (importedRecords sourceDir before) fun config =>
          withImportedConfig config (recordChange sourceDir property)
            (importedRecords sourceDir before) := by
      rw [importedRecords, foldl_concat]
      rfl
    have spelling : spelledConfig asked ((before ++ [property]).map RawPropertyRecord.name) =
        (spelledConfig asked (before.map RawPropertyRecord.name)).or
          ((recordConfig property.name).filter (svEqCiQuery · asked)) := by
      rw [spelledConfig, map_append, List.findSome?_append, map_singleton, List.findSome?_singleton]
      rfl
    rw [grown, spelling]
    cases about : recordConfig property.name with
    | none =>
      rw [elim_none, ih, Option.filter_none, or_none]
      refine Option.map_congr fun config _ => ?_
      rw [changedRecord_concat, about, if_neg (some_ne_none config).symm]
    | some config =>
      rw [elim_some, find?_withImportedConfig (recordChange_config property), ih]
      cases known : spelledConfig asked (before.map RawPropertyRecord.name) with
      | some first =>
        simp only [map_some, some_or, changedRecord_config, changedRecord_concat,
          about, Option.some.injEq, eq_comm]
      | none =>
        rw [none_or, map_none, map_none, none_or, filter_some]
        by_cases fits : svEqCiQuery config asked = true
        · rw [if_pos fits, if_pos fits, map_some, changedRecord_concat, about, if_pos rfl,
            changedRecord_fresh known fits]
        · rw [if_neg fits, if_neg fits, map_none]

end Lists

/-! ## Files -/

section Files

variable {sourceDir asked config : StringView}

/-- The property that sets the file of an imported target, or its linker file. -/
def fileProperty (linkerFile : Bool) : String :=
  if linkerFile then "IMPORTED_IMPLIB" else "IMPORTED_LOCATION"

/-- The configuration that a property sets the file for. -/
def fileConfig (linkerFile : Bool) (name : StringView) : Option StringView :=
  importedPropertyConfig (fileProperty linkerFile) name

/-- The field that the property sets. -/
def ImportedConfigRecord.ownFile (record : ImportedConfigRecord) (linkerFile : Bool) : StringView :=
  if linkerFile then record.effectiveLinkerFile else record.effectiveFile

/-- A property about a configuration starts with its name in any case. -/
theorem upper_of_importedPropertyConfig {property : String} {name config : StringView}
    (about : importedPropertyConfig property name = some config) :
    (name.map Char.toUpper).take (sv property).length = (sv property).map Char.toUpper := by
  unfold importedPropertyConfig at about
  split at about
  · next same =>
    have equal : name.map Char.toUpper = (sv property).map Char.toUpper := eq_of_beq same
    rw [equal]
    exact take_of_length_le (length_map _).le
  · unfold afterStart at about
    split at about
    · next starts =>
      have whole := List.isPrefixOf_iff_prefix.mp (Bool.and_eq_true_iff.mp starts).1
      have front : sv property <+: name := by
        refine List.IsPrefix.trans ⟨['_'], ?_⟩ whole
        exact (String.toList_append (s := property) (t := "_")).symm
      obtain ⟨rest, rfl⟩ := front
      rw [map_append]
      exact take_left' (length_map _)
    · cases about

/-- No name is a file property and a linker file property. -/
theorem fileConfig_disjoint {name config : StringView}
    (linker : fileConfig true name = some config) : fileConfig false name = none := by
  cases plain : fileConfig false name with
  | none => rfl
  | some other =>
    have left := congrArg (List.take 10) (upper_of_importedPropertyConfig linker)
    have right := congrArg (List.take 10) (upper_of_importedPropertyConfig plain)
    rw [take_take] at left right
    have clash := left.symm.trans right
    exact absurd clash (by decide)

theorem recordConfig_of_fileConfig {linkerFile : Bool} {name : StringView}
    (about : fileConfig linkerFile name = some config) : recordConfig name = some config := by
  unfold recordConfig
  cases linkerFile with
  | false => rw [show importedPropertyConfig "IMPORTED_LOCATION" name = some config from about,
      some_or]
  | true =>
    have other : importedPropertyConfig "IMPORTED_LOCATION" name = none := fileConfig_disjoint about
    rw [other, none_or,
      show importedPropertyConfig "IMPORTED_IMPLIB" name = some config from about, some_or]

/-- The value of the first property that sets the file for a spelling. -/
def firstFile (linkerFile : Bool) (config : StringView)
    (properties : List (StringView × StringView)) : Option StringView :=
  (properties.find? fun property => fileConfig linkerFile property.1 = some config).map Prod.snd

/-- A property as it is written: its name and its value. -/
def RawPropertyRecord.written (property : RawPropertyRecord) : StringView × StringView :=
  (property.name, property.items.headD [])

theorem importedConfigPath_ne_nil (value dest : StringView) :
    importedConfigPath sourceDir value dest ≠ [] := by
  unfold importedConfigPath
  split
  · assumption
  · split
    · exact normalizePath_ne_nil value
    · exact pathRebase_ne_nil sourceDir value

/-- A property sets the file of its record when there is none. -/
theorem recordChange_ownFile {linkerFile : Bool} {property : RawPropertyRecord}
    (about : recordConfig property.name = some config) (record : ImportedConfigRecord) :
    (recordChange sourceDir property record).ownFile linkerFile =
      if fileConfig linkerFile property.name = some config then
        importedConfigPath sourceDir property.written.2 (record.ownFile linkerFile)
      else record.ownFile linkerFile := by
  unfold recordChange
  dsimp only
  cases location : fileConfig false property.name with
  | some found =>
    have same : found = config := by
      have whole := recordConfig_of_fileConfig location
      exact Option.some.inj (whole.symm.trans about)
    subst same
    rw [if_pos (show (importedPropertyConfig "IMPORTED_LOCATION" property.name).isSome = true from
      Option.isSome_of_eq_some location)]
    cases linkerFile with
    | false => exact (if_pos location).symm
    | true =>
      have other : fileConfig true property.name ≠ some found := fun linker => by
        rw [fileConfig_disjoint linker] at location
        cases location
      exact (if_neg other).symm
  | none =>
    have plain : importedPropertyConfig "IMPORTED_LOCATION" property.name = none := location
    rw [if_neg (by rw [plain]; exact Bool.false_ne_true)]
    cases linker : fileConfig true property.name with
    | some found =>
      have same : found = config := by
        have whole := recordConfig_of_fileConfig linker
        exact Option.some.inj (whole.symm.trans about)
      subst same
      rw [if_pos (show (importedPropertyConfig "IMPORTED_IMPLIB" property.name).isSome = true from
        Option.isSome_of_eq_some linker)]
      cases linkerFile with
      | false =>
        rw [if_neg (by rw [location]; exact (some_ne_none found).symm)]
        rfl
      | true => exact (if_pos linker).symm
    | none =>
      have implib : importedPropertyConfig "IMPORTED_IMPLIB" property.name = none := linker
      rw [if_neg (by rw [implib]; exact Bool.false_ne_true)]
      have neither : fileConfig linkerFile property.name ≠ some config := by
        cases linkerFile with
        | false => rw [location]; exact (some_ne_none config).symm
        | true => rw [linker]; exact (some_ne_none config).symm
      rw [if_neg neither]
      cases linkerFile <;> rfl

/-- The first file of a spelling stays. -/
theorem changedRecord_ownFile (sourceDir config : StringView) (linkerFile : Bool)
    (properties : List RawPropertyRecord) :
    (changedRecord sourceDir config properties).ownFile linkerFile =
      (firstFile linkerFile config (properties.map RawPropertyRecord.written)).elim [] fun value =>
        importedConfigPath sourceDir value [] := by
  induction properties using List.reverseRecOn with
  | nil => cases linkerFile <;> rfl
  | append_singleton before property ih =>
    have first : firstFile linkerFile config ((before ++ [property]).map RawPropertyRecord.written) =
        (firstFile linkerFile config (before.map RawPropertyRecord.written)).or
          (if fileConfig linkerFile property.name = some config then some property.written.2
            else none) := by
      unfold firstFile
      rw [map_append, List.find?_append, map_singleton, List.find?_singleton]
      cases before.map RawPropertyRecord.written |>.find? fun property =>
          fileConfig linkerFile property.1 = some config with
      | some found => rfl
      | none =>
        rw [none_or, map_none, none_or]
        by_cases about : fileConfig linkerFile property.name = some config
        · rw [if_pos about]
          exact congrArg (Option.map Prod.snd) (if_pos (decide_eq_true about))
        · rw [if_neg about]
          exact congrArg (Option.map Prod.snd)
            (if_neg (Bool.eq_false_iff.mp (decide_eq_false about)))
    rw [changedRecord_concat, first]
    by_cases about : recordConfig property.name = some config
    · rw [if_pos about, recordChange_ownFile about, ih]
      cases firstFile linkerFile config (before.map RawPropertyRecord.written) with
      | some value =>
        rw [some_or, elim_some]
        split
        · exact if_pos (importedConfigPath_ne_nil value [])
        · rfl
      | none =>
        rw [none_or, elim_none]
        split <;> rfl
    · have other : fileConfig linkerFile property.name ≠ some config := fun found =>
        about (recordConfig_of_fileConfig found)
      rw [if_neg about, if_neg other, ih, or_none]

end Files

/-! ## What a query reads -/

section Queries

variable {sourceDir asked config : StringView} {target : TargetRecord}

/-- The value that decides the file: a record without a linker file answers with its file. -/
def decidingFile (linkerFile : Bool) (config : StringView)
    (properties : List (StringView × StringView)) : Option StringView :=
  (firstFile linkerFile config properties).or (firstFile false config properties)

theorem artifactPath_changedRecord (linkerFile : Bool) (properties : List RawPropertyRecord) :
    (changedRecord sourceDir config properties).artifactPath
        (if linkerFile then .linker else .runtime) =
      (decidingFile linkerFile config (properties.map RawPropertyRecord.written)).elim []
        fun value => importedConfigPath sourceDir value [] := by
  have file := changedRecord_ownFile sourceDir config false properties
  have linker := changedRecord_ownFile sourceDir config true properties
  unfold ImportedConfigRecord.artifactPath decidingFile
  cases linkerFile with
  | false =>
    rw [Option.or_self]
    exact file
  | true =>
    cases first : firstFile true config (properties.map RawPropertyRecord.written) with
    | some value =>
      rw [first] at linker
      have filled : (changedRecord sourceDir config properties).effectiveLinkerFile ≠ [] :=
        ne_of_eq_of_ne linker (importedConfigPath_ne_nil value [])
      exact (if_pos ⟨rfl, filled⟩).trans linker
    | none =>
      rw [first] at linker
      have empty : (changedRecord sourceDir config properties).effectiveLinkerFile = [] := linker
      rw [none_or]
      exact (if_neg fun both => both.2 empty).trans file

/-- A query for a configuration that has a record reads that record. -/
theorem selectImportedConfigRecord_spelled
    (records : target.importedConfigs = importedRecords sourceDir target.rawProperties)
    (spelled : spelledConfig asked (target.rawProperties.map RawPropertyRecord.name) =
      some config) :
    selectImportedConfigRecord target asked =
      some (changedRecord sourceDir config target.rawProperties) := by
  have found : findImportedConfigRecord target asked =
      some (changedRecord sourceDir config target.rawProperties) := by
    rw [findImportedConfigRecord, records, find?_importedRecords, spelled]
    rfl
  unfold selectImportedConfigRecord
  dsimp only
  by_cases plain : asked = []
  · subst plain
    rw [if_pos rfl, none_or, found]
  · rw [if_neg plain, found, some_or, some_or]

/-- The file of an imported target, for a configuration that has a record. -/
theorem targetEffectiveFile_imported (host : HostPlatform) (genexEval : GenexEval) {model : Model}
    {ctx : QueryContext} {id resolved : TargetId} (linkerFile : Bool)
    (resolves : resolveAliasTargetId model (some id) = some resolved)
    (here : model.targets[resolved]? = some target) (imported : target.imported = true)
    (records : target.importedConfigs = importedRecords sourceDir target.rawProperties)
    (spelled : spelledConfig ctx.config (target.rawProperties.map RawPropertyRecord.name) =
      some config) :
    targetEffectiveFile host genexEval model ctx id linkerFile =
      some ((decidingFile linkerFile config
        (target.rawProperties.map RawPropertyRecord.written)).elim [] fun value =>
          importedConfigPath sourceDir value []) := by
  have selected := selectImportedConfigRecord_spelled records spelled
  unfold targetEffectiveFile targetEffectiveArtifact
  simp only [resolves, here, imported, selected, Option.bind_eq_bind, Option.bind_some,
    Bool.not_true, Bool.false_eq_true, ↓reduceIte, map_some]
  rw [artifactPath_changedRecord]

end Queries

/-! ## Freeze -/

section Freezing

variable {draft : Draft} {before after : Model}

/-- The source directory that the paths of a target start from. -/
def TargetRecord.ownerSourceDir (model : Model) (target : TargetRecord) : StringView :=
  ((target.ownerDirectoryId.bind (model.directories[·]?)).map DirectoryRecord.sourceDir).getD []

theorem importedConfigs_materializeImportedTarget {target : TargetRecord}
    (imported : target.imported = true) (fresh : target.importedConfigs = []) :
    (materializeImportedTarget before target).importedConfigs =
      importedRecords (target.ownerSourceDir before) target.rawProperties := by
  have all : ∀ (sourceDir : StringView) (properties : List RawPropertyRecord)
      (target : TargetRecord),
      (properties.foldl (materializeImportedProperty sourceDir) target).importedConfigs =
        properties.foldl (fun records property =>
          (recordConfig property.name).elim records fun config =>
            withImportedConfig config (recordChange sourceDir property) records)
          target.importedConfigs := by
    intro sourceDir properties
    induction properties with
    | nil => exact fun _ => rfl
    | cons property rest ih =>
      intro target
      rw [foldl_cons, foldl_cons, ih, importedConfigs_materializeImportedProperty]
  unfold materializeImportedTarget
  dsimp only
  rw [if_pos imported, all, fresh]
  rfl

/-- What the files of an imported target are made from. -/
def TargetRecord.importInputs (target : TargetRecord) :
    List RawPropertyRecord × Bool × Option DirectoryId :=
  (target.rawProperties, target.imported, target.ownerDirectoryId)

/-- What they are made from, and the records. -/
def TargetRecord.importParts (target : TargetRecord) :
    (List RawPropertyRecord × Bool × Option DirectoryId) × List ImportedConfigRecord :=
  (target.importInputs, target.importedConfigs)

theorem importParts_cloneTarget {source target : TargetRecord}
    (cloned : cloneTarget draft source = .ok target) : target.importParts = source.importParts := by
  obtain ⟨copied, byAlias, rest⟩ := Lib.bind_eq_ok.mp cloned
  obtain ⟨ids, -, made⟩ := Lib.bind_eq_ok.mp rest
  cases made
  unfold cloneAlias at byAlias
  split at byAlias
  · cases byAlias
    rfl
  · obtain ⟨id, -, later⟩ := Lib.bind_eq_ok.mp byAlias
    obtain ⟨aliased, -, set⟩ := Lib.bind_eq_ok.mp later
    cases set
    rfl

/-- The passes before the imported targets. -/
theorem importParts_linked {copied pathed linked : Model} (copy : Copied draft copied)
    (byPaths : overSteps (freezeEffectivePaths draft copied) copied = .ok pathed)
    (byLinks : freezeLinkItems draft pathed = .ok linked) :
    linked.targets.map TargetRecord.importParts = draft.targets.map TargetRecord.importParts := by
  have ignores : IgnoresLinks TargetRecord.importParts := ⟨fun _ _ => rfl, fun _ _ => rfl⟩
  have links : SamePart TargetRecord.importParts pathed linked :=
    samePart_freezeLinkItems ignores byLinks
  have paths : SamePart TargetRecord.importParts copied pathed := samePart_overSteps byPaths
  have copies : copied.targets.map TargetRecord.importParts =
      draft.targets.map TargetRecord.importParts :=
    Lib.map_eq_of_mapM copy.targets fun _ _ _ made => importParts_cloneTarget made
  exact links.trans (paths.trans copies)

/-- The passes after them. -/
theorem importParts_resolved {imported promoted wired sourced mutated model : Model}
    (byPromotion : freezePromote imported = .ok promoted)
    (byDependencies : overSteps (freezeStepDependencies draft promoted) promoted = .ok wired)
    (bySources : freezeSources draft wired = .ok sourced)
    (byMutations : freezeSourceMutations draft sourced = .ok mutated)
    (byFileSets : overTargets (fun target => .ok (populateTargetFileSets target)) mutated =
      .ok model) :
    model.targets.map TargetRecord.importParts = imported.targets.map TargetRecord.importParts ∧
      model.directories = imported.directories := by
  have links : IgnoresLinks TargetRecord.importParts := ⟨fun _ _ => rfl, fun _ _ => rfl⟩
  have sources : IgnoresSources TargetRecord.importParts := ⟨fun _ _ => rfl, fun _ _ => rfl⟩
  constructor
  · exact (samePart_populate sources byFileSets).trans <|
      (samePart_freezeSourceMutations sources byMutations).trans <|
        (samePart_freezeSources sources bySources).trans <|
          (samePart_overSteps byDependencies).trans (samePart_freezePromote links byPromotion)
  · have steps : wired.directories = promoted.directories := by
      obtain ⟨steps, -, made⟩ := Lib.bind_eq_ok.mp byDependencies
      cases made
      rfl
    exact (populate_frame byFileSets).directories.trans <|
      (freezeSourceMutations_frame byMutations).directories.trans <|
        (freezeSources_frame bySources).directories.trans <|
          steps.trans (freezePromote_frame byPromotion).directories

/-- A frozen target has the properties of the draft, and the records they make. -/
theorem importedRecords_of_resolveModel {copied model : Model} (copy : Copied draft copied)
    (passed : resolveModel draft copied = .ok model) {id : TargetId} {source : TargetRecord}
    (here : draft.targets[id]? = some source) (fresh : source.importedConfigs = []) :
    ∃ target, model.targets[id]? = some target ∧ target.rawProperties = source.rawProperties ∧
      (target.imported = true → target.importedConfigs =
        importedRecords (target.ownerSourceDir model) target.rawProperties) := by
  unfold resolveModel at passed
  obtain ⟨pathed, byPaths, rest⟩ := Lib.bind_eq_ok.mp passed
  obtain ⟨linked, byLinks, rest⟩ := Lib.bind_eq_ok.mp rest
  obtain ⟨imported, byImport, rest⟩ := Lib.bind_eq_ok.mp rest
  obtain ⟨promoted, byPromotion, rest⟩ := Lib.bind_eq_ok.mp rest
  obtain ⟨wired, byDependencies, rest⟩ := Lib.bind_eq_ok.mp rest
  obtain ⟨sourced, bySources, rest⟩ := Lib.bind_eq_ok.mp rest
  obtain ⟨mutated, byMutations, byFileSets⟩ := Lib.bind_eq_ok.mp rest
  obtain ⟨copiedTarget, there, agrees⟩ :=
    Lib.getElem?_of_map_eq (importParts_linked copy byPaths byLinks) here
  obtain ⟨targets, mapped, made⟩ := Lib.bind_eq_ok.mp byImport
  cases made
  obtain ⟨after, directories⟩ :=
    importParts_resolved byPromotion byDependencies bySources byMutations byFileSets
  have round : targets[id]? = some (materializeImportedTarget linked copiedTarget) := by
    have whole : targets.map (fun target => target) = linked.targets.map (materializeImportedTarget linked) :=
      Lib.map_eq_of_mapM mapped fun _ _ _ made => (Except.ok.inj made).symm
    rw [map_id'] at whole
    rw [whole, List.getElem?_map, there]
    rfl
  obtain ⟨target, final, same⟩ := Lib.getElem?_of_map_eq after round
  have kept : (materializeImportedTarget linked copiedTarget).importInputs =
      copiedTarget.importInputs :=
    part_materializeImportedTarget ⟨fun _ _ => rfl, fun _ _ => rfl⟩ linked copiedTarget
  have inputs : target.importInputs = copiedTarget.importInputs :=
    (congrArg Prod.fst same).trans kept
  have properties : target.rawProperties = copiedTarget.rawProperties := congrArg Prod.fst inputs
  refine ⟨target, final, properties.trans (congrArg (·.1.1) agrees), fun isImported => ?_⟩
  have flag : copiedTarget.imported = true :=
    (congrArg (·.2.1) inputs).symm.trans isImported
  have unread : copiedTarget.importedConfigs = [] := (congrArg Prod.snd agrees).trans fresh
  have owner : target.ownerSourceDir model = copiedTarget.ownerSourceDir linked := by
    unfold TargetRecord.ownerSourceDir
    rw [directories, show target.ownerDirectoryId = copiedTarget.ownerDirectoryId from
      congrArg (·.2.2) inputs]
  have records : target.importedConfigs =
      (materializeImportedTarget linked copiedTarget).importedConfigs := congrArg Prod.snd same
  rw [records, importedConfigs_materializeImportedTarget flag unread, owner, properties]

end Freezing

end Nobify.BuildModel
