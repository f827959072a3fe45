import Nobify.BuildModel.Freeze

/-!
# What a path token contributes to a step view

A path token of a build step is resolved twice: by freeze, on its raw text, and by the view, on
its value in the context. The view keeps both results. A token therefore contributes one
dependency exactly when the two resolutions meet, and they look in different places: freeze tries
the text as it stands and then under the source directory, and may find the step itself; the view
tries the binary directory and then the source directory, and skips the step itself.
-/

namespace Nobify.BuildModel

open List
open Option (bind_eq_some_iff isSome_iff_exists map_eq_some_iff)

variable {owner : DirectoryRecord} {token : StringView} {id : BuildStepId} {step : BuildStepRecord}
  {deps : StepDependencies} {supply : Supply}

/-- `gx_sv_contains_genex_unescaped`, after an odd number of backslashes when `escaped`. -/
def svContainsGenexGo : Bool → StringView → Bool
  | _, [] => false
  | escaped, char :: rest =>
    (char = '$' && rest.head? = some '<' && !escaped) ||
      svContainsGenexGo (char = '\\' && !escaped) rest

/-- `gx_sv_contains_genex_unescaped`. -/
def svContainsGenex (input : StringView) : Bool := svContainsGenexGo false input

section Supplies

variable (genexEval : GenexEval) (model : Model) (ctx : QueryContext)

/-- The dependency that freeze's resolution of a token puts into the view; a file whose text
resolves to nothing is dropped. -/
def frozenSupply (owner : DirectoryRecord) (token : StringView) : Option (Option Supply) :=
  match freezePathToken model owner token with
  | .producer id => some (some (.producer id))
  | .file path =>
    (resolveString genexEval model ctx path).map fun value =>
      if value = [] then none else some (.file value)

/-- The dependency that the view's own resolution of a token puts into the view. -/
def viewSupply (id : BuildStepId) (step : BuildStepRecord) (token : StringView) :
    Option (Option Supply) :=
  (dependencyMatchCandidates genexEval model ctx id step token).bind fun matched =>
    match matched with
    | some producer => some (some (.producer producer))
    | none =>
      (resolveDependencyToken genexEval model ctx step token).map fun resolved =>
        if resolved = [] then none
        else
          match matchesProducer genexEval model ctx id resolved with
          | some producer => some (.producer producer)
          | none => some (.file resolved)

/-- The dependencies that a token contributes to the view. -/
def Contributes (id : BuildStepId) (step : BuildStepRecord) (owner : DirectoryRecord)
    (token : StringView) (supply : Supply) : Prop :=
  frozenSupply genexEval model ctx owner token = some (some supply) ∨
    viewSupply genexEval model ctx id step token = some (some supply)

/-- The paths that a token with the given value denotes for a step of the owner directory. -/
def denotedPaths (owner : DirectoryRecord) (value : StringView) : List StringView :=
  if value = [] then []
  else if svIsAbsPathQuery value then [normalizePath value]
  else [pathRebase owner.binaryDir value, pathRebase owner.sourceDir value]

/-- The file that a token with the given value denotes when no step writes it. -/
def denotedFile (owner : DirectoryRecord) (value : StringView) : StringView :=
  if value = [] then []
  else if svIsAbsPathQuery value then normalizePath value
  else pathRebase owner.sourceDir value

/-- The first other step that writes a denoted path. -/
def denotedProducer (id : BuildStepId) (owner : DirectoryRecord) (value : StringView) :
    Option BuildStepId :=
  (denotedPaths owner value).findSome? (matchesProducer genexEval model ctx id)

/-- The first step that writes the text of a token as it stands, or else under the source
directory. -/
def rawWriter (owner : DirectoryRecord) (token : StringView) : Option BuildStepId :=
  [normalizePath token, pathRebaseIfNeeded owner.sourceDir token].findSome?
    (findProducerStepIdByPath model)

/-- The value of a text in the context, empty when it has none. -/
def valueOf (text : StringView) : StringView := (resolveString genexEval model ctx text).getD []

/-- A token contributes one dependency: the producer when another step writes a denoted path,
and otherwise a file. Without generator expressions, freeze found that producer too. -/
def ContributesOne (id : BuildStepId) (step : BuildStepRecord) (owner : DirectoryRecord)
    (token : StringView) : Prop :=
  let producer := denotedProducer genexEval model ctx id owner (valueOf genexEval model ctx token)
  (∃ supply, supply.producer? = producer ∧
    ∀ other, Contributes genexEval model ctx id step owner token other ↔ other = supply) ∧
  (svContainsGenex token = false → (freezePathToken model owner token).producer? = producer)

/-- The two resolutions of a token meet: the first step that writes its text is the first other
step that writes a denoted path; or no step writes its text, and its text under the source
directory and the denoted file are, as far as they have a value, one file. -/
def ResolutionsMeet (id : BuildStepId) (owner : DirectoryRecord) (token : StringView) : Prop :=
  let value := valueOf genexEval model ctx token
  let text := valueOf genexEval model ctx (pathRebaseIfNeeded owner.sourceDir token)
  match rawWriter model owner token, denotedProducer genexEval model ctx id owner value with
  | some writer, some producer => writer = producer
  | some _, none => False
  | none, some _ => text = [] ∧ svContainsGenex token = true
  | none, none =>
    (text = denotedFile owner value ∨ text = [] ∨ denotedFile owner value = []) ∧
      ¬ (text = [] ∧ denotedFile owner value = [])

end Supplies

variable {genexEval : GenexEval} {model : Model} {ctx : QueryContext}

/-! ## One token -/

/-- The dependency for a writer, or else for a file with a name. -/
def supplyOf (writer : Option BuildStepId) (file : StringView) : Option Supply :=
  match writer with
  | some id => some (.producer id)
  | none => if file = [] then none else some (.file file)

/-- Freeze takes the first writer, and else the file under the source directory. -/
theorem freezePathToken_eq (owner : DirectoryRecord) (token : StringView) :
    freezePathToken model owner token =
      match rawWriter model owner token with
      | some writer => .producer writer
      | none => .file (pathRebaseIfNeeded owner.sourceDir token) := by
  unfold freezePathToken rawWriter
  cases first : findProducerStepIdByPath model (normalizePath token) with
  | some writer => simp [first]
  | none =>
    cases second : findProducerStepIdByPath model (pathRebaseIfNeeded owner.sourceDir token) with
    | some writer => simp [first, second]
    | none => simp [first, second]

/-- What freeze's resolution contributes, when it resolves. -/
theorem frozenSupply_eq (frozen : (frozenSupply genexEval model ctx owner token).isSome = true) :
    frozenSupply genexEval model ctx owner token = some (supplyOf (rawWriter model owner token)
        (valueOf genexEval model ctx (pathRebaseIfNeeded owner.sourceDir token))) := by
  unfold frozenSupply at frozen ⊢
  rw [freezePathToken_eq] at frozen ⊢
  cases raw : rawWriter model owner token with
  | some writer => rfl
  | none =>
    rw [raw] at frozen
    cases known : resolveString genexEval model ctx (pathRebaseIfNeeded owner.sourceDir token) with
    | some value => simp [valueOf, known, supplyOf]
    | none => simp [known] at frozen

/-- The view takes the first other writer of a denoted path, and else the denoted file. -/
theorem viewSupply_eq (owned : step.ownerDirectoryId.bind (model.directories[·]?) = some owner)
    (viewed : (viewSupply genexEval model ctx id step token).isSome = true) :
    viewSupply genexEval model ctx id step token = some (supplyOf
        (denotedProducer genexEval model ctx id owner (valueOf genexEval model ctx token))
        (denotedFile owner (valueOf genexEval model ctx token))) := by
  cases resolved : resolveString genexEval model ctx token with
  | none => simp [viewSupply, dependencyMatchCandidates, owned, resolved] at viewed
  | some value =>
    have same : valueOf genexEval model ctx token = value := by simp [valueOf, resolved]
    rw [same]
    unfold viewSupply dependencyMatchCandidates resolveDependencyToken denotedProducer
      denotedPaths denotedFile
    rw [owned, resolved]
    by_cases empty : value = []
    · simp [empty, supplyOf]
    · by_cases absolute : svIsAbsPathQuery value = true
      · cases found : matchesProducer genexEval model ctx id (normalizePath value) with
        | some producer => simp [empty, absolute, found, supplyOf]
        | none => simp [empty, absolute, found, supplyOf, normalizePath_ne_nil]
      · cases binary : matchesProducer genexEval model ctx id
            (pathRebase owner.binaryDir value) with
        | some producer => simp [empty, absolute, binary, supplyOf]
        | none =>
          cases source : matchesProducer genexEval model ctx id
              (pathRebase owner.sourceDir value) with
          | some producer => simp [empty, absolute, binary, source, supplyOf, pathRebase_ne_nil]
          | none => simp [empty, absolute, binary, source, supplyOf, pathRebase_ne_nil]

/-- Two supplies are one, with the producer that the second asks for, when their writers agree
and without writers at most one file is named. -/
theorem one_supply_iff (writer producer : Option BuildStepId) (text file : StringView) :
    (∃ supply : Supply, supply.producer? = producer ∧
      ∀ other, supplyOf writer text = some other ∨ supplyOf producer file = some other ↔
        other = supply) ↔
    match writer, producer with
    | some writer, some producer => writer = producer
    | some _, none => False
    | none, some _ => text = []
    | none, none => (text = file ∨ text = [] ∨ file = []) ∧ ¬ (text = [] ∧ file = []) := by
  cases writer with
  | some writer =>
    cases producer with
    | some producer =>
      constructor
      · rintro ⟨supply, -, only⟩
        have first := (only (.producer writer)).mp (.inl rfl)
        have second := (only (.producer producer)).mp (.inr rfl)
        exact Supply.producer.inj (first.trans second.symm)
      · rintro rfl
        refine ⟨.producer writer, rfl, fun other => ?_⟩
        simp [supplyOf, eq_comm]
    | none =>
      simp only [iff_false]
      rintro ⟨supply, isFile, only⟩
      obtain rfl := (only (.producer writer)).mp (.inl rfl)
      cases isFile
  | none =>
    cases producer with
    | some producer =>
      constructor
      · rintro ⟨supply, -, only⟩
        by_contra named
        have first := (only (.file text)).mp (.inl (by simp [supplyOf, named]))
        have second := (only (.producer producer)).mp (.inr rfl)
        cases first.trans second.symm
      · rintro rfl
        refine ⟨.producer producer, rfl, fun other => ?_⟩
        simp [supplyOf, eq_comm]
    | none =>
      by_cases noText : text = []
      · by_cases noFile : file = []
        · simp [supplyOf, noText, noFile]
        · have one : ∃ supply : Supply, supply.producer? = none ∧
              ∀ other, supplyOf none text = some other ∨ supplyOf none file = some other ↔
                other = supply :=
            ⟨.file file, rfl, fun other => by simp [supplyOf, noText, noFile, eq_comm]⟩
          exact iff_of_true one ⟨.inr (.inl noText), fun both => noFile both.2⟩
      · by_cases noFile : file = []
        · have one : ∃ supply : Supply, supply.producer? = none ∧
              ∀ other, supplyOf none text = some other ∨ supplyOf none file = some other ↔
                other = supply :=
            ⟨.file text, rfl, fun other => by simp [supplyOf, noText, noFile, eq_comm]⟩
          exact iff_of_true one ⟨.inr (.inr noFile), fun both => noText both.1⟩
        · constructor
          · rintro ⟨supply, -, only⟩
            have first := (only (.file text)).mp (.inl (by simp [supplyOf, noText]))
            have second := (only (.file file)).mp (.inr (by simp [supplyOf, noFile]))
            have same := Supply.file.inj (first.trans second.symm)
            exact ⟨.inl same, fun none => noText none.1⟩
          · rintro ⟨same | empty | empty, -⟩
            · subst same
              exact ⟨.file text, rfl, fun other => by simp [supplyOf, noText, eq_comm]⟩
            · exact absurd empty noText
            · exact absurd empty noFile

/-- A token that resolves, and whose frozen file resolves, contributes one dependency exactly
when its two resolutions meet. -/
theorem contributesOne_iff (owned : step.ownerDirectoryId.bind (model.directories[·]?) = some owner)
    (viewed : (viewSupply genexEval model ctx id step token).isSome = true)
    (frozen : (frozenSupply genexEval model ctx owner token).isSome = true) :
    ContributesOne genexEval model ctx id step owner token ↔
      ResolutionsMeet genexEval model ctx id owner token := by
  unfold ContributesOne ResolutionsMeet Contributes
  rw [frozenSupply_eq frozen, viewSupply_eq owned viewed, freezePathToken_eq]
  simp only [Option.some.injEq]
  rw [one_supply_iff]
  cases rawWriter model owner token with
  | some writer =>
    cases denotedProducer genexEval model ctx id owner (valueOf genexEval model ctx token) with
    | some producer => simp +contextual [Supply.producer?]
    | none => simp
  | none =>
    cases denotedProducer genexEval model ctx id owner (valueOf genexEval model ctx token) with
    | some producer => simp [Supply.producer?]
    | none => simp [Supply.producer?]

/-! ## Whole views -/

/-- A producer or file among dependency lists. -/
def StepDependencies.Has (deps : StepDependencies) : Supply → Prop
  | .producer id => id ∈ deps.producers
  | .file path => path ∈ deps.files

/-- Push what a token supplies, if anything. -/
def StepDependencies.pushSupply (deps : StepDependencies) : Option Supply → StepDependencies
  | none => deps
  | some (.producer id) => deps.pushProducer id
  | some (.file path) => deps.pushFile path

/-- Members after a unique push. -/
theorem mem_pushUnique {α : Type} [DecidableEq α] {items : List α} {item other : α} :
    other ∈ pushUnique items item ↔ other ∈ items ∨ other = item := by
  unfold pushUnique
  split
  · rename_i present
    constructor
    · exact .inl
    · rintro (old | rfl)
      · exact old
      · exact present
  · simp

/-- Members after unique pushes. -/
theorem mem_foldl_pushUnique {α : Type} [DecidableEq α] {items start : List α} {other : α} :
    other ∈ items.foldl pushUnique start ↔ other ∈ start ∨ other ∈ items := by
  induction items generalizing start with
  | nil => simp
  | cons item rest ih =>
    rw [foldl_cons, ih, mem_pushUnique, mem_cons]
    tauto

/-- A supply with a name is there after it was pushed, and nothing else was added. -/
theorem StepDependencies.has_pushSupply {pushed : Option Supply} (named : pushed ≠ some (.file []))
    : (deps.pushSupply pushed).Has supply ↔ deps.Has supply ∨ pushed = some supply := by
  cases pushed with
  | none => simp [pushSupply]
  | some pushed =>
    cases pushed with
    | producer id =>
      cases supply with
      | producer other => simp [pushSupply, pushProducer, Has, mem_pushUnique, eq_comm]
      | file path => simp [pushSupply, pushProducer, Has]
    | file path =>
      have filled : path ≠ [] := fun empty => named (by rw [empty])
      cases supply with
      | producer other => simp [pushSupply, pushFile, filled, Has]
      | file other => simp [pushSupply, pushFile, filled, Has, mem_pushUnique, eq_comm]

/-- A view supplies no file without a name. -/
theorem viewSupply_named {supply : Option Supply}
    (viewed : viewSupply genexEval model ctx id step token = some supply) :
    supply ≠ some (.file []) := by
  unfold viewSupply at viewed
  obtain ⟨matched, -, rest⟩ := bind_eq_some_iff.mp viewed
  cases matched with
  | some producer =>
    cases rest
    simp
  | none =>
    obtain ⟨resolved, -, rfl⟩ := map_eq_some_iff.mp rest
    by_cases empty : resolved = []
    · simp [empty]
    · cases matchesProducer genexEval model ctx id resolved with
      | some producer => simp [empty]
      | none => simp [empty]

/-- One round of the loop over dependency records pushes what the view supplies. -/
theorem viewDependency_pathToken (id : BuildStepId) (step : BuildStepRecord)
    (deps : StepDependencies) (token : StringView) (producer : Option BuildStepId)
    (file : StringView) :
    viewDependency genexEval model ctx id step deps (.pathToken token producer file) =
      (viewSupply genexEval model ctx id step token).map deps.pushSupply := by
  simp only [viewDependency, viewSupply]
  cases dependencyMatchCandidates genexEval model ctx id step token with
  | none => rfl
  | some matched =>
    cases matched with
    | some producer => rfl
    | none =>
      cases resolveDependencyToken genexEval model ctx step token with
      | none => rfl
      | some resolved =>
        by_cases empty : resolved = []
        · simp [empty, StepDependencies.pushSupply]
        · cases found : matchesProducer genexEval model ctx id resolved with
          | some producer => simp [empty, found, StepDependencies.pushSupply]
          | none => simp [empty, found, StepDependencies.pushSupply]

/-- Target references push no producer and no file. -/
theorem StepDependencies.has_pushTarget {id : Option TargetId} :
    (deps.pushTarget id).Has supply ↔ deps.Has supply := by
  cases id <;> cases supply <;> rfl

/-- After the loop over dependency records, the lists hold what they held and what the view
supplies for the path tokens, all of which resolve. -/
theorem viewDependencies_has {records : List StepDependency} {before after : StepDependencies}
    (looped : records.foldlM (viewDependency genexEval model ctx id step) before = some after) :
    (∀ token ∈ pathTokens records, (viewSupply genexEval model ctx id step token).isSome = true) ∧
    ∀ supply, after.Has supply ↔ before.Has supply ∨ ∃ token ∈ pathTokens records,
        viewSupply genexEval model ctx id step token = some (some supply) := by
  induction records generalizing before with
  | nil =>
    cases looped
    simp [pathTokens]
  | cons record rest ih =>
    rw [foldlM_cons] at looped
    obtain ⟨middle, first, later⟩ := bind_eq_some_iff.mp looped
    obtain ⟨known, has⟩ := ih later
    cases record with
    | targetRef name targetId =>
      cases first
      refine ⟨known, fun supply => ?_⟩
      rw [has supply, StepDependencies.has_pushTarget]
      rfl
    | pathToken token producer file =>
      rw [viewDependency_pathToken] at first
      obtain ⟨pushed, viewed, rfl⟩ := map_eq_some_iff.mp first
      have tokens : pathTokens (.pathToken token producer file :: rest) =
          token :: pathTokens rest := rfl
      rw [tokens]
      refine ⟨?_, fun supply => ?_⟩
      · intro other member
        rcases mem_cons.mp member with rfl | tail
        · rw [viewed]
          rfl
        · exact known other tail
      · rw [has supply, StepDependencies.has_pushSupply (viewSupply_named viewed)]
        simp only [mem_cons, exists_eq_or_imp, viewed, Option.some.injEq]
        tauto

/-- Commands add neither producers nor files. -/
theorem collectCommandDependencies_has {ownerTargetId : Option TargetId}
    {commands : List (List StringView)} :
    (collectCommandDependencies model ownerTargetId commands deps).Has supply ↔
      deps.Has supply := by
  have genex : ∀ (raw : StringView) (deps : StepDependencies),
      (collectTargetGenexDependencies model ownerTargetId raw deps).Has supply ↔
        deps.Has supply := by
    intro raw deps
    unfold collectTargetGenexDependencies
    induction targetGenexNames raw generalizing deps with
    | nil => rfl
    | cons name rest ih =>
      rw [foldl_cons, ih]
      simp only
      split
      · rfl
      · exact StepDependencies.has_pushTarget
  have args : ∀ (argv : List StringView) (deps : StepDependencies),
      (argv.foldl (fun deps arg => collectTargetGenexDependencies model ownerTargetId arg deps)
        deps).Has supply ↔ deps.Has supply := by
    intro argv deps
    induction argv generalizing deps with
    | nil => rfl
    | cons arg rest ih => rw [foldl_cons, ih, genex]
  unfold collectCommandDependencies
  induction commands generalizing deps with
  | nil => rfl
  | cons argv rest ih =>
    rw [foldl_cons]
    refine ih.trans ((args argv _).trans ?_)
    split
    · rfl
    · exact StepDependencies.has_pushTarget

/-- Members after pushing files: those with a name. -/
theorem StepDependencies.has_foldl_pushFile {files : List StringView} :
    (files.foldl StepDependencies.pushFile deps).Has supply ↔
      deps.Has supply ∨ ∃ file ∈ files, file ≠ [] ∧ supply = .file file := by
  induction files generalizing deps with
  | nil => simp
  | cons file rest ih =>
    rw [foldl_cons, ih]
    by_cases empty : file = []
    · simp [pushFile, empty]
    · have pushed : deps.pushFile file = deps.pushSupply (some (.file file)) := rfl
      rw [pushed, has_pushSupply (by simpa using empty)]
      simp only [mem_cons, exists_eq_or_imp, Option.some.injEq, ne_eq, empty,
        not_false_eq_true, true_and]
      rw [eq_comm]
      tauto

/-- Freeze supplies a producer when it found one. -/
theorem frozenSupply_producer_iff :
    frozenSupply genexEval model ctx owner token = some (some (.producer id)) ↔
      freezePathToken model owner token = .producer id := by
  unfold frozenSupply
  cases freezePathToken model owner token with
  | producer other => simp
  | file path =>
    simp only [map_eq_some_iff, reduceCtorEq, iff_false, not_exists, not_and]
    intro value _
    by_cases empty : value = []
    · simp [empty]
    · simp [empty]

/-- Freeze supplies a file when it found none and the path has a value. -/
theorem frozenSupply_file_iff {file : StringView} :
    frozenSupply genexEval model ctx owner token = some (some (.file file)) ↔
      ∃ path, freezePathToken model owner token = .file path ∧
        resolveString genexEval model ctx path = some file ∧ file ≠ [] := by
  unfold frozenSupply
  cases freezePathToken model owner token with
  | producer other => simp
  | file path =>
    simp only [map_eq_some_iff, Supply.file.injEq, exists_eq_left']
    constructor
    · rintro ⟨value, resolved, shown⟩
      by_cases empty : value = []
      · simp [empty] at shown
      · simp only [empty, if_false, Option.some.injEq, Supply.file.injEq] at shown
        subst shown
        exact ⟨resolved, empty⟩
    · rintro ⟨resolved, filled⟩
      exact ⟨file, resolved, by simp [filled]⟩

/-- The frozen dependencies of the view are what freeze supplies for the path tokens, all of
which resolve. -/
theorem FrozenStep.has (frozen : FrozenStep model step owner)
    (resolved : frozenDependencies genexEval model ctx step = some deps) :
    (∀ token ∈ pathTokens step.dependencies,
      (frozenSupply genexEval model ctx owner token).isSome = true) ∧
    ∀ supply, deps.Has supply ↔ ∃ token ∈ pathTokens step.dependencies,
      frozenSupply genexEval model ctx owner token = some (some supply) := by
  obtain ⟨values, mapped, rfl⟩ := map_eq_some_iff.mp resolved
  have fileOf : ∀ path, path ∈ step.resolvedFileDependencies ↔
      ∃ token ∈ pathTokens step.dependencies, freezePathToken model owner token = .file path := by
    intro path
    rw [frozen.files]
    simp only [mem_filterMap, mem_map, exists_exists_and_eq_and]
    refine exists_congr fun token => and_congr_right fun _ => ?_
    cases freezePathToken model owner token <;> simp [Supply.file?]
  have producerOf : ∀ id, id ∈ step.resolvedProducerDependencies ↔
      ∃ token ∈ pathTokens step.dependencies, freezePathToken model owner token = .producer id := by
    intro id
    rw [frozen.producers]
    simp only [mem_filterMap, mem_map, exists_exists_and_eq_and]
    refine exists_congr fun token => and_congr_right fun _ => ?_
    cases freezePathToken model owner token <;> simp [Supply.producer?]
  have known : ∀ path ∈ step.resolvedFileDependencies,
      (resolveString genexEval model ctx path).isSome = true :=
    Lib.mapM_isSome_iff.mp (by rw [mapped]; rfl)
  constructor
  · intro token member
    unfold frozenSupply
    cases supplied : freezePathToken model owner token with
    | producer id => rfl
    | file path =>
      have listed := (fileOf path).mpr ⟨token, member, supplied⟩
      simpa using known path listed
  · intro supply
    rw [StepDependencies.has_foldl_pushFile]
    cases supply with
    | producer id =>
      have listed : ∀ files : List StringView,
          ¬ ∃ file ∈ files, file ≠ [] ∧ Supply.producer id = .file file := by
        rintro files ⟨file, -, -, wrong⟩
        cases wrong
      simp only [listed, or_false, StepDependencies.Has, mem_foldl_pushUnique, producerOf,
        not_mem_nil, false_or, frozenSupply_producer_iff]
    | file file =>
      simp only [StepDependencies.Has, not_mem_nil, false_or, Lib.mem_of_mapM_eq_some mapped,
        fileOf, Supply.file.injEq, frozenSupply_file_iff]
      constructor
      · rintro ⟨other, ⟨path, ⟨token, member, supplied⟩, value⟩, filled, rfl⟩
        exact ⟨token, member, path, supplied, value, filled⟩
      · rintro ⟨token, member, path, supplied, value, filled⟩
        exact ⟨file, ⟨path, ⟨token, member, supplied⟩, value⟩, filled, rfl⟩

/-- The dependencies of a view. -/
theorem stepDependencies_of_view (known : model.buildSteps[id]? = some step)
    {view : StepEffectiveView} (viewed : buildStepEffectiveView genexEval model ctx id =
      some view) : stepDependencies genexEval model ctx id step = some view.dependencies := by
  unfold buildStepEffectiveView at viewed
  simp only [known, Option.bind_eq_bind, Option.bind_some, bind_eq_some_iff] at viewed
  obtain ⟨_, -, _, -, _, -, _, -, _, -, deps, found, same⟩ := viewed
  cases same
  exact found

/-- In every frozen model and context, the producers and files of a step's view are what its path
tokens contribute, and each token contributes one dependency, found alike by freeze and by the
view, exactly when its two resolutions meet. -/
theorem path_tokens_contribute_one_iff {draft : Model} (genexEval : GenexEval)
    (ctx : QueryContext) (frozen : freezePasses draft = some model) {id : BuildStepId}
    {step : BuildStepRecord} (known : model.buildSteps[id]? = some step)
    {view : StepEffectiveView}
    (viewed : buildStepEffectiveView genexEval model ctx id = some view) :
    ∃ owner, step.ownerDirectoryId.bind (model.directories[·]?) = some owner ∧
      (∀ supply, view.dependencies.Has supply ↔ ∃ token ∈ pathTokens step.dependencies,
          Contributes genexEval model ctx id step owner token supply) ∧
      ∀ token ∈ pathTokens step.dependencies,
        (ContributesOne genexEval model ctx id step owner token ↔
          ResolutionsMeet genexEval model ctx id owner token) := by
  obtain ⟨owner, frozenStep⟩ := freezePasses_frozenStep frozen (mem_of_getElem? known)
  obtain ⟨start, fromFreeze, rest⟩ :=
    bind_eq_some_iff.mp (stepDependencies_of_view known viewed)
  obtain ⟨looped, loop, last⟩ := map_eq_some_iff.mp rest
  obtain ⟨frozenKnown, frozenHas⟩ := frozenStep.has fromFreeze
  obtain ⟨viewKnown, viewHas⟩ := viewDependencies_has loop
  refine ⟨owner, frozenStep.owned, fun supply => ?_, fun token member => ?_⟩
  · rw [← last, collectCommandDependencies_has, viewHas, frozenHas]
    unfold Contributes
    constructor
    · rintro (⟨token, member, supplied⟩ | ⟨token, member, supplied⟩)
      · exact ⟨token, member, .inl supplied⟩
      · exact ⟨token, member, .inr supplied⟩
    · rintro ⟨token, member, supplied | supplied⟩
      · exact .inl ⟨token, member, supplied⟩
      · exact .inr ⟨token, member, supplied⟩
  · exact contributesOne_iff frozenStep.owned (viewKnown token member) (frozenKnown token member)

/-- A project whose first custom command writes `gen.txt` in the binary directory, and whose
second depends on the given text. -/
def generatedFileDraft (token : String) : Model where
  directories := [{ sourceDir := sv "/s", binaryDir := sv "/b" }]
  buildSteps := [ { ownerDirectoryId := some 0, kind := .outputRule, rawOutputs := [sv "gen.txt"] },
    { id := 1, ownerDirectoryId := some 0, kind := .outputRule, rawOutputs := [sv "all.txt"]
      dependencies := [.pathToken (sv token)] }]

/-- With an absolute text, the second command has a view in the frozen model. -/
theorem path_tokens_contribute_one_iff_absolute : ∃ model step view owner,
      freezePasses (generatedFileDraft "/b/gen.txt") = some model ∧
      model.buildSteps[1]? = some step ∧
      buildStepEffectiveView plainGenexEval model {} 1 = some view ∧
      step.ownerDirectoryId.bind (model.directories[·]?) = some owner ∧
      (∀ supply, view.dependencies.Has supply ↔ ∃ token ∈ pathTokens step.dependencies,
          Contributes plainGenexEval model {} 1 step owner token supply) ∧
      ∀ token ∈ pathTokens step.dependencies,
        (ContributesOne plainGenexEval model {} 1 step owner token ↔
          ResolutionsMeet plainGenexEval model {} 1 owner token) := by
  obtain ⟨model, frozen⟩ := isSome_iff_exists.mp
    (by decide +kernel : (freezePasses (generatedFileDraft "/b/gen.txt")).isSome = true)
  have stepKnown : ((freezePasses (generatedFileDraft "/b/gen.txt")).bind
      (·.buildSteps[1]?)).isSome = true := by decide +kernel
  have viewKnown : ((freezePasses (generatedFileDraft "/b/gen.txt")).bind
      (buildStepEffectiveView plainGenexEval · {} 1)).isSome = true := by decide +kernel
  rw [frozen] at stepKnown viewKnown
  obtain ⟨step, known⟩ := isSome_iff_exists.mp stepKnown
  obtain ⟨view, viewed⟩ := isSome_iff_exists.mp viewKnown
  obtain ⟨owner, facts⟩ := path_tokens_contribute_one_iff plainGenexEval {} frozen known viewed
  exact ⟨model, step, view, owner, frozen, known, viewed, facts⟩

/-- The dependencies in the view of the second command. -/
def generatedFileDependencies (token : String) : Option StepDependencies :=
  (freezePasses (generatedFileDraft token)).bind fun model =>
    (buildStepEffectiveView plainGenexEval model {} 1).map StepEffectiveView.dependencies

/-- A relative token that another step writes in the binary directory contributes its producer
and also a file of the source directory that nothing writes. -/
theorem relative_token_contributes_two : generatedFileDependencies "gen.txt" =
      some { files := [sv "/s/gen.txt"], producers := [0] } := by
  decide +kernel

end Nobify.BuildModel
