import Nobify.BuildModel.BuildOrder

/-!
# Effective views of build steps

What a build step writes and waits for in a context: `bm_query_build_step_effective_view`. The
dependencies that freeze found come first, then each dependency record is resolved again in the
context, and last the targets that the commands run or name.
-/

namespace Nobify.BuildModel

/-- The dependency lists of `BM_Build_Step_Effective_View`. -/
structure StepDependencies where
  files : List StringView := []
  targets : List TargetId := []
  producers : List BuildStepId := []
  deriving DecidableEq

namespace StepDependencies

/-- `bm_query_push_unique_sv`: empty texts are not pushed. -/
def pushFile (deps : StepDependencies) (file : StringView) : StepDependencies :=
  if file = [] then deps else { deps with files := pushUnique deps.files file }

/-- `bm_query_push_unique_target_id`: invalid ids are not pushed. -/
def pushTarget (deps : StepDependencies) (id : Option TargetId) : StepDependencies :=
  id.elim deps fun id => { deps with targets := pushUnique deps.targets id }

/-- `bm_query_push_unique_step_id`. -/
def pushProducer (deps : StepDependencies) (id : BuildStepId) : StepDependencies :=
  { deps with producers := pushUnique deps.producers id }

end StepDependencies

/-- `BM_Build_Step_Effective_View`. -/
structure StepEffectiveView where
  outputs : List StringView
  byproducts : List StringView
  dependencies : StepDependencies
  workingDirectory : StringView
  depfile : StringView
  comment : StringView

/-! ## Targets named by commands -/

/-- The prefixes of `bm_query_collect_target_genex_dependencies`. -/
def targetGenexPrefixes : List StringView :=
  [sv "$<TARGET_FILE:", sv "$<TARGET_FILE_DIR:", sv "$<TARGET_FILE_NAME:",
    sv "$<TARGET_LINKER_FILE:", sv "$<TARGET_LINKER_FILE_DIR:", sv "$<TARGET_LINKER_FILE_NAME:"]

/-- `bm_query_extract_target_genex_dependency` at the start of a text. -/
def extractTargetGenexDependency (start text : StringView) : Option StringView :=
  if start.isPrefixOf text then
    let name := (text.drop start.length).takeWhile fun char => char ≠ '>' && char ≠ ','
    if name = [] then none else some name
  else none

/-- The target names that `bm_query_collect_target_genex_dependencies` finds in a raw text. -/
def targetGenexNames (raw : StringView) : List StringView :=
  raw.tails.flatMap fun text => targetGenexPrefixes.filterMap (extractTargetGenexDependency · text)

/-- `bm_query_collect_target_genex_dependencies`. -/
def collectTargetGenexDependencies (model : Model) (excludeTargetId : Option TargetId)
    (raw : StringView) (deps : StepDependencies) : StepDependencies :=
  (targetGenexNames raw).foldl (fun deps name =>
    let targetId := targetIdByNameResolved model name
    if targetId = excludeTargetId then deps else deps.pushTarget targetId) deps

/-- `bm_query_build_step_command_target_dependency`. -/
def commandTargetDependency (model : Model) (argv : List StringView) : Option TargetId :=
  match argv with
  | [] => none
  | program :: _ =>
    (targetIdByNameResolved model program).filter fun id =>
      (model.targets[id]?).any fun target => !target.imported && target.kind = .executable

/-- The loop over commands. -/
def collectCommandDependencies (model : Model) (ownerTargetId : Option TargetId)
    (commands : List (List StringView)) (deps : StepDependencies) : StepDependencies :=
  commands.foldl (fun deps argv =>
    let commandTarget := commandTargetDependency model argv
    let deps := if commandTarget = ownerTargetId then deps else deps.pushTarget commandTarget
    argv.foldl (fun deps arg => collectTargetGenexDependencies model ownerTargetId arg deps) deps)
    deps

/-! ## Path tokens -/

section Views

variable (genexEval : GenexEval) (model : Model) (ctx : QueryContext)

/-- The loops of `bm_query_build_step_resolved_path_matches`: the first text that fails to
resolve ends the search. -/
def anyResolvesTo (path : StringView) : List StringView → Bool
  | [] => false
  | raw :: rest =>
    match resolveString genexEval model ctx raw with
    | none => false
    | some value => value = path || anyResolvesTo path rest

/-- `bm_query_build_step_resolved_path_matches`. -/
def resolvedPathMatches (candidateId : BuildStepId) (path : StringView) : Bool :=
  (model.buildSteps[candidateId]?).any fun candidate =>
    path ≠ [] && anyResolvesTo genexEval model ctx path
        (candidate.effectiveOutputs ++ candidate.effectiveByproducts)

/-- The loop of `bm_query_build_step_dependency_matches_producer`: the first other step that
writes the path. -/
def matchesProducer (selfId : BuildStepId) (path : StringView) : Option BuildStepId :=
  (List.range model.buildSteps.length).find? fun candidateId =>
    candidateId ≠ selfId && resolvedPathMatches genexEval model ctx candidateId path

/-- `bm_query_build_step_dependency_match_candidates`. -/
def dependencyMatchCandidates (selfId : BuildStepId) (step : BuildStepRecord)
    (rawToken : StringView) : Option (Option BuildStepId) :=
  (step.ownerDirectoryId.bind (model.directories[·]?)).bind fun owner =>
    (resolveString genexEval model ctx rawToken).map fun resolved =>
      if resolved = [] then none
      else if svIsAbsPathQuery resolved then
        matchesProducer genexEval model ctx selfId (normalizePath resolved)
      else
        (matchesProducer genexEval model ctx selfId (pathRebase owner.binaryDir resolved)).or
          (matchesProducer genexEval model ctx selfId (pathRebase owner.sourceDir resolved))

/-- `bm_query_resolve_build_step_dependency_token`. -/
def resolveDependencyToken (step : BuildStepRecord) (rawToken : StringView) : Option StringView :=
  (step.ownerDirectoryId.bind (model.directories[·]?)).bind fun owner =>
    (resolveString genexEval model ctx rawToken).map fun resolved =>
      if resolved = [] then []
      else if svIsAbsPathQuery resolved then normalizePath resolved
      else pathRebase owner.sourceDir resolved

/-- One round of the loop over dependency records. -/
def viewDependency (selfId : BuildStepId) (step : BuildStepRecord) (deps : StepDependencies)
    (record : StepDependency) : Option StepDependencies :=
  match record with
  | .targetRef _ targetId => some (deps.pushTarget (resolveAliasTargetId model targetId))
  | .pathToken rawToken _ _ =>
    (dependencyMatchCandidates genexEval model ctx selfId step rawToken).bind fun matched =>
      match matched with
      | some producer => some (deps.pushProducer producer)
      | none =>
        (resolveDependencyToken genexEval model ctx step rawToken).map fun resolved =>
          if resolved = [] then deps
          else
            match matchesProducer genexEval model ctx selfId resolved with
            | some producer => deps.pushProducer producer
            | none => deps.pushFile resolved

/-- `bm_query_resolve_string_array`. -/
def resolveStringArray (rawItems : List StringView) : Option (List StringView) :=
  (rawItems.mapM (resolveString genexEval model ctx)).map fun items => items.filter (· ≠ [])

/-- The dependencies that freeze found, with the file dependencies resolved in the context. -/
def frozenDependencies (step : BuildStepRecord) : Option StepDependencies :=
  (step.resolvedFileDependencies.mapM (resolveString genexEval model ctx)).map fun files =>
    files.foldl StepDependencies.pushFile {
      targets := step.resolvedTargetDependencies.foldl pushUnique []
      producers := step.resolvedProducerDependencies.foldl pushUnique [] }

/-- The dependency lists of `bm_query_build_step_effective_view`. -/
def stepDependencies (id : BuildStepId) (step : BuildStepRecord) : Option StepDependencies :=
  (frozenDependencies genexEval model ctx step).bind fun deps =>
    (step.dependencies.foldlM (viewDependency genexEval model ctx id step) deps).map
      (collectCommandDependencies model (resolveAliasTargetId model step.ownerTargetId)
        step.commands)

/-- `bm_query_build_step_effective_view`. -/
def buildStepEffectiveView (id : BuildStepId) : Option StepEffectiveView := do
  let step ← model.buildSteps[id]?
  let outputs ← resolveStringArray genexEval model ctx step.effectiveOutputs
  let byproducts ← resolveStringArray genexEval model ctx step.effectiveByproducts
  let workingDirectory ← resolveString genexEval model ctx step.workingDirectory
  let depfile ← resolveString genexEval model ctx step.depfile
  let comment ← resolveString genexEval model ctx step.comment
  let dependencies ← stepDependencies genexEval model ctx id step
  return { outputs, byproducts, dependencies, workingDirectory, depfile, comment }

end Views

end Nobify.BuildModel
