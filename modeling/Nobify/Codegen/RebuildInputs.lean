import Nobify.Codegen.Context
import Nobify.BuildModel.FreezeIntegrity
import Nobify.Lib.OnPath

/-!
# Rebuild inputs

The function of an output rule compares its first output with the files that it depends on. What
it takes from a target or a producer was worked out once, for no configuration, and stands in the
branches of all configurations. It is what the dependency writes in a branch only when the
dependency writes there what it writes without a configuration. The emitted program has no
statement that writes a stamp.
-/

namespace Nobify.Codegen

open BuildModel
open Nobify.Lib (Collects collects_none collects_foldlM)
open List
open Option (bind_eq_some_iff)

variable {id : BuildStepId} {dep : StepInfo}

/-! ## Collecting -/

/-- `cg_step_collect_unique_path`. -/
def collectUniquePath (sentinelPath : StringView) (paths : List StringView) (value : StringView) :
    Option (List StringView) :=
  if value = [] then none
  else if value = sv "." then some paths
  else if sentinelPath ≠ [] ∧ value = sentinelPath then some paths
  else if value ∈ paths then some paths
  else some (paths ++ [value])

/-- Whether a path is taken next to a sentinel. -/
def Taken (sentinelPath path : StringView) : Prop :=
  path ≠ sv "." ∧ ¬ (sentinelPath ≠ [] ∧ path = sentinelPath)

theorem collects_collectUniquePath {sentinelPath value : StringView} {before after : List StringView}
    (collected : collectUniquePath sentinelPath before value = some after) :
    Collects (fun path => path = value ∧ Taken sentinelPath path) before after := by
  have skipped : ¬ Taken sentinelPath value →
      Collects (fun path => path = value ∧ Taken sentinelPath path) before before := fun skips =>
    collects_none (fun _ ⟨same, taken⟩ => skips (same ▸ taken)) before
  unfold collectUniquePath at collected
  split at collected
  · cases collected
  split at collected
  · next here =>
    cases collected
    exact skipped fun taken => taken.1 here
  split at collected
  · next own =>
    cases collected
    exact skipped fun taken => taken.2 own
  next elsewhere other =>
    split at collected
    · next listed =>
      cases collected
      refine ⟨fun path => (or_iff_left_of_imp ?_).symm, id⟩
      rintro ⟨rfl, -⟩
      exact listed
    · next fresh =>
      cases collected
      refine ⟨fun path => ?_, fun distinct => ?_⟩
      · rw [mem_append, mem_singleton]
        refine or_congr_right ⟨fun same => ⟨same, same ▸ ⟨elsewhere, other⟩⟩, And.left⟩
      · exact distinct.append (nodup_singleton value) (disjoint_singleton.mpr fresh)

/-- Paths that are collected in their order. -/
theorem collects_paths {sentinelPath : StringView} {paths before after : List StringView}
    (collected : paths.foldlM (collectUniquePath sentinelPath) before = some after) :
    Collects (fun path => path ∈ paths ∧ Taken sentinelPath path) before after := by
  have loop := collects_foldlM (fun _ _ _ _ round => collects_collectUniquePath round) collected
  refine loop.congr fun path => ?_
  constructor
  · rintro ⟨value, listed, rfl, taken⟩
    exact ⟨listed, taken⟩
  · rintro ⟨listed, taken⟩
    exact ⟨path, listed, rfl, taken⟩

namespace Context

variable (ctx : Context)

/-! ## The body of a step -/

/-- The paths of a view that a step declares, relative to the emitted program. -/
def declaredPaths (view : StepEffectiveView) : List StringView :=
  (view.outputs ++ view.byproducts).map ctx.rebasePathFromCwd

/-- `cg_step_collect_declared_paths`. -/
def stepDeclaredPaths (view : StepEffectiveView) : Option (List StringView) :=
  (ctx.declaredPaths view).foldlM (collectUniquePath []) []

/-- `cg_step_compute_sentinel_for_view`. -/
def stepSentinelForView (info : StepInfo) (view : StepEffectiveView) : StringView :=
  view.outputs.head?.elim info.sentinelPath ctx.rebasePathFromCwd

/-- What a target dependency gives. -/
def targetInputs (id : TargetId) : List StringView :=
  (ctx.targets[id]?).elim [] fun dep => if dep.statePath = [] then [] else [dep.statePath]

/-- What a producer gives: its sentinel, or without one what it declares for the configuration. -/
def producerInputs (config : StringView) (id : BuildStepId) : Option (List StringView) := do
  let dep ← ctx.buildSteps[id]?
  if dep.sentinelPath ≠ [] then some [dep.sentinelPath]
  else do
    let view ← ctx.stepEffectiveView dep.id dep.ownerTargetId config
    some (ctx.declaredPaths view)

/-- `cg_step_collect_rebuild_inputs`. -/
def stepRebuildInputs (view : StepEffectiveView) (config sentinelPath : StringView) :
    Option (List StringView) := do
  let inputs ← view.dependencies.targets.foldlM (fun inputs id =>
    (ctx.targetInputs id).foldlM (collectUniquePath sentinelPath) inputs) []
  let inputs ← view.dependencies.producers.foldlM (fun inputs id => do
    let paths ← ctx.producerInputs config id
    paths.foldlM (collectUniquePath sentinelPath) inputs) inputs
  (view.dependencies.files.map ctx.rebasePathFromCwd).foldlM (collectUniquePath sentinelPath) inputs

/-- What `cg_step_emit_config_body` works out before it emits the commands. -/
structure StepBody where
  view : StepEffectiveView
  declaredPaths : List StringView
  sentinelPath : StringView
  rebuildInputs : List StringView

/-- The start of `cg_step_emit_config_body` for an output rule. -/
def outputRuleBody (info : StepInfo) (config : StringView) : Option StepBody := do
  let view ← ctx.stepEffectiveView info.id info.ownerTargetId config
  let declaredPaths ← ctx.stepDeclaredPaths view
  let sentinelPath := ctx.stepSentinelForView info view
  let rebuildInputs ← ctx.stepRebuildInputs view config sentinelPath
  guard (sentinelPath ≠ [])
  return { view, declaredPaths, sentinelPath, rebuildInputs }

/-! ## What dependencies write -/

/-- The artifacts that the function of a target makes in a branch: the file of the linker or the
archiver, and on Windows the import library. -/
def targetArtifacts (info : TargetInfo) (config : StringView) : List StringView :=
  let runtime := (info.artifactForConfig .runtime config).path
  let linker := (info.artifactForConfig .linker config).path
  if !info.emitsArtifact then []
  else if ctx.policyIsWindows && info.kind ≠ .staticLibrary && linker ≠ [] then [runtime, linker]
  else [runtime]

/-- What the function of a step writes in a branch: what it declares there, and, if stamps count
as written, the stamp of a branch without outputs. -/
def StepWrites (stamps : Prop) (info : StepInfo) (config path : StringView) : Prop :=
  ∃ view, ctx.stepEffectiveView info.id info.ownerTargetId config = some view ∧
    (path ∈ ctx.declaredPaths view ∨
      (stamps ∧ info.usesStamp = true ∧ view.outputs = [] ∧ path = info.sentinelPath))

/-- Every rebuild input that comes from a target or a producer is written by it in the branch. -/
structure InputsWritten (stamps : Prop) (body : StepBody) (config : StringView) : Prop where
  targets : ∀ id ∈ body.view.dependencies.targets, ∀ dep, ctx.targets[id]? = some dep →
    ∀ path ∈ ctx.targetInputs id, path ∈ body.rebuildInputs → path ∈ ctx.targetArtifacts dep config
  producers : ∀ id ∈ body.view.dependencies.producers, ∀ dep, ctx.buildSteps[id]? = some dep →
    ∀ paths, ctx.producerInputs config id = some paths → ∀ path ∈ paths,
      path ∈ body.rebuildInputs → ctx.StepWrites stamps dep config path

/-- The target makes in the branch what it makes without a configuration. -/
def TargetKeeps (info : TargetInfo) (config : StringView) : Prop :=
  info.emitsArtifact = true ∧
    (info.artifactForConfig .runtime []).path ∈ ctx.targetArtifacts info config

/-- The first output without a configuration is declared in the branch. A step without such an
output has a stamp, and it has no output in the branch either, if stamps count. -/
def StepKeeps (stamps : Prop) (info : StepInfo) (config : StringView) : Prop :=
  ∃ plain view, ctx.stepEffectiveView info.id info.ownerTargetId [] = some plain ∧
    ctx.stepEffectiveView info.id info.ownerTargetId config = some view ∧
    ((∃ first, plain.outputs.head? = some first ∧
        ctx.rebasePathFromCwd first ∈ ctx.declaredPaths view) ∨
      (plain.outputs = [] ∧
        (info.sentinelPath ∈ ctx.declaredPaths view ∨ (stamps ∧ view.outputs = []))))

/-- Every dependency that gives an input of its own keeps it in the branch. -/
structure DependenciesKeep (stamps : Prop) (body : StepBody) (config : StringView) : Prop where
  targets : ∀ id ∈ body.view.dependencies.targets, ∀ dep, ctx.targets[id]? = some dep →
    dep.statePath ≠ [] → Taken body.sentinelPath dep.statePath → ctx.TargetKeeps dep config
  producers : ∀ id ∈ body.view.dependencies.producers, ∀ dep, ctx.buildSteps[id]? = some dep →
    dep.sentinelPath ≠ [] → Taken body.sentinelPath dep.sentinelPath →
      ctx.StepKeeps stamps dep config

end Context

/-! ## The records of the context -/

section Records

variable {env : Environment} {model : FrozenModel} {opts : Options} {ctx : Context}

/-- The state path of a target is its artifact without a configuration. -/
def StateIsPlain (info : TargetInfo) : Prop :=
  info.emitsArtifact = true → info.statePath = (info.artifactForConfig .runtime []).path

theorem artifactForConfig_plain (info : TargetInfo) (role : ArtifactRole) :
    info.artifactForConfig role [] = info.artifacts.getLast?.elim {} fun branch =>
        if role = .linker then branch.linker else branch.runtime := by
  have none : (info.artifacts.find? fun branch =>
      decide (([] : StringView) ≠ []) && svEqCiQuery branch.config []) = none :=
    List.find?_eq_none.mpr fun _ _ found => Bool.noConfusion found
  unfold TargetInfo.artifactForConfig
  dsimp only
  rw [none, Option.none_or]

theorem stateIsPlain_initTarget {id : TargetId} {target : TargetRecord} {info : TargetInfo}
    (made : ctx.initTarget id target = some info) : StateIsPlain info := by
  unfold Context.initTarget at made
  dsimp only at made
  obtain ⟨-, -, made⟩ := bind_eq_some_iff.mp made
  obtain ⟨-, -, made⟩ := bind_eq_some_iff.mp made
  obtain ⟨artifacts, -, made⟩ := bind_eq_some_iff.mp made
  obtain rfl := Option.some.inj made
  intro emits
  rw [artifactForConfig_plain]
  unfold Context.targetStatePath
  dsimp only at emits ⊢
  rw [if_pos emits]
  cases artifacts.getLast? with
  | none => rfl
  | some branch => rfl

theorem stateIsPlain_initTargets {infos : List TargetInfo} (made : ctx.initTargets = some infos) :
    ∀ info ∈ infos, StateIsPlain info := by
  obtain ⟨first, mapped, aliased⟩ := bind_eq_some_iff.mp made
  have plain : ∀ info ∈ first, StateIsPlain info := by
    intro info member
    obtain ⟨⟨target, id⟩, -, round⟩ := (Lib.mem_of_mapM_eq_some mapped).mp member
    exact stateIsPlain_initTarget round
  intro info member
  obtain ⟨before, listed, round⟩ := (Lib.mem_of_mapM_eq_some aliased).mp member
  unfold Context.initAlias at round
  split at round
  · obtain rfl := Option.some.inj round
    exact plain before listed
  · obtain ⟨resolved, found, rfl⟩ := Option.map_eq_some_iff.mp round
    obtain ⟨position, -, here⟩ := bind_eq_some_iff.mp found
    exact plain resolved (mem_of_getElem? here)

/-- The sentinel of a step is its first output without a configuration, or a stamp. -/
def SentinelIsPlain (ctx : Context) (info : StepInfo) : Prop :=
  ∃ plain, ctx.stepEffectiveView info.id info.ownerTargetId [] = some plain ∧
    (∀ first, plain.outputs.head? = some first →
      info.sentinelPath = ctx.rebasePathFromCwd first ∧ info.usesStamp = false) ∧
    (plain.outputs = [] → info.sentinelPath ≠ [] → info.usesStamp = true)

theorem sentinelIsPlain_initStep {step : BuildStepRecord} {info : StepInfo}
    (made : ctx.initStep id step = some info) : SentinelIsPlain ctx info := by
  obtain ⟨⟨sentinel, stamp⟩, computed, made⟩ := bind_eq_some_iff.mp made
  obtain rfl := Option.some.inj made
  obtain ⟨plain, seen, chosen⟩ := bind_eq_some_iff.mp computed
  refine ⟨plain, seen, ?_⟩
  cases outputs : plain.outputs with
  | cons first rest =>
    rw [outputs] at chosen
    cases chosen
    refine ⟨fun other same => ?_, fun empty => absurd empty (cons_ne_nil first rest)⟩
    cases same
    exact ⟨rfl, rfl⟩
  | nil =>
    rw [outputs] at chosen
    refine ⟨fun other same => absurd same.symm (Option.some_ne_none other), fun _ filled => ?_⟩
    dsimp only at chosen
    split at chosen
    · cases chosen
      exact absurd rfl filled
    · cases chosen
      rfl

/-- The records of a context of the generator. -/
theorem plain_initContext (made : initContext env model opts = some ctx) :
    (∀ info ∈ ctx.targets, StateIsPlain info) ∧ ∀ info ∈ ctx.buildSteps, SentinelIsPlain ctx info := by
  obtain ⟨roots, -, made⟩ := bind_eq_some_iff.mp made
  obtain ⟨targets, byTarget, made⟩ := bind_eq_some_iff.mp made
  obtain ⟨steps, byStep, made⟩ := bind_eq_some_iff.mp made
  obtain rfl := Option.some.inj made
  refine ⟨stateIsPlain_initTargets byTarget, fun info member => ?_⟩
  obtain ⟨⟨step, id⟩, -, round⟩ := (Lib.mem_of_mapM_eq_some byStep).mp member
  exact sentinelIsPlain_initStep round

end Records

/-! ## Inputs of a branch -/

section Inputs

variable {ctx : Context} {config : StringView}

theorem mem_targetInputs {id : TargetId} {dep : TargetInfo} (known : ctx.targets[id]? = some dep)
    {path : StringView} : path ∈ ctx.targetInputs id ↔ path = dep.statePath ∧ dep.statePath ≠ [] := by
  unfold Context.targetInputs
  rw [known, Option.elim_some]
  split
  · next empty => exact iff_of_false not_mem_nil fun both => both.2 empty
  · next filled => exact mem_singleton.trans (and_iff_left filled).symm

theorem producerInputs_sentinel (known : ctx.buildSteps[id]? = some dep)
    (filled : dep.sentinelPath ≠ []) : ctx.producerInputs config id = some [dep.sentinelPath] := by
  unfold Context.producerInputs
  rw [known]
  exact if_pos filled

/-- Without a sentinel a producer gives what it declares in the branch. -/
theorem producerInputs_declared (known : ctx.buildSteps[id]? = some dep)
    (empty : dep.sentinelPath = []) {paths : List StringView}
    (gives : ctx.producerInputs config id = some paths) :
    ∃ view, ctx.stepEffectiveView dep.id dep.ownerTargetId config = some view ∧
      paths = ctx.declaredPaths view := by
  unfold Context.producerInputs at gives
  rw [known] at gives
  obtain ⟨view, seen, made⟩ := bind_eq_some_iff.mp (show ((ctx.stepEffectiveView dep.id
    dep.ownerTargetId config).bind fun view => some (ctx.declaredPaths view)) = some paths from
      (if_neg (fun filled => filled empty)).symm.trans gives)
  exact ⟨view, seen, (Option.some.inj made).symm⟩

/-- The inputs of a branch are what the dependencies give, without the sentinel of the step. -/
theorem mem_rebuildInputs_iff {info : StepInfo} {body : Context.StepBody}
    (worked : ctx.outputRuleBody info config = some body) (path : StringView) :
    path ∈ body.rebuildInputs ↔ Taken body.sentinelPath path ∧
      ((∃ id ∈ body.view.dependencies.targets, path ∈ ctx.targetInputs id) ∨
        (∃ id ∈ body.view.dependencies.producers, ∃ paths,
          ctx.producerInputs config id = some paths ∧ path ∈ paths) ∨
        path ∈ body.view.dependencies.files.map ctx.rebasePathFromCwd) := by
  obtain ⟨view, -, worked⟩ := bind_eq_some_iff.mp worked
  obtain ⟨declared, -, worked⟩ := bind_eq_some_iff.mp worked
  obtain ⟨inputs, collected, worked⟩ := bind_eq_some_iff.mp worked
  obtain ⟨-, -, worked⟩ := bind_eq_some_iff.mp worked
  obtain rfl := Option.some.inj worked
  obtain ⟨first, byTarget, rest⟩ := bind_eq_some_iff.mp collected
  obtain ⟨second, byProducer, byFile⟩ := bind_eq_some_iff.mp rest
  have targets := collects_foldlM (fun _ _ _ _ round => collects_paths round) byTarget
  have round : ∀ (id : BuildStepId) (before after : List StringView),
      ((ctx.producerInputs config id).bind fun paths =>
        paths.foldlM (collectUniquePath (ctx.stepSentinelForView info view)) before) = some after →
      Collects (fun path => ∃ paths, ctx.producerInputs config id = some paths ∧ path ∈ paths ∧
        Taken (ctx.stepSentinelForView info view) path) before after := by
    intro id before after ran
    obtain ⟨paths, gives, loop⟩ := bind_eq_some_iff.mp ran
    refine (collects_paths loop).congr fun path => ?_
    constructor
    · rintro ⟨listed, taken⟩
      exact ⟨paths, gives, listed, taken⟩
    · rintro ⟨others, same, listed, taken⟩
      obtain rfl := Option.some.inj (gives.symm.trans same)
      exact ⟨listed, taken⟩
  have producers := collects_foldlM (fun id _ before after ran => round id before after ran)
    byProducer
  have all := (targets.trans producers).trans (collects_paths byFile)
  rw [all.mem path]
  constructor
  · rintro (nothing | (⟨id, listed, given, taken⟩ | ⟨id, listed, paths, gives, given, taken⟩) |
      ⟨given, taken⟩)
    · exact nomatch nothing
    · exact ⟨taken, .inl ⟨id, listed, given⟩⟩
    · exact ⟨taken, .inr (.inl ⟨id, listed, paths, gives, given⟩)⟩
    · exact ⟨taken, .inr (.inr given)⟩
  · rintro ⟨taken, ⟨id, listed, given⟩ | ⟨id, listed, paths, gives, given⟩ | given⟩
    · exact .inr (.inl (.inl ⟨id, listed, given, taken⟩))
    · exact .inr (.inl (.inr ⟨id, listed, paths, gives, given, taken⟩))
    · exact .inr (.inr ⟨given, taken⟩)

/-- A state path is an artifact of the branch exactly when the target keeps its artifact. -/
theorem statePath_mem_iff {dep : TargetInfo} (plain : StateIsPlain dep) :
    dep.statePath ∈ ctx.targetArtifacts dep config ↔ ctx.TargetKeeps dep config := by
  cases emits : dep.emitsArtifact with
  | false =>
    have nothing : ctx.targetArtifacts dep config = [] := by
      unfold Context.targetArtifacts
      dsimp only
      rw [emits]
      rfl
    refine iff_of_false ?_ fun keeps => ?_
    · rw [nothing]
      exact not_mem_nil
    · have makes := keeps.1
      rw [emits] at makes
      cases makes
  | true =>
    rw [plain emits]
    exact (and_iff_right emits).symm

/-- A sentinel is written in the branch exactly when the step keeps it. -/
theorem sentinel_written_iff {stamps : Prop} (known : SentinelIsPlain ctx dep)
    (filled : dep.sentinelPath ≠ []) :
    ctx.StepWrites stamps dep config dep.sentinelPath ↔ ctx.StepKeeps stamps dep config := by
  obtain ⟨plain, seen, outputs, stamped⟩ := known
  constructor
  · rintro ⟨view, branch, written⟩
    refine ⟨plain, view, seen, branch, ?_⟩
    cases first : plain.outputs.head? with
    | some path =>
      obtain ⟨same, noStamp⟩ := outputs path first
      rcases written with declared | ⟨-, stamp, -⟩
      · exact .inl ⟨path, rfl, same ▸ declared⟩
      · rw [noStamp] at stamp
        cases stamp
    | none =>
      refine .inr ⟨List.head?_eq_none_iff.mp first, ?_⟩
      rcases written with declared | ⟨counts, -, empty, -⟩
      · exact .inl declared
      · exact .inr ⟨counts, empty⟩
  · rintro ⟨other, view, again, branch, keeps⟩
    obtain rfl := Option.some.inj (seen.symm.trans again)
    refine ⟨view, branch, ?_⟩
    rcases keeps with ⟨path, first, declared⟩ | ⟨empty, declared | ⟨counts, without⟩⟩
    · exact .inl ((outputs path first).1 ▸ declared)
    · exact .inl declared
    · exact .inr ⟨counts, stamped empty filled, without, rfl⟩

/-- Every rebuild input from a dependency is written by it in the branch exactly when every
dependency that gives one keeps it. -/
theorem inputsWritten_iff {env : Environment} {model : FrozenModel} {opts : Options}
    (made : initContext env model opts = some ctx) (stamps : Prop) {info : StepInfo}
    {body : Context.StepBody} (worked : ctx.outputRuleBody info config = some body) :
    ctx.InputsWritten stamps body config ↔ ctx.DependenciesKeep stamps body config := by
  obtain ⟨statePlain, sentinelPlain⟩ := plain_initContext made
  have inputs := mem_rebuildInputs_iff worked
  constructor
  · intro written
    constructor
    · intro id listed dep known filled taken
      have given : dep.statePath ∈ ctx.targetInputs id := (mem_targetInputs known).mpr ⟨rfl, filled⟩
      have input := (inputs dep.statePath).mpr ⟨taken, .inl ⟨id, listed, given⟩⟩
      exact (statePath_mem_iff (statePlain dep (mem_of_getElem? known))).mp
        (written.targets id listed dep known _ given input)
    · intro id listed dep known filled taken
      have gives : ctx.producerInputs config id = some [dep.sentinelPath] :=
        producerInputs_sentinel known filled
      have here : dep.sentinelPath ∈ [dep.sentinelPath] := mem_singleton_self _
      have input := (inputs dep.sentinelPath).mpr ⟨taken, .inr (.inl ⟨id, listed, _, gives, here⟩)⟩
      exact (sentinel_written_iff (sentinelPlain dep (mem_of_getElem? known)) filled).mp
        (written.producers id listed dep known _ gives _ here input)
  · intro keeps
    constructor
    · intro id listed dep known path given input
      obtain ⟨rfl, filled⟩ := (mem_targetInputs known).mp given
      exact (statePath_mem_iff (statePlain dep (mem_of_getElem? known))).mpr
        (keeps.targets id listed dep known filled ((inputs _).mp input).1)
    · intro id listed dep known paths gives path here input
      by_cases empty : dep.sentinelPath = []
      · obtain ⟨view, seen, rfl⟩ := producerInputs_declared known empty gives
        exact ⟨view, seen, .inl here⟩
      · rw [producerInputs_sentinel known empty] at gives
        obtain rfl := Option.some.inj gives
        obtain rfl := mem_singleton.mp here
        exact (sentinel_written_iff (sentinelPlain dep (mem_of_getElem? known)) empty).mpr
          (keeps.producers id listed dep known empty ((inputs _).mp input).1)

end Inputs

/-! ## A tool with a name for `Debug` -/

/-- A command that runs a tool whose file has another name in `Debug`. -/
def toolStream : List BuildEvent :=
  [{ body := .directory (.enter (sv "/s") (sv "/b")) },
    { body := .target (.declare (sv "tool") .executable false false []) },
    { body := .target (.change (sv "tool") (.addSource (sv "tool.c") .privateItem .regular [])) },
    { body := .target (.propSet (sv "tool")
      { key := sv "OUTPUT_NAME_DEBUG", value := sv "toold", op := .set }) },
    { body := .buildGraph (.stepDeclare { stepKey := sv "k", stepKind := .outputRule }) },
    { body := .buildGraph (.stepChange (sv "k") (.addOutput (sv "gen.txt"))) },
    { body := .buildGraph (.stepChange (sv "k") (.addTargetRef (sv "tool") (sv "tool"))) },
    { body := .directory (.leave (sv "/s") (sv "/b")) }]

/-- The context of the generator on the frozen model. -/
def toolContext : Option Context :=
  (freezeDraft plainGenexEval (Builder.feed {} toolStream).draft).toOption.bind fun model =>
    initContext { genexEval := plainGenexEval, cwd := sv "/w" } model
      { sourceRoot := sv "/s", binaryRoot := sv "/b" }

/-- What the branch of the command takes, and what the tool is there. -/
structure ToolBranch where
  kind : BuildStepKind
  configs : List StringView
  targets : List TargetId
  producers : List BuildStepId
  rebuildInputs : List StringView
  offered : List StringView
  keeps : Bool
  artifacts : List StringView
  deriving DecidableEq

/-- The branch of a configuration. -/
def toolBranch (config : StringView) : Option ToolBranch := do
  let ctx ← toolContext
  let info ← ctx.buildSteps[0]?
  let body ← ctx.outputRuleBody info config
  let dep ← ctx.targets[0]?
  return {
    kind := info.kind
    configs := ctx.configs
    targets := body.view.dependencies.targets
    producers := body.view.dependencies.producers
    rebuildInputs := body.rebuildInputs
    offered := ctx.targetInputs 0
    keeps := dep.emitsArtifact &&
      (ctx.targetArtifacts dep config).contains (dep.artifactForConfig .runtime []).path
    artifacts := ctx.targetArtifacts dep config }

theorem toolBranch_eq_some {config : StringView} {branch : ToolBranch}
    (ran : toolBranch config = some branch) :
    ∃ (model : FrozenModel) (ctx : Context) (info : StepInfo) (body : Context.StepBody)
        (dep : TargetInfo),
      initContext { genexEval := plainGenexEval, cwd := sv "/w" } model
          { sourceRoot := sv "/s", binaryRoot := sv "/b" } = some ctx ∧
        toolContext = some ctx ∧ ctx.buildSteps[0]? = some info ∧
        ctx.outputRuleBody info config = some body ∧ ctx.targets[0]? = some dep ∧
        branch = {
          kind := info.kind
          configs := ctx.configs
          targets := body.view.dependencies.targets
          producers := body.view.dependencies.producers
          rebuildInputs := body.rebuildInputs
          offered := ctx.targetInputs 0
          keeps := dep.emitsArtifact &&
            (ctx.targetArtifacts dep config).contains (dep.artifactForConfig .runtime []).path
          artifacts := ctx.targetArtifacts dep config } := by
  unfold toolBranch at ran
  obtain ⟨ctx, made, ran⟩ := bind_eq_some_iff.mp ran
  obtain ⟨info, step, ran⟩ := bind_eq_some_iff.mp ran
  obtain ⟨body, worked, ran⟩ := bind_eq_some_iff.mp ran
  obtain ⟨dep, known, ran⟩ := bind_eq_some_iff.mp ran
  obtain ⟨model, -, built⟩ := bind_eq_some_iff.mp made
  exact ⟨model, ctx, info, body, dep, built, made, step, worked, known, (Option.some.inj ran).symm⟩

/-- Without a configuration the command takes what the tool makes. -/
theorem inputsWritten_iff_tool :
    ∃ ctx info body, toolContext = some ctx ∧ ctx.buildSteps[0]? = some info ∧
      ctx.outputRuleBody info [] = some body ∧ ctx.InputsWritten False body [] := by
  have ran : toolBranch [] = some
      { kind := .outputRule, configs := [sv "Debug", []], targets := [0], producers := []
        rebuildInputs := [sv "../b/tool"], offered := [sv "../b/tool"], keeps := true
        artifacts := [sv "../b/tool"] } := by decide +kernel
  obtain ⟨model, ctx, info, body, dep, made, context, step, worked, known, same⟩ :=
    toolBranch_eq_some ran
  refine ⟨ctx, info, body, context, step, worked, (inputsWritten_iff made False worked).mpr ?_⟩
  have targets : body.view.dependencies.targets = [0] := (congrArg ToolBranch.targets same).symm
  have producers : body.view.dependencies.producers = [] :=
    (congrArg ToolBranch.producers same).symm
  have keeps := (congrArg ToolBranch.keeps same).symm
  constructor
  · intro id listed other found _ _
    rw [targets] at listed
    obtain rfl := mem_singleton.mp listed
    obtain rfl := Option.some.inj (known.symm.trans found)
    obtain ⟨emits, inside⟩ := Bool.and_eq_true_iff.mp keeps
    exact ⟨emits, contains_iff_mem.mp inside⟩
  · intro id listed
    rw [producers] at listed
    exact nomatch listed

/-- In `Debug` the command takes a file that the tool does not make there. -/
theorem tool_not_written_in_debug :
    ∃ ctx info body, toolContext = some ctx ∧ ctx.buildSteps[0]? = some info ∧
      info.kind = .outputRule ∧ sv "Debug" ∈ ctx.configs ∧
      ctx.outputRuleBody info (sv "Debug") = some body ∧
      ∀ stamps, ¬ ctx.InputsWritten stamps body (sv "Debug") := by
  have ran : toolBranch (sv "Debug") = some
      { kind := .outputRule, configs := [sv "Debug", []], targets := [0], producers := []
        rebuildInputs := [sv "../b/tool"], offered := [sv "../b/tool"], keeps := false
        artifacts := [sv "../b/toold"] } := by decide +kernel
  obtain ⟨model, ctx, info, body, dep, -, context, step, worked, known, same⟩ :=
    toolBranch_eq_some ran
  have configs : ctx.configs = [sv "Debug", []] := (congrArg ToolBranch.configs same).symm
  refine ⟨ctx, info, body, context, step, (congrArg ToolBranch.kind same).symm, ?_, worked, ?_⟩
  · rw [configs]
    exact mem_cons_self
  · intro stamps written
    have targets : body.view.dependencies.targets = [0] := (congrArg ToolBranch.targets same).symm
    have inputs : body.rebuildInputs = [sv "../b/tool"] :=
      (congrArg ToolBranch.rebuildInputs same).symm
    have offered : ctx.targetInputs 0 = [sv "../b/tool"] :=
      (congrArg ToolBranch.offered same).symm
    have artifacts : ctx.targetArtifacts dep (sv "Debug") = [sv "../b/toold"] :=
      (congrArg ToolBranch.artifacts same).symm
    have inside := written.targets 0 (targets ▸ mem_cons_self) dep known (sv "../b/tool")
      (offered ▸ mem_cons_self) (inputs ▸ mem_cons_self)
    rw [artifacts] at inside
    exact absurd inside (by decide)

end Nobify.Codegen
