import Nobify.BuildModel.FreezeDraft
import Nobify.BuildModel.GenexContext
import Nobify.Codegen.CallGraph

/-!
# The context of the generator

`CG_Context`: the model, the policy of the platform that is generated for, the paths that the
emitted program is relative to, and one record for each target and each build step. The paths of
the emitted program are relative to the directory it is written to.

Queries that go through the session of the generator are the queries without it, since a session
answers as the query it stands for. The paths of embedded tools are left out: they are only texts
in the resolvers that `cg_emit_support_helpers` writes.
-/

namespace Nobify.Codegen

open BuildModel

/-! ## Platforms -/

/-- `Nob_Codegen_Platform`. -/
inductive Platform where
  | host
  | linux
  | darwin
  | windows
  deriving DecidableEq

/-- `Nob_Codegen_Backend`. -/
inductive Backend where
  | auto
  | posix
  | win32Msvc
  deriving DecidableEq

/-- `CG_Backend_Policy`, with what the emission of steps, targets and rules reads. -/
structure BackendPolicy where
  platform : Platform
  backend : Backend
  platformId : StringView
  objectSuffix : StringView
  sharedLinkFlag : StringView
  moduleLinkFlag : StringView
  useCompilerDriverForExecutableLink : Bool
  useCompilerDriverForSharedLink : Bool
  useCompilerDriverForModuleLink : Bool

/-- `cg_host_platform`. -/
def hostPlatform (host : HostPlatform) : Platform :=
  if host.isWindows then .windows else if host.isApple then .darwin else .linux

/-- The backend that `NOB_CODEGEN_BACKEND_AUTO` stands for. -/
def defaultBackend : Platform → Backend
  | .linux | .darwin => .posix
  | .windows => .win32Msvc
  | .host => .auto

/-- `cg_resolve_platform_backend_pair`. -/
def resolvePlatformBackendPair (host : HostPlatform) (platform : Platform) (backend : Backend) :
    Option (Platform × Backend) :=
  let platform := if platform = .host then hostPlatform host else platform
  let backend := if backend = .auto then defaultBackend platform else backend
  if (platform = .linux ∨ platform = .darwin) ∧ backend ≠ .posix then none
  else if platform = .windows ∧ backend ≠ .win32Msvc then none
  else if platform = .host ∨ backend = .auto then none
  else some (platform, backend)

/-- The switch of `cg_init_backend_policy`. -/
def policyOf : Platform → Backend → Option BackendPolicy
  | .linux, backend => some {
      platform := .linux
      backend
      platformId := sv "Linux"
      objectSuffix := sv ".o"
      sharedLinkFlag := sv "-shared"
      moduleLinkFlag := sv "-shared"
      useCompilerDriverForExecutableLink := true
      useCompilerDriverForSharedLink := true
      useCompilerDriverForModuleLink := true }
  | .darwin, backend => some {
      platform := .darwin
      backend
      platformId := sv "Darwin"
      objectSuffix := sv ".o"
      sharedLinkFlag := sv "-dynamiclib"
      moduleLinkFlag := sv "-bundle"
      useCompilerDriverForExecutableLink := true
      useCompilerDriverForSharedLink := true
      useCompilerDriverForModuleLink := true }
  | .windows, backend => some {
      platform := .windows
      backend
      platformId := sv "Windows"
      objectSuffix := sv ".obj"
      sharedLinkFlag := sv "/DLL"
      moduleLinkFlag := sv "/DLL"
      useCompilerDriverForExecutableLink := false
      useCompilerDriverForSharedLink := false
      useCompilerDriverForModuleLink := false }
  | .host, _ => none

/-- `cg_init_backend_policy`. -/
def initBackendPolicy (host : HostPlatform) (platform : Platform) (backend : Backend) :
    Option BackendPolicy :=
  (resolvePlatformBackendPair host platform backend).bind fun pair => policyOf pair.1 pair.2

/-! ## Paths -/

/-- `cg_dirname_to_arena`. -/
def dirname (path : StringView) : StringView :=
  let trimmed := match path.reverse.dropWhile (· == '/') with
    | [] => path.take 1
    | rest => rest.reverse
  match trimmed.reverse.dropWhile (· != '/') with
  | [] => sv "."
  | [_] => sv "/"
  | _ :: before => before.reverse

/-- `cg_basename_to_arena`. -/
def basename (path : StringView) : StringView :=
  ((path.reverse.dropWhile (· == '/')).takeWhile (· != '/')).reverse

/-- The segments of `cg_relative_path_to_arena`: common segments are dropped, every other segment
of the directory is left by `..`. -/
def relativeSegments : List StringView → List StringView → List StringView
  | [], target => target
  | directory, [] => directory.map fun _ => sv ".."
  | inner :: directory, next :: target =>
    if inner = next then relativeSegments directory target
    else (inner :: directory).map (fun _ => sv "..") ++ next :: target

/-- `cg_relative_path_to_arena`. -/
def relativePath (fromDirAbs toPathAbs : StringView) : StringView :=
  let joined := ['/'].intercalate (relativeSegments (pathSegments (normalizePath fromDirAbs))
    (pathSegments (normalizePath toPathAbs)))
  if joined = [] then sv "." else joined

/-! ## The context -/

/-- `Nob_Codegen_Options`. -/
structure Options where
  inputPath : StringView := []
  outputPath : StringView := []
  sourceRoot : StringView := []
  binaryRoot : StringView := []
  targetPlatform : Platform := .host
  backend : Backend := .auto

/-- What the generator finds outside of the model: the platform it was compiled on, the evaluator
of generator expressions, the current directory and the files that exist. -/
structure Environment where
  host : HostPlatform := {}
  genexEval : GenexEval
  cwd : StringView
  fileExists : StringView → Bool := fun _ => false

/-- The artifacts of a target in one branch: an entry of `artifact_configs`, `runtime_artifacts` and
`linker_artifacts`. -/
structure ArtifactBranch where
  config : StringView
  runtime : ArtifactView
  linker : ArtifactView

/-- `CG_Target_Info`. -/
structure TargetInfo where
  id : TargetId
  resolvedId : Option TargetId
  kind : TargetKind
  imported : Bool
  isAlias : Bool
  excludeFromAll : Bool
  emitsArtifact : Bool
  name : StringView
  ident : StringView
  artifactPath : StringView := []
  statePath : StringView := []
  artifacts : List ArtifactBranch := []

/-- `CG_Build_Step_Info`. -/
structure StepInfo where
  id : BuildStepId
  kind : BuildStepKind
  ownerTargetId : Option TargetId
  ident : StringView
  sentinelPath : StringView
  usesStamp : Bool

/-- `CG_Context`. -/
structure Context extends Environment where
  model : FrozenModel
  sourceRoot : StringView
  binaryRoot : StringView
  policy : BackendPolicy
  cwdAbs : StringView
  sourceRootAbs : StringView
  binaryRootAbs : StringView
  emitPathAbs : StringView
  emitDirAbs : StringView
  knownConfigs : List StringView := []
  targets : List TargetInfo := []
  buildSteps : List StepInfo := []

namespace Context

variable (ctx : Context)

/-- `cg_policy_is_windows`. -/
def policyIsWindows : Bool := ctx.policy.platform = .windows

/-- `cg_absolute_from_cwd`. -/
def absoluteFromCwd (path : StringView) : StringView :=
  if pathIsAbs path then normalizePath path else pathJoin ctx.cwdAbs path

/-- `cg_absolute_from_base`: a relative path that already starts with one of the roots, or with a
relative base, is taken from the current directory. -/
def absoluteFromBase (baseDir path : StringView) : StringView :=
  if pathIsAbs path then normalizePath path
  else if pathHasPrefix path ctx.sourceRoot ∨ pathHasPrefix path ctx.binaryRoot then
    ctx.absoluteFromCwd path
  else if !pathIsAbs (normalizePath baseDir) ∧ pathHasPrefix path (normalizePath baseDir) then
    ctx.absoluteFromCwd path
  else pathJoin (ctx.absoluteFromCwd baseDir) path

/-- `cg_rebase_from_base`. -/
def rebaseFromBase (value baseDir : StringView) : StringView :=
  relativePath ctx.emitDirAbs (ctx.absoluteFromBase baseDir value)

/-- `cg_rebase_from_provenance`. -/
def rebaseFromProvenance (value filePath : StringView) : StringView :=
  ctx.rebaseFromBase value (if filePath ≠ [] then dirname filePath else ctx.cwdAbs)

/-- `cg_rebase_path_from_cwd`. -/
def rebasePathFromCwd (value : StringView) : StringView := ctx.rebaseFromBase value ctx.cwdAbs

/-- `cg_rebase_from_binary_root`. -/
def rebaseFromBinaryRoot (value : StringView) : StringView :=
  ctx.rebaseFromBase value ctx.binaryRootAbs

/-- `cg_rebase_artifact_view_from_cwd`. -/
def rebaseArtifactView (view : ArtifactView) : ArtifactView :=
  { view with
    path := if view.path = [] then [] else ctx.rebasePathFromCwd view.path
    directory := if view.directory = [] then [] else ctx.rebasePathFromCwd view.directory }

end Context

/-! ## Targets -/

/-- `cg_make_identifier`. -/
def makeIdentifier (name : StringView) (suffix : Nat) : StringView :=
  sv "t_" ++ name.map (fun char => if char.isAlphanum || char == '_' then char else '_') ++
    '_' :: Nat.toDigits 10 suffix

/-- `cg_resolve_alias_target`: at most as many rounds as there are targets. -/
def resolveAliasTarget (model : Model) (id : TargetId) : Option TargetId :=
  (List.range model.targets.length).foldl (fun current _ =>
    current.bind fun id =>
      match model.targets[id]? with
      | none => some id
      | some target => if target.isAlias then target.aliasOfId else some id) (some id)

/-- `cg_target_is_supported_concrete`. -/
def targetIsSupportedConcrete : TargetKind → Bool
  | .executable | .staticLibrary | .sharedLibrary | .moduleLibrary => true
  | _ => false

/-- `cg_target_is_non_emitting`. -/
def targetIsNonEmitting : TargetKind → Bool
  | .interfaceLibrary | .utility => true
  | _ => false

/-- `cg_target_artifact_for_config_or_empty`: the branch of the configuration, or the last one. -/
def TargetInfo.artifactForConfig (info : TargetInfo) (role : ArtifactRole) (config : StringView) :
    ArtifactView :=
  let found := info.artifacts.find? fun branch => config ≠ [] && svEqCiQuery branch.config config
  (found.or info.artifacts.getLast?).elim {} fun branch =>
    if role = .linker then branch.linker else branch.runtime

namespace Context

variable (ctx : Context)

/-- `cg_make_query_ctx`. -/
def makeQueryCtx (currentTargetId : Option TargetId) (usageMode : UsageMode)
    (config compileLanguage : StringView) : QueryContext where
  config
  platformId := ctx.policy.platformId
  compileLanguage
  currentTargetId
  usageMode
  buildInterfaceActive := true
  buildLocalInterfaceActive := true

/-- The configurations of the emitted branches, the last of which is the `else` branch. -/
def configs : List StringView := ctx.knownConfigs ++ [[]]

/-- One round of `cg_init_target_artifact_branches`. -/
def initArtifactBranch (id : TargetId) (config : StringView) : Option ArtifactBranch := do
  let qctx := ctx.makeQueryCtx (some id) .link config []
  let runtime ← targetEffectiveArtifact ctx.host ctx.genexEval ctx.model.toModel qctx id .runtime
  let linker ← targetEffectiveArtifact ctx.host ctx.genexEval ctx.model.toModel qctx id .linker
  return ⟨config, ctx.rebaseArtifactView runtime, ctx.rebaseArtifactView linker⟩

/-- `cg_compute_target_state_path`. -/
def targetStatePath (info : TargetInfo) : StringView :=
  if info.emitsArtifact then info.artifactPath
  else if info.isAlias || info.imported || info.kind ≠ .utility then []
  else ctx.rebaseFromBinaryRoot (pathJoin (sv ".nob/targets") (info.ident ++ sv ".stamp"))

/-- One round of the first loop of `cg_init_targets`. -/
def initTarget (id : TargetId) (target : TargetRecord) : Option TargetInfo := do
  let resolvedId := if target.isAlias then resolveAliasTarget ctx.model.toModel id else some id
  guard (!target.isAlias || resolvedId.isSome)
  guard (target.isAlias || target.imported || targetIsSupportedConcrete target.kind ||
    targetIsNonEmitting target.kind)
  let emitsArtifact :=
    !target.isAlias && !target.imported && targetIsSupportedConcrete target.kind
  let artifacts ← (if emitsArtifact then ctx.configs else []).mapM (ctx.initArtifactBranch id)
  let info : TargetInfo := {
    id, resolvedId, emitsArtifact, artifacts
    kind := target.kind
    imported := target.imported
    isAlias := target.isAlias
    excludeFromAll := target.excludeFromAll
    name := target.name
    ident := makeIdentifier target.name id
    artifactPath := artifacts.getLast?.elim [] fun branch => branch.runtime.path }
  return { info with statePath := ctx.targetStatePath info }

/-- One round of the second loop of `cg_init_targets`: an alias takes what it stands for. -/
def initAlias (infos : List TargetInfo) (info : TargetInfo) : Option TargetInfo :=
  if !info.isAlias then some info
  else
    (info.resolvedId.bind (infos[·]?)).map fun resolved =>
      { info with
        artifactPath := resolved.artifactPath
        kind := resolved.kind
        imported := resolved.imported
        emitsArtifact := resolved.emitsArtifact
        artifacts := resolved.artifacts
        statePath := resolved.statePath }

/-- `cg_init_targets`. -/
def initTargets : Option (List TargetInfo) := do
  let infos ← ctx.model.targets.zipIdx.mapM fun (target, id) => ctx.initTarget id target
  infos.mapM (initAlias infos)

/-! ## Steps -/

/-- `cg_step_make_query_ctx`. -/
def stepQueryCtx (ownerTargetId : Option TargetId) (config : StringView) : QueryContext :=
  ctx.makeQueryCtx ownerTargetId .link config []

/-- `cg_step_query_effective_view`. -/
def stepEffectiveView (id : BuildStepId) (ownerTargetId : Option TargetId) (config : StringView) :
    Option StepEffectiveView :=
  buildStepEffectiveView ctx.genexEval ctx.model.toModel (ctx.stepQueryCtx ownerTargetId config) id

/-- `cg_compute_step_sentinel_path`, with whether it is a stamp. -/
def stepSentinelPath (id : BuildStepId) (step : BuildStepRecord) : Option (StringView × Bool) := do
  let view ← ctx.stepEffectiveView id step.ownerTargetId []
  match view.outputs with
  | first :: _ => return (ctx.rebasePathFromCwd first, false)
  | [] =>
    if step.kind ≠ .outputRule then return ([], false)
    else return (ctx.rebaseFromBinaryRoot
      (pathJoin (sv ".nob/steps") (Nat.toDigits 10 id ++ sv ".stamp")), true)

/-- One round of `cg_init_build_steps`. -/
def initStep (id : BuildStepId) (step : BuildStepRecord) : Option StepInfo := do
  let (sentinelPath, usesStamp) ← ctx.stepSentinelPath id step
  return {
    id, sentinelPath, usesStamp
    kind := step.kind
    ownerTargetId := step.ownerTargetId
    ident := makeIdentifier (sv "step_" ++ Nat.toDigits 10 id) id }

/-- `cg_init_build_steps`. -/
def initBuildSteps : Option (List StepInfo) :=
  ctx.model.buildSteps.zipIdx.mapM fun (step, id) => ctx.initStep id step

end Context

/-- The part of `cg_init_context` before targets and steps are looked at. -/
def initRoots (env : Environment) (model : FrozenModel) (opts : Options) : Option Context := do
  let inputPath := if opts.inputPath ≠ [] then opts.inputPath else sv "CMakeLists.txt"
  let inputDir := dirname inputPath
  let outputPath :=
    if opts.outputPath ≠ [] then opts.outputPath else pathJoin inputDir (sv "nob.c")
  let sourceRoot := if opts.sourceRoot ≠ [] then opts.sourceRoot else inputDir
  let binaryRoot := if opts.binaryRoot ≠ [] then opts.binaryRoot else sourceRoot
  let policy ← initBackendPolicy env.host opts.targetPlatform opts.backend
  let cwdAbs := normalizePath env.cwd
  let absolute := fun path => if pathIsAbs path then normalizePath path else pathJoin cwdAbs path
  return {
    env with
    model, sourceRoot, binaryRoot, policy, cwdAbs
    sourceRootAbs := absolute sourceRoot
    binaryRootAbs := absolute binaryRoot
    emitPathAbs := absolute outputPath
    emitDirAbs := dirname (absolute outputPath)
    knownConfigs := collectKnownConfigs model.toModel }

/-- `cg_init_context`, up to the checks of `cg_validate_model_for_backend`. -/
def initContext (env : Environment) (model : FrozenModel) (opts : Options) : Option Context := do
  let ctx ← initRoots env model opts
  let targets ← ctx.initTargets
  let buildSteps ← ctx.initBuildSteps
  return { ctx with targets, buildSteps }

end Nobify.Codegen
