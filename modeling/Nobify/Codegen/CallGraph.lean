import Nobify.BuildModel.ExecCycles
import Nobify.BuildModel.StepSupply

/-!
# The call graph of the generated program

The generator emits one function for each target and each build step. A target's function calls
the nodes of its build-order view for the configuration chosen at run time. A step's function
first calls everything the step waits for in any configuration: its prelude has no configuration
branches. Both are queried with the platform of the policy, while the cycle check of freeze uses
the empty platform and one configuration at a time.
-/

namespace Nobify.Codegen

open BuildModel
open Option (bind_eq_some_iff map_eq_some_iff)
open List

/-! ## Configurations -/

/-- `cg_push_unique_config`. -/
def pushUniqueConfig (known : List StringView) (config : StringView) : List StringView :=
  if config = [] ∨ known.any (svEqCiQuery · config) then known else known ++ [config]

/-- `cg_collect_known_configs`. -/
def collectKnownConfigs (model : Model) : List StringView :=
  model.knownConfigurations.foldl pushUniqueConfig []

/-- The configurations of the emitted branches, the last of which is the `else` branch. -/
def branchConfigs (model : Model) : List StringView := collectKnownConfigs model ++ [[]]

/-- The branch that `config_matches` picks for the configuration of a run. -/
def runtimeBranch (model : Model) (buildConfig : StringView) : StringView :=
  ((collectKnownConfigs model).find? (svEqCiQuery buildConfig ·)).getD []

/-- `cg_make_query_ctx` and `cg_step_make_query_ctx` for link usage. -/
def makeQueryCtx (platformId : StringView) (currentTargetId : Option TargetId)
    (config : StringView) : QueryContext where
  config := config
  platformId := platformId
  currentTargetId := currentTargetId
  usageMode := .link
  buildInterfaceActive := true
  buildLocalInterfaceActive := true

/-! ## Calls -/

/-- The phases that `cg_emit_target_function` emits for a kind of target. -/
def emittedNodes (target : TargetRecord) (view : BuildOrderView) : List OrderNode :=
  if target.imported || target.kind = .interfaceLibrary then view.explicitPrerequisites
  else if target.kind = .utility then view.explicitPrerequisites ++ view.customTargetSteps
  else view.explicitPrerequisites ++ view.preBuildSteps ++ view.generatedSourceSteps ++
    view.linkPrerequisites ++ view.preLinkSteps ++ view.postBuildSteps

section Calls

variable (genexEval : GenexEval) (model : Model) (platformId : StringView)

/-- The calls in the function of a target for a branch: of an alias, the target it stands for. -/
def targetCalls (config : StringView) (id : TargetId) : Option (List OrderNode) :=
  (model.targets[id]?).bind fun target =>
    if target.isAlias then (resolveAliasTargetId model (some id)).map fun resolved => [.target resolved]
    else
      (targetEffectiveBuildOrderView genexEval model (makeQueryCtx platformId (some id) config)
        id).map (emittedNodes target)

/-- The dependency views that `cg_step_emit_dependency_prelude` collects, one for each branch. -/
def stepViews (id : BuildStepId) : Option (List StepEffectiveView) :=
  (model.buildSteps[id]?).bind fun step =>
    (branchConfigs model).mapM fun config =>
      buildStepEffectiveView genexEval model (makeQueryCtx platformId step.ownerTargetId config) id

/-- `cg_step_emit_dependency_prelude`: the targets of all branches and then the producers of all
branches. -/
def stepCalls (id : BuildStepId) : Option (List OrderNode) :=
  (stepViews genexEval model platformId id).map fun views =>
    ((views.flatMap (·.dependencies.targets)).foldl pushUnique []).map .target ++
      ((views.flatMap (·.dependencies.producers)).foldl pushUnique []).map .step

/-- The calls between the functions of the generated program in a run with a configuration. -/
def callEdges (buildConfig : StringView) : OrderNode → Option (List OrderNode)
  | .target id => targetCalls genexEval model platformId (runtimeBranch model buildConfig) id
  | .step id => stepCalls genexEval model platformId id

end Calls

/-! ## What freeze has checked -/

/-- The configurations that `bm_validate_execution_cycles` checks. -/
def checkedConfigs (model : Model) : List StringView := model.knownConfigurations ++ [[]]

/-- A model that freeze accepts has no cycle in any of the graphs it checked. -/
theorem accepted_acyclic {genexEval : GenexEval} {model : Model}
    (accepted : validateExecutionCycles genexEval model = some false) {config : StringView}
    (checked : config ∈ checkedConfigs model) :
    ¬ Lib.Cyclic (execEdges genexEval model (freezeContext config)) := by
  have general : ∀ {configs : List StringView} {hadError : Bool},
      configs.foldlM (fun hadError config =>
        (validateExecutionCyclesForContext genexEval model (freezeContext config)).map
          (hadError || ·)) hadError = some false →
      hadError = false ∧ ∀ config ∈ configs,
        validateExecutionCyclesForContext genexEval model (freezeContext config) = some false := by
    intro configs
    induction configs with
    | nil =>
      intro hadError folded
      exact ⟨Option.some.inj folded, by simp⟩
    | cons first rest ih =>
      intro hadError folded
      rw [foldlM_cons] at folded
      obtain ⟨middle, head, tail⟩ := bind_eq_some_iff.mp folded
      obtain ⟨verdict, known, rfl⟩ := map_eq_some_iff.mp head
      obtain ⟨clean, later⟩ := ih tail
      obtain ⟨before, none⟩ := Bool.or_eq_false_iff.mp clean
      refine ⟨before, fun config member => ?_⟩
      rcases mem_cons.mp member with rfl | later'
      · rw [known, none]
      · exact later config later'
  have verdict := (general accepted).2 config checked
  have exact := validateInOrder_found_iff (.refl _) verdict
  simpa using exact

/-! ## Cycles in the generated program -/

section Cycles

variable (genexEval : GenexEval) (model : Model) (platformId buildConfig : StringView)

/-- Some run takes a `dependency cycle` branch: the functions of requested targets are called one
after the other, and a call meets a function that has not returned yet. The values 0, 1 and 2 of
`build_state` and `step_state` are the three colours. -/
def CycleBranchReachable : Prop :=
  ∃ (fuel : Nat) (requests : List OrderNode) (final : Lib.Search OrderNode),
    Lib.searchFrom (callEdges genexEval model platformId buildConfig) fuel requests .start =
      some final ∧ final.found = true

/-- The calls have no cycle, and no run takes a `dependency cycle` branch. -/
def CallsAcyclic : Prop :=
  ¬ Lib.Cyclic (callEdges genexEval model platformId buildConfig) ∧
    ¬ CycleBranchReachable genexEval model platformId buildConfig

end Cycles

/-- A run takes a `dependency cycle` branch only when the calls have a cycle. -/
theorem CycleBranchReachable.cyclic {genexEval : GenexEval} {model : Model}
    {platformId buildConfig : StringView}
    (reachable : CycleBranchReachable genexEval model platformId buildConfig) :
    Lib.Cyclic (callEdges genexEval model platformId buildConfig) := by
  obtain ⟨fuel, requests, final, searched, found⟩ := reachable
  obtain ⟨searching, -, -⟩ := Lib.searchFrom_keeps Lib.searching_start searched
  exact searching.reported found

/-! ## What the functions wait for -/

section Waits

variable (genexEval : GenexEval) (model : Model) (platformId buildConfig : StringView)

/-- What a target or a step waits for by its views on the platform of the policy: a target in the
branch of the run, and a step in any branch. -/
inductive Waits : OrderNode → OrderNode → Prop where
  | forAlias {id resolved : TargetId} {target : TargetRecord}
      (known : model.targets[id]? = some target) (isAlias : target.isAlias = true)
      (resolves : resolveAliasTargetId model (some id) = some resolved) :
      Waits (.target id) (.target resolved)
  | target {id : TargetId} {target : TargetRecord} {view : BuildOrderView} {next : OrderNode}
      (known : model.targets[id]? = some target) (real : target.isAlias = false)
      (viewed : targetEffectiveBuildOrderView genexEval model
        (makeQueryCtx platformId (some id) (runtimeBranch model buildConfig)) id = some view)
      (member : next ∈ emittedNodes target view) : Waits (.target id) next
  | step {id : BuildStepId} {step : BuildStepRecord} {config : StringView}
      {view : StepEffectiveView} {next : OrderNode}
      (known : model.buildSteps[id]? = some step)
      -- The generator gives up on a step when one of its views cannot be had.
      (complete : ∀ config ∈ branchConfigs model, (buildStepEffectiveView genexEval model
        (makeQueryCtx platformId step.ownerTargetId config) id).isSome = true)
      (branch : config ∈ branchConfigs model)
      (viewed : buildStepEffectiveView genexEval model
        (makeQueryCtx platformId step.ownerTargetId config) id = some view)
      (member : next ∈ view.nodes) : Waits (.step id) next

end Waits

section Coverage

variable {genexEval : GenexEval} {model : Model} {platformId buildConfig : StringView}

/-- The emitted prelude of a step calls the nodes of all its views and nothing else. -/
theorem mem_stepCalls_iff {views : List StepEffectiveView} {next : OrderNode} :
    next ∈ ((views.flatMap (·.dependencies.targets)).foldl pushUnique []).map OrderNode.target ++
        ((views.flatMap (·.dependencies.producers)).foldl pushUnique []).map OrderNode.step ↔
      ∃ view ∈ views, next ∈ view.nodes := by
  simp only [StepEffectiveView.nodes, mem_append, mem_map, mem_foldl_pushUnique,
    mem_flatMap, not_mem_nil, false_or]
  grind

/-- The emitted calls are the waits. -/
theorem edge_callEdges_iff_waits {node next : OrderNode} :
    Lib.Edge (callEdges genexEval model platformId buildConfig) node next ↔
      Waits genexEval model platformId buildConfig node next := by
  constructor
  · rintro ⟨nexts, called, member⟩
    cases node with
    | target id =>
      obtain ⟨target, known, called⟩ := bind_eq_some_iff.mp called
      cases named : target.isAlias with
      | true =>
        rw [named, if_pos rfl] at called
        obtain ⟨resolved, resolves, rfl⟩ := map_eq_some_iff.mp called
        obtain rfl := mem_singleton.mp member
        exact .forAlias known named resolves
      | false =>
        rw [named, if_neg Bool.false_ne_true] at called
        obtain ⟨view, viewed, rfl⟩ := map_eq_some_iff.mp called
        exact .target known named viewed member
    | step id =>
      obtain ⟨views, viewed, rfl⟩ := map_eq_some_iff.mp called
      obtain ⟨step, known, mapped⟩ := bind_eq_some_iff.mp viewed
      obtain ⟨view, listed, member⟩ := (mem_stepCalls_iff).mp member
      obtain ⟨config, branch, taken⟩ := (Lib.mem_of_mapM_eq_some mapped).mp listed
      have complete := Lib.mapM_isSome_iff.mp (Option.isSome_of_eq_some mapped)
      exact .step known complete branch taken member
  · intro waits
    cases waits with
    | forAlias known isAlias resolves =>
      exact ⟨_, by simp [callEdges, targetCalls, known, isAlias, resolves], mem_singleton_self _⟩
    | target known real viewed member =>
      exact ⟨_, by simp [callEdges, targetCalls, known, real, viewed], member⟩
    | step known complete branch viewed member =>
      obtain ⟨views, mapped⟩ := Option.isSome_iff_exists.mp (Lib.mapM_isSome_iff.mpr complete)
      have listed := (Lib.mem_of_mapM_eq_some mapped).mpr ⟨_, branch, viewed⟩
      exact ⟨_, by simp [callEdges, stepCalls, stepViews, known, mapped],
        (mem_stepCalls_iff).mpr ⟨_, listed, member⟩⟩

/-- The known configurations of the generator are among those of the model. -/
theorem mem_collectKnownConfigs {config : StringView}
    (member : config ∈ collectKnownConfigs model) : config ∈ model.knownConfigurations := by
  have general : ∀ {configs known : List StringView},
      config ∈ configs.foldl pushUniqueConfig known → config ∈ known ∨ config ∈ configs := by
    intro configs
    induction configs with
    | nil => exact fun found => .inl found
    | cons first rest ih =>
      intro known found
      rcases ih found with before | later
      · unfold pushUniqueConfig at before
        split at before
        · exact .inl before
        · rcases mem_append.mp before with old | new
          · exact .inl old
          · exact .inr (mem_singleton.mp new ▸ mem_cons_self)
      · exact .inr (mem_cons_of_mem _ later)
  exact (general member).resolve_left not_mem_nil

/-- Freeze has checked the configuration of every branch a run can take. -/
theorem runtimeBranch_checked : runtimeBranch model buildConfig ∈ checkedConfigs model := by
  unfold runtimeBranch checkedConfigs
  cases found : (collectKnownConfigs model).find? (svEqCiQuery buildConfig ·) with
  | none => simp
  | some config =>
    have known := mem_collectKnownConfigs (mem_of_find?_eq_some found)
    exact mem_append_left _ known

end Coverage

/-- For every accepted model, platform policy and configuration of a run, the generated program
has no cycle of calls exactly when no wait that freeze has not seen in the configuration of the
run leads back to where it starts. -/
theorem callsAcyclic_iff {genexEval : GenexEval} {model : Model}
    (accepted : validateExecutionCycles genexEval model = some false)
    (platformId buildConfig : StringView) :
    CallsAcyclic genexEval model platformId buildConfig ↔
      ∀ node next, Waits genexEval model platformId buildConfig node next →
        ¬ Lib.Edge (execEdges genexEval model (freezeContext (runtimeBranch model buildConfig)))
          node next →
        ¬ Relation.ReflTransGen (Waits genexEval model platformId buildConfig) next node := by
  have calls : Lib.Edge (callEdges genexEval model platformId buildConfig) =
      Waits genexEval model platformId buildConfig :=
    funext fun _ => funext fun _ => propext edge_callEdges_iff_waits
  constructor
  · rintro ⟨acyclic, -⟩ node next waits - back
    exact acyclic ⟨node, calls ▸ .head' waits back⟩
  · intro seen
    have acyclic : ¬ Lib.Cyclic (callEdges genexEval model platformId buildConfig) := by
      rintro ⟨node, cycle⟩
      rw [calls] at cycle
      -- A cycle of waits that freeze has all seen in this configuration was reported there.
      rcases Lib.path_inside_or_outside (Lib.Edge (execEdges genexEval model
          (freezeContext (runtimeBranch model buildConfig)))) cycle .refl with
        inside | ⟨first, next, waits, unseen, back⟩
      · exact accepted_acyclic accepted runtimeBranch_checked ⟨node, inside⟩
      · exact seen first next waits unseen back
    exact ⟨acyclic, fun reachable => acyclic reachable.cyclic⟩

/-- The frozen model of a project with two custom commands, the second of which depends on what
the first writes. -/
def generatedFileModel : Model := (freezePasses (generatedFileDraft "/b/gen.txt")).getD {}

/-- Freeze accepts the project with two custom commands. -/
theorem callsAcyclic_iff_generatedFileModel :
    validateExecutionCycles plainGenexEval generatedFileModel = some false ∧
      (CallsAcyclic plainGenexEval generatedFileModel (sv "Linux") [] ↔
        ∀ node next, Waits plainGenexEval generatedFileModel (sv "Linux") [] node next →
          ¬ Lib.Edge (execEdges plainGenexEval generatedFileModel
            (freezeContext (runtimeBranch generatedFileModel []))) node next →
          ¬ Relation.ReflTransGen (Waits plainGenexEval generatedFileModel (sv "Linux") [])
            next node) :=
  ⟨by decide +kernel, callsAcyclic_iff (by decide +kernel) (sv "Linux") []⟩

/-! ## A cycle over two configurations -/

/-- The value of a text whose only generator expression has the form `$<$<CONFIG:name>:value>`. -/
def conditionalGenex (config : StringView) : StringView → StringView
  | [] => []
  | char :: rest =>
    let opening := sv "$<$<CONFIG:"
    if opening.isPrefixOf (char :: rest) then
      let name := ((char :: rest).drop opening.length).takeWhile (· ≠ '>')
      let inside := (char :: rest).drop (opening.length + name.length + 2)
      let value := inside.takeWhile (· ≠ '>')
      (if svEqCiQuery name config then value else []) ++ inside.drop (value.length + 1)
    else char :: conditionalGenex config rest

/-- The evaluator on such texts. -/
def conditionalGenexEval : GenexEval := fun _ ctx raw => some (conditionalGenex ctx.config raw)

/-- Two custom commands, each of which needs what the other writes, but in different
configurations. -/
def alternatingDraft : Model where
  directories := [{ sourceDir := sv "/s", binaryDir := sv "/b" }]
  buildSteps := [
    { ownerDirectoryId := some 0, kind := .outputRule, rawOutputs := [sv "one"]
      dependencies := [.pathToken (sv "$<$<CONFIG:Debug>:/b/two>")] },
    { id := 1, ownerDirectoryId := some 0, kind := .outputRule, rawOutputs := [sv "two"]
      dependencies := [.pathToken (sv "$<$<CONFIG:Release>:/b/one>")] }]
  knownConfigurations := [sv "Debug", sv "Release"]

/-- Their frozen model. -/
def alternatingModel : Model := (freezePasses alternatingDraft).getD {}

/-- Freeze accepts the two commands, and in a `Debug` run each of the two emitted functions calls
the other. -/
theorem alternatingModel_calls_cyclic :
    validateExecutionCycles conditionalGenexEval alternatingModel = some false ∧
      Lib.Cyclic (callEdges conditionalGenexEval alternatingModel (sv "Linux") (sv "Debug")) := by
  refine ⟨by decide +kernel, .step 0, ?_⟩
  have first : Lib.Edge (callEdges conditionalGenexEval alternatingModel (sv "Linux") (sv "Debug"))
      (.step 0) (.step 1) := ⟨[.step 1], by decide +kernel, by decide⟩
  have second : Lib.Edge (callEdges conditionalGenexEval alternatingModel (sv "Linux") (sv "Debug"))
      (.step 1) (.step 0) := ⟨[.step 0], by decide +kernel, by decide⟩
  exact .tail (.single first) second

end Nobify.Codegen
