import Nobify.BuildModel.StepView

/-!
# The execution cycle check

`bm_validate_execution_cycles_for_context` searches the graph of targets and build steps with
three colours. Four functions call each other, and each passes a query context down that it may
have changed on the way: the context of a node depends on the path by which it was reached.

The changes are to the current target and the usage mode, and both views set these again, so
the edges of a node are the same on every path. The check is then the three-colour search of
`Nobify.Lib.ColorSearch` over one graph, and its verdict is exact.
-/

namespace Nobify.BuildModel

open Lib (Search Color)
open List Option

variable {ctx other : QueryContext} {order : List OrderNode}

variable (genexEval : GenexEval) (model : Model)

/-! ## The check -/

section Visits

variable (visit : OrderNode → QueryContext → Search OrderNode → Option (Search OrderNode))

/-- `bm_exec_visit_edge`. -/
def execVisitEdge (ctx : QueryContext) (search : Search OrderNode) (node : OrderNode) :
    Option (Search OrderNode) :=
  match search.colors node with
  | .gray => some { search with found := true }
  | .black => some search
  | .white => visit node ctx search

/-- `bm_exec_visit_order_span`. -/
def execVisitOrderSpan (ctx : QueryContext) (span : List OrderNode) (search : Search OrderNode) :
    Option (Search OrderNode) :=
  span.foldlM (execVisitEdge visit ctx) search

/-- `bm_exec_visit_target`. -/
def execVisitTarget (ctx : QueryContext) (id : TargetId) (search : Search OrderNode) :
    Option (Search OrderNode) := do
  let qctx := { ctx with
    currentTargetId := ctx.currentTargetId.or (some id)
    usageMode := .link }
  let view ← targetEffectiveBuildOrderView genexEval model qctx id
  let search ← execVisitOrderSpan visit qctx view.explicitPrerequisites search
  let search ← execVisitOrderSpan visit qctx view.preBuildSteps search
  let search ← execVisitOrderSpan visit qctx view.generatedSourceSteps search
  let search ← execVisitOrderSpan visit qctx view.linkPrerequisites search
  let search ← execVisitOrderSpan visit qctx view.preLinkSteps search
  let search ← execVisitOrderSpan visit qctx view.postBuildSteps search
  execVisitOrderSpan visit qctx view.customTargetSteps search

/-- `bm_exec_visit_step`. -/
def execVisitStep (ctx : QueryContext) (id : BuildStepId) (search : Search OrderNode) :
    Option (Search OrderNode) := do
  let step ← model.buildSteps[id]?
  let qctx := { ctx with
    currentTargetId := step.ownerTargetId
    usageMode := .link }
  let view ← buildStepEffectiveView genexEval model qctx id
  let search ← view.dependencies.targets.foldlM
    (fun search id => execVisitEdge visit qctx search (.target id)) search
  view.dependencies.producers.foldlM
    (fun search id => execVisitEdge visit qctx search (.step id)) search

end Visits

/-- `bm_exec_visit_node`, with a bound on the length of the path. -/
def execVisitNode : Nat → OrderNode → QueryContext → Search OrderNode → Option (Search OrderNode)
  | 0, _, _, _ => none
  | fuel + 1, node, ctx, search =>
    let visited :=
      match node with
      | .target id =>
        execVisitTarget genexEval model (execVisitNode fuel) ctx id (search.paint node .gray)
      | .step id =>
        execVisitStep genexEval model (execVisitNode fuel) ctx id (search.paint node .gray)
    visited.map fun search => search.paint node .black

/-- The nodes in the order of the two loops of `bm_validate_execution_cycles_for_context`. -/
def execNodes : List OrderNode :=
  (List.range model.targets.length).map .target ++ (List.range model.buildSteps.length).map .step

/-- The loops of `bm_validate_execution_cycles_for_context` over nodes in some order: what they
do to `had_error`, or `none` when a view query fails. -/
def validateInOrder (ctx : QueryContext) (nodes : List OrderNode) : Option Bool :=
  (nodes.foldlM (fun search node =>
    if search.colors node = .white then
      execVisitNode genexEval model (execNodes model).length node ctx search
    else some search) Search.start).map Search.found

/-- `bm_validate_execution_cycles_for_context`. -/
def validateExecutionCyclesForContext (ctx : QueryContext) : Option Bool :=
  validateInOrder genexEval model ctx (execNodes model)

/-- The context of one round of `bm_validate_execution_cycles`. -/
def freezeContext (config : StringView) : QueryContext :=
  { config, usageMode := .link, buildInterfaceActive := true, buildLocalInterfaceActive := true }

/-- `bm_validate_execution_cycles`: the known configurations and then the empty one. -/
def validateExecutionCycles : Option Bool :=
  (model.knownConfigurations ++ [[]]).foldlM (fun hadError config =>
    (validateExecutionCyclesForContext genexEval model (freezeContext config)).map (hadError || ·))
    false

/-! ## The graph -/

/-- All nodes of a build-order view. -/
def BuildOrderView.nodes (view : BuildOrderView) : List OrderNode :=
  view.explicitPrerequisites ++ view.preBuildSteps ++ view.generatedSourceSteps ++
    view.linkPrerequisites ++ view.preLinkSteps ++ view.postBuildSteps ++ view.customTargetSteps

/-- The target and producer dependencies of a step view. -/
def StepEffectiveView.nodes (view : StepEffectiveView) : List OrderNode :=
  view.dependencies.targets.map .target ++ view.dependencies.producers.map .step

/-- The context in which a step's view is taken. -/
def stepContext (ctx : QueryContext) (id : BuildStepId) : QueryContext :=
  { ctx with
    currentTargetId := (model.buildSteps[id]?).bind BuildStepRecord.ownerTargetId
    usageMode := .link }

/-- The edges of the execution graph in a context: the nodes of a target's build-order view, and
the target and producer dependencies of a step's effective view. -/
def execEdges (ctx : QueryContext) : OrderNode → Option (List OrderNode)
  | .target id => (targetEffectiveBuildOrderView genexEval model ctx id).map BuildOrderView.nodes
  | .step id =>
    (buildStepEffectiveView genexEval model (stepContext model ctx id) id).map
      StepEffectiveView.nodes

/-! ## Edges do not depend on the path -/

/-- Contexts that differ at most in the current target and the usage mode. -/
def SameQuery (ctx other : QueryContext) : Prop :=
  { ctx with currentTargetId := none, usageMode := .link } =
    { other with currentTargetId := none, usageMode := .link }

/-- Setting the current target and the usage mode stays within the same query. -/
theorem SameQuery.set (same : SameQuery ctx other) (currentTargetId : Option TargetId)
    (usageMode : UsageMode) :
    SameQuery ctx { other with currentTargetId, usageMode } := same

variable {genexEval model}

/-- Contexts of the same query agree on everything that both views do not set. -/
theorem SameQuery.set_eq (same : SameQuery ctx other) (currentTargetId : Option TargetId)
    (usageMode : UsageMode) :
    { ctx with currentTargetId, usageMode } = { other with currentTargetId, usageMode } := by
  cases ctx
  cases other
  simp only [SameQuery, QueryContext.mk.injEq] at same ⊢
  tauto

/-- The edges of a node are the same in all contexts of one query. -/
theorem execEdges_eq_of_sameQuery (same : SameQuery ctx other) :
    execEdges genexEval model ctx = execEdges genexEval model other := by
  funext node
  cases node with
  | target id =>
    have views : targetEffectiveBuildOrderView genexEval model ctx id =
        targetEffectiveBuildOrderView genexEval model other id := by
      unfold targetEffectiveBuildOrderView
      refine congrArg _ (funext fun resolvedId => ?_)
      have set := same.set_eq (some resolvedId) .link
      have contexts : { ctx with
            currentTargetId := some resolvedId
            usageMode := .link
            compileLanguage := [] } =
          { other with
            currentTargetId := some resolvedId
            usageMode := .link
            compileLanguage := [] } :=
        congrArg (fun context : QueryContext => { context with compileLanguage := [] }) set
      simp only [contexts]
    simp only [execEdges, views]
  | step id =>
    have contexts : stepContext model ctx id = stepContext model other id := same.set_eq _ _
    simp only [execEdges, contexts]

/-- Visiting a target follows the nodes of its view one after the other. -/
theorem execVisitTarget_eq
    (visit : OrderNode → QueryContext → Search OrderNode → Option (Search OrderNode))
    (ctx : QueryContext) (id : TargetId) (search : Search OrderNode) :
    execVisitTarget genexEval model visit ctx id search =
      (execEdges genexEval model ctx (.target id)).bind fun nexts =>
        nexts.foldlM (execVisitEdge visit { ctx with
          currentTargetId := ctx.currentTargetId.or (some id)
          usageMode := .link }) search := by
  have same : SameQuery { ctx with
      currentTargetId := ctx.currentTargetId.or (some id)
      usageMode := .link } ctx := rfl
  rw [← execEdges_eq_of_sameQuery same]
  simp only [execVisitTarget, execVisitOrderSpan, execEdges, BuildOrderView.nodes,
    foldlM_append, bind_eq_bind, bind_map, Function.comp_def,
    bind_assoc]

/-- Visiting a step follows its target dependencies and then its producers. -/
theorem execVisitStep_eq
    (visit : OrderNode → QueryContext → Search OrderNode → Option (Search OrderNode))
    (ctx : QueryContext) (id : BuildStepId) (search : Search OrderNode) :
    execVisitStep genexEval model visit ctx id search =
      (execEdges genexEval model ctx (.step id)).bind fun nexts =>
        nexts.foldlM (execVisitEdge visit (stepContext model ctx id)) search := by
  cases known : model.buildSteps[id]? with
  | none => simp [execVisitStep, execEdges, buildStepEffectiveView, known]
  | some step =>
    have contexts : stepContext model ctx id =
        { ctx with currentTargetId := step.ownerTargetId, usageMode := .link } := by
      simp [stepContext, known]
    simp only [execVisitStep, execEdges, StepEffectiveView.nodes, known, contexts,
      foldlM_append, foldlM_map, bind_eq_bind, bind_some, bind_map,
      Function.comp_def]

/-- On every path of one query, visiting a node is a visit of the three-colour search over the
execution graph. -/
theorem execVisitNode_eq (same : SameQuery ctx other) (fuel : Nat) (node : OrderNode)
    (search : Search OrderNode) :
    execVisitNode genexEval model fuel node other search =
      Lib.visitNode (execEdges genexEval model ctx) fuel node search := by
  induction fuel generalizing node other search with
  | zero => rfl
  | succ fuel ih =>
    have edge : ∀ {inner : QueryContext}, SameQuery ctx inner →
        execVisitEdge (execVisitNode genexEval model fuel) inner =
          Lib.visitEdge (Lib.visitNode (execEdges genexEval model ctx) fuel) := by
      intro inner sameInner
      funext search next
      cases color : search.colors next with
      | white => simp only [execVisitEdge, Lib.visitEdge, color, ih sameInner]
      | gray => simp only [execVisitEdge, Lib.visitEdge, color]
      | black => simp only [execVisitEdge, Lib.visitEdge, color]
    cases node with
    | target id =>
      have sameInner := same.set (other.currentTargetId.or (some id)) .link
      simp only [execVisitNode, Lib.visitNode, execVisitTarget_eq, edge sameInner,
        ← execEdges_eq_of_sameQuery same, Option.map_bind, Function.comp_def]
    | step id =>
      have sameInner : SameQuery ctx (stepContext model other id) := same.set _ _
      simp only [execVisitNode, Lib.visitNode, execVisitStep_eq, edge sameInner,
        ← execEdges_eq_of_sameQuery same, Option.map_bind, Function.comp_def]

/-- The check in any order of nodes is the three-colour search in that order. -/
theorem validateInOrder_eq (ctx : QueryContext) (nodes : List OrderNode) :
    validateInOrder genexEval model ctx nodes =
      (Lib.searchFrom (execEdges genexEval model ctx) (execNodes model).length nodes
        Search.start).map Search.found := by
  have same : SameQuery ctx ctx := rfl
  unfold validateInOrder Lib.searchFrom
  simp only [execVisitNode_eq same]

/-! ## The verdict -/

/-- Only nodes of the model have edges. -/
theorem mem_execNodes {node : OrderNode} (known : execEdges genexEval model ctx node ≠ none) :
    node ∈ execNodes model := by
  cases node with
  | target id =>
    have inside : id < model.targets.length := by
      by_contra outside
      refine known ?_
      have missing : resolveAliasTargetId model (some id) = none := resolveAliasTargetId_outside outside
      simp [execEdges, targetEffectiveBuildOrderView, missing]
    simp [execNodes, inside]
  | step id =>
    have inside : id < model.buildSteps.length := by
      by_contra outside
      refine known ?_
      have missing : model.buildSteps[id]? = none :=
        List.getElem?_eq_none_iff.mpr (Nat.not_lt.mp outside)
      simp [execEdges, buildStepEffectiveView, missing]
    simp [execNodes, inside]

variable (listed : order.Perm (execNodes model))

include listed

/-- The check in some order of the nodes gives a verdict exactly when all needed views exist. -/
theorem validateInOrder_isSome_iff : (validateInOrder genexEval model ctx order).isSome = true ↔
      ∀ node, Lib.Named (execEdges genexEval model ctx) (execNodes model) node →
        execEdges genexEval model ctx node ≠ none := by
  have named : ∀ node, Lib.Named (execEdges genexEval model ctx) order node ↔
      Lib.Named (execEdges genexEval model ctx) (execNodes model) node :=
    fun node => or_congr_left listed.mem_iff
  rw [validateInOrder_eq, isSome_map,
    Lib.searchFrom_isSome_iff (fun node known => listed.mem_iff.mpr (mem_execNodes known))
      listed.length_eq.le]
  simp only [named]

/-- A verdict of the check in some order of the nodes says whether there is a cycle. -/
theorem validateInOrder_found_iff {hadError : Bool}
    (verdict : validateInOrder genexEval model ctx order = some hadError) :
    hadError = true ↔ Lib.Cyclic (execEdges genexEval model ctx) := by
  rw [validateInOrder_eq] at verdict
  obtain ⟨final, searched, rfl⟩ := map_eq_some_iff.mp verdict
  exact Lib.searchFrom_found_iff (fun node known => listed.mem_iff.mpr (mem_execNodes known))
    searched

/-- All orders of the nodes give the same verdict. -/
theorem validateInOrder_perm : validateInOrder genexEval model ctx order =
      validateInOrder genexEval model ctx (execNodes model) := by
  have both : (validateInOrder genexEval model ctx order).isSome = true ↔
      (validateInOrder genexEval model ctx (execNodes model)).isSome = true :=
    (validateInOrder_isSome_iff listed).trans (validateInOrder_isSome_iff (.refl _)).symm
  cases first : validateInOrder genexEval model ctx order with
  | none =>
    rw [first] at both
    have fails : ¬ (validateInOrder genexEval model ctx (execNodes model)).isSome = true :=
      fun succeeds => by simpa using both.mpr succeeds
    exact (not_isSome_iff_eq_none.mp fails).symm
  | some hadError =>
    rw [first] at both
    obtain ⟨other, second⟩ := isSome_iff_exists.mp (both.mp rfl)
    have same : hadError = true ↔ other = true :=
      (validateInOrder_found_iff listed first).trans
        (validateInOrder_found_iff (.refl _) second).symm
    rw [second, Bool.eq_iff_iff.mpr same]

omit listed

/-- For every model and context the check ends with a verdict exactly when the view queries of
all targets and steps succeed and name nodes of the model, and then it sets `had_error` exactly
when the execution graph has a cycle. The verdict is the same for every order of the targets and
steps, and the edges of a node are the same in every context that a path can lead to. -/
theorem validateExecutionCyclesForContext_exact (genexEval : GenexEval) (model : Model)
    (ctx : QueryContext) :
    ((validateExecutionCyclesForContext genexEval model ctx).isSome = true ↔
      ∀ node, Lib.Named (execEdges genexEval model ctx) (execNodes model) node →
        execEdges genexEval model ctx node ≠ none) ∧
    (∀ hadError, validateExecutionCyclesForContext genexEval model ctx = some hadError →
      (hadError = true ↔ Lib.Cyclic (execEdges genexEval model ctx))) ∧
    (∀ order, order.Perm (execNodes model) → validateInOrder genexEval model ctx order =
        validateExecutionCyclesForContext genexEval model ctx) ∧
    (∀ other, SameQuery ctx other →
      execEdges genexEval model other = execEdges genexEval model ctx) := by
  refine ⟨validateInOrder_isSome_iff (.refl _), ?_, ?_, ?_⟩
  · intro hadError verdict
    exact validateInOrder_found_iff (.refl _) verdict
  · intro order listed
    exact validateInOrder_perm listed
  · intro other same
    exact (execEdges_eq_of_sameQuery same).symm

end Nobify.BuildModel
