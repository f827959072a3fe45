import Nobify.BuildModel.Effective
import Nobify.Lib.Firsts
import Nobify.Lib.OptionLoop

/-!
# Build-order views

What has to run before a target, in the seven groups of `BM_Target_Build_Order_View`: explicit
prerequisites, hook steps, generated sources, link prerequisites and custom commands.
-/

namespace Nobify.BuildModel

open List Option

/-- `BM_Build_Order_Node`. -/
inductive OrderNode where
  | target (id : TargetId)
  | step (id : BuildStepId)
  deriving DecidableEq

/-- `bm_query_push_unique_target_id` and its siblings for steps, texts and order nodes. -/
def pushUnique {α : Type} [DecidableEq α] (items : List α) (item : α) : List α :=
  if item ∈ items then items else items ++ [item]

/-- Unique pushes append the first occurrences. -/
theorem foldl_pushUnique {α : Type} [DecidableEq α] (start items : List α) :
    items.foldl pushUnique start = start ++ Lib.firsts start items := by
  induction items generalizing start with
  | nil => exact (append_nil start).symm
  | cons item rest ih =>
    rw [foldl_cons, ih, pushUnique]
    by_cases old : item ∈ start
    · rw [if_pos old, Lib.firsts_cons_of_mem rest old]
    · rw [if_neg old, Lib.firsts_cons_of_notMem rest old, append_assoc, singleton_append]

/-- `bm_query_target_kind_is_local_build_order_node`. -/
def kindIsLocalBuildOrderNode : TargetKind → Bool
  | .executable | .staticLibrary | .sharedLibrary | .moduleLibrary | .objectLibrary | .utility =>
    true
  | _ => false

/-- `bm_query_target_kind_has_target_hooks`. -/
def kindHasTargetHooks : TargetKind → Bool
  | .executable | .staticLibrary | .sharedLibrary | .moduleLibrary => true
  | _ => false

/-- `bm_query_target_kind_consumes_link_prerequisites`. -/
def kindConsumesLinkPrerequisites : TargetKind → Bool
  | .executable | .sharedLibrary | .moduleLibrary => true
  | _ => false

/-- `bm_query_target_is_build_order_node`. -/
def targetIsBuildOrderNode (target : TargetRecord) : Bool :=
  !target.isAlias && !target.imported && kindIsLocalBuildOrderNode target.kind

/-- `BM_Target_Build_Order_View`. -/
structure BuildOrderView where
  explicitPrerequisites : List OrderNode := []
  preBuildSteps : List OrderNode := []
  generatedSourceSteps : List OrderNode := []
  linkPrerequisites : List OrderNode := []
  preLinkSteps : List OrderNode := []
  postBuildSteps : List OrderNode := []
  customTargetSteps : List OrderNode := []

/-! ## Prerequisite targets -/

section Prerequisites

variable (model : Model) (rootId : TargetId)

/-- `bm_query_collect_order_prerequisite_target`: a target that is built itself is pushed; any
other is replaced by its explicit dependencies. The targets being replaced are passed down, as
the source marks them and clears the marks on the way back. -/
def collectOrderPrerequisiteTarget :
    Nat → List TargetId → Option TargetId → List OrderNode → Option (List OrderNode)
  | fuel, visiting, id, out =>
    match resolveAliasTargetId model id with
    | none => some out
    | some resolvedId =>
      if resolvedId = rootId then some out
      else
        match model.targets[resolvedId]? with
        | none => none
        | some target =>
          if targetIsBuildOrderNode target then some (pushUnique out (.target resolvedId))
          else if resolvedId ∈ visiting then some out
          else
            match fuel with
            | 0 => none
            | fuel + 1 =>
              target.explicitDependencyIds.foldlM (fun out dependency =>
                collectOrderPrerequisiteTarget fuel (resolvedId :: visiting) dependency out) out

/-- The loops of `bm_query_collect_order_explicit_prerequisites` and
`bm_query_collect_order_link_prerequisites`, with the root marked. -/
def collectOrderPrerequisites (ids : List (Option TargetId)) : Option (List OrderNode) :=
  ids.foldlM (fun out id =>
    collectOrderPrerequisiteTarget model rootId model.targets.length [rootId] id out) []

end Prerequisites

/-! ## Views -/

/-- `bm_query_collect_order_steps`. -/
def collectOrderSteps (model : Model) (ownerTargetId : TargetId) (kind : BuildStepKind) :
    List OrderNode :=
  model.buildSteps.zipIdx.filterMap fun (step, id) =>
    if step.ownerTargetId = some ownerTargetId ∧ step.kind = kind then some (.step id) else none

/-- `bm_query_collect_order_generated_source_steps`. -/
def collectOrderGeneratedSourceSteps (target : TargetRecord) : List OrderNode :=
  (target.sourceProducers.filterMap id).foldl (fun out id => pushUnique out (.step id)) []

/-- `bm_query_target_link_item_target_id`. -/
def linkItemTargetId (model : Model) (item : LinkItem) : Option TargetId :=
  resolveAliasTargetId model <|
    match item.targetId with
    | some id => some id
    | none =>
      if item.semantic.kind = .targetRef ∧ item.semantic.targetName ≠ [] then
        findTargetByNameId model item.semantic.targetName
      else findTargetByNameId model item.value

section Views

variable (genexEval : GenexEval) (model : Model)

/-- `bm_query_collect_order_link_prerequisites`. -/
def collectOrderLinkPrerequisites (ctx : QueryContext) (id : TargetId) (target : TargetRecord) :
    Option (List OrderNode) :=
  if kindConsumesLinkPrerequisites target.kind then
    (targetEffectiveLinkItems genexEval model ctx id).bind fun items =>
      collectOrderPrerequisites model id ((items.filterMap (linkItemTargetId model)).map some)
  else some []

/-- `bm_query_target_effective_build_order_view`. -/
def targetEffectiveBuildOrderView (ctx : QueryContext) (id : TargetId) : Option BuildOrderView :=
  (resolveAliasTargetId model (some id)).bind fun resolvedId =>
    (model.targets[resolvedId]?).bind fun target =>
      let qctx := { ctx with
        currentTargetId := some resolvedId
        usageMode := .link
        compileLanguage := [] }
      (collectOrderPrerequisites model resolvedId target.explicitDependencyIds).bind
        fun explicitPrerequisites =>
          if target.kind = .utility ∧ target.isAlias = false ∧ target.imported = false then
            some {
              explicitPrerequisites
              customTargetSteps := collectOrderSteps model resolvedId .customTarget }
          else if targetIsBuildOrderNode target then
            (collectOrderLinkPrerequisites genexEval model qctx resolvedId target).map
              fun linkPrerequisites =>
                let hooks := fun kind =>
                  if kindHasTargetHooks target.kind then collectOrderSteps model resolvedId kind
                  else []
                { explicitPrerequisites
                  generatedSourceSteps := collectOrderGeneratedSourceSteps target
                  linkPrerequisites
                  preBuildSteps := hooks .targetPreBuild
                  preLinkSteps := hooks .targetPreLink
                  postBuildSteps := hooks .targetPostBuild }
          else some { explicitPrerequisites }

end Views

/-! ## Prerequisites are always found -/

/-- A resolved alias is a target of the model. -/
theorem resolveAliasGo_inside {model : Model} {remaining : Nat} {current resolved : TargetId}
    (found : resolveAliasGo model remaining current = some resolved) :
    resolved < model.targets.length := by
  induction remaining generalizing current with
  | zero => cases found
  | succ remaining ih =>
    unfold resolveAliasGo at found
    split at found
    · cases found
    · rename_i target known
      split at found
      · obtain ⟨next, -, rest⟩ := bind_eq_some_iff.mp found
        exact ih rest
      · cases found
        exact (List.getElem?_eq_some_iff.mp known).1

/-- A resolved id is a target of the model. -/
theorem resolveAliasTargetId_inside {model : Model} {id : Option TargetId} {resolved : TargetId}
    (found : resolveAliasTargetId model id = some resolved) : resolved < model.targets.length := by
  obtain ⟨start, -, steps⟩ := bind_eq_some_iff.mp found
  exact resolveAliasGo_inside steps

/-- An id outside the model does not resolve. -/
theorem resolveAliasTargetId_outside {model : Model} {id : TargetId}
    (outside : ¬ id < model.targets.length) : resolveAliasTargetId model (some id) = none := by
  have missing : model.targets[id]? = none := List.getElem?_eq_none_iff.mpr (Nat.not_lt.mp outside)
  show resolveAliasGo model model.targets.length id = none
  cases model.targets.length with
  | zero => rfl
  | succ remaining => simp [resolveAliasGo, missing]

/-- Pairwise different targets are at most as many as the model has. -/
theorem length_le_of_nodup_inside {model : Model} {ids : List TargetId} (distinct : ids.Nodup)
    (inside : ∀ id ∈ ids, id < model.targets.length) : ids.length ≤ model.targets.length := by
  have subset : ids ⊆ List.range model.targets.length :=
    fun id member => mem_range.mpr (inside id member)
  have short := (distinct.subperm subset).length_le
  rwa [length_range] at short

/-- The search for prerequisites never runs out: the targets being replaced are different. -/
theorem collectOrderPrerequisiteTarget_isSome (model : Model) (rootId : TargetId) {fuel : Nat}
    {visiting : List TargetId} (distinct : visiting.Nodup)
    (inside : ∀ id ∈ visiting, id < model.targets.length)
    (enough : model.targets.length < fuel + visiting.length) (id : Option TargetId)
    (out : List OrderNode) :
    (collectOrderPrerequisiteTarget model rootId fuel visiting id out).isSome = true := by
  induction fuel generalizing visiting id out with
  | zero =>
    have short := length_le_of_nodup_inside distinct inside
    omega
  | succ fuel ih =>
    unfold collectOrderPrerequisiteTarget
    split
    · rfl
    · rename_i resolvedId found
      have below := resolveAliasTargetId_inside found
      split
      · rfl
      · split
        · rename_i missing
          have outside := List.getElem?_eq_none_iff.mp missing
          exact absurd below (Nat.not_lt.mpr outside)
        · rename_i target known
          split
          · rfl
          · split
            · rfl
            · rename_i fresh
              have distinctNext : (resolvedId :: visiting).Nodup :=
                nodup_cons.mpr ⟨fresh, distinct⟩
              have insideNext : ∀ other ∈ resolvedId :: visiting, other < model.targets.length := by
                intro other member
                rcases mem_cons.mp member with rfl | later
                · exact below
                · exact inside other later
              have enoughNext : model.targets.length < fuel + (resolvedId :: visiting).length := by
                rw [length_cons]
                omega
              exact Lib.foldlM_isSome fun state dependency _ =>
                ih distinctNext insideNext enoughNext dependency state

/-- Every list of prerequisites is found. -/
theorem collectOrderPrerequisites_isSome {model : Model} {rootId : TargetId}
    (known : rootId < model.targets.length) (ids : List (Option TargetId)) :
    (collectOrderPrerequisites model rootId ids).isSome = true :=
  Lib.foldlM_isSome fun state id _ =>
    collectOrderPrerequisiteTarget_isSome model rootId (nodup_singleton rootId)
      (by simpa using known) (Nat.lt_succ_self _) id state

end Nobify.BuildModel
