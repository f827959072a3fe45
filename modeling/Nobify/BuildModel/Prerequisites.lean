import Nobify.BuildModel.BuildOrder
import Nobify.Lib.OnPath

/-!
# Explicit prerequisites

The targets that have to be built before a target: the local build-order targets that its explicit
dependencies lead to, through targets that are not built themselves. Such targets may depend on
each other in cycles.
-/

namespace Nobify.BuildModel

open Lib (Through Collects)
open List Option

variable {id rootId : TargetId} {visiting : List TargetId} {target : TargetRecord}
  {dependency : Option TargetId}

section

variable (model : Model)

/-- A target that is built by a step of its own order. -/
def IsOrderTarget (id : TargetId) : Prop :=
  ∃ target, model.targets[id]? = some target ∧ targetIsBuildOrderNode target = true

/-- A target that is replaced by its explicit dependencies. -/
def IsReplaced (id : TargetId) : Prop :=
  ∃ target, model.targets[id]? = some target ∧ targetIsBuildOrderNode target = false

/-- A resolved explicit dependency of a target. -/
def DependsExplicitly (id next : TargetId) : Prop :=
  ∃ target, model.targets[id]? = some target ∧
    ∃ dependency ∈ target.explicitDependencyIds, resolveAliasTargetId model dependency = some next

/-- A prerequisite below a target: another one that is built itself and that is reached through
replaced ones. -/
def IsPrerequisite (rootId first : TargetId) (inner : TargetId → Prop) (node : OrderNode) : Prop :=
  ∃ id, node = .target id ∧ id ≠ rootId ∧ IsOrderTarget model id ∧
    Through (DependsExplicitly model) inner first id

end

section

variable {model : Model}

theorem IsOrderTarget.not_replaced (built : IsOrderTarget model id) : ¬ IsReplaced model id := by
  rintro ⟨other, known, replaced⟩
  obtain ⟨target, same, order⟩ := built
  obtain rfl := some.inj (known.symm.trans same)
  rw [order] at replaced
  cases replaced

/-- A node is pushed once. -/
theorem collects_pushUnique (out : List OrderNode) (node : OrderNode) :
    Collects (· = node) out (pushUnique out node) := by
  unfold pushUnique
  split
  · rename_i old
    exact ⟨fun item => (or_iff_left_of_imp fun same => same ▸ old).symm, id⟩
  · rename_i fresh
    refine ⟨fun item => by rw [mem_append, mem_singleton], fun distinct => ?_⟩
    exact nodup_append.mpr ⟨distinct, nodup_singleton node, by
      rintro item member other listed rfl
      exact fresh (mem_singleton.mp listed ▸ member)⟩

/-- The targets that the search still goes on from. -/
def Unmarked (model : Model) (visiting : List TargetId) (id : TargetId) : Prop :=
  IsReplaced model id ∧ id ∉ visiting

/-- What the search meets at a dependency. -/
def MeetsAt (model : Model) (rootId : TargetId) (visiting : List TargetId)
    (dependency : Option TargetId) (node : OrderNode) : Prop :=
  ∃ first, resolveAliasTargetId model dependency = some first ∧
    IsPrerequisite model rootId first (Unmarked model visiting) node

/-- Below a target that is not marked yet, marking it hides nothing. -/
theorem isPrerequisite_unmarked (known : model.targets[id]? = some target)
    (replaced : targetIsBuildOrderNode target = false) (fresh : id ∉ visiting) (node : OrderNode) :
    (∃ dependency ∈ target.explicitDependencyIds,
        MeetsAt model rootId (id :: visiting) dependency node) ↔
      IsPrerequisite model rootId id (Unmarked model visiting) node := by
  have steps : ∀ next, DependsExplicitly model id next ↔
      ∃ dependency ∈ target.explicitDependencyIds,
        resolveAliasTargetId model dependency = some next := by
    intro next
    constructor
    · rintro ⟨other, same, rest⟩
      obtain rfl := some.inj (known.symm.trans same)
      exact rest
    · exact fun rest => ⟨target, known, rest⟩
  have marked : (fun other => Unmarked model visiting other ∧ other ≠ id) =
      Unmarked model (id :: visiting) := by
    funext other
    simp only [Unmarked, mem_cons, not_or]
    exact propext ⟨fun ⟨⟨one, two⟩, three⟩ => ⟨one, three, two⟩,
      fun ⟨one, three, two⟩ => ⟨⟨one, two⟩, three⟩⟩
  constructor
  · rintro ⟨dependency, listed, first, resolved, last, rfl, other, built, path⟩
    have below : ∃ next, DependsExplicitly model id next ∧
        Through (DependsExplicitly model) (Unmarked model visiting) next last :=
      (Lib.exists_through_iff id).mpr
        ⟨first, (steps first).mpr ⟨dependency, listed, resolved⟩, marked ▸ path⟩
    exact ⟨last, rfl, other, built,
      Lib.through_iff.mpr (.inr ⟨⟨⟨target, known, replaced⟩, fresh⟩, below⟩)⟩
  · rintro ⟨last, rfl, other, built, path⟩
    rcases Lib.through_iff.mp path with rfl | ⟨-, below⟩
    · exact absurd ⟨target, known, replaced⟩ built.not_replaced
    · obtain ⟨first, step, clear⟩ := (Lib.exists_through_iff id).mp below
      obtain ⟨dependency, listed, resolved⟩ := (steps first).mp step
      exact ⟨dependency, listed, first, resolved, last, rfl, other, built, marked ▸ clear⟩

/-- Where the search does not go on, it meets what stands there itself. -/
theorem meetsAt_of_not_unmarked {first : TargetId}
    (resolved : resolveAliasTargetId model dependency = some first)
    (ended : ¬ Unmarked model visiting first) (node : OrderNode) :
    MeetsAt model rootId visiting dependency node ↔
      node = .target first ∧ first ≠ rootId ∧ IsOrderTarget model first := by
  constructor
  · rintro ⟨other, same, id, rfl, apart, built, path⟩
    obtain rfl := some.inj (resolved.symm.trans same)
    obtain rfl := path.over_of_not ended
    exact ⟨rfl, apart, built⟩
  · rintro ⟨rfl, apart, built⟩
    exact ⟨first, resolved, first, rfl, apart, built, Relation.ReflTransGen.refl⟩

variable {fuel : Nat} {before after : List OrderNode}

/-- What one call of the search does. -/
theorem collectOrderPrerequisiteTarget_cases
    (run : collectOrderPrerequisiteTarget model rootId fuel visiting dependency before = some
      after) :
    (resolveAliasTargetId model dependency = none ∧ after = before) ∨
      ∃ first, resolveAliasTargetId model dependency = some first ∧
        ((first = rootId ∧ after = before) ∨
          first ≠ rootId ∧ ∃ target, model.targets[first]? = some target ∧
            ((targetIsBuildOrderNode target = true ∧ after = pushUnique before (.target first)) ∨
              targetIsBuildOrderNode target = false ∧ ((first ∈ visiting ∧ after = before) ∨
                  first ∉ visiting ∧ ∃ rest, fuel = rest + 1 ∧
                    target.explicitDependencyIds.foldlM (fun out next =>
                      collectOrderPrerequisiteTarget model rootId rest (first :: visiting) next out)
                      before = some after))) := by
  unfold collectOrderPrerequisiteTarget at run
  split at run
  · rename_i missing
    exact .inl ⟨missing, (some.inj run).symm⟩
  · rename_i first resolved
    refine .inr ⟨first, resolved, ?_⟩
    split at run
    · rename_i root
      exact .inl ⟨root, (some.inj run).symm⟩
    · rename_i apart
      split at run
      · cases run
      · rename_i target known
        refine .inr ⟨apart, target, known, ?_⟩
        split at run
        · rename_i built
          exact .inl ⟨built, (some.inj run).symm⟩
        · rename_i replaced
          refine .inr ⟨Bool.eq_false_iff.mpr replaced, ?_⟩
          split at run
          · rename_i marked
            exact .inl ⟨marked, (some.inj run).symm⟩
          · rename_i fresh
            cases fuel with
            | zero => cases run
            | succ rest => exact .inr ⟨fresh, rest, rfl, run⟩

/-- The search at a dependency collects what it meets there. -/
theorem collectOrderPrerequisiteTarget_collects (rootMarked : rootId ∈ visiting)
    (run : collectOrderPrerequisiteTarget model rootId fuel visiting dependency before = some
      after) : Collects (MeetsAt model rootId visiting dependency) before after := by
  induction fuel using Nat.strong_induction_on generalizing visiting dependency before after with
  | _ fuel ih =>
    rcases collectOrderPrerequisiteTarget_cases run with ⟨missing, rfl⟩ | ⟨first, resolved, rest⟩
    · refine Lib.collects_none ?_ after
      rintro node ⟨first, resolved, -⟩
      rw [missing] at resolved
      cases resolved
    · rcases rest with ⟨rfl, rfl⟩ | ⟨apart, target, known, rest⟩
      · have ended : ¬ Unmarked model visiting first := fun unmarked => unmarked.2 rootMarked
        refine Lib.collects_none (fun node meets => ?_) after
        exact ((meetsAt_of_not_unmarked resolved ended node).mp meets).2.1 rfl
      · rcases rest with ⟨built, rfl⟩ | ⟨replaced, ⟨marked, rfl⟩ | ⟨fresh, less, rfl, loop⟩⟩
        · have order : IsOrderTarget model first := ⟨target, known, built⟩
          have ended : ¬ Unmarked model visiting first := fun unmarked =>
            order.not_replaced unmarked.1
          refine (collects_pushUnique before (.target first)).congr fun node => ?_
          rw [meetsAt_of_not_unmarked resolved ended]
          exact (and_iff_left ⟨apart, order⟩).symm
        · have ended : ¬ Unmarked model visiting first := fun unmarked => unmarked.2 marked
          refine Lib.collects_none (fun node meets => ?_) after
          have order := ((meetsAt_of_not_unmarked resolved ended node).mp meets).2.2
          exact order.not_replaced ⟨target, known, replaced⟩
        · have rounds := Lib.collects_foldlM (fun next _ _ _ round =>
            ih less (Nat.lt_succ_self less) (mem_cons_of_mem first rootMarked) round) loop
          refine rounds.congr fun node => (isPrerequisite_unmarked known replaced fresh node).trans ?_
          constructor
          · exact fun meets => ⟨first, resolved, meets⟩
          · rintro ⟨other, same, meets⟩
            obtain rfl := some.inj (resolved.symm.trans same)
            exact meets

/-! ## Views -/

/-- The prerequisites of a target: local build-order targets other than itself, reached from its
explicit dependencies through targets that are not built themselves. -/
def HasPrerequisite (model : Model) (rootId : TargetId) (node : OrderNode) : Prop :=
  ∃ first, DependsExplicitly model rootId first ∧
    IsPrerequisite model rootId first (IsReplaced model) node

/-- The collection at the root. -/
theorem collectOrderPrerequisites_collects (known : model.targets[rootId]? = some target)
    {out : List OrderNode}
    (run : collectOrderPrerequisites model rootId target.explicitDependencyIds = some out) :
    Collects (HasPrerequisite model rootId) [] out := by
  have rounds := Lib.collects_foldlM (fun next _ _ _ round =>
    collectOrderPrerequisiteTarget_collects (mem_singleton_self rootId) round) run
  have marked : Unmarked model [rootId] = fun id => IsReplaced model id ∧ id ≠ rootId := by
    funext id
    simp only [Unmarked, mem_singleton]
  refine rounds.congr fun node => ?_
  constructor
  · rintro ⟨dependency, listed, first, resolved, id, rfl, apart, built, path⟩
    exact ⟨first, ⟨target, known, dependency, listed, resolved⟩, id, rfl, apart, built,
      path.mono fun _ => And.left⟩
  · rintro ⟨first, step, id, rfl, apart, built, path⟩
    obtain ⟨again, ⟨other, same, dependency, listed, resolved⟩, clear⟩ :=
      (Lib.exists_through_iff rootId).mp ⟨first, step, path⟩
    obtain rfl := some.inj (known.symm.trans same)
    exact ⟨dependency, listed, again, resolved, id, rfl, apart, built, marked ▸ clear⟩

/-- The view of a target has the collected prerequisites. -/
theorem explicitPrerequisites_of_view {genexEval : GenexEval} {ctx : QueryContext}
    {resolvedId : TargetId} {view : BuildOrderView}
    (resolved : resolveAliasTargetId model (some id) = some resolvedId)
    (known : model.targets[resolvedId]? = some target)
    (made : targetEffectiveBuildOrderView genexEval model ctx id = some view) :
    collectOrderPrerequisites model resolvedId target.explicitDependencyIds =
      some view.explicitPrerequisites := by
  unfold targetEffectiveBuildOrderView at made
  rw [resolved, bind_some, known, bind_some] at made
  obtain ⟨prerequisites, collected, rest⟩ := bind_eq_some_iff.mp made
  rw [collected]
  split at rest
  · cases rest
    rfl
  · split at rest
    · obtain ⟨links, -, rfl⟩ := map_eq_some_iff.mp rest
      rfl
    · cases rest
      rfl

/-- The collection always ends, and the view lists every prerequisite once and nothing else. -/
theorem explicitPrerequisites_exact (model : Model) {id resolvedId : TargetId}
    (resolved : resolveAliasTargetId model (some id) = some resolvedId) :
    ∃ target prerequisites, model.targets[resolvedId]? = some target ∧
      collectOrderPrerequisites model resolvedId target.explicitDependencyIds = some prerequisites ∧
      prerequisites.Nodup ∧
      (∀ node, node ∈ prerequisites ↔ HasPrerequisite model resolvedId node) ∧
      ∀ (genexEval : GenexEval) (ctx : QueryContext) (view : BuildOrderView),
        targetEffectiveBuildOrderView genexEval model ctx id = some view →
        view.explicitPrerequisites = prerequisites := by
  have inside := resolveAliasTargetId_inside resolved
  have known : model.targets[resolvedId]? = some model.targets[resolvedId] :=
    List.getElem?_eq_getElem inside
  obtain ⟨prerequisites, run⟩ := isSome_iff_exists.mp
    (collectOrderPrerequisites_isSome inside model.targets[resolvedId].explicitDependencyIds)
  have collects := collectOrderPrerequisites_collects known run
  refine ⟨_, prerequisites, known, run, collects.nodup nodup_nil, fun node => ?_, ?_⟩
  · rw [collects.mem]
    exact or_iff_right not_mem_nil
  · intro genexEval ctx view made
    exact some.inj ((explicitPrerequisites_of_view resolved known made).symm.trans run)

/-- An executable, two interface libraries that depend on each other, and a library below them. -/
def cyclicInterfaces : Model where
  targets := [
    { id := 0, name := sv "app", kind := .executable, explicitDependencyIds := [some 1] },
    { id := 1, name := sv "a", kind := .interfaceLibrary, explicitDependencyIds := [some 2] },
    { id := 2, name := sv "b", kind := .interfaceLibrary,
      explicitDependencyIds := [some 1, some 3] },
    { id := 3, name := sv "core", kind := .staticLibrary }]

theorem explicitPrerequisites_exact_cyclic :
    ∃ target prerequisites, cyclicInterfaces.targets[0]? = some target ∧
      collectOrderPrerequisites cyclicInterfaces 0 target.explicitDependencyIds =
        some prerequisites ∧
      prerequisites.Nodup ∧
      (∀ node, node ∈ prerequisites ↔ HasPrerequisite cyclicInterfaces 0 node) ∧
      ∀ (genexEval : GenexEval) (ctx : QueryContext) (view : BuildOrderView),
        targetEffectiveBuildOrderView genexEval cyclicInterfaces ctx 0 = some view →
        view.explicitPrerequisites = prerequisites := by
  have resolved : resolveAliasTargetId cyclicInterfaces (some 0) = some 0 := by decide
  exact explicitPrerequisites_exact cyclicInterfaces resolved

example : collectOrderPrerequisites cyclicInterfaces 0 [some 1] = some [.target 3] := by decide

end

end Nobify.BuildModel
