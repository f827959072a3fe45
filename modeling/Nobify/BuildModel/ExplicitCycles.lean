import Nobify.BuildModel.BuilderInvariant
import Nobify.BuildModel.Validate

/-!
# Cycles of explicit dependencies

`bm_validate_explicit_cycles` searches the targets of a draft along the names that
`add_dependencies` gave them. The graph has a node for each target and an edge for each name that
is found, however often it is named. The search follows what the lookup of a name returns without
a check, so it relies on an index that names positions of targets; the builder makes no other.
-/

namespace Nobify.BuildModel

open List Option

/-- A target names another one among its explicit dependencies. -/
def ExplicitlyDepends (draft : Draft) (id other : TargetId) : Prop :=
  ∃ target, draft.targets[id]? = some target ∧
    ∃ name ∈ target.explicitDependencyNames, draft.findTargetId name = some other

/-- Some target leads back to itself. -/
def ExplicitCycle (draft : Draft) : Prop :=
  ∃ id, Relation.TransGen (ExplicitlyDepends draft) id id

/-- The edges of the search are those of the graph. -/
theorem edge_explicitEdges (draft : Draft) (id other : TargetId) :
    Lib.Edge (explicitEdges draft) id other ↔ ExplicitlyDepends draft id other := by
  unfold Lib.Edge explicitEdges ExplicitlyDepends
  constructor
  · rintro ⟨nexts, known, member⟩
    obtain ⟨target, here, rfl⟩ := map_eq_some_iff.mp known
    exact ⟨target, here, mem_filterMap.mp member⟩
  · rintro ⟨target, here, named⟩
    exact ⟨_, map_eq_some_iff.mpr ⟨target, here, rfl⟩, mem_filterMap.mpr named⟩

theorem cyclic_explicitEdges (draft : Draft) :
    Lib.Cyclic (explicitEdges draft) ↔ ExplicitCycle draft := by
  have same : Lib.Edge (explicitEdges draft) = ExplicitlyDepends draft :=
    funext fun id => funext fun other => propext (edge_explicitEdges draft id other)
  unfold Lib.Cyclic ExplicitCycle
  rw [same]

/-- The targets are the nodes whose edges are known. -/
theorem explicitEdges_ne_none {draft : Draft} {id : TargetId} :
    explicitEdges draft id ≠ none ↔ id < draft.targets.length := by
  unfold explicitEdges
  rw [ne_eq, map_eq_none_iff, List.getElem?_eq_none_iff]
  exact Nat.not_le

theorem explicitEdges_listed (draft : Draft) (id : TargetId) (known : explicitEdges draft id ≠ none)
    : id ∈ List.range draft.targets.length :=
  mem_range.mpr (explicitEdges_ne_none.mp known)

/-- The search for cycles, without the positions of its reports. -/
theorem validateExplicitCycles_forget (draft : Draft) :
    (validateExplicitCycles draft).map (fun reports => !reports.isEmpty) =
      (Lib.searchFrom (explicitEdges draft) draft.targets.length
        (List.range draft.targets.length) .start).map Lib.Search.found := by
  have search : (Lib.Search.start : Lib.Search TargetId) = Lib.Trail.start.search := rfl
  rw [search, ← Lib.traceFrom_forget]
  unfold validateExplicitCycles
  dsimp only
  cases Lib.traceFrom (explicitEdges draft) draft.targets.length
      (List.range draft.targets.length) .start with
  | error stopped => rfl
  | ok trail =>
    show some _ = some _
    congr 1
    cases reports : trail.reports with
    | nil =>
      simp only [Lib.Trail.search, reports]
      rfl
    | cons first rest =>
      simp only [Lib.Trail.search, reports]
      rfl

/-- The search ends when every name that is found names a target. -/
theorem validateExplicitCycles_ends {draft : Draft} (inRange : draft.IndexInRange) :
    ∃ reports, validateExplicitCycles draft = some reports := by
  have known : ∀ node, Lib.Named (explicitEdges draft) (List.range draft.targets.length) node →
      explicitEdges draft node ≠ none := by
    rintro node (root | ⟨parent, edge⟩)
    · exact (explicitEdges_ne_none).mpr (mem_range.mp root)
    · obtain ⟨_, _, name, _, found⟩ := (edge_explicitEdges draft parent node).mp edge
      exact (explicitEdges_ne_none).mpr (inRange name node found)
  have searched := (Lib.searchFrom_isSome_iff (explicitEdges_listed draft)
    (Nat.le_of_eq length_range)).mpr known
  have both := congrArg Option.isSome (validateExplicitCycles_forget draft)
  rw [isSome_map, isSome_map, searched] at both
  exact isSome_iff_exists.mp both

/-- A search that ends has reported an error exactly when there is a cycle. -/
theorem validateExplicitCycles_reports {draft : Draft} {reports : List Diagnostic}
    (ends : validateExplicitCycles draft = some reports) : reports ≠ [] ↔ ExplicitCycle draft := by
  have same := validateExplicitCycles_forget draft
  rw [ends] at same
  obtain ⟨final, searched, found⟩ := map_eq_some_iff.mp same.symm
  have cycle := Lib.searchFrom_found_iff (explicitEdges_listed draft) searched
  rw [found] at cycle
  rw [← cyclic_explicitEdges, ← cycle]
  cases reports with
  | nil => decide
  | cons first rest => simp

/-- For every draft whose index names its targets the search for cycles of explicit dependencies
ends, and it reports an error exactly when some target leads back to itself. The builder makes no
other drafts. -/
theorem validateExplicitCycles_exact : (∀ draft : Draft, draft.IndexInRange →
      ∃ reports, validateExplicitCycles draft = some reports ∧
        (reports ≠ [] ↔ ExplicitCycle draft)) ∧
    ∀ stream, Builder.Takes {} stream → (Builder.feed {} stream).draft.IndexInRange := by
  constructor
  · intro draft inRange
    obtain ⟨reports, ends⟩ := validateExplicitCycles_ends inRange
    exact ⟨reports, ends, validateExplicitCycles_reports ends⟩
  · intro stream taken
    exact (Builder.wellFormed_feed taken).draft.indexInRange

/-- Two libraries that depend on each other, one of them twice, and on a name that is not found. -/
def circularStream : List BuildEvent :=
  [{ body := .directory (.enter (sv "/src") (sv "/bin")) },
    { body := .target (.declare (sv "low") .libraryStatic false false []) },
    { body := .target (.declare (sv "high") .libraryStatic false false []) },
    { body := .target (.change (sv "high") (.addDependency (sv "low"))) },
    { body := .target (.change (sv "high") (.addDependency (sv "low"))) },
    { body := .target (.change (sv "high") (.addDependency (sv "none"))) },
    { body := .target (.change (sv "low") (.addDependency (sv "high"))) },
    { body := .directory (.leave (sv "/src") (sv "/bin")) }]

/-- The search on the draft of `circularStream` reports an error. -/
theorem validateExplicitCycles_exact_circularStream :
    (Builder.feed {} circularStream).draft.IndexInRange ∧
      ∃ reports, validateExplicitCycles (Builder.feed {} circularStream).draft = some reports ∧
        (reports ≠ [] ↔ ExplicitCycle (Builder.feed {} circularStream).draft) := by
  have taken : Builder.Takes {} circularStream := by
    refine (takes_iff circularStream rfl).mpr ?_
    decide
  have inRange := (validateExplicitCycles_exact).2 circularStream taken
  exact ⟨inRange, (validateExplicitCycles_exact).1 _ inRange⟩

end Nobify.BuildModel
