import Nobify.BuildModel.UsageLaw

/-!
# Static libraries behind static libraries

A static library is not linked when it is built, so what it links has to be linked into its
consumers, whatever the visibility. The query of effective link items walks through all link items
of a dependency but collects only those that are not private; here it is said which static
libraries it still lists.

A link item leads to the target that its evaluated text names. The evaluator gives every link item
that refers to a target the target's name as its text.
-/

namespace Nobify.BuildModel

open List Option

section Links

variable (genexEval : GenexEval) (model : Model) (ctx : QueryContext)

/-- The text of an evaluated link item names a target, or an alias of it. -/
def NamesTarget (model : Model) (item : LinkItem) (id : TargetId) : Prop :=
  targetIdByNameResolved model (svTrim item.value) = some id

/-- A link item, evaluated for a target, leads to a target by name. -/
def LeadsTo (ownerTargetId : TargetId) (item : LinkItem) (next : TargetId) : Prop :=
  ∃ piece ∈ itemPieces genexEval model ctx (linkFamily model) ownerTargetId item,
    NamesTarget model piece next

/-- A static library links a target by a link item of any visibility. -/
def StaticallyLinks (node next : TargetId) : Prop :=
  ∃ target, model.targets[node]? = some target ∧ target.kind = .staticLibrary ∧
    ∃ item ∈ target.linkLibraries, LeadsTo genexEval model ctx node item next

/-- A target is reached first by a link item that is not interface-only and then through static
libraries. -/
def StaticallyReaches (inherited : Bool) (id : TargetId) (target : TargetRecord)
    (node : TargetId) : Prop :=
  ∃ seed, (∃ item ∈ usingLinkItems model inherited target,
      LeadsTo genexEval model ctx id item seed) ∧
    Relation.ReflTransGen (StaticallyLinks genexEval model ctx) seed node

/-- A static library that the project builds. -/
def LocalStaticLibrary (model : Model) (id : TargetId) : Prop :=
  ∃ target, model.targets[id]? = some target ∧ target.kind = .staticLibrary ∧
    target.imported = false ∧ target.isAlias = false

/-- A target is linked where the query looks: by a link item of the root or its surroundings, or
by one that is not private of a target that resolved link items lead to. -/
def Surfaces (id : TargetId) (target : TargetRecord) (library : TargetId) : Prop :=
  (∃ item ∈ rootLinkItems model target, LeadsTo genexEval model ctx id item library) ∨
  ∃ node, ReachesBy genexEval model ctx id (rootLinkItems model target) (fun _ => True) node ∧
    ∃ other, model.targets[node]? = some other ∧
      ∃ item ∈ other.linkLibraries, item.visibility ≠ .privateItem ∧
        LeadsTo genexEval model ctx id item library

variable {genexEval model ctx}

/-- One more link of a static library. -/
theorem StaticallyReaches.tail {inherited : Bool} {id node next : TargetId} {target : TargetRecord}
    (reaches : StaticallyReaches genexEval model ctx inherited id target node)
    (links : StaticallyLinks genexEval model ctx node next) :
    StaticallyReaches genexEval model ctx inherited id target next := by
  obtain ⟨seed, first, path⟩ := reaches
  exact ⟨seed, first, path.tail links⟩

/-- The raw link items are those of the root and its surroundings and those that are not private
of the targets that resolved link items lead to. -/
theorem mem_rawEffectiveLinkItems {id : TargetId} {target : TargetRecord}
    {rawItems : List LinkItem} (inside : model.targets[id]? = some target)
    (success : rawEffectiveLinkItems genexEval model ctx id = some rawItems) {item : LinkItem} :
    item ∈ rawItems ↔ item ∈ rootLinkItems model target ∨
      ∃ node, ReachesBy genexEval model ctx id (rootLinkItems model target) (fun _ => True) node ∧
        ∃ other, model.targets[node]? = some other ∧ item ∈ other.linkLibraries ∧
          item.visibility ≠ .privateItem := by
  unfold rawEffectiveLinkItems at success
  rw [inside, bind_some] at success
  obtain ⟨seeds, seeded, walked⟩ := bind_eq_some_iff.mp success
  rw [mem_collectDependencies inside seeded walked]
  simp only [collectTargetLinkItems, collectItems, Bool.false_and, Bool.not_false,
    filter_true, Bool.true_and, mem_filter, Bool.not_eq_true', decide_eq_false_iff_not]
  constructor
  · rintro (root | ⟨node, -, reaches, other, known, listed, visible⟩)
    · exact .inl root
    · exact .inr ⟨node, reaches, other, known, listed, visible⟩
  · rintro (root | ⟨node, reaches, other, known, listed, visible⟩)
    · exact .inl root
    · by_cases same : node = id
      · subst same
        obtain rfl := some.inj (inside.symm.trans known)
        exact .inl (mem_append_right _ listed)
      · exact .inr ⟨node, same, reaches, other, known, listed, visible⟩

/-- The effective link items name exactly the targets that surface. -/
theorem targetEffectiveLinkItems_names {id : TargetId} {target : TargetRecord}
    {effective : List LinkItem} (inside : model.targets[id]? = some target)
    (success : targetEffectiveLinkItems genexEval model ctx id = some effective)
    {library : TargetId} :
    (∃ item ∈ effective, NamesTarget model item library) ↔
      Surfaces genexEval model ctx id target library := by
  obtain ⟨rawItems, collected, rest⟩ := bind_eq_some_iff.mp success
  obtain ⟨evaluated, span, rfl⟩ := map_eq_some_iff.mp rest
  have members := @mem_rawEffectiveLinkItems _ _ _ _ _ _ inside collected
  have keys : ∀ text, (∃ item ∈ dedupByKey
      (fun item : LinkItem => effectiveItemKey .linkLibraries item.toStringItem) [] evaluated,
        svTrim item.value = text) ↔ ∃ item ∈ evaluated, svTrim item.value = text := by
    intro text
    have same := @mem_keys_dedupByKey LinkItem
      (fun item => effectiveItemKey .linkLibraries item.toStringItem) [] evaluated text
    simp only [not_mem_nil, false_or] at same
    exact same
  have named : ∀ items : List LinkItem, (∃ item ∈ items, NamesTarget model item library) ↔
      ∃ text, targetIdByNameResolved model text = some library ∧
        ∃ item ∈ items, svTrim item.value = text := by
    intro items
    constructor
    · rintro ⟨item, listed, names⟩
      exact ⟨_, names, item, listed, rfl⟩
    · rintro ⟨_, names, item, listed, rfl⟩
      exact ⟨item, listed, names⟩
  rw [named, exists_congr fun text => and_congr_right fun _ => keys text, ← named]
  constructor
  · rintro ⟨piece, listed, names⟩
    obtain ⟨item, raw, yielded⟩ := (mem_evalSpan span).mp listed
    rcases members.mp raw with root | ⟨node, reaches, other, known, own, visible⟩
    · exact .inl ⟨item, root, piece, yielded, names⟩
    · exact .inr ⟨node, reaches, other, known, item, own, visible, piece, yielded, names⟩
  · rintro (⟨item, root, piece, yielded, names⟩ |
      ⟨node, reaches, other, known, item, own, visible, piece, yielded, names⟩)
    · exact ⟨piece, (mem_evalSpan span).mpr ⟨item, members.mpr (.inl root), yielded⟩, names⟩
    · have raw := members.mpr (.inr ⟨node, reaches, other, known, own, visible⟩)
      exact ⟨piece, (mem_evalSpan span).mpr ⟨item, raw, yielded⟩, names⟩

end Links

/-- The effective link items of a target list every static library of the project that it reaches
through static libraries. -/
def StaticLibrariesListed (genexEval : GenexEval) (model : Model) (ctx : QueryContext)
    (inherited : Bool) (id : TargetId) (target : TargetRecord) (effective : List LinkItem) : Prop :=
  ∀ library, StaticallyReaches genexEval model ctx inherited id target library →
    LocalStaticLibrary model library → ∃ item ∈ effective, NamesTarget model item library

/-- For every model, target and context, whether or not the link items of directories and the
global state count as the target's own: the effective link items list every static library that
the target reaches through static libraries exactly when each one that a reached static library
links also surfaces, by a link item of the target or its surroundings or by one that is not
private. -/
theorem static_libraries_listed_iff {genexEval : GenexEval} {model : Model} {ctx : QueryContext}
    {id : TargetId} {target : TargetRecord} {effective : List LinkItem} (inherited : Bool)
    (inside : model.targets[id]? = some target)
    (success : targetEffectiveLinkItems genexEval model ctx id = some effective) :
    StaticLibrariesListed genexEval model ctx inherited id target effective ↔
    ∀ node library, StaticallyReaches genexEval model ctx inherited id target node →
      StaticallyLinks genexEval model ctx node library → LocalStaticLibrary model library →
        Surfaces genexEval model ctx id target library := by
  constructor
  · intro listed node library reaches links isLocal
    exact (targetEffectiveLinkItems_names inside success).mp
      (listed library (reaches.tail links) isLocal)
  · rintro surfaces library ⟨seed, ⟨item, listed, leads⟩, path⟩ isLocal
    rw [targetEffectiveLinkItems_names inside success]
    rcases Relation.ReflTransGen.cases_tail path with rfl | ⟨node, before, links⟩
    · exact .inl ⟨item, mem_rootLinkItems_of_using listed, leads⟩
    · exact surfaces node library ⟨seed, ⟨item, listed, leads⟩, before⟩ links isLocal

/-- With a public link between the libraries, the query of the executable has a result. -/
theorem static_libraries_listed_iff_publicChain :
    ∃ target effective, (libraryChainModel .publicItem).targets[0]? = some target ∧
      targetEffectiveLinkItems plainGenexEval (libraryChainModel .publicItem)
        { usageMode := .link } 0 = some effective ∧
      (StaticLibrariesListed plainGenexEval (libraryChainModel .publicItem)
          { usageMode := .link } false 0 target effective ↔
        ∀ node library, StaticallyReaches plainGenexEval (libraryChainModel .publicItem)
            { usageMode := .link } false 0 target node →
          StaticallyLinks plainGenexEval (libraryChainModel .publicItem) { usageMode := .link }
            node library → LocalStaticLibrary (libraryChainModel .publicItem) library →
            Surfaces plainGenexEval (libraryChainModel .publicItem) { usageMode := .link } 0
              target library) := by
  have queried : (targetEffectiveLinkItems plainGenexEval (libraryChainModel .publicItem)
      { usageMode := .link } 0).isSome = true := by decide +kernel
  obtain ⟨effective, success⟩ := isSome_iff_exists.mp queried
  exact ⟨_, effective, rfl, success, static_libraries_listed_iff false rfl success⟩

/-- With a private link between the libraries, the executable is linked without the one behind. -/
theorem privateChain_unlisted :
    ∃ target effective, (libraryChainModel .privateItem).targets[0]? = some target ∧
      targetEffectiveLinkItems plainGenexEval (libraryChainModel .privateItem)
        { usageMode := .link } 0 = some effective ∧
      ¬ StaticLibrariesListed plainGenexEval (libraryChainModel .privateItem)
          { usageMode := .link } false 0 target effective := by
  have queried : targetEffectiveLinkItems plainGenexEval (libraryChainModel .privateItem)
      { usageMode := .link } 0 = some [targetRefItem "core" 1 .privateItem] := by
    decide +kernel
  have core : LeadsTo plainGenexEval (libraryChainModel .privateItem) { usageMode := .link } 0
      (targetRefItem "core" 1 .privateItem) 1 := by
    unfold LeadsTo NamesTarget
    decide +kernel
  have base : LeadsTo plainGenexEval (libraryChainModel .privateItem) { usageMode := .link } 1
      (targetRefItem "base" 2 .privateItem) 2 := by
    unfold LeadsTo NamesTarget
    decide +kernel
  refine ⟨_, _, rfl, queried, fun listed => ?_⟩
  have reached := listed 2 ⟨1, ⟨_, by decide +kernel, core⟩,
    .single ⟨_, rfl, rfl, _, mem_singleton.mpr rfl, base⟩⟩
  obtain ⟨item, member, names⟩ := reached ⟨_, rfl, rfl, rfl, rfl⟩
  obtain rfl := mem_singleton.mp member
  have named : targetIdByNameResolved (libraryChainModel .privateItem)
      (svTrim (targetRefItem "core" 1 .privateItem).value) ≠ some 2 := by decide +kernel
  exact named names

end Nobify.BuildModel
