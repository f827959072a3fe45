import Nobify.BuildModel.LinkLaw
import Nobify.Codegen.Arguments
import Nobify.Lib.FirstMet

/-!
# The order of linked libraries

A linker that reads static libraries once needs each of them in front of those that it links.
`cg_collect_link_library_args` names the link items of the target first and then those of its
libraries depth first, and of equal arguments the first one stays, twice over: equal texts are
dropped by the query and equal arguments by the generator. So a library stays where it is named
first, and that may be in front of a library that links it.
-/

namespace Nobify.Codegen

open BuildModel Lib
open List Option
open Option (bind_eq_bind bind_eq_some_iff map_eq_some_iff)

/-! ## Items of one key -/

/-- When equal keys mean equal words, dropping later items of a key drops no first occurrence. -/
theorem firsts_dedupByKey {ι β : Type} [DecidableEq β] {key : ι → StringView} {words : ι → List β}
    {items : List ι} {seenKeys : List StringView} {start : List β}
    (same : ∀ first ∈ items, ∀ second ∈ items, key first = key second → words first = words second)
    (seen : ∀ item ∈ items, key item ∈ seenKeys → ∀ word ∈ words item, word ∈ start) :
    firsts start ((dedupByKey key seenKeys items).flatMap words) =
      firsts start (items.flatMap words) := by
  induction items generalizing seenKeys start with
  | nil => rfl
  | cons item rest ih =>
    have sameRest : ∀ first ∈ rest, ∀ second ∈ rest,
        key first = key second → words first = words second := fun first inFirst second inSecond =>
      same first (mem_cons_of_mem _ inFirst) second (mem_cons_of_mem _ inSecond)
    unfold dedupByKey
    by_cases old : key item ∈ seenKeys
    · have nothing : firsts start (words item) = [] :=
        firsts_eq_nil (seen item mem_cons_self old)
      rw [if_pos old, flatMap_cons, firsts_append, nothing, nil_append, append_nil]
      exact ih sameRest fun other member => seen other (mem_cons_of_mem _ member)
    · rw [if_neg old, flatMap_cons, flatMap_cons, firsts_append, firsts_append]
      refine congrArg _ (ih sameRest ?_)
      intro other member known word written
      have found : word ∈ start ∨ word ∈ words item := by
        rcases mem_append.mp known with early | here
        · exact .inl (seen other (mem_cons_of_mem _ member) early word written)
        · have equal := same other (mem_cons_of_mem _ member) item mem_cons_self
            (mem_singleton.mp here)
          exact .inr (equal ▸ written)
      by_cases early : word ∈ start
      · exact mem_append_left _ early
      · exact mem_append_right _ (mem_firsts.mpr ⟨found.resolve_left early, early⟩)

namespace Context

variable (ctx : Context) (qctx : QueryContext) (id : TargetId) (target : TargetRecord)

/-! ## Names in the link of a target -/

/-- The argument of an evaluated link item is the one that its text alone gives. Freeze resolves the
items that refer to a target by their texts. -/
def GivenByText (item : LinkItem) : Prop :=
  ctx.linkLibraryArg qctx item =
    ctx.linkLibraryArg qctx { value := svTrim item.value, visibility := .publicItem }

/-- The arguments of a link item in the link of a target. -/
def linkItemArgs (item : LinkItem) : List StringView :=
  (itemPieces ctx.genexEval ctx.model.toModel qctx (linkFamily ctx.model.toModel) id item).flatMap
    fun piece => (ctx.linkLibraryArg qctx piece).getD []

/-- The arguments of the link items that a dependency names, of those that are not private. -/
def interfaceLinkArgs (node : TargetId) : List StringView :=
  (collectAt ctx.model.toModel (collectTargetLinkItems true) node).flatMap
    (ctx.linkItemArgs qctx id)

/-- The arguments of the link items that the target and its surroundings name. -/
def rootLinkArgs : List StringView :=
  (rootLinkItems ctx.model.toModel target).flatMap (ctx.linkItemArgs qctx id)

/-- The targets that these link items refer to. -/
def rootLinkTargets : List TargetId :=
  ((rootLinkLibrarySeeds ctx.genexEval ctx.model.toModel qctx id target).getD []).filterMap
    LinkItem.targetId

/-- An argument is named in the link of the target: by the target, or by a dependency that link
items lead to. -/
def NamedInLink (arg : StringView) : Prop :=
  arg ∈ ctx.rootLinkArgs qctx id target ∨ ∃ seed ∈ ctx.rootLinkTargets qctx id target,
      NamedBelow (linkEdges ctx.genexEval ctx.model.toModel qctx) (ctx.interfaceLinkArgs qctx id)
        seed arg

/-- Of two arguments the first one is named first: go from the target to the first dependency from
which link items lead to one of them, until the link items of a target or dependency name one. -/
def NamedFirst (first second : StringView) : Prop :=
  MeetsFirst (linkEdges ctx.genexEval ctx.model.toModel qctx) (ctx.interfaceLinkArgs qctx id)
    first second (ctx.rootLinkArgs qctx id target) (ctx.rootLinkTargets qctx id target)

/-- The link items of a target and of what they lead to make a graph without cycles, in which an
argument is given by a text. -/
structure LinkGraph : Prop where
  acyclic : ∀ node, ¬Relation.TransGen
    (LinksBy ctx.genexEval ctx.model.toModel qctx fun _ => True) node node
  rootless : ¬ReachesBy ctx.genexEval ctx.model.toModel qctx id
    (rootLinkItems ctx.model.toModel target) (fun _ => True) id
  byText : ∀ item, (item ∈ rootLinkItems ctx.model.toModel target ∨
      ∃ node, ReachesBy ctx.genexEval ctx.model.toModel qctx id
          (rootLinkItems ctx.model.toModel target) (fun _ => True) node ∧
        ∃ other, ctx.model.targets[node]? = some other ∧ item ∈ other.linkLibraries ∧
          item.visibility ≠ .privateItem) →
    ∀ piece ∈ itemPieces ctx.genexEval ctx.model.toModel qctx (linkFamily ctx.model.toModel) id
      item, ctx.GivenByText qctx piece

/-- A static library of the project links another one by a link item that is not private. -/
structure StaticLink (first second : ResolvedTargetRef) : Prop where
  known : ctx.resolveTargetId qctx first.targetId = some first
  firstStatic : first.targetKind = .staticLibrary ∧ first.imported = false
  secondStatic : second.targetKind = .staticLibrary ∧ second.imported = false
  links : ∃ library, ctx.model.targets[first.targetId]? = some library ∧
    ∃ item ∈ library.linkLibraries, item.visibility ≠ .privateItem ∧
      ∃ piece ∈ itemPieces ctx.genexEval ctx.model.toModel qctx (linkFamily ctx.model.toModel) id
        item, ctx.resolveLinkItemRef qctx piece = some second

/-- Listed static libraries come after the listed ones that link them. -/
def LinkOrdered (args : List StringView) : Prop :=
  ∀ first second, ctx.StaticLink qctx id first second → first.linkPath ∈ args →
    second.linkPath ∈ args → Before first.linkPath second.linkPath args

variable {ctx qctx id target}

/-! ## Arguments -/

/-- The texts of evaluated link items are the keys by which equal ones are dropped. -/
theorem GivenByText.eq {first second : LinkItem} (ofFirst : ctx.GivenByText qctx first)
    (ofSecond : ctx.GivenByText qctx second)
    (same : effectiveItemKey .linkLibraries first.toStringItem =
      effectiveItemKey .linkLibraries second.toStringItem) :
    ctx.linkLibraryArg qctx first = ctx.linkLibraryArg qctx second := by
  have texts : svTrim first.value = svTrim second.value := same
  rw [ofFirst, ofSecond, texts]

variable {config : StringView} {args : List StringView} {rawItems : List LinkItem}

/-- The arguments are the first occurrences of what the raw link items give. -/
theorem linkLibraryArgs_eq
    (collected : rawEffectiveLinkItems ctx.genexEval ctx.model.toModel (ctx.makeQueryCtx (some id)
      .link config []) id = some rawItems)
    (byText : ∀ item ∈ rawItems, ∀ piece ∈ itemPieces ctx.genexEval ctx.model.toModel
      (ctx.makeQueryCtx (some id) .link config []) (linkFamily ctx.model.toModel) id item,
      ctx.GivenByText (ctx.makeQueryCtx (some id) .link config []) piece)
    (built : ctx.linkLibraryArgs id config = some args) :
    args = firsts [] (rawItems.flatMap
      (ctx.linkItemArgs (ctx.makeQueryCtx (some id) .link config []) id)) := by
  simp only [linkLibraryArgs, bind_eq_bind, bind_eq_some_iff, Option.pure_def] at built
  obtain ⟨items, queried, parts, mapped, same⟩ := built
  obtain ⟨raw, found, rest⟩ := bind_eq_some_iff.mp queried
  obtain rfl := some.inj (collected.symm.trans found)
  obtain ⟨evaluated, span, rfl⟩ := map_eq_some_iff.mp rest
  have pieces : evaluated = rawItems.flatMap (itemPieces ctx.genexEval ctx.model.toModel
      (ctx.makeQueryCtx (some id) .link config []) (linkFamily ctx.model.toModel) id) := by
    obtain ⟨lists, evaluates, rfl⟩ := map_eq_some_iff.mp span
    exact flatten_of_mapM_eq_some evaluates
  have plain : ∀ piece ∈ evaluated,
      ctx.GivenByText (ctx.makeQueryCtx (some id) .link config []) piece := by
    intro piece member
    rw [pieces] at member
    obtain ⟨item, listed, yielded⟩ := mem_flatMap.mp member
    exact byText item listed piece yielded
  have kept := @firsts_dedupByKey _ _ _
    (fun item : LinkItem => effectiveItemKey .linkLibraries item.toStringItem)
    (fun piece => (ctx.linkLibraryArg (ctx.makeQueryCtx (some id) .link config []) piece).getD [])
    evaluated [] [] ?_ fun _ _ none => nomatch none
  · rw [← some.inj same, foldl_pushUnique, nil_append, flatten_of_mapM_eq_some mapped,
      kept, pieces, flatMap_assoc]
    rfl
  · intro first inFirst second inSecond equal
    rw [(plain first inFirst).eq (plain second inSecond) equal]

/-- The raw link items give what a walk over the named arguments collects. -/
theorem rawEffectiveLinkItems_walk (inside : ctx.model.targets[id]? = some target)
    (collected : rawEffectiveLinkItems ctx.genexEval ctx.model.toModel qctx id = some rawItems) :
    ∃ after : Walk TargetId StringView,
      walkFrom (linkEdges ctx.genexEval ctx.model.toModel qctx) (ctx.interfaceLinkArgs qctx id)
          ctx.model.targets.length (ctx.rootLinkTargets qctx id target)
          ⟨[id], ctx.rootLinkArgs qctx id target⟩ = some after ∧
        after.out = rawItems.flatMap (ctx.linkItemArgs qctx id) := by
  unfold rawEffectiveLinkItems at collected
  rw [inside, bind_some] at collected
  obtain ⟨seeds, seeded, walked⟩ := bind_eq_some_iff.mp collected
  obtain ⟨after, finished, rfl⟩ := map_eq_some_iff.mp walked
  have read := walkFrom_read (ctx.linkItemArgs qctx id) finished
  have targets : ctx.rootLinkTargets qctx id target = seeds.filterMap LinkItem.targetId := by
    unfold rootLinkTargets
    rw [seeded]
    rfl
  have items : ambientLinkItems ctx.model.toModel target ++ collectTargetLinkItems false target =
      rootLinkItems ctx.model.toModel target := by
    simp [rootLinkItems, collectTargetLinkItems, collectItems]
  refine ⟨after.read (ctx.linkItemArgs qctx id), ?_, rfl⟩
  rw [targets, rootLinkArgs, ← items]
  exact read

section Graph

variable (graph : ctx.LinkGraph qctx id target)

include graph

theorem LinkGraph.not_cyclic : ¬Cyclic (linkEdges ctx.genexEval ctx.model.toModel qctx) := by
  rintro ⟨node, path⟩
  exact graph.acyclic node (Relation.TransGen.mono (fun _ _ edge => linksBy_of_edge edge) _ _ path)

theorem LinkGraph.not_reached : ∀ seed ∈ ctx.rootLinkTargets qctx id target,
    ¬Relation.ReflTransGen (Edge (linkEdges ctx.genexEval ctx.model.toModel qctx)) seed id := by
  intro seed member path
  cases seeded : rootLinkLibrarySeeds ctx.genexEval ctx.model.toModel qctx id target with
  | none =>
    unfold rootLinkTargets at member
    rw [seeded] at member
    cases member
  | some seeds =>
    unfold rootLinkTargets at member
    rw [seeded] at member
    refine graph.rootless ⟨seed, (mem_seeds seeded).mp member, ?_⟩
    exact Relation.ReflTransGen.mono (fun _ _ edge => linksBy_of_edge edge) _ _ path

end Graph

/-- What the arguments list, and in which order, is told by the names in the link. -/
theorem linkLibraryArgs_names (inside : ctx.model.targets[id]? = some target)
    (graph : ctx.LinkGraph (ctx.makeQueryCtx (some id) .link config []) id target)
    (built : ctx.linkLibraryArgs id config = some args) :
    (∀ arg, arg ∈ args ↔
        ctx.NamedInLink (ctx.makeQueryCtx (some id) .link config []) id target arg) ∧
      ∀ first second, Before first second args ↔
        ctx.NamedFirst (ctx.makeQueryCtx (some id) .link config []) id target first second := by
  have queried : ∃ items, targetEffectiveLinkItems ctx.genexEval ctx.model.toModel
      (ctx.makeQueryCtx (some id) .link config []) id = some items := by
    simp only [linkLibraryArgs, bind_eq_bind, bind_eq_some_iff] at built
    obtain ⟨items, queried, _⟩ := built
    exact ⟨items, queried⟩
  obtain ⟨items, queried⟩ := queried
  obtain ⟨rawItems, collected, _⟩ := bind_eq_some_iff.mp queried
  have byText : ∀ item ∈ rawItems, _ := fun item member =>
    graph.byText item ((mem_rawEffectiveLinkItems inside collected).mp member)
  obtain ⟨after, walked, out⟩ := rawEffectiveLinkItems_walk inside collected
  have whole := linkLibraryArgs_eq collected byText built
  rw [← out] at whole
  constructor
  · intro arg
    rw [whole, mem_firsts]
    simp only [not_mem_nil, not_false_eq_true, and_true]
    exact mem_walkFrom graph.not_reached walked
  · intro first second
    rw [whole, before_firsts ⟨not_mem_nil, not_mem_nil⟩]
    exact walkFrom_meetsFirst graph.not_cyclic graph.not_reached _ walked

/-- Linked static libraries come after those that link them exactly when each link between two of
them that are named goes from the one that is named first to the other. -/
theorem linkLibraryArgs_ordered_iff {config : StringView} {args : List StringView}
    (inside : ctx.model.targets[id]? = some target)
    (graph : ctx.LinkGraph (ctx.makeQueryCtx (some id) .link config []) id target)
    (built : ctx.linkLibraryArgs id config = some args) :
    ctx.LinkOrdered (ctx.makeQueryCtx (some id) .link config []) id args ↔
      ∀ first second, ctx.StaticLink (ctx.makeQueryCtx (some id) .link config []) id first second →
        ctx.NamedInLink (ctx.makeQueryCtx (some id) .link config []) id target first.linkPath →
        ctx.NamedInLink (ctx.makeQueryCtx (some id) .link config []) id target second.linkPath →
        ctx.NamedFirst (ctx.makeQueryCtx (some id) .link config []) id target first.linkPath
          second.linkPath := by
  obtain ⟨listed, ordered⟩ := linkLibraryArgs_names inside graph built
  unfold LinkOrdered
  simp only [listed, ordered]

end Context

/-! ## Two libraries in either order -/

/-- A target of a generator. -/
def linkInfo (id : TargetId) (kind : TargetKind) (name : String) : TargetInfo where
  id
  resolvedId := some id
  kind
  imported := false
  isAlias := false
  excludeFromAll := false
  emitsArtifact := true
  name := sv name
  ident := makeIdentifier (sv name) id

/-- An executable with these link items. -/
def linkTarget (own : List LinkItem) : TargetRecord where
  name := sv "app"
  kind := .executable
  linkLibraries := own

/-- A static library that links another one publicly. -/
def linkedLibrary : TargetRecord where
  id := 1
  name := sv "A"
  kind := .staticLibrary
  linkLibraries := [targetRefItem "B" 2 .publicItem]

/-- A generator for that executable and two static libraries, the first of which links the second
one publicly. -/
def linkContext (own : List LinkItem) : Context where
  genexEval := plainGenexEval
  cwd := sv "/p"
  model :=
    { targets :=
        [linkTarget own,
          linkedLibrary,
          { id := 2, name := sv "B", kind := .staticLibrary }]
      targetNameIndex := [(sv "app", 0), (sv "A", 1), (sv "B", 2)] }
  sourceRoot := []
  binaryRoot := []
  policy :=
    { platform := .linux, backend := .posix, platformId := sv "Linux", objectSuffix := sv ".o",
      sharedLinkFlag := sv "-shared", moduleLinkFlag := sv "-shared",
      useCompilerDriverForExecutableLink := true, useCompilerDriverForSharedLink := true,
      useCompilerDriverForModuleLink := true }
  cwdAbs := sv "/p"
  sourceRootAbs := sv "/p"
  binaryRootAbs := sv "/p"
  emitPathAbs := sv "/p/nob.c"
  emitDirAbs := sv "/p"
  targets :=
    [linkInfo 0 .executable "app", linkInfo 1 .staticLibrary "A", linkInfo 2 .staticLibrary "B"]

/-- The context of a link of the executable. -/
def linkQuery (own : List LinkItem) : QueryContext :=
  (linkContext own).makeQueryCtx (some 0) .link [] []

/-- The executable names the library that links the other one first. -/
def dependentFirst : List LinkItem :=
  [targetRefItem "A" 1 .privateItem, targetRefItem "B" 2 .privateItem]

/-- The executable names the library that the other one links first. -/
def dependencyFirst : List LinkItem :=
  [targetRefItem "B" 2 .privateItem, targetRefItem "A" 1 .privateItem]

section Example

variable {own : List LinkItem}

/-- A link item of the example stands for itself. -/
theorem itemPieces_targetRef {owner : TargetId} {item : LinkItem}
    (known : item ∈ [targetRefItem "A" 1 .privateItem, targetRefItem "B" 2 .privateItem,
      targetRefItem "B" 2 .publicItem]) :
    itemPieces plainGenexEval (linkContext own).model.toModel (linkQuery own)
      (linkFamily (linkContext own).model.toModel) owner item = [item] := by
  simp only [mem_cons, not_mem_nil, or_false] at known
  rcases known with rfl | rfl | rfl
  · rfl
  · rfl
  · rfl

variable (named : own = dependentFirst ∨ own = dependencyFirst)

include named

/-- The link items of the example. -/
theorem known_of_listed {node : TargetId} {target : TargetRecord} {item : LinkItem}
    (inside : (linkContext own).model.targets[node]? = some target)
    (listed : item ∈ target.linkLibraries) :
    item ∈ [targetRefItem "A" 1 .privateItem, targetRefItem "B" 2 .privateItem,
      targetRefItem "B" 2 .publicItem] := by
  match node, inside with
  | 0, inside =>
    cases inside
    rcases named with rfl | rfl
    · exact mem_of_mem_take (i := 2) listed
    · have either : item = targetRefItem "B" 2 .privateItem ∨
          item = targetRefItem "A" 1 .privateItem := by
        simpa [linkTarget, dependencyFirst] using listed
      rcases either with rfl | rfl
      · simp
      · simp
  | 1, inside =>
    cases inside
    obtain rfl := mem_singleton.mp listed
    simp
  | 2, inside =>
    cases inside
    cases listed

/-- Links of the example lead to later targets. -/
theorem linksBy_lt {node next : TargetId}
    (links : LinksBy plainGenexEval (linkContext own).model.toModel (linkQuery own)
      (fun _ => True) node next) : node < next := by
  obtain ⟨target, inside, item, listed, -, piece, yielded, leads⟩ := links
  have known := known_of_listed named inside listed
  rw [itemPieces_targetRef known] at yielded
  obtain rfl := mem_singleton.mp yielded
  simp only [mem_cons, not_mem_nil, or_false] at known
  match node, inside with
  | 0, inside =>
    rcases known with rfl | rfl | rfl
    all_goals
      cases leads
      decide
  | 1, inside =>
    cases inside
    obtain rfl := mem_singleton.mp listed
    cases leads
    decide
  | 2, inside =>
    cases inside
    cases listed

theorem linkContext_graph : (linkContext own).LinkGraph (linkQuery own) 0 (linkTarget own) := by
  have ascends : ∀ {node last : TargetId}, Relation.ReflTransGen
      (LinksBy plainGenexEval (linkContext own).model.toModel (linkQuery own) fun _ => True)
      node last → node ≤ last := by
    intro node last path
    induction path with
    | refl => exact Nat.le_refl _
    | tail _ links ih => exact Nat.le_of_lt (Nat.lt_of_le_of_lt ih (linksBy_lt named links))
  have inside : (linkContext own).model.targets[0]? = some (linkTarget own) := rfl
  apply Context.LinkGraph.mk
  · intro node path
    obtain ⟨next, links, back⟩ := Relation.TransGen.head'_iff.mp path
    exact Nat.lt_irrefl _ (Nat.lt_of_lt_of_le (linksBy_lt named links) (ascends back))
  · rintro ⟨seed, ⟨item, listed, piece, yielded, leads⟩, path⟩
    have links : LinksBy plainGenexEval (linkContext own).model.toModel (linkQuery own)
        (fun _ => True) 0 seed := ⟨_, inside, item, listed, trivial, piece, yielded, leads⟩
    exact Nat.lt_irrefl _ (Nat.lt_of_lt_of_le (linksBy_lt named links) (ascends path))
  · intro item collected piece yielded
    have known : item ∈ [targetRefItem "A" 1 .privateItem, targetRefItem "B" 2 .privateItem,
        targetRefItem "B" 2 .publicItem] := by
      rcases collected with root | ⟨node, -, other, found, listed, -⟩
      · exact known_of_listed named inside root
      · exact known_of_listed named found listed
    change piece ∈ itemPieces plainGenexEval _ _ _ _ _ at yielded
    rw [itemPieces_targetRef known] at yielded
    obtain rfl := mem_singleton.mp yielded
    simp only [mem_cons, not_mem_nil, or_false] at known
    unfold Context.GivenByText
    rcases named with rfl | rfl
    · rcases known with rfl | rfl | rfl
      all_goals decide +kernel
    · rcases known with rfl | rfl | rfl
      all_goals decide +kernel

end Example

theorem linkLibraryArgs_ordered_iff_dependentFirst :
    (linkContext dependentFirst).LinkOrdered (linkQuery dependentFirst) 0
        [sv "libA.a", sv "libB.a"] ↔
      ∀ first second, (linkContext dependentFirst).StaticLink (linkQuery dependentFirst) 0 first
          second →
        (linkContext dependentFirst).NamedInLink (linkQuery dependentFirst) 0
          (linkTarget dependentFirst) first.linkPath →
        (linkContext dependentFirst).NamedInLink (linkQuery dependentFirst) 0
          (linkTarget dependentFirst) second.linkPath →
        (linkContext dependentFirst).NamedFirst (linkQuery dependentFirst) 0
          (linkTarget dependentFirst) first.linkPath second.linkPath :=
  Context.linkLibraryArgs_ordered_iff rfl (linkContext_graph (.inl rfl)) (by decide +kernel)

/-- A library that the executable names in front of one that links it is listed in front of it. -/
theorem dependencyFirst_disordered :
    ¬∀ (ctx : Context) (id : TargetId) (target : TargetRecord) (config : StringView)
      (args : List StringView), ctx.model.targets[id]? = some target →
      target.kind = .executable ∨ target.kind = .sharedLibrary →
      ctx.LinkGraph (ctx.makeQueryCtx (some id) .link config []) id target →
      ctx.linkLibraryArgs id config = some args →
      ctx.LinkOrdered (ctx.makeQueryCtx (some id) .link config []) id args := by
  intro claimed
  have ordered := claimed (linkContext dependencyFirst) 0 (linkTarget dependencyFirst) []
    [sv "libB.a", sv "libA.a"] rfl (.inl rfl) (linkContext_graph (.inr rfl)) (by decide +kernel)
  have link : (linkContext dependencyFirst).StaticLink (linkQuery dependencyFirst) 0
      ⟨1, .staticLibrary, false, sv "libA.a", sv "libA.a"⟩
      ⟨2, .staticLibrary, false, sv "libB.a", sv "libB.a"⟩ := by
    have known : (linkContext dependencyFirst).resolveTargetId (linkQuery dependencyFirst) 1 =
        some ⟨1, .staticLibrary, false, sv "libA.a", sv "libA.a"⟩ := by decide +kernel
    have inside : (linkContext dependencyFirst).model.targets[1]? = some linkedLibrary := rfl
    refine ⟨known, ⟨rfl, rfl⟩, ⟨rfl, rfl⟩, linkedLibrary, inside, targetRefItem "B" 2 .publicItem,
      mem_singleton_self _, by decide, targetRefItem "B" 2 .publicItem, ?_, ?_⟩
    · change _ ∈ itemPieces plainGenexEval _ _ _ _ _
      rw [itemPieces_targetRef (by simp)]
      exact mem_singleton.mpr rfl
    · decide +kernel
  have placed := ordered _ _ link (by decide) (by decide)
  revert placed
  decide

end Nobify.Codegen
