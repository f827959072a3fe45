import Nobify.BuildModel.Effective
import Nobify.Lib.OptionLoop

/-!
# Visibility of usage requirements

What a target should see: its own items that are not interface-only, and the items that are not
private of the targets it reaches, first by a link item of its own that is not interface-only and
then by link items that are not private. What the effective queries collect is more: all items of
the target, and the walk starts from all its link items and follows all link items of every
dependency. The two are compared here by the keys that the queries tell items apart by.

Freeze has resolved the targets of link items through aliases, so a link leads to the target that
an alias stands for.
-/

namespace Nobify.BuildModel

open List Option
open Option (bind_eq_some_iff map_eq_some_iff)

variable {id next node : TargetId} {target : TargetRecord} {inherited : Bool}

variable (genexEval : GenexEval) (model : Model) (ctx : QueryContext)

/-! ## Evaluated items -/

/-- The items that one item stands for in the context; none when its evaluation fails. -/
def itemPieces {ι : Type} (family : ItemFamily ι) (ownerTargetId : TargetId) (item : ι) : List ι :=
  (evalItem genexEval model ctx family
    (expandSameFamilyProperty genexEval model ctx family propertyStackCapacity [] ownerTargetId)
    item).getD []

variable {genexEval model ctx}

/-- An evaluated span holds the pieces of its items. -/
theorem mem_evalSpan {ι : Type} {family : ItemFamily ι} {ownerTargetId : TargetId}
    {items evaluated : List ι}
    (success : evalSpan genexEval model ctx family ownerTargetId items = some evaluated)
    {piece : ι} :
    piece ∈ evaluated ↔
      ∃ item ∈ items, piece ∈ itemPieces genexEval model ctx family ownerTargetId item := by
  obtain ⟨parts, mapped, rfl⟩ := map_eq_some_iff.mp success
  rw [mem_flatten]
  constructor
  · rintro ⟨part, member, inside⟩
    obtain ⟨item, listed, value⟩ := (Lib.mem_of_mapM_eq_some mapped).mp member
    exact ⟨item, listed, by simpa [itemPieces, value] using inside⟩
  · rintro ⟨item, listed, inside⟩
    have defined := Lib.mapM_isSome_iff.mp (by rw [mapped]; rfl) item listed
    obtain ⟨part, value⟩ := isSome_iff_exists.mp defined
    refine ⟨part, (Lib.mem_of_mapM_eq_some mapped).mpr ⟨item, listed, value⟩, ?_⟩
    simpa [itemPieces, value] using inside

/-- Removing later items of a key keeps the keys. -/
theorem mem_keys_dedupByKey {ι : Type} {key : ι → StringView} {seenKeys : List StringView}
    {items : List ι} {text : StringView} :
    (text ∈ seenKeys ∨ ∃ item ∈ dedupByKey key seenKeys items, key item = text) ↔
      text ∈ seenKeys ∨ ∃ item ∈ items, key item = text := by
  induction items generalizing seenKeys with
  | nil => simp [dedupByKey]
  | cons item rest ih =>
    unfold dedupByKey
    by_cases seen : key item ∈ seenKeys
    · rw [if_pos seen, ih]
      simp only [mem_cons, exists_eq_or_imp]
      constructor
      · rintro (old | later)
        · exact .inl old
        · exact .inr (.inr later)
      · rintro (old | here | later)
        · exact .inl old
        · exact .inl (here ▸ seen)
        · exact .inr later
    · rw [if_neg seen]
      have tail := @ih (seenKeys ++ [key item])
      simp only [mem_append, mem_singleton] at tail
      simp only [mem_cons, exists_eq_or_imp]
      constructor
      · rintro (old | here | later)
        · exact .inl old
        · exact .inr (.inl here)
        · rcases tail.mp (.inr later) with (old | here) | there
          · exact .inl old
          · exact .inr (.inl here.symm)
          · exact .inr (.inr there)
      · rintro (old | here | later)
        · exact .inl old
        · exact .inr (.inl here)
        · rcases tail.mpr (.inr later) with (old | here) | there
          · exact .inl old
          · exact .inr (.inl here.symm)
          · exact .inr (.inr there)

/-! ## Links between targets -/

variable (genexEval model ctx)

/-- Some of the given link items leads from a target to another in the context. -/
def LinksFrom (id : TargetId) (items : List LinkItem) (next : TargetId) : Prop :=
  ∃ item ∈ items, ∃ piece ∈ itemPieces genexEval model ctx (linkFamily model) id item,
    piece.targetId = some next

/-- A link item of an allowed visibility leads from one target to another in the context. -/
def LinksBy (allowed : Visibility → Prop) (node next : TargetId) : Prop :=
  ∃ target, model.targets[node]? = some target ∧
    ∃ item ∈ target.linkLibraries, allowed item.visibility ∧
      ∃ piece ∈ itemPieces genexEval model ctx (linkFamily model) node item,
        piece.targetId = some next

/-- The targets reached first by some of the given link items and then by link items of an
allowed visibility. -/
def ReachesBy (id : TargetId) (first : List LinkItem) (allowed : Visibility → Prop)
    (node : TargetId) : Prop :=
  ∃ seed, LinksFrom genexEval model ctx id first seed ∧
    Relation.ReflTransGen (LinksBy genexEval model ctx allowed) seed node

variable {genexEval model ctx}

/-- The walk goes on exactly along the links of a target. -/
theorem mem_linkEdges {nexts : List TargetId}
    (known : linkEdges genexEval model ctx node = some nexts) :
    next ∈ nexts ↔ LinksBy genexEval model ctx (fun _ => True) node next := by
  obtain ⟨target, inside, rest⟩ := bind_eq_some_iff.mp known
  obtain ⟨evaluated, success, rfl⟩ := map_eq_some_iff.mp rest
  simp only [mem_filterMap]
  constructor
  · rintro ⟨piece, member, leads⟩
    obtain ⟨item, listed, yielded⟩ := (mem_evalSpan success).mp member
    exact ⟨target, inside, item, listed, trivial, piece, yielded, leads⟩
  · rintro ⟨other, same, item, listed, -, piece, yielded, leads⟩
    obtain rfl := some.inj (inside.symm.trans same)
    exact ⟨piece, (mem_evalSpan success).mpr ⟨item, listed, yielded⟩, leads⟩

/-- A walk only follows links. -/
theorem linksBy_of_edge (edge : Lib.Edge (linkEdges genexEval model ctx) node next) :
    LinksBy genexEval model ctx (fun _ => True) node next := by
  obtain ⟨nexts, known, member⟩ := edge
  exact (mem_linkEdges known).mp member

/-- The link items that the walk of a target starts from. -/
def rootLinkItems (model : Model) (target : TargetRecord) : List LinkItem :=
  ambientLinkItems model target ++ target.linkLibraries

/-- The seeds of the walk of a target are what its root link items lead to. -/
theorem mem_seeds {seeds : List LinkItem}
    (success : rootLinkLibrarySeeds genexEval model ctx id target = some seeds) :
    next ∈ seeds.filterMap LinkItem.targetId ↔
      LinksFrom genexEval model ctx id (rootLinkItems model target) next := by
  have items : ambientLinkItems model target ++ collectTargetLinkItems false target =
      rootLinkItems model target := by
    simp [rootLinkItems, collectTargetLinkItems, collectItems]
  unfold rootLinkLibrarySeeds at success
  rw [items] at success
  simp only [mem_filterMap]
  constructor
  · rintro ⟨piece, member, leads⟩
    obtain ⟨item, listed, yielded⟩ := (mem_evalSpan success).mp member
    exact ⟨item, listed, piece, yielded, leads⟩
  · rintro ⟨item, listed, piece, yielded, leads⟩
    exact ⟨piece, (mem_evalSpan success).mpr ⟨item, listed, yielded⟩, leads⟩

/-- Collecting over the dependencies of a target adds, to what was there, what is collected at
the other targets that it reaches by any links. -/
theorem mem_collectDependencies {ι : Type} {collect : TargetRecord → List ι} {seeds : List LinkItem}
    {rawItems collected : List ι} (inside : model.targets[id]? = some target)
    (seeded : rootLinkLibrarySeeds genexEval model ctx id target = some seeds)
    (success : collectDependencies genexEval model ctx collect id seeds rawItems = some collected)
    {item : ι} :
    item ∈ collected ↔ item ∈ rawItems ∨ ∃ node, node ≠ id ∧
      ReachesBy genexEval model ctx id (rootLinkItems model target) (fun _ => True) node ∧
      ∃ other, model.targets[node]? = some other ∧ item ∈ collect other := by
  obtain ⟨walk, walked, rfl⟩ := map_eq_some_iff.mp success
  obtain ⟨added, extended⟩ := Lib.walkFrom_extended walked
  have reached : ∀ node, node ∈ added ↔ node ≠ id ∧
      ReachesBy genexEval model ctx id (rootLinkItems model target) (fun _ => True) node := by
    intro node
    constructor
    · intro member
      refine ⟨fun same => extended.fresh node member (by simp [same]), ?_⟩
      obtain ⟨seed, listed, path⟩ := extended.reached node member
      refine ⟨seed, (mem_seeds seeded).mp listed, ?_⟩
      exact Relation.ReflTransGen.mono (fun _ _ edge => linksBy_of_edge edge) _ _ path
    · rintro ⟨different, seed, first, path⟩
      have fromRoot : ∀ {next}, LinksBy genexEval model ctx (fun _ => True) id next →
          next ∈ seeds.filterMap LinkItem.targetId := by
        rintro next ⟨other, same, link, listed, -, piece, yielded, leads⟩
        obtain rfl := some.inj (inside.symm.trans same)
        exact (mem_seeds seeded).mpr ⟨link, mem_append_right _ listed, piece, yielded, leads⟩
      have visited := extended.visits_path (fun known step => (mem_linkEdges known).mpr step)
        fromRoot ((mem_seeds seeded).mpr first) path
      rw [extended.visited] at visited
      rcases mem_append.mp visited with root | new
      · exact absurd (mem_singleton.mp root) different
      · exact new
  rw [extended.out]
  simp only [mem_append, mem_flatMap, reached]
  refine or_congr_right (exists_congr fun node => ?_)
  rw [and_assoc]
  refine and_congr_right fun _ => and_congr_right fun _ => ?_
  unfold collectAt
  cases model.targets[node]? with
  | none => simp
  | some other => simp

/-! ## What belongs to a target -/

section Law

variable (genexEval model ctx)

/-- The link items of a target by which it uses others: its own that are not interface-only, and,
when they are counted as its own, those of its directories and of the global state. -/
def usingLinkItems (model : Model) (inherited : Bool) (target : TargetRecord) : List LinkItem :=
  (if inherited then ambientLinkItems model target else []) ++
    target.linkLibraries.filter (·.visibility ≠ .interfaceItem)

/-- An item of a reached target that is not private. -/
def OfferedBy (kind : EffectiveKind) (reached : TargetId → Prop) (item : StringItem) : Prop :=
  ∃ node, reached node ∧ ∃ other, model.targets[node]? = some other ∧
    item ∈ stringItemsForKind kind other ∧ item.visibility ≠ .privateItem

/-- The items that a target should see: those of its directories and the global state, its own
that are not interface-only, and what is offered by the targets it uses. -/
def Belongs (inherited : Bool) (kind : EffectiveKind) (id : TargetId) (target : TargetRecord)
    (item : StringItem) : Prop :=
  item ∈ ambientItems model kind target ∨
  (item ∈ stringItemsForKind kind target ∧ item.visibility ≠ .interfaceItem) ∨
  OfferedBy model kind (ReachesBy genexEval model ctx id (usingLinkItems model inherited target)
    (· ≠ .privateItem)) item

/-- The items that reach a target otherwise: its own interface-only ones, and what is offered by
targets that only other links lead to, which start at an interface-only link item of the target or
take a private link item of a dependency. -/
def Leaks (inherited : Bool) (kind : EffectiveKind) (id : TargetId) (target : TargetRecord)
    (item : StringItem) : Prop :=
  (item ∈ stringItemsForKind kind target ∧ item.visibility = .interfaceItem) ∨
  OfferedBy model kind (fun node =>
    ReachesBy genexEval model ctx id (rootLinkItems model target) (fun _ => True) node ∧
    ¬ ReachesBy genexEval model ctx id (usingLinkItems model inherited target)
      (· ≠ .privateItem) node) item

/-- An item has a key in the context: one of the items it stands for has it. -/
def HasKey (kind : EffectiveKind) (id : TargetId) (item : StringItem) (key : StringView) : Prop :=
  ∃ piece ∈ itemPieces genexEval model ctx (stringFamily kind) id item,
    effectiveItemKey kind piece = key

/-- By their keys, the effective items are those that belong to the target. -/
def EffectiveItemsBelong (inherited : Bool) (kind : EffectiveKind) (id : TargetId)
    (target : TargetRecord) (effective : List StringItem) : Prop :=
  ∀ key, (∃ item ∈ effective, effectiveItemKey kind item = key) ↔
    ∃ item, Belongs genexEval model ctx inherited kind id target item ∧
      HasKey genexEval model ctx kind id item key

variable {genexEval model ctx}

/-- Links of fewer visibilities from fewer items reach fewer targets. -/
theorem ReachesBy.mono {first more : List LinkItem} {allowed : Visibility → Prop}
    (items : ∀ item ∈ first, item ∈ more)
    (reaches : ReachesBy genexEval model ctx id first allowed node) :
    ReachesBy genexEval model ctx id more (fun _ => True) node := by
  obtain ⟨seed, ⟨item, listed, piece, yielded, leads⟩, path⟩ := reaches
  refine ⟨seed, ⟨item, items item listed, piece, yielded, leads⟩, ?_⟩
  refine Relation.ReflTransGen.mono ?_ _ _ path
  rintro before after ⟨target, inside, link, member, -, rest⟩
  exact ⟨target, inside, link, member, trivial, rest⟩

/-- The link items by which a target uses others are among those the query starts from. -/
theorem mem_rootLinkItems_of_using {item : LinkItem}
    (listed : item ∈ usingLinkItems model inherited target) :
    item ∈ rootLinkItems model target := by
  unfold usingLinkItems at listed
  unfold rootLinkItems
  rcases mem_append.mp listed with outer | own
  · cases inherited with
    | true => exact mem_append_left _ outer
    | false => cases outer
  · exact mem_append_right _ (mem_of_mem_filter own)

/-- What belongs to a target in one of the readings is its own, of its surroundings, or offered
by targets that some links lead to. -/
theorem Belongs.collected {kind : EffectiveKind} {item : StringItem}
    (belongs : Belongs genexEval model ctx inherited kind id target item) :
    item ∈ ambientItems model kind target ∨ item ∈ stringItemsForKind kind target ∨
      OfferedBy model kind (ReachesBy genexEval model ctx id (rootLinkItems model target)
        fun _ => True) item := by
  rcases belongs with ambient | ⟨own, -⟩ | ⟨node, reaches, offered⟩
  · exact .inl ambient
  · exact .inr (.inl own)
  · exact .inr (.inr ⟨node, reaches.mono fun _ => mem_rootLinkItems_of_using, offered⟩)

/-- The keys of the effective items of a target are those of the items of its surroundings, of
all its own items, and of what is offered by the targets that any links lead to. -/
theorem targetEffectiveItems_keys {kind : EffectiveKind} {effective : List StringItem}
    (inside : model.targets[id]? = some target)
    (success : targetEffectiveItems genexEval model ctx id kind = some effective) {key :
      StringView} :
    (∃ item ∈ effective, effectiveItemKey kind item = key) ↔
      ∃ item, (item ∈ ambientItems model kind target ∨ item ∈ stringItemsForKind kind target ∨
        OfferedBy model kind (ReachesBy genexEval model ctx id (rootLinkItems model target)
          fun _ => True) item) ∧
        HasKey genexEval model ctx kind id item key := by
  obtain ⟨rawItems, collected, rest⟩ := bind_eq_some_iff.mp success
  obtain ⟨evaluated, span, rfl⟩ := map_eq_some_iff.mp rest
  unfold rawEffectiveItems at collected
  rw [inside, bind_some] at collected
  obtain ⟨seeds, seeded, walked⟩ := bind_eq_some_iff.mp collected
  have members : ∀ item, item ∈ rawItems ↔
      item ∈ ambientItems model kind target ∨ item ∈ stringItemsForKind kind target ∨
        OfferedBy model kind (ReachesBy genexEval model ctx id (rootLinkItems model target)
          fun _ => True) item := by
    intro item
    rw [mem_collectDependencies inside seeded walked]
    simp only [mem_append, collectTargetItems, collectItems, Bool.false_and, Bool.not_false,
      filter_true, Bool.true_and, mem_filter, id_eq, Bool.not_eq_true',
      decide_eq_false_iff_not]
    constructor
    · rintro ((ambient | own) | ⟨node, -, reaches, other, known, listed, visible⟩)
      · exact .inl ambient
      · exact .inr (.inl own)
      · exact .inr (.inr ⟨node, reaches, other, known, listed, visible⟩)
    · rintro (ambient | own | ⟨node, reaches, other, known, listed, visible⟩)
      · exact .inl (.inl ambient)
      · exact .inl (.inr own)
      · by_cases same : node = id
        · subst same
          obtain rfl := some.inj (inside.symm.trans known)
          exact .inl (.inr listed)
        · exact .inr ⟨node, same, reaches, other, known, listed, visible⟩
  have keys := @mem_keys_dedupByKey _ (effectiveItemKey kind) [] evaluated key
  simp only [not_mem_nil, false_or] at keys
  rw [keys]
  simp only [mem_evalSpan span, members, HasKey]
  constructor
  · rintro ⟨piece, ⟨item, source, yielded⟩, same⟩
    exact ⟨item, source, piece, yielded, same⟩
  · rintro ⟨item, source, piece, yielded, same⟩
    exact ⟨piece, ⟨item, source, yielded⟩, same⟩

end Law

/-- For every model, target, context and kind, whether or not the link items of directories and
the global state count as the target's own: the effective items are those that belong to the
target exactly when every key of an item that reaches it otherwise is also the key of one that
belongs. -/
theorem effective_items_belong_iff {genexEval : GenexEval} {model : Model} {ctx : QueryContext}
    {id : TargetId} {target : TargetRecord} {effective : List StringItem} (inherited : Bool)
    (kind : EffectiveKind) (inside : model.targets[id]? = some target)
    (success : targetEffectiveItems genexEval model ctx id kind = some effective) :
    EffectiveItemsBelong genexEval model ctx inherited kind id target effective ↔
    ∀ leaking, Leaks genexEval model ctx inherited kind id target leaking →
      ∀ key, HasKey genexEval model ctx kind id leaking key →
        ∃ item, Belongs genexEval model ctx inherited kind id target item ∧
          HasKey genexEval model ctx kind id item key := by
  constructor
  · intro same leaking leaks key has
    refine (same key).mp ((targetEffectiveItems_keys inside success).mpr ⟨leaking, ?_, has⟩)
    rcases leaks with ⟨own, -⟩ | ⟨node, ⟨reaches, -⟩, offered⟩
    · exact .inr (.inl own)
    · exact .inr (.inr ⟨node, reaches, offered⟩)
  · intro covered key
    rw [targetEffectiveItems_keys inside success]
    constructor
    · rintro ⟨item, ambient | own | ⟨node, reaches, offered⟩, has⟩
      · exact ⟨item, .inl ambient, has⟩
      · by_cases visible : item.visibility = .interfaceItem
        · exact covered item (.inl ⟨own, visible⟩) key has
        · exact ⟨item, .inr (.inl ⟨own, visible⟩), has⟩
      · by_cases used : ReachesBy genexEval model ctx id (usingLinkItems model inherited target)
            (· ≠ .privateItem) node
        · exact ⟨item, .inr (.inr ⟨node, used, offered⟩), has⟩
        · exact covered item (.inr ⟨node, ⟨reaches, used⟩, offered⟩) key has
    · rintro ⟨item, belongs, has⟩
      exact ⟨item, belongs.collected, has⟩

/-- A link item that refers to a target, as freeze leaves it. -/
def targetRefItem (name : String) (targetId : TargetId) (visibility : Visibility) : LinkItem where
  value := sv name
  visibility
  semantic := { kind := .targetRef, value := sv name, targetName := sv name }
  targetId := some targetId

/-- An executable that links a static library, which links another static library with a public
definition by a link item of the given visibility. -/
def libraryChainModel (visibility : Visibility) : Model where
  targets := [
    { name := sv "app", kind := .executable, linkLibraries := [targetRefItem "core" 1 .privateItem] },
    { id := 1, name := sv "core", kind := .staticLibrary
      linkLibraries := [targetRefItem "base" 2 visibility] },
    { id := 2, name := sv "base", kind := .staticLibrary
      compileDefinitions := [{ value := sv "BASE", visibility := .publicItem }] }]
  targetNameIndex := [(sv "app", 0), (sv "core", 1), (sv "base", 2)]

/-- With a public link, the query of the executable has a result. -/
theorem effective_items_belong_iff_publicChain :
    ∃ target effective, (libraryChainModel .publicItem).targets[0]? = some target ∧
      targetEffectiveItems plainGenexEval (libraryChainModel .publicItem) {} 0
        .compileDefinitions = some effective ∧
      (EffectiveItemsBelong plainGenexEval (libraryChainModel .publicItem) {} false
          .compileDefinitions 0 target effective ↔
        ∀ leaking, Leaks plainGenexEval (libraryChainModel .publicItem) {} false
            .compileDefinitions 0 target leaking →
          ∀ key, HasKey plainGenexEval (libraryChainModel .publicItem) {} .compileDefinitions 0
              leaking key →
            ∃ item, Belongs plainGenexEval (libraryChainModel .publicItem) {} false
                .compileDefinitions 0 target item ∧
              HasKey plainGenexEval (libraryChainModel .publicItem) {} .compileDefinitions 0
                item key) := by
  have queried : (targetEffectiveItems plainGenexEval (libraryChainModel .publicItem) {} 0
      .compileDefinitions).isSome = true := by decide +kernel
  obtain ⟨effective, success⟩ := isSome_iff_exists.mp queried
  exact ⟨_, effective, rfl, success, effective_items_belong_iff false _ rfl success⟩

/-- With a private link between the libraries, no definition belongs to the executable. -/
theorem privateChain_belongs_none {item : StringItem}
    (inside : (libraryChainModel .privateItem).targets[0]? = some target) :
    ¬ Belongs plainGenexEval (libraryChainModel .privateItem) {} inherited .compileDefinitions 0
      target item := by
  cases inside
  rintro (ambient | ⟨own, -⟩ |
    ⟨node, ⟨seed, ⟨link, listed, piece, yielded, leads⟩, path⟩, other, known, offered, -⟩)
  · simp [ambientItems, libraryChainModel, usageItemsForKind, directoryChain,
      directoryChainGo] at ambient
  · cases own
  · have first : link = targetRefItem "core" 1 .privateItem := by
      cases inherited <;> simpa [usingLinkItems, ambientLinkItems, libraryChainModel,
        directoryChain, directoryChainGo, targetRefItem] using listed
    subst first
    have pieces : itemPieces plainGenexEval (libraryChainModel .privateItem) {}
        (linkFamily (libraryChainModel .privateItem)) 0 (targetRefItem "core" 1 .privateItem) =
          [targetRefItem "core" 1 .privateItem] := by decide +kernel
    rw [pieces, mem_singleton] at yielded
    subst yielded
    cases leads
    rcases Relation.ReflTransGen.cases_head path with
      rfl | ⟨next, ⟨core, same, onward, member, visible, -⟩, -⟩
    · cases known
      cases offered
    · cases same
      obtain rfl := mem_singleton.mp member
      exact visible rfl

/-- With a private link between the libraries, the executable still sees the definition of the
one behind. -/
theorem privateChain_leaks :
    ∃ target effective, (libraryChainModel .privateItem).targets[0]? = some target ∧
      targetEffectiveItems plainGenexEval (libraryChainModel .privateItem) {} 0
        .compileDefinitions = some effective ∧
      ¬ EffectiveItemsBelong plainGenexEval (libraryChainModel .privateItem) {} false
          .compileDefinitions 0 target effective ∧
      ¬ EffectiveItemsBelong plainGenexEval (libraryChainModel .privateItem) {} true
          .compileDefinitions 0 target effective := by
  have queried : targetEffectiveItems plainGenexEval (libraryChainModel .privateItem) {} 0
      .compileDefinitions = some [{ value := sv "BASE", visibility := .publicItem }] := by
    decide +kernel
  have seen : ∃ item ∈ [({ value := sv "BASE", visibility := .publicItem } : StringItem)],
      effectiveItemKey .compileDefinitions item = sv "BASE" :=
    ⟨_, mem_singleton.mpr rfl, by decide +kernel⟩
  refine ⟨_, _, rfl, queried, fun belong => ?_, fun belong => ?_⟩
  · obtain ⟨item, belongs, -⟩ := (belong (sv "BASE")).mp seen
    exact privateChain_belongs_none rfl belongs
  · obtain ⟨item, belongs, -⟩ := (belong (sv "BASE")).mp seen
    exact privateChain_belongs_none rfl belongs

end Nobify.BuildModel
