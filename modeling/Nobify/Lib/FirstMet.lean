import Nobify.Lib.Firsts
import Nobify.Lib.Walk

/-!
# Which of two names a walk meets first

A walk with a visited set that collects the names of its nodes meets one of two names before the
other. In a graph without cycles that is told by the graph alone: from the start go on to the first
successor that leads to one of the two names, until a node has one of them itself.
-/

namespace Nobify.Lib

open List Option

variable {fuel : Nat}

/-! ## Places in lists -/

section Places

variable {α β : Type} [DecidableEq α] [DecidableEq β] {first second : α}

/-- A name is in the list, and the other one is not in front of it. -/
def Before (first second : α) (names : List α) : Prop :=
  names.idxOf first < names.idxOf second

instance (first second : α) (names : List α) : Decidable (Before first second names) :=
  inferInstanceAs (Decidable (_ < _))

/-- Neither of two names is in the list. -/
def Absent (first second : α) (names : List α) : Prop := first ∉ names ∧ second ∉ names

theorem not_before_of_absent {names : List α} (absent : Absent first second names) :
    ¬Before first second names := by
  unfold Before
  rw [idxOf_eq_length_iff.mpr absent.1, idxOf_eq_length_iff.mpr absent.2]
  exact Nat.lt_irrefl _

/-- Behind a part without the two names their order is that of the rest. -/
theorem before_append_of_absent {front : List α} (absent : Absent first second front)
    (back : List α) : Before first second (front ++ back) ↔ Before first second back := by
  unfold Before
  rw [idxOf_append_of_notMem absent.1, idxOf_append_of_notMem absent.2]
  omega

/-- The part in which one of the names is found decides on their order. -/
theorem before_append_of_present {front : List α} (present : ¬Absent first second front)
    (back : List α) : Before first second (front ++ back) ↔ Before first second front := by
  unfold Before
  by_cases firstIn : first ∈ front
  · have inside := idxOf_lt_length_iff.mpr firstIn
    rw [idxOf_append_of_mem firstIn]
    by_cases secondIn : second ∈ front
    · rw [idxOf_append_of_mem secondIn]
    · rw [idxOf_append_of_notMem secondIn, idxOf_eq_length_iff.mpr secondIn]
      omega
  · have secondIn : second ∈ front := by
      by_contra outside
      exact present ⟨firstIn, outside⟩
    have inside := idxOf_lt_length_iff.mpr secondIn
    rw [idxOf_append_of_mem secondIn, idxOf_append_of_notMem firstIn,
      idxOf_eq_length_iff.mpr firstIn]
    omega

/-- First occurrences keep their order. -/
theorem before_firsts {seen : List α} (absent : Absent first second seen) (names : List α) :
    Before first second (firsts seen names) ↔ Before first second names := by
  induction names generalizing seen with
  | nil => rfl
  | cons head rest ih =>
    by_cases other : Absent first second [head]
    · have apart := before_append_of_absent other rest
      rw [singleton_append] at apart
      by_cases old : head ∈ seen
      · rw [firsts_cons_of_mem rest old, ih absent, apart]
      · have longer : Absent first second (seen ++ [head]) := by
          unfold Absent at *
          simp only [mem_append, not_or]
          exact ⟨⟨absent.1, other.1⟩, absent.2, other.2⟩
        have kept := before_append_of_absent other (firsts (seen ++ [head]) rest)
        rw [singleton_append] at kept
        rw [firsts_cons_of_notMem rest old, kept, ih longer, apart]
    · have fresh : head ∉ seen := by
        intro old
        apply other
        constructor
        · rintro found
          exact absent.1 (mem_singleton.mp found ▸ old)
        · rintro found
          exact absent.2 (mem_singleton.mp found ▸ old)
      have kept := before_append_of_present other (firsts (seen ++ [head]) rest)
      have whole := before_append_of_present other rest
      rw [singleton_append] at kept whole
      rw [firsts_cons_of_notMem rest fresh, kept, whole]

end Places

/-! ## Reading a graph -/

section Reading

variable {ν β : Type} (edges : ν → Option (List ν)) (names : ν → List β)

/-- A name is found at the node or at one that it leads to. -/
def NamedBelow (node : ν) (name : β) : Prop :=
  ∃ last, Relation.ReflTransGen (Edge edges) node last ∧ name ∈ names last

/-- The node leads to neither of two names. -/
def MeetsNeither (first second : β) (node : ν) : Prop :=
  ¬NamedBelow edges names node first ∧ ¬NamedBelow edges names node second

variable {edges names} {first second : β}

theorem NamedBelow.head {node next : ν} {name : β} (edge : Edge edges node next)
    (leads : NamedBelow edges names next name) : NamedBelow edges names node name := by
  obtain ⟨last, path, named⟩ := leads
  exact ⟨last, .head edge path, named⟩

theorem NamedBelow.trans {node next : ν} {name : β}
    (path : Relation.ReflTransGen (Edge edges) node next)
    (leads : NamedBelow edges names next name) : NamedBelow edges names node name := by
  obtain ⟨last, further, named⟩ := leads
  exact ⟨last, path.trans further, named⟩

theorem MeetsNeither.of_path {node next : ν} (neither : MeetsNeither edges names first second node)
    (path : Relation.ReflTransGen (Edge edges) node next) :
    MeetsNeither edges names first second next :=
  ⟨fun leads => neither.1 (leads.trans path), fun leads => neither.2 (leads.trans path)⟩

variable [DecidableEq β]

variable (edges names) in
/-- The first of two names to be met is the first one, by a reader of its own names who has
successors to go on to. -/
inductive MeetsFirst (first second : β) : List β → List ν → Prop where
  /-- The own names tell. -/
  | here {own : List β} {nexts : List ν} (before : Before first second own) :
    MeetsFirst first second own nexts
  /-- A successor leads to neither name. -/
  | later {own : List β} {next : ν} {rest : List ν} (absent : Absent first second own)
    (neither : MeetsNeither edges names first second next)
    (reads : MeetsFirst first second own rest) : MeetsFirst first second own (next :: rest)
  /-- The first successor that leads to one of the names decides. -/
  | inside {own : List β} {next : ν} {rest onward : List ν} (absent : Absent first second own)
    (leads : ¬MeetsNeither edges names first second next) (known : edges next = some onward)
    (reads : MeetsFirst first second (names next) onward) :
    MeetsFirst first second own (next :: rest)

theorem meetsFirst_of_present {own : List β} (present : ¬Absent first second own)
    (nexts : List ν) : MeetsFirst edges names first second own nexts ↔ Before first second own := by
  constructor
  · intro reads
    cases reads with
    | here before => exact before
    | later absent => exact absurd absent present
    | inside absent => exact absurd absent present
  · exact .here

theorem meetsFirst_nil {own : List β} :
    MeetsFirst edges names first second own [] ↔ Before first second own := by
  constructor
  · rintro ⟨before⟩
    exact before
  · exact .here

theorem meetsFirst_neither {own : List β} {next : ν} (absent : Absent first second own)
    (neither : MeetsNeither edges names first second next) (rest : List ν) :
    MeetsFirst edges names first second own (next :: rest) ↔
      MeetsFirst edges names first second own rest := by
  constructor
  · intro reads
    cases reads with
    | here before => exact absurd before (not_before_of_absent absent)
    | later _ _ reads => exact reads
    | inside _ leads => exact absurd neither leads
  · exact .later absent neither

theorem meetsFirst_inside {own : List β} {next : ν} {onward : List ν}
    (absent : Absent first second own) (leads : ¬MeetsNeither edges names first second next)
    (known : edges next = some onward) (rest : List ν) :
    MeetsFirst edges names first second own (next :: rest) ↔
      MeetsFirst edges names first second (names next) onward := by
  constructor
  · intro reads
    cases reads with
    | here before => exact absurd before (not_before_of_absent absent)
    | later _ neither => exact absurd neither leads
    | inside _ _ found reads =>
      obtain rfl := some.inj (known.symm.trans found)
      exact reads
  · exact .inside absent leads known

end Reading

/-! ## Walks -/

section Walks

variable {ν β : Type} [DecidableEq ν] [DecidableEq β] {edges : ν → Option (List ν)}
  {names : ν → List β} {first second : β}

/-- What is collected may be read item by item. -/
def Walk.read {ι : Type} (read : ι → List β) (walk : Walk ν ι) : Walk ν β :=
  ⟨walk.visited, walk.out.flatMap read⟩

omit [DecidableEq β] in
/-- Reading what a loop collects is looping over what is read, if that is so of visits. -/
theorem foldlM_read {ι : Type} {items : ν → List ι} {read : ι → List β}
    (single : ∀ (node : ν) (walk : Walk ν ι),
      walkNode edges (fun node => (items node).flatMap read) fuel node (walk.read read) =
      (walkNode edges items fuel node walk).map (Walk.read read))
    (nexts : List ν) (walk : Walk ν ι) :
    nexts.foldlM (fun walk next =>
        walkNode edges (fun node => (items node).flatMap read) fuel next walk) (walk.read read) =
      (nexts.foldlM (fun walk next => walkNode edges items fuel next walk) walk).map
        (Walk.read read) := by
  induction nexts generalizing walk with
  | nil => rfl
  | cons next rest ih =>
    rw [foldlM_cons, foldlM_cons, single]
    cases walkNode edges items fuel next walk with
    | none => rfl
    | some middle => exact ih middle

omit [DecidableEq β] in
theorem walkNode_read {ι : Type} {items : ν → List ι} (read : ι → List β) (fuel : Nat) (node : ν)
    (walk : Walk ν ι) :
    walkNode edges (fun node => (items node).flatMap read) fuel node (walk.read read) =
      (walkNode edges items fuel node walk).map (Walk.read read) := by
  have same : (walk.read read).visited = walk.visited := rfl
  induction fuel generalizing node walk with
  | zero =>
    unfold walkNode
    rw [same]
    split
    · rfl
    · rfl
  | succ fuel ih =>
    unfold walkNode
    rw [same]
    split
    · rfl
    · cases edges node with
      | none => rfl
      | some nexts =>
        have first : (⟨walk.visited ++ [node],
            (walk.read read).out ++ (items node).flatMap read⟩ : Walk ν β) =
            Walk.read read ⟨walk.visited ++ [node], walk.out ++ items node⟩ := by
          unfold Walk.read
          rw [flatMap_append]
        dsimp only [bind_some]
        rw [first]
        exact foldlM_read (fun node walk => ih node walk rfl) nexts _

omit [DecidableEq β] in
/-- Reading what a walk collects is walking over what is read. -/
theorem walkFrom_read {ι : Type} {items : ν → List ι} (read : ι → List β) {seeds : List ν}
    {before after : Walk ν ι} (walked : walkFrom edges items fuel seeds before = some after) :
    walkFrom edges (fun node => (items node).flatMap read) fuel seeds (before.read read) =
      some (after.read read) := by
  unfold walkFrom at walked ⊢
  rw [foldlM_read (walkNode_read read fuel), walked, map_some]

/-- Visited nodes that the seeds lead to meet neither of two names. -/
def VisitedNeither (edges : ν → Option (List ν)) (names : ν → List β) (first second : β)
    (seeds visited : List ν) : Prop :=
  ∀ seed ∈ seeds, ∀ node, Relation.ReflTransGen (Edge edges) seed node → node ∈ visited →
    MeetsNeither edges names first second node

omit [DecidableEq ν] [DecidableEq β] in
/-- A walk that did not meet a name started from seeds that do not lead to it, if that is so for the
visited nodes on the way. -/
theorem Extended.not_namedBelow {seeds : List ν} {name : β} {before after : Walk ν β}
    {added : List ν} (extended : Extended edges names seeds before after added) {seed : ν}
    (member : seed ∈ seeds)
    (old : ∀ node, Relation.ReflTransGen (Edge edges) seed node → node ∈ before.visited →
      ¬NamedBelow edges names node name)
    (unmet : name ∉ added.flatMap names) : ¬NamedBelow edges names seed name := by
  -- What is reached from the seed is visited, or leads to the name no longer.
  have reached : ∀ node, Relation.ReflTransGen (Edge edges) seed node →
      node ∈ after.visited ∨ ¬NamedBelow edges names node name := by
    intro node path
    induction path with
    | refl => exact .inl (extended.seeded seed member)
    | @tail parent node path edge ih =>
      rcases ih with seen | silent
      · rw [extended.visited] at seen
        rcases mem_append.mp seen with early | late
        · exact .inr fun leads => old parent path early (leads.head edge)
        · obtain ⟨nexts, known, inside⟩ := extended.closed parent late
          obtain ⟨others, same, found⟩ := edge
          obtain rfl := some.inj (known.symm.trans same)
          exact .inl (inside node found)
      · exact .inr fun leads => silent (leads.head edge)
  rintro ⟨last, path, named⟩
  have own : NamedBelow edges names last name := ⟨last, .refl, named⟩
  rcases reached last path with seen | silent
  · rw [extended.visited] at seen
    rcases mem_append.mp seen with early | late
    · exact old last path early own
    · exact unmet (mem_flatMap.mpr ⟨last, late, named⟩)
  · exact silent own

omit [DecidableEq ν] [DecidableEq β] in
/-- A walk from a node that leads to neither name meets neither. -/
theorem Extended.absent {next : ν} {before after : Walk ν β} {added : List ν}
    (extended : Extended edges names [next] before after added)
    (neither : MeetsNeither edges names first second next) :
    Absent first second (added.flatMap names) := by
  have reached : ∀ node ∈ added, Relation.ReflTransGen (Edge edges) next node := by
    intro node member
    obtain ⟨seed, single, path⟩ := extended.reached node member
    obtain rfl := mem_singleton.mp single
    exact path
  constructor
  · intro met
    obtain ⟨node, member, named⟩ := mem_flatMap.mp met
    exact neither.1 ⟨node, reached node member, named⟩
  · intro met
    obtain ⟨node, member, named⟩ := mem_flatMap.mp met
    exact neither.2 ⟨node, reached node member, named⟩

omit [DecidableEq ν] [DecidableEq β] in
/-- A walk from a node that leads to one of the names meets it. -/
theorem Extended.present {next : ν} {before after : Walk ν β} {added : List ν}
    (extended : Extended edges names [next] before after added)
    (clear : VisitedNeither edges names first second [next] before.visited)
    (leads : ¬MeetsNeither edges names first second next) :
    ¬Absent first second (added.flatMap names) := by
  have single := mem_singleton_self next
  have old := clear next single
  intro absent
  apply leads
  constructor
  · exact extended.not_namedBelow single (fun node path seen => (old node path seen).1) absent.1
  · exact extended.not_namedBelow single (fun node path seen => (old node path seen).2) absent.2

omit [DecidableEq ν] [DecidableEq β] in
/-- Behind the walk from a node that leads to neither name the rest is as clear as before. -/
theorem VisitedNeither.rest {next : ν} {rest : List ν} {before after : Walk ν β} {added : List ν}
    (clear : VisitedNeither edges names first second (next :: rest) before.visited)
    (neither : MeetsNeither edges names first second next)
    (extended : Extended edges names [next] before after added) :
    VisitedNeither edges names first second rest after.visited := by
  intro seed member node path seen
  rw [extended.visited] at seen
  rcases mem_append.mp seen with early | late
  · exact clear seed (mem_cons_of_mem _ member) node path early
  · obtain ⟨start, single, reach⟩ := extended.reached node late
    obtain rfl := mem_singleton.mp single
    exact neither.of_path reach

omit [DecidableEq ν] [DecidableEq β] in
/-- Without cycles a node that is being visited is not met again. -/
theorem VisitedNeither.onward {next : ν} {onward visited : List ν} (acyclic : ¬Cyclic edges)
    (clear : VisitedNeither edges names first second [next] visited)
    (known : edges next = some onward) :
    VisitedNeither edges names first second onward (visited ++ [next]) := by
  intro seed member node path seen
  have edge : Edge edges next seed := ⟨onward, known, member⟩
  rcases mem_append.mp seen with early | late
  · exact clear next (mem_singleton_self next) node (.head edge path) early
  · obtain rfl := mem_singleton.mp late
    exact absurd ⟨node, Relation.TransGen.head' edge path⟩ acyclic

/-- The walk of a loop meets the names in the order that the graph tells, if visits of new nodes
do. -/
theorem foldlM_meetsFirst (single : ∀ {next : ν} {before after : Walk ν β}, next ∉ before.visited →
      VisitedNeither edges names first second [next] before.visited →
      walkNode edges names fuel next before = some after → ∃ onward more, edges next = some onward ∧
      after.out = before.out ++ (names next ++ more) ∧ (Before first second (names next ++ more) ↔
      MeetsFirst edges names first second (names next) onward))
    {seeds : List ν} {before after : Walk ν β} (own : List β)
    (clear : VisitedNeither edges names first second seeds before.visited)
    (walked : seeds.foldlM (fun walk node => walkNode edges names fuel node walk) before =
      some after) :
    ∃ more, after.out = before.out ++ more ∧
      (Before first second (own ++ more) ↔ MeetsFirst edges names first second own seeds) := by
  induction seeds generalizing before with
  | nil =>
    cases walked
    refine ⟨[], (append_nil _).symm, ?_⟩
    rw [append_nil, meetsFirst_nil]
  | cons next rest ih =>
    by_cases absent : Absent first second own
    · rw [foldlM_cons] at walked
      obtain ⟨middle, here, later⟩ := bind_eq_some_iff.mp walked
      obtain ⟨added, extended⟩ := walkNode_extended here
      have start : VisitedNeither edges names first second [next] before.visited := by
        intro seed member
        obtain rfl := mem_singleton.mp member
        exact clear seed mem_cons_self
      by_cases neither : MeetsNeither edges names first second next
      · obtain ⟨more, out, reads⟩ := ih (clear.rest neither extended) later
        refine ⟨added.flatMap names ++ more, ?_, ?_⟩
        · rw [out, extended.out, append_assoc]
        · rw [meetsFirst_neither absent neither, ← reads, before_append_of_absent absent,
            before_append_of_absent (extended.absent neither), before_append_of_absent absent]
      · have fresh : next ∉ before.visited := fun seen =>
          neither (clear next mem_cons_self next .refl seen)
        have met := extended.present start neither
        obtain ⟨onward, more, known, out, reads⟩ := single fresh start here
        have same : names next ++ more = added.flatMap names := by
          have both := out.symm.trans extended.out
          exact append_cancel_left both
        obtain ⟨others, tail⟩ := foldlM_extended walkNode_extended later
        refine ⟨names next ++ more ++ others.flatMap names, ?_, ?_⟩
        · rw [tail.out, out, append_assoc]
        · rw [meetsFirst_inside absent neither known, ← reads, before_append_of_absent absent,
            before_append_of_present (same ▸ met)]
    · obtain ⟨added, extended⟩ := foldlM_extended walkNode_extended walked
      refine ⟨_, extended.out, ?_⟩
      rw [meetsFirst_of_present absent, before_append_of_present absent]

/-- A visit of a new node meets the names in the order that the graph tells. -/
theorem walkNode_meetsFirst (acyclic : ¬Cyclic edges) {next : ν} {before after : Walk ν β}
    (fresh : next ∉ before.visited)
    (clear : VisitedNeither edges names first second [next] before.visited)
    (walked : walkNode edges names fuel next before = some after) :
    ∃ onward more, edges next = some onward ∧ after.out = before.out ++ (names next ++ more) ∧
      (Before first second (names next ++ more) ↔
        MeetsFirst edges names first second (names next) onward) := by
  induction fuel generalizing next before after with
  | zero =>
    unfold walkNode at walked
    rw [if_neg fresh] at walked
    cases walked
  | succ fuel ih =>
    unfold walkNode at walked
    rw [if_neg fresh] at walked
    obtain ⟨onward, known, rest⟩ := bind_eq_some_iff.mp walked
    obtain ⟨more, out, reads⟩ := foldlM_meetsFirst ih (names next) (clear.onward acyclic known) rest
    refine ⟨onward, more, known, ?_, reads⟩
    rw [out, append_assoc]

/-- From a root that no seed leads back to, a walk in a graph without cycles meets first the one of
two names that the graph tells. -/
theorem walkFrom_meetsFirst (acyclic : ¬Cyclic edges) {root : ν} {seeds : List ν}
    (rootless : ∀ seed ∈ seeds, ¬Relation.ReflTransGen (Edge edges) seed root) (own : List β)
    {after : Walk ν β} (walked : walkFrom edges names fuel seeds ⟨[root], own⟩ = some after) :
    Before first second after.out ↔ MeetsFirst edges names first second own seeds := by
  have clear : VisitedNeither edges names first second seeds [root] := by
    intro seed member node path single
    obtain rfl := mem_singleton.mp single
    exact absurd path (rootless seed member)
  obtain ⟨more, out, reads⟩ :=
    foldlM_meetsFirst (walkNode_meetsFirst acyclic) own clear walked
  rw [out]
  exact reads

omit [DecidableEq β] in
/-- From a root that no seed leads back to, a walk meets the names below the seeds. -/
theorem mem_walkFrom {root : ν} {seeds : List ν}
    (rootless : ∀ seed ∈ seeds, ¬Relation.ReflTransGen (Edge edges) seed root) {own : List β}
    {after : Walk ν β} (walked : walkFrom edges names fuel seeds ⟨[root], own⟩ = some after)
    {name : β} :
    name ∈ after.out ↔ name ∈ own ∨ ∃ seed ∈ seeds, NamedBelow edges names seed name := by
  obtain ⟨added, extended⟩ := walkFrom_extended walked
  rw [extended.out, mem_append]
  refine or_congr_right ⟨?_, ?_⟩
  · intro met
    obtain ⟨node, member, named⟩ := mem_flatMap.mp met
    obtain ⟨seed, listed, path⟩ := extended.reached node member
    exact ⟨seed, listed, node, path, named⟩
  · rintro ⟨seed, listed, leads⟩
    by_contra unmet
    refine extended.not_namedBelow listed ?_ unmet leads
    intro node path single
    obtain rfl := mem_singleton.mp single
    exact absurd path (rootless seed listed)

end Walks

end Nobify.Lib
