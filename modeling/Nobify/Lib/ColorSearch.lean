import Mathlib.Data.Finset.Card
import Mathlib.Data.Finset.Filter
import Mathlib.Logic.Relation

/-!
# Three-colour depth-first search

The classical search for a cycle: a node is white until it is visited, gray while its
successors are being visited, and black afterwards; an edge to a gray node is reported. The
successors of a node come from a query that may fail, and then the whole search fails.

For every graph, a search from all nodes that does not fail reports an edge exactly when the
graph has a cycle, and it fails only when the query of a root or of a successor fails. The order
in which nodes are listed and successors are given plays no part.
-/

namespace Nobify.Lib

open List
open Option (bind_eq_some_iff)

variable {fuel : Nat}

variable {ν : Type} (edges : ν → Option (List ν))

/-! ## Graphs given by successor queries -/

/-- The edges of the graph. -/
def Edge (node next : ν) : Prop := ∃ nexts, edges node = some nexts ∧ next ∈ nexts

/-- A node that is a root or a successor of some node. -/
def Named (roots : List ν) (node : ν) : Prop := node ∈ roots ∨ ∃ parent, Edge edges parent node

/-- Some node leads back to itself. -/
def Cyclic : Prop := ∃ node, Relation.TransGen (Edge edges) node node

/-- A path of a relation that leads back to its start stays within another relation, or takes
an edge outside of it that leads back to where the edge starts. -/
theorem path_inside_or_outside {rel : ν → ν → Prop} (within : ν → ν → Prop) {first last : ν}
    (path : Relation.TransGen rel first last) (back : Relation.ReflTransGen rel last first) :
    Relation.TransGen within first last ∨
      ∃ node next, rel node next ∧ ¬ within node next ∧ Relation.ReflTransGen rel next node := by
  induction path with
  | @single last edge =>
    by_cases inside : within first last
    · exact .inl (.single inside)
    · exact .inr ⟨first, last, edge, inside, back⟩
  | @tail middle last path edge ih =>
    rcases ih (.head edge back) with walked | outside
    · by_cases inside : within middle last
      · exact .inl (walked.tail inside)
      · exact .inr ⟨middle, last, edge, inside, (back).trans path.to_reflTransGen⟩
    · exact .inr outside

/-! ## Finishing orders have no cycles -/

/-- Lists of nodes, latest first, in which all successors of a node come after it. -/
inductive FinishingOrder : List ν → Prop where
  | nil : FinishingOrder []
  | cons {node : ν} {nexts order : List ν} (fresh : node ∉ order)
      (known : edges node = some nexts) (inside : ∀ next ∈ nexts, next ∈ order)
      (tail : FinishingOrder order) : FinishingOrder (node :: order)

variable {edges}

/-- Edges do not leave a finishing order. -/
theorem FinishingOrder.closed {order : List ν} (finished : FinishingOrder edges order)
    {node next : ν} (member : node ∈ order) (edge : Edge edges node next) : next ∈ order := by
  induction finished with
  | nil => cases member
  | cons fresh known inside _ ih =>
    rcases mem_cons.mp member with rfl | later
    · obtain ⟨nexts, defined, found⟩ := edge
      obtain rfl := Option.some.inj (known.symm.trans defined)
      exact mem_cons_of_mem _ (inside next found)
    · exact mem_cons_of_mem _ (ih later)

/-- Paths do not leave a finishing order. -/
theorem FinishingOrder.closed_path {order : List ν} (finished : FinishingOrder edges order)
    {node last : ν} (member : node ∈ order)
    (path : Relation.ReflTransGen (Edge edges) node last) : last ∈ order := by
  induction path with
  | refl => exact member
  | tail _ edge ih => exact finished.closed ih edge

/-- No node of a finishing order lies on a cycle. -/
theorem FinishingOrder.acyclic {order : List ν} (finished : FinishingOrder edges order)
    {node : ν} (member : node ∈ order) : ¬ Relation.TransGen (Edge edges) node node := by
  induction finished with
  | nil => cases member
  | cons fresh known inside tail ih =>
    rcases mem_cons.mp member with rfl | later
    · intro cycle
      obtain ⟨next, ⟨nexts, defined, found⟩, back⟩ := Relation.TransGen.head'_iff.mp cycle
      obtain rfl := Option.some.inj (known.symm.trans defined)
      exact fresh (tail.closed_path (inside next found) back)
    · exact ih later

/-! ## The search -/

/-- The colour of a node. -/
inductive Color where
  | white
  | gray
  | black
  deriving DecidableEq

/-- Colours so far, and whether an edge to a gray node was met. -/
structure Search (ν : Type) where
  colors : ν → Color
  found : Bool

variable (edges) in
/-- The search below a path of gray nodes, innermost first: the gray nodes are the path, a
reported edge closes a cycle, the successors of black nodes are known and were followed, and
while no edge is reported the black nodes have a finishing order. -/
structure Searching (path : List ν) (search : Search ν) : Prop where
  gray : ∀ node, search.colors node = .gray ↔ node ∈ path
  known : ∀ node, search.colors node = .black → edges node ≠ none
  followed : ∀ node, search.colors node = .black → ∀ next, Edge edges node next →
    search.colors next ≠ .white
  linked : path.IsChain fun inner outer => Edge edges outer inner
  reported : search.found = true → Cyclic edges
  ordered : search.found = true ∨ ∃ order, FinishingOrder edges order ∧
    ∀ node, search.colors node = .black ↔ node ∈ order

/-- Visits only darken: black nodes stay black and no node becomes white. -/
structure Darkens (before after : Search ν) : Prop where
  black : ∀ node, before.colors node = .black → after.colors node = .black
  white : ∀ node, after.colors node = .white → before.colors node = .white
  found : before.found = true → after.found = true

theorem Darkens.refl (search : Search ν) : Darkens search search :=
  ⟨fun _ => id, fun _ => id, id⟩

theorem Darkens.trans {first second third : Search ν} (head : Darkens first second)
    (tail : Darkens second third) : Darkens first third :=
  ⟨fun node dark => tail.black node (head.black node dark),
    fun node bright => head.white node (tail.white node bright),
    fun seen => tail.found (head.found seen)⟩

/-- Every node of a linked path leads to its innermost node. -/
theorem reaches_innermost {innermost node : ν} {outer : List ν}
    (linked : (innermost :: outer).IsChain fun inner outer => Edge edges outer inner)
    (member : node ∈ innermost :: outer) : Relation.ReflTransGen (Edge edges) node innermost := by
  induction outer generalizing innermost with
  | nil =>
    obtain rfl := mem_singleton.mp member
    exact .refl
  | cons parent rest ih =>
    obtain ⟨edge, below⟩ := isChain_cons_cons.mp linked
    rcases mem_cons.mp member with rfl | later
    · exact .refl
    · exact (ih below later).tail edge

variable {search : Search ν}

/-- An edge from the innermost node to a gray node closes a cycle. -/
theorem Searching.cycle_of_gray {node next : ν} {outer : List ν}
    (searching : Searching edges (node :: outer) search) (edge : Edge edges node next)
    (gray : search.colors next = .gray) : Cyclic edges :=
  ⟨node, Relation.TransGen.head' edge
    (reaches_innermost searching.linked ((searching.gray next).mp gray))⟩

variable {path : List ν}

/-- Reporting a closed cycle keeps the search going. -/
theorem Searching.report (searching : Searching edges path search) (cycle : Cyclic edges) :
    Searching edges path { search with found := true } :=
  ⟨searching.gray, searching.known, searching.followed, searching.linked, fun _ => cycle, .inl rfl⟩

section Visits

variable [DecidableEq ν]

namespace Search

/-- Nothing visited yet. -/
def start : Search ν := ⟨fun _ => .white, false⟩

/-- Set the colour of one node. -/
def paint (search : Search ν) (node : ν) (color : Color) : Search ν :=
  { search with colors := fun other => if other = node then color else search.colors other }

@[simp] theorem paint_self (search : Search ν) (node : ν) (color : Color) :
    (search.paint node color).colors node = color := by simp [paint]

theorem paint_other (search : Search ν) {node other : ν} (color : Color)
    (different : other ≠ node) :
    (search.paint node color).colors other = search.colors other := by simp [paint, different]

end Search

/-- Follow one edge: report a gray end, skip a black one, visit a white one. -/
def visitEdge (visit : ν → Search ν → Option (Search ν)) (search : Search ν) (next : ν) :
    Option (Search ν) :=
  match search.colors next with
  | .gray => some { search with found := true }
  | .black => some search
  | .white => visit next search

variable (edges) in
/-- Visit a node, with a bound on the length of the path to it. -/
def visitNode : Nat → ν → Search ν → Option (Search ν)
  | 0, _, _ => none
  | fuel + 1, node, search =>
    (edges node).bind fun nexts =>
      (nexts.foldlM (visitEdge (visitNode fuel)) (search.paint node .gray)).map
        fun search => search.paint node .black

variable (edges) in
/-- Visit every listed node that is still white. -/
def searchFrom (fuel : Nat) (nodes : List ν) (search : Search ν) : Option (Search ν) :=
  nodes.foldlM (fun search node =>
    if search.colors node = .white then visitNode edges fuel node search else some search) search

/-- Painting a white node gray puts it on the path. -/
theorem Searching.enter {node : ν} (searching : Searching edges path search)
    (white : search.colors node = .white) (edge : ∀ parent ∈ path.head?, Edge edges parent node) :
    Searching edges (node :: path) (search.paint node .gray) := by
  have blackBefore : ∀ other, (search.paint node .gray).colors other = .black →
      search.colors other = .black := by
    intro other black
    by_cases same : other = node
    · simp [same] at black
    · rwa [Search.paint_other search .gray same] at black
  refine ⟨fun other => ?_, fun other black => searching.known other (blackBefore other black), ?_,
    ?_, searching.reported, ?_⟩
  · by_cases same : other = node
    · simp [same]
    · simp [Search.paint_other search .gray same, searching.gray, same]
  · intro other black next step
    by_cases same : next = node
    · simp [same]
    · rw [Search.paint_other search .gray same]
      exact searching.followed other (blackBefore other black) next step
  · cases path with
    | nil => exact .singleton _
    | cons parent rest =>
      exact isChain_cons_cons.mpr ⟨edge parent rfl, searching.linked⟩
  · rcases searching.ordered with seen | ⟨order, finished, black⟩
    · exact .inl seen
    · refine .inr ⟨order, finished, fun other => ?_⟩
      by_cases same : other = node
      · subst same
        have absent : other ∉ order := fun member => by
          simp [(black other).mpr member] at white
        simp [absent]
      · rw [Search.paint_other search .gray same, black]

/-- Painting the innermost node black takes it off the path, once its successors are black. -/
theorem Searching.leave {path nexts : List ν} {node : ν}
    (searching : Searching edges (node :: path) search) (fresh : node ∉ path)
    (known : edges node = some nexts)
    (done : search.found = true ∨ ∀ next ∈ nexts, search.colors next = .black)
    (seen : ∀ next ∈ nexts, search.colors next ≠ .white) :
    Searching edges path (search.paint node .black) := by
  have stillSeen : ∀ other, search.colors other ≠ .white →
      (search.paint node .black).colors other ≠ .white := by
    intro other dark
    by_cases same : other = node
    · simp [same]
    · rwa [Search.paint_other search .black same]
  refine ⟨fun other => ?_, fun other black => ?_, fun other black next step => ?_, ?_,
    searching.reported, ?_⟩
  · by_cases same : other = node
    · subst same
      simp [fresh]
    · simp [Search.paint_other search .black same, searching.gray, same]
  · by_cases same : other = node
    · simp [same, known]
    · rw [Search.paint_other search .black same] at black
      exact searching.known other black
  · refine stillSeen next ?_
    by_cases same : other = node
    · subst same
      obtain ⟨others, defined, found⟩ := step
      obtain rfl := Option.some.inj (known.symm.trans defined)
      exact seen next found
    · rw [Search.paint_other search .black same] at black
      exact searching.followed other black next step
  · cases path with
    | nil => exact .nil
    | cons parent rest => exact (isChain_cons_cons.mp searching.linked).2
  · rcases searching.ordered with seen | ⟨order, finished, black⟩
    · exact .inl seen
    · rcases done with seen | dark
      · exact .inl seen
      · have absent : node ∉ order := fun member => by
          have grayNode := (searching.gray node).mpr mem_cons_self
          simp [(black node).mpr member] at grayNode
        refine .inr ⟨node :: order, .cons absent known
          (fun next member => (black next).mp (dark next member)) finished, fun other => ?_⟩
        by_cases same : other = node
        · simp [same]
        · simp [Search.paint_other search .black same, black, same]

omit [DecidableEq ν] in
/-- One edge darkens when visits do. -/
theorem visitEdge_darkens {visit : ν → Search ν → Option (Search ν)}
    (darkens : ∀ {node before after}, visit node before = some after → Darkens before after)
    {next : ν} {before after : Search ν}
    (followed : visitEdge visit before next = some after) : Darkens before after := by
  unfold visitEdge at followed
  split at followed
  · cases followed
    exact ⟨fun _ => id, fun _ => id, fun _ => rfl⟩
  · cases followed
    exact .refl _
  · exact darkens followed

omit [DecidableEq ν] in
/-- A loop over edges darkens when visits do. -/
theorem visitEdges_darkens {visit : ν → Search ν → Option (Search ν)}
    (darkens : ∀ {node before after}, visit node before = some after → Darkens before after)
    {nexts : List ν} {before after : Search ν}
    (followed : nexts.foldlM (visitEdge visit) before = some after) : Darkens before after := by
  induction nexts generalizing before with
  | nil =>
    cases followed
    exact .refl _
  | cons next rest ih =>
    rw [foldlM_cons] at followed
    obtain ⟨middle, first, later⟩ := bind_eq_some_iff.mp followed
    exact (visitEdge_darkens darkens first).trans (ih later)

/-- A visit darkens. -/
theorem visitNode_darkens {node : ν} {before after : Search ν}
    (visited : visitNode edges fuel node before = some after) : Darkens before after := by
  induction fuel generalizing node before after with
  | zero => cases visited
  | succ fuel ih =>
    obtain ⟨nexts, -, rest⟩ := bind_eq_some_iff.mp visited
    obtain ⟨middle, followed, rfl⟩ := Option.map_eq_some_iff.mp rest
    have darkens := visitEdges_darkens ih followed
    refine ⟨fun other black => ?_, fun other bright => ?_, darkens.found⟩
    · by_cases same : other = node
      · simp [same]
      · rw [Search.paint_other middle .black same]
        refine darkens.black other ?_
        rwa [Search.paint_other before .gray same]
    · by_cases same : other = node
      · simp [same] at bright
      · rw [Search.paint_other middle .black same] at bright
        have earlier := darkens.white other bright
        rwa [Search.paint_other before .gray same] at earlier

/-- Following the edges of the innermost node leaves its successors black, or a report, when
visiting a white node leaves it black. -/
theorem visitEdges_keeps
    (keeps : ∀ {path : List ν} {node : ν} {before after : Search ν}, Searching edges path before →
      before.colors node = .white → (∀ parent ∈ path.head?, Edge edges parent node) →
      visitNode edges fuel node before = some after → Searching edges path after ∧
      after.colors node = .black)
    {node : ν} {outer nexts : List ν} {before after : Search ν}
    (searching : Searching edges (node :: outer) before)
    (edge : ∀ next ∈ nexts, Edge edges node next)
    (visited : nexts.foldlM (visitEdge (visitNode edges fuel)) before = some after) :
    Searching edges (node :: outer) after ∧
      (after.found = true ∨ ∀ next ∈ nexts, after.colors next = .black) ∧
      ∀ next ∈ nexts, after.colors next ≠ .white := by
  induction nexts generalizing before with
  | nil =>
    cases visited
    exact ⟨searching, .inr (by simp), by simp⟩
  | cons next rest ih =>
    rw [foldlM_cons] at visited
    obtain ⟨middle, first, later⟩ := bind_eq_some_iff.mp visited
    have darkens : Darkens middle after := visitEdges_darkens visitNode_darkens later
    have edgeRest : ∀ other ∈ rest, Edge edges node other :=
      fun other member => edge other (mem_cons_of_mem _ member)
    have here := edge next mem_cons_self
    have step : Searching edges (node :: outer) middle ∧
        (middle.found = true ∨ middle.colors next = .black) ∧ middle.colors next ≠ .white := by
      unfold visitEdge at first
      split at first
      · rename_i gray
        cases first
        exact ⟨searching.report (searching.cycle_of_gray here gray), .inl rfl, by simp [gray]⟩
      · rename_i black
        cases first
        exact ⟨searching, .inr black, by simp [black]⟩
      · rename_i white
        obtain ⟨inside, black⟩ := keeps searching white (by simpa using here) first
        exact ⟨inside, .inr black, by simp [black]⟩
    obtain ⟨middleSearching, nextDone, nextSeen⟩ := step
    obtain ⟨final, done, seen⟩ := ih middleSearching edgeRest later
    refine ⟨final, ?_, ?_⟩
    · rcases nextDone with reported | black
      · exact .inl (darkens.found reported)
      · refine done.imp_right fun dark other member => ?_
        rcases mem_cons.mp member with rfl | tail
        · exact darkens.black other black
        · exact dark other tail
    · intro other member
      rcases mem_cons.mp member with rfl | tail
      · exact fun bright => nextSeen (darkens.white other bright)
      · exact seen other tail

/-- Visiting a white node keeps the search going and leaves the node black. -/
theorem visitNode_keeps {node : ν} {before after : Search ν}
    (searching : Searching edges path before) (white : before.colors node = .white)
    (edge : ∀ parent ∈ path.head?, Edge edges parent node)
    (visited : visitNode edges fuel node before = some after) :
    Searching edges path after ∧ after.colors node = .black := by
  induction fuel generalizing path node before after with
  | zero => cases visited
  | succ fuel ih =>
    obtain ⟨nexts, known, rest⟩ := bind_eq_some_iff.mp visited
    obtain ⟨middle, followed, rfl⟩ := Option.map_eq_some_iff.mp rest
    have fresh : node ∉ path := fun member => by
      simp [(searching.gray node).mpr member] at white
    obtain ⟨inside, done, seen⟩ := visitEdges_keeps ih (searching.enter white edge)
      (fun next member => ⟨nexts, known, member⟩) followed
    exact ⟨inside.leave fresh known done seen, middle.paint_self node .black⟩

/-! ## Whole searches -/

variable {nodes : List ν}

/-- A search from listed nodes leaves them black. -/
theorem searchFrom_keeps {before after : Search ν} (searching : Searching edges [] before)
    (searched : searchFrom edges fuel nodes before = some after) :
    Searching edges [] after ∧ Darkens before after ∧ ∀ node ∈ nodes, after.colors node = .black := by
  induction nodes generalizing before with
  | nil =>
    cases searched
    exact ⟨searching, .refl _, by simp⟩
  | cons node rest ih =>
    rw [searchFrom, foldlM_cons] at searched
    obtain ⟨middle, first, later⟩ := bind_eq_some_iff.mp searched
    have step : Searching edges [] middle ∧ Darkens before middle ∧
        middle.colors node = .black := by
      split at first
      · rename_i white
        obtain ⟨inside, black⟩ := visitNode_keeps searching white (by simp) first
        exact ⟨inside, visitNode_darkens first, black⟩
      · rename_i dark
        cases first
        refine ⟨searching, .refl _, ?_⟩
        cases color : before.colors node with
        | white => exact absurd color dark
        | gray => simp [searching.gray] at color
        | black => rfl
    obtain ⟨middleSearching, darker, nodeBlack⟩ := step
    obtain ⟨final, darkens, black⟩ := ih middleSearching later
    refine ⟨final, darker.trans darkens, fun other member => ?_⟩
    rcases mem_cons.mp member with rfl | tail
    · exact darkens.black other nodeBlack
    · exact black other tail

omit [DecidableEq ν] in
/-- Nothing is wrong at the start. -/
theorem searching_start : Searching edges [] (.start : Search ν) :=
  ⟨by simp [Search.start], by simp [Search.start], by simp [Search.start], .nil,
    by simp [Search.start], .inr ⟨[], .nil, by simp [Search.start]⟩⟩

variable (listed : ∀ node, edges node ≠ none → node ∈ nodes)

include listed

/-- After a search from all nodes with known successors, the query of every named node
succeeded. -/
theorem searchFrom_known {final : Search ν}
    (searched : searchFrom edges fuel nodes .start = some final) {node : ν}
    (named : Named edges nodes node) : edges node ≠ none := by
  obtain ⟨searching, -, black⟩ := searchFrom_keeps searching_start searched
  rcases named with root | ⟨parent, step⟩
  · exact searching.known node (black node root)
  · have parentKnown : edges parent ≠ none := by
      obtain ⟨nexts, defined, -⟩ := step
      simp [defined]
    have seen := searching.followed parent (black parent (listed parent parentKnown)) node step
    refine searching.known node ?_
    cases color : final.colors node with
    | white => exact absurd color seen
    | gray => simp [searching.gray] at color
    | black => rfl

/-- A search from all nodes with known successors reports an edge exactly when there is a
cycle. -/
theorem searchFrom_found_iff {final : Search ν}
    (searched : searchFrom edges fuel nodes .start = some final) :
    final.found = true ↔ Cyclic edges := by
  obtain ⟨searching, -, black⟩ := searchFrom_keeps searching_start searched
  refine ⟨searching.reported, fun ⟨node, cycle⟩ => ?_⟩
  rcases searching.ordered with seen | ⟨order, finished, dark⟩
  · exact seen
  · obtain ⟨next, ⟨nexts, known, -⟩, -⟩ := Relation.TransGen.head'_iff.mp cycle
    have member := (dark node).mp (black node (listed node (by simp [known])))
    exact absurd cycle (finished.acyclic member)

omit listed

/-- The listed nodes that are still white. -/
def whites (nodes : List ν) (search : Search ν) : Finset ν :=
  nodes.toFinset.filter fun node => search.colors node = .white

/-- Darkening leaves no more white nodes. -/
theorem Darkens.whites_le {before after : Search ν} (darkens : Darkens before after)
    (nodes : List ν) : (whites nodes after).card ≤ (whites nodes before).card := by
  refine Finset.card_le_card fun node member => ?_
  obtain ⟨listed, white⟩ := Finset.mem_filter.mp member
  exact Finset.mem_filter.mpr ⟨listed, darkens.white node white⟩

/-- Painting a listed white node gray leaves fewer white nodes. -/
theorem whites_paint_lt {node : ν} (listed : node ∈ nodes) (white : search.colors node = .white) :
    (whites nodes (search.paint node .gray)).card < (whites nodes search).card := by
  refine Finset.card_lt_card (Finset.ssubset_iff_of_subset ?_ |>.mpr ⟨node, ?_, ?_⟩)
  · intro other member
    obtain ⟨found, bright⟩ := Finset.mem_filter.mp member
    by_cases same : other = node
    · simp [same] at bright
    · rw [Search.paint_other search .gray same] at bright
      exact Finset.mem_filter.mpr ⟨found, bright⟩
  · exact Finset.mem_filter.mpr ⟨mem_toFinset.mpr listed, white⟩
  · simp [whites]

/-- A loop over edges fails only when a query of a named node fails, if that holds of visits. -/
theorem visitEdges_none {nodes roots : List ν}
    (visitFails : ∀ {node : ν} {search : Search ν}, Named edges roots node → search.colors node =
      .white → (whites nodes search).card ≤ fuel → visitNode edges fuel node search = none → ∃ node,
      Named edges roots node ∧ edges node = none) {nexts : List ν}
    (named : ∀ next ∈ nexts, Named edges roots next) (enough : (whites nodes search).card ≤ fuel)
    (failed : nexts.foldlM (visitEdge (visitNode edges fuel)) search = none) :
    ∃ node, Named edges roots node ∧ edges node = none := by
  induction nexts generalizing search with
  | nil => cases failed
  | cons next rest ih =>
    rw [foldlM_cons] at failed
    cases first : visitEdge (visitNode edges fuel) search next with
    | none =>
      unfold visitEdge at first
      split at first
      · cases first
      · cases first
      · rename_i white
        exact visitFails (named next mem_cons_self) white enough first
    | some middle =>
      rw [first] at failed
      have darker := (visitEdge_darkens visitNode_darkens first).whites_le nodes
      exact ih (fun other member => named other (mem_cons_of_mem _ member)) (by omega) failed

include listed

/-- A visit of a white node whose bound covers the white nodes fails only when the query of a
named node fails. -/
theorem visitNode_none {roots : List ν} {node : ν} (named : Named edges roots node) (white : search.colors node = .white)
    (enough : (whites nodes search).card ≤ fuel)
    (failed : visitNode edges fuel node search = none) :
    ∃ node, Named edges roots node ∧ edges node = none := by
  induction fuel generalizing node search with
  | zero =>
    refine ⟨node, named, ?_⟩
    by_contra known
    have fewer := whites_paint_lt (listed node known) white
    omega
  | succ fuel ih =>
    cases known : edges node with
    | none => exact ⟨node, named, known⟩
    | some nexts =>
      have fewer := whites_paint_lt (listed node (by simp [known])) white
      simp only [visitNode, known, Option.bind_some, Option.map_eq_none_iff] at failed
      exact visitEdges_none ih (fun next member => .inr ⟨node, nexts, known, member⟩)
        (by omega) failed

/-- A search whose bound covers the nodes fails only when the query of a named node fails. -/
theorem searchFrom_none {roots : List ν} (enough : (whites nodes search).card ≤ fuel)
    (failed : searchFrom edges fuel roots search = none) :
    ∃ node, Named edges roots node ∧ edges node = none := by
  have general : ∀ {rest : List ν} {search : Search ν}, (∀ node ∈ rest, node ∈ roots) →
      (whites nodes search).card ≤ fuel → searchFrom edges fuel rest search = none →
      ∃ node, Named edges roots node ∧ edges node = none := by
    intro rest
    induction rest with
    | nil =>
      intro search _ _ failed
      cases failed
    | cons node rest ih =>
      intro search inside enough failed
      rw [searchFrom, foldlM_cons] at failed
      have insideRest : ∀ other ∈ rest, other ∈ roots :=
        fun other member => inside other (mem_cons_of_mem _ member)
      by_cases white : search.colors node = .white
      · rw [if_pos white] at failed
        cases first : visitNode edges fuel node search with
        | none =>
          exact visitNode_none listed (.inl (inside node mem_cons_self)) white enough first
        | some middle =>
          rw [first] at failed
          have darker := (visitNode_darkens first).whites_le nodes
          exact ih insideRest (by omega) failed
      · rw [if_neg white] at failed
        exact ih insideRest enough failed
  exact general (fun _ member => member) enough failed

omit listed

/-- At the start at most all listed nodes are white. -/
theorem whites_start_le (nodes : List ν) : (whites nodes (.start : Search ν)).card ≤ nodes.length :=
  (Finset.card_filter_le _ _).trans nodes.toFinset_card_le

include listed in
/-- A search from all nodes with known successors, whose bound covers them, succeeds exactly
when the query of every named node does. -/
theorem searchFrom_isSome_iff (enough : nodes.length ≤ fuel) :
    (searchFrom edges fuel nodes .start).isSome = true ↔
      ∀ node, Named edges nodes node → edges node ≠ none := by
  constructor
  · intro succeeds node named
    obtain ⟨final, searched⟩ := Option.isSome_iff_exists.mp succeeds
    exact searchFrom_known listed searched named
  · intro known
    by_contra fails
    have failed := Option.not_isSome_iff_eq_none.mp fails
    have few := (whites_start_le nodes).trans enough
    obtain ⟨node, named, missing⟩ := searchFrom_none listed few failed
    exact known node named missing

end Visits

end Nobify.Lib
