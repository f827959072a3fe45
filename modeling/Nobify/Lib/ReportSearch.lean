import Nobify.Lib.ColorSearch

/-!
# A search that keeps its reports

The three-colour search of `Nobify.Lib.ColorSearch`, with the edges it reports and with what it
had reported when a query fails. Forgetting the reports gives the search of that module.

Whether the search fails before its first report is a property of the graph alone: a search that
follows, at every node, the first successor below which something is missing or cyclic, ends at a
failing query.
-/

namespace Nobify.Lib

open List Option

variable {ν : Type}

/-! ## What the search meets first -/

section Graph

variable (edges : ν → Option (List ν))

/-- Below the node every query succeeds and nothing is cyclic. -/
inductive Clear : ν → Prop where
  | intro {node : ν} {nexts : List ν} (known : edges node = some nexts)
      (below : ∀ next ∈ nexts, Clear next) : Clear node

/-- From the node on, the first successor that is not clear leads in some number of edges to a
node whose query fails. -/
inductive DeadEnd : Nat → ν → Prop where
  | here {node : ν} (missing : edges node = none) : DeadEnd 0 node
  | beyond {node next : ν} {before after : List ν} {steps : Nat}
      (known : edges node = some (before ++ next :: after))
      (clear : ∀ other ∈ before, Clear edges other) (rest : DeadEnd steps next) :
      DeadEnd (steps + 1) node

/-- The first of the nodes that is not clear is at a dead end. -/
def MeetsDeadEnd (nodes : List ν) : Prop :=
  ∃ before node after steps, nodes = before ++ node :: after ∧
    (∀ other ∈ before, Clear edges other) ∧ DeadEnd edges steps node

variable {edges}

/-- What is below a clear node is clear. -/
theorem Clear.reach {node last : ν} (clear : Clear edges node)
    (path : Relation.ReflTransGen (Edge edges) node last) : Clear edges last := by
  induction path with
  | refl => exact clear
  | tail _ edge ih =>
    obtain ⟨nexts, known, member⟩ := edge
    obtain ⟨same, below⟩ := ih
    have equal := some.inj (same.symm.trans known)
    exact below _ (equal ▸ member)

/-- Nothing below a clear node leads back to it. -/
theorem Clear.acyclic {node : ν} (clear : Clear edges node) :
    ¬ Relation.TransGen (Edge edges) node node := by
  induction clear with
  | @intro node nexts known below ih =>
    intro cycle
    obtain ⟨next, edge, back⟩ := Relation.TransGen.head'_iff.mp cycle
    obtain ⟨others, same, member⟩ := edge
    have listed : next ∈ nexts := by
      rw [known] at same
      exact some.inj same ▸ member
    refine ih next listed ?_
    exact Relation.TransGen.tail' back ⟨nexts, known, listed⟩

/-- A node at a dead end is not clear. -/
theorem DeadEnd.not_clear {steps : Nat} {node : ν} (dead : DeadEnd edges steps node) :
    ¬ Clear edges node := by
  induction dead with
  | here missing =>
    rintro ⟨known, _⟩
    rw [missing] at known
    cases known
  | @beyond node next before after steps known _ _ ih =>
    intro clear
    refine ih (clear.reach (.single ⟨_, known, ?_⟩))
    exact mem_append_right _ mem_cons_self

/-- The first entry of a list that is not clear is one entry. -/
theorem first_unclear_unique {before other after rest : List ν} {node next : ν}
    (same : before ++ node :: after = other ++ next :: rest)
    (clearBefore : ∀ entry ∈ before, Clear edges entry) (unclear : ¬ Clear edges node)
    (clearOther : ∀ entry ∈ other, Clear edges entry) (unclearNext : ¬ Clear edges next) :
    node = next := by
  induction before generalizing other with
  | nil =>
    cases other with
    | nil => exact (List.cons.inj same).1
    | cons entry tail =>
      have head : node = entry := (List.cons.inj same).1
      exact absurd (head ▸ clearOther entry mem_cons_self) unclear
  | cons entry tail ih =>
    cases other with
    | nil =>
      have head : entry = next := (List.cons.inj same).1
      exact absurd (head ▸ clearBefore entry mem_cons_self) unclearNext
    | cons first later =>
      refine ih (List.cons.inj same).2 ?_ ?_
      · exact fun member listed => clearBefore member (mem_cons_of_mem entry listed)
      · exact fun member listed => clearOther member (mem_cons_of_mem first listed)

/-- The way to a dead end has one length. -/
theorem DeadEnd.unique {steps other : Nat} {node : ν} (dead : DeadEnd edges steps node)
    (also : DeadEnd edges other node) : steps = other := by
  induction dead generalizing other with
  | here missing =>
    cases also with
    | here _ => rfl
    | beyond known _ _ =>
      rw [missing] at known
      cases known
  | beyond known clear rest ih =>
    cases also with
    | here missing =>
      rw [missing] at known
      cases known
    | beyond alsoKnown alsoClear alsoRest =>
      have lists := some.inj (known.symm.trans alsoKnown)
      have nexts := first_unclear_unique lists clear rest.not_clear alsoClear alsoRest.not_clear
      have rests := ih (nexts ▸ alsoRest)
      omega

end Graph

/-! ## The search -/

/-- Colours, and the edges into the path so far. -/
structure Trail (ν : Type) where
  colors : ν → Color
  reports : List (ν × ν)

/-- A search that ends with a value, or where a query failed. -/
abbrev Traced (ν α : Type) := Except (Trail ν) α

namespace Trail

/-- Nothing visited yet. -/
def start : Trail ν := ⟨fun _ => .white, []⟩

/-- The search without its reports. -/
def search (trail : Trail ν) : Search ν := ⟨trail.colors, !trail.reports.isEmpty⟩

/-- Set the colour of one node. -/
def paint [DecidableEq ν] (trail : Trail ν) (node : ν) (color : Color) : Trail ν :=
  { trail with colors := fun other => if other = node then color else trail.colors other }

end Trail

/-- Follow one edge. -/
def followEdge (visit : ν → Trail ν → Traced ν (Trail ν)) (node : ν) (trail : Trail ν) (next : ν) :
    Traced ν (Trail ν) :=
  match trail.colors next with
  | .gray => .ok { trail with reports := trail.reports ++ [(node, next)] }
  | .black => .ok trail
  | .white => visit next trail

/-- The trail that a run ends with, in either way. -/
def Traced.trail : Traced ν (Trail ν) → Trail ν
  | .ok trail => trail
  | .error trail => trail

variable {visit : ν → Trail ν → Traced ν (Trail ν)}

/-- Following one edge keeps the reports. -/
theorem followEdge_reports
    (grows : ∀ node trail, trail.reports <+: (Traced.trail (visit node trail)).reports) (node : ν)
    (trail : Trail ν) (next : ν) :
    trail.reports <+: (Traced.trail (followEdge visit node trail next)).reports := by
  unfold followEdge
  split
  · exact List.prefix_append _ _
  · exact prefix_refl _
  · exact grows next trail

/-- A loop keeps the reports that every round keeps. -/
theorem foldlM_reports {step : Trail ν → ν → Traced ν (Trail ν)}
    (grows : ∀ trail node, trail.reports <+: (Traced.trail (step trail node)).reports)
    (nodes : List ν) (trail : Trail ν) :
    trail.reports <+: (Traced.trail (nodes.foldlM step trail)).reports := by
  induction nodes generalizing trail with
  | nil => exact prefix_refl _
  | cons node rest ih =>
    rw [foldlM_cons]
    have first := grows trail node
    cases outcome : step trail node with
    | error stopped =>
      rw [outcome] at first
      exact first
    | ok middle =>
      rw [outcome] at first
      exact first.trans (ih middle)

variable [DecidableEq ν]

section Visits

variable (edges : ν → Option (List ν))

/-- Visit a node, with a bound on the length of the path to it. -/
def traceNode : Nat → ν → Trail ν → Traced ν (Trail ν)
  | 0, _, trail => .error trail
  | fuel + 1, node, trail =>
    match edges node with
    | none => .error (trail.paint node .gray)
    | some nexts =>
      (nexts.foldlM (followEdge (traceNode fuel) node) (trail.paint node .gray)).map
        fun trail => trail.paint node .black

/-- Visit every listed node that is still white. -/
def traceFrom (fuel : Nat) (nodes : List ν) (trail : Trail ν) : Traced ν (Trail ν) :=
  nodes.foldlM (fun trail node =>
    if trail.colors node = .white then traceNode edges fuel node trail else .ok trail) trail

end Visits

variable {edges : ν → Option (List ν)}

/-- Visiting a node keeps the reports. -/
theorem traceNode_reports (fuel : Nat) (node : ν) (trail : Trail ν) :
    trail.reports <+: (Traced.trail (traceNode edges fuel node trail)).reports := by
  induction fuel generalizing node trail with
  | zero => exact prefix_refl _
  | succ fuel ih =>
    unfold traceNode
    cases edges node with
    | none => exact prefix_refl _
    | some nexts =>
      have loop := foldlM_reports
        (fun trail next => followEdge_reports (fun node trail => ih node trail) node trail next)
        nexts (trail.paint node .gray)
      dsimp only
      cases outcome : nexts.foldlM (followEdge (traceNode edges fuel) node)
          (trail.paint node .gray) with
      | error stopped =>
        rw [outcome] at loop
        exact loop
      | ok final =>
        rw [outcome] at loop
        exact loop

/-! ## Without the reports -/

/-- A run without its reports, as a search that may fail. -/
def Traced.forget : Traced ν (Trail ν) → Option (Search ν)
  | .ok trail => some trail.search
  | .error _ => none

omit [DecidableEq ν] in
/-- Following an edge without the reports. -/
theorem followEdge_forget {plain : ν → Search ν → Option (Search ν)}
    (same : ∀ node trail, Traced.forget (visit node trail) = plain node trail.search) (node : ν)
    (trail : Trail ν) (next : ν) :
    Traced.forget (followEdge visit node trail next) = visitEdge plain trail.search next := by
  have color : trail.search.colors next = trail.colors next := rfl
  unfold followEdge visitEdge
  rw [color]
  cases trail.colors next with
  | white => exact same next trail
  | gray => simp [Traced.forget, Trail.search]
  | black => rfl

omit [DecidableEq ν] in
/-- A loop without the reports of its rounds. -/
theorem foldlM_forget {step : Trail ν → ν → Traced ν (Trail ν)}
    {plain : Search ν → ν → Option (Search ν)}
    (same : ∀ trail node, Traced.forget (step trail node) = plain trail.search node)
    (nodes : List ν) (trail : Trail ν) :
    Traced.forget (nodes.foldlM step trail) = nodes.foldlM plain trail.search := by
  induction nodes generalizing trail with
  | nil => rfl
  | cons node rest ih =>
    rw [foldlM_cons, foldlM_cons, ← same trail node]
    cases step trail node with
    | error stopped => rfl
    | ok middle => exact ih middle

/-- A visit without its reports. -/
theorem traceNode_forget (fuel : Nat) (node : ν) (trail : Trail ν) :
    Traced.forget (traceNode edges fuel node trail) = visitNode edges fuel node trail.search := by
  induction fuel generalizing node trail with
  | zero => rfl
  | succ fuel ih =>
    unfold traceNode visitNode
    cases edges node with
    | none => rfl
    | some nexts =>
      have loop := foldlM_forget (fun trail next => followEdge_forget ih node trail next) nexts
        (trail.paint node .gray)
      dsimp only [bind_some]
      rw [show trail.search.paint node .gray = (trail.paint node .gray).search from rfl, ← loop]
      cases nexts.foldlM (followEdge (traceNode edges fuel) node) (trail.paint node .gray) with
      | error stopped => rfl
      | ok final => rfl

/-- A search without its reports. -/
theorem traceFrom_forget (fuel : Nat) (nodes : List ν) (trail : Trail ν) :
    Traced.forget (traceFrom edges fuel nodes trail) =
      searchFrom edges fuel nodes trail.search := by
  refine foldlM_forget (fun trail node => ?_) nodes trail
  have color : trail.search.colors node = trail.colors node := rfl
  rw [color]
  split
  · exact traceNode_forget fuel node trail
  · rfl

/-- A visit that ends is a visit of the plain search. -/
theorem visitNode_of_traceNode {fuel : Nat} {node : ν} {before after : Trail ν}
    (visited : traceNode edges fuel node before = .ok after) :
    visitNode edges fuel node before.search = some after.search := by
  rw [← traceNode_forget, visited]
  rfl

/-! ## Before the first report -/

omit [DecidableEq ν] in
/-- The nodes of a finishing order are clear. -/
theorem FinishingOrder.clear {order : List ν} (finished : FinishingOrder edges order) {node : ν}
    (member : node ∈ order) : Clear edges node := by
  induction finished generalizing node with
  | nil => cases member
  | cons fresh known inside _ ih =>
    rcases mem_cons.mp member with rfl | later
    · exact .intro known fun next listed => ih (inside next listed)
    · exact ih later

variable (edges) in
/-- A search below a path of gray nodes that has reported nothing. -/
structure Unreported (path : List ν) (trail : Trail ν) : Prop where
  searching : Searching edges path trail.search
  reports : trail.reports = []

namespace Unreported

variable {path outer : List ν} {node next : ν} {trail : Trail ν}

omit [DecidableEq ν] in
/-- While nothing is reported, black nodes are clear. -/
theorem black (unreported : Unreported edges path trail) (black : trail.colors node = .black) :
    Clear edges node := by
  rcases unreported.searching.ordered with found | ⟨order, finished, dark⟩
  · simp [Trail.search, unreported.reports] at found
  · exact finished.clear ((dark node).mp black)

omit [DecidableEq ν] in
/-- A gray successor of the innermost node is not clear. -/
theorem gray (unreported : Unreported edges (node :: outer) trail)
    (edge : Edge edges node next) (gray : trail.colors next = .gray) : ¬ Clear edges next := by
  intro clear
  have member := (unreported.searching.gray next).mp gray
  have back := reaches_innermost unreported.searching.linked member
  exact clear.acyclic (Relation.TransGen.tail' back edge)

/-- Enter a white node. -/
theorem enter (unreported : Unreported edges path trail) (white : trail.colors node = .white)
    (edge : ∀ parent ∈ path.head?, Edge edges parent node) :
    Unreported edges (node :: path) (trail.paint node .gray) :=
  ⟨unreported.searching.enter white edge, unreported.reports⟩

/-- A visit that reports nothing goes on below the same path. -/
theorem visited {fuel : Nat} {after : Trail ν} (unreported : Unreported edges path trail)
    (white : trail.colors node = .white) (edge : ∀ parent ∈ path.head?, Edge edges parent node)
    (ends : traceNode edges fuel node trail = .ok after) (silent : after.reports = []) :
    Unreported edges path after :=
  ⟨(visitNode_keeps unreported.searching white edge (visitNode_of_traceNode ends)).1, silent⟩

end Unreported

/-! ## The loops of the search -/

variable (edges) in
/-- What the loop over the successors of a node and the loop over all roots have in common: a round
visits a white node, skips a black one, and does not meet a clear gray one. -/
structure Rounds (fuel : Nat) (path nexts : List ν) (step : Trail ν → ν → Traced ν (Trail ν)) :
    Prop where
  edge : ∀ next ∈ nexts, ∀ parent ∈ path.head?, Edge edges parent next
  white : ∀ trail next, trail.colors next = .white → step trail next = traceNode edges fuel next trail
  black : ∀ trail next, trail.colors next = .black → step trail next = .ok trail
  gray : ∀ trail, ∀ next ∈ nexts, Unreported edges path trail → trail.colors next = .gray →
    ¬ Clear edges next ∧ (Traced.trail (step trail next)).reports ≠ []
  grows : ∀ trail next, trail.reports <+: (Traced.trail (step trail next)).reports

/-- Rounds over some of the nodes. -/
theorem Rounds.mono {fuel : Nat} {path nexts part : List ν}
    {step : Trail ν → ν → Traced ν (Trail ν)} (rounds : Rounds edges fuel path nexts step)
    (inside : ∀ next ∈ part, next ∈ nexts) : Rounds edges fuel path part step :=
  { rounds with
    edge := fun next member => rounds.edge next (inside next member)
    gray := fun trail next member => rounds.gray trail next (inside next member) }

/-- The loop over the successors of the innermost node. -/
theorem rounds_followEdge (fuel : Nat) {node : ν} (outer : List ν) {nexts : List ν}
    (edge : ∀ next ∈ nexts, Edge edges node next) :
    Rounds edges fuel (node :: outer) nexts (followEdge (traceNode edges fuel) node) := by
  refine ⟨?_, ?_, ?_, ?_, ?_⟩
  · intro next member parent first
    cases first
    exact edge next member
  · intro trail next white
    simp only [followEdge, white]
  · intro trail next black
    simp only [followEdge, black]
  · intro trail next member unreported gray
    refine ⟨unreported.gray (edge next member) gray, ?_⟩
    simp [followEdge, gray, Traced.trail]
  · exact followEdge_reports (fun next trail => traceNode_reports fuel next trail) node

/-- The loop over the roots. -/
theorem rounds_roots (fuel : Nat) (nodes : List ν) : Rounds edges fuel [] nodes fun trail node =>
      if trail.colors node = .white then traceNode edges fuel node trail else .ok trail := by
  refine ⟨?_, ?_, ?_, ?_, ?_⟩
  · intro next _ parent first
    cases first
  · intro trail next white
    exact if_pos white
  · intro trail next black
    exact if_neg (by simp [black])
  · intro trail next _ unreported gray
    have member := (unreported.searching.gray next).mp gray
    cases member
  · intro trail next
    split
    · exact traceNode_reports fuel next trail
    · exact prefix_refl _

section Loops

variable {nodes path nexts : List ν} {fuel : Nat} {step : Trail ν → ν → Traced ν (Trail ν)}

variable (rounds : Rounds edges fuel path nexts step)

include rounds in
/-- A loop over clear nodes ends without a report, if that holds of visits. -/
theorem Rounds.clear (visits : ∀ {node : ν} {trail : Trail ν}, Unreported edges path trail →
      trail.colors node = .white → (∀ parent ∈ path.head?, Edge edges parent node) →
      Clear edges node → (whites nodes trail.search).card ≤ fuel →
      ∃ after, traceNode edges fuel node trail = .ok after ∧ after.reports = [])
    (clear : ∀ next ∈ nexts, Clear edges next) {trail : Trail ν}
    (unreported : Unreported edges path trail) (enough : (whites nodes trail.search).card ≤ fuel) :
    ∃ after, nexts.foldlM step trail = .ok after ∧ Unreported edges path after ∧
      (whites nodes after.search).card ≤ fuel := by
  induction nexts generalizing trail with
  | nil => exact ⟨trail, rfl, unreported, enough⟩
  | cons next rest ih =>
    have roundsRest := rounds.mono fun other member => mem_cons_of_mem next member
    have clearRest : ∀ other ∈ rest, Clear edges other :=
      fun other member => clear other (mem_cons_of_mem next member)
    have head := clear next mem_cons_self
    have edge := rounds.edge next mem_cons_self
    rw [foldlM_cons]
    cases color : trail.colors next with
    | gray => exact absurd head (rounds.gray trail next mem_cons_self unreported color).1
    | black =>
      rw [rounds.black trail next color]
      exact ih roundsRest clearRest unreported enough
    | white =>
      obtain ⟨middle, ends, silent⟩ := visits unreported color edge head enough
      have darker := (visitNode_darkens (visitNode_of_traceNode ends)).whites_le nodes
      rw [rounds.white trail next color, ends]
      exact ih roundsRest clearRest (unreported.visited color edge ends silent) (by omega)

/-- A loop whose first node that is not clear is at a dead end fails without a report, if the visit
of that node does. -/
theorem Rounds.deadEnd {before rest : List ν} {next : ν} {steps : Nat}
    (rounds : Rounds edges fuel path (before ++ next :: rest) step)
    (visits : ∀ {node : ν} {trail : Trail ν}, Unreported edges path trail →
      trail.colors node = .white → (∀ parent ∈ path.head?, Edge edges parent node) →
      Clear edges node → (whites nodes trail.search).card ≤ fuel →
      ∃ after, traceNode edges fuel node trail = .ok after ∧ after.reports = [])
    (fails : ∀ {trail : Trail ν}, Unreported edges path trail → trail.colors next = .white →
      (∀ parent ∈ path.head?, Edge edges parent next) → (whites nodes trail.search).card ≤ fuel →
      ∃ after, traceNode edges fuel next trail = .error after ∧ after.reports = [])
    (clear : ∀ other ∈ before, Clear edges other) (dead : DeadEnd edges steps next)
    (deeper : ∀ outer ∈ path, ∃ more, steps < more ∧ DeadEnd edges more outer) {trail : Trail ν}
    (unreported : Unreported edges path trail) (enough : (whites nodes trail.search).card ≤ fuel) :
    ∃ after, (before ++ next :: rest).foldlM step trail = .error after ∧ after.reports = [] := by
  have inside : ∀ other ∈ before, other ∈ before ++ next :: rest :=
    fun other member => mem_append_left _ member
  have member : next ∈ before ++ next :: rest := mem_append_right _ mem_cons_self
  obtain ⟨middle, ends, still, few⟩ :=
    (rounds.mono inside).clear visits clear unreported enough
  have white : middle.colors next = .white := by
    cases color : middle.colors next with
    | white => rfl
    | black => exact absurd (still.black color) dead.not_clear
    | gray =>
      obtain ⟨more, longer, also⟩ := deeper next ((still.searching.gray next).mp color)
      have equal := dead.unique also
      omega
  obtain ⟨after, fails, silent⟩ := fails still white (rounds.edge next member) few
  refine ⟨after, ?_, silent⟩
  rw [foldlM_append, ends]
  show (next :: rest).foldlM step middle = .error after
  rw [foldlM_cons, rounds.white middle next white, fails]
  rfl

include rounds

/-- A loop that fails without a report has reported nothing on the way. -/
theorem Rounds.silent {rest : List ν} {middle stopped : Trail ν}
    (ends : rest.foldlM step middle = .error stopped)
    (silent : stopped.reports = []) : middle.reports = [] := by
  have kept := foldlM_reports rounds.grows rest middle
  rw [ends] at kept
  exact List.prefix_nil.mp (silent ▸ kept)

/-- A loop that fails without a report meets a dead end first, if that holds of visits. -/
theorem Rounds.meets (visits : ∀ {node : ν} {trail stopped : Trail ν}, Unreported edges path trail →
      trail.colors node = .white → (∀ parent ∈ path.head?, Edge edges parent node) →
      (whites nodes trail.search).card ≤ fuel →
      traceNode edges fuel node trail = .error stopped → stopped.reports = [] →
      ∃ steps, DeadEnd edges steps node)
    {trail stopped : Trail ν} (unreported : Unreported edges path trail)
    (enough : (whites nodes trail.search).card ≤ fuel)
    (fails : nexts.foldlM step trail = .error stopped) (silent : stopped.reports = []) :
    MeetsDeadEnd edges nexts := by
  induction nexts generalizing trail with
  | nil => cases fails
  | cons next rest ih =>
    have roundsRest := rounds.mono fun other member => mem_cons_of_mem next member
    -- What the rest of the loop meets is met after a clear head.
    have after : Clear edges next → MeetsDeadEnd edges rest → MeetsDeadEnd edges (next :: rest) := by
      rintro head ⟨before, node, tail, steps, rfl, clear, dead⟩
      refine ⟨next :: before, node, tail, steps, rfl, ?_, dead⟩
      intro other member
      rcases mem_cons.mp member with rfl | later
      · exact head
      · exact clear other later
    have edge := rounds.edge next mem_cons_self
    rw [foldlM_cons] at fails
    cases color : trail.colors next with
    | gray =>
      have reported := (rounds.gray trail next mem_cons_self unreported color).2
      cases round : step trail next with
      | error other =>
        rw [round] at fails reported
        obtain rfl : other = stopped := Except.error.inj fails
        exact absurd silent reported
      | ok middle =>
        rw [round] at fails reported
        exact absurd (rounds.silent fails silent) reported
    | black =>
      rw [rounds.black trail next color] at fails
      exact after (unreported.black color) (ih roundsRest unreported enough fails)
    | white =>
      rw [rounds.white trail next color] at fails
      cases visit : traceNode edges fuel next trail with
      | error other =>
        rw [visit] at fails
        obtain rfl : other = stopped := Except.error.inj fails
        obtain ⟨steps, dead⟩ := visits unreported color edge enough visit silent
        exact ⟨[], next, rest, steps, rfl, by simp, dead⟩
      | ok middle =>
        rw [visit] at fails
        have ends : rest.foldlM step middle = .error stopped := fails
        have still := unreported.visited color edge visit (rounds.silent ends silent)
        have plain := visitNode_of_traceNode visit
        have black := (visitNode_keeps unreported.searching color edge plain).2
        have darker := (visitNode_darkens plain).whites_le nodes
        exact after (still.black black) (ih roundsRest still (by omega) ends)

end Loops

/-! ## Visits -/

section Runs

variable {nodes : List ν} (listed : ∀ node, edges node ≠ none → node ∈ nodes)

include listed

/-- A bound that covers the white nodes is left when a node with known successors is entered. -/
theorem enough_enter {fuel : Nat} {node : ν} {trail : Trail ν} (known : edges node ≠ none)
    (white : trail.colors node = .white) (enough : (whites nodes trail.search).card ≤ fuel) :
    ∃ less, fuel = less + 1 ∧ (whites nodes (trail.paint node .gray).search).card ≤ less := by
  have plain : trail.search.colors node = .white := white
  have fewer := whites_paint_lt (listed node known) plain
  exact ⟨fuel - 1, by omega, Nat.le_sub_one_of_lt (fewer.trans_le enough)⟩

/-- The visit of a clear node ends without a report. -/
theorem traceNode_clear {fuel : Nat} {path : List ν} {node : ν} {trail : Trail ν}
    (unreported : Unreported edges path trail) (white : trail.colors node = .white)
    (edge : ∀ parent ∈ path.head?, Edge edges parent node) (clear : Clear edges node)
    (enough : (whites nodes trail.search).card ≤ fuel) :
    ∃ after, traceNode edges fuel node trail = .ok after ∧ after.reports = [] := by
  induction fuel generalizing path node trail with
  | zero =>
    obtain ⟨known, _⟩ := clear
    obtain ⟨less, covered, _⟩ := enough_enter listed (by simp [known]) white enough
    omega
  | succ fuel ih =>
    obtain @⟨_, nexts, known, below⟩ := clear
    obtain ⟨less, covered, few⟩ := enough_enter listed (by simp [known]) white enough
    obtain rfl : fuel = less := by omega
    have rounds := rounds_followEdge fuel path
      fun next member => (⟨nexts, known, member⟩ : Edge edges node next)
    obtain ⟨final, ends, still, _⟩ :=
      rounds.clear ih below (unreported.enter white edge) few
    refine ⟨final.paint node .black, ?_, still.reports⟩
    simp only [traceNode, known, ends]
    rfl

/-- The visit of a node at a dead end fails without a report. -/
theorem traceNode_deadEnd {steps fuel : Nat} {path : List ν} {node : ν} {trail : Trail ν}
    (dead : DeadEnd edges steps node)
    (deeper : ∀ outer ∈ path, ∃ more, steps < more ∧ DeadEnd edges more outer)
    (unreported : Unreported edges path trail) (white : trail.colors node = .white)
    (edge : ∀ parent ∈ path.head?, Edge edges parent node)
    (enough : (whites nodes trail.search).card ≤ fuel) :
    ∃ after, traceNode edges fuel node trail = .error after ∧ after.reports = [] := by
  induction dead generalizing fuel path trail with
  | @here node missing =>
    cases fuel with
    | zero => exact ⟨trail, rfl, unreported.reports⟩
    | succ fuel =>
      refine ⟨trail.paint node .gray, ?_, unreported.reports⟩
      simp only [traceNode, missing]
  | @beyond node next before rest steps known clear dead ih =>
    obtain ⟨less, rfl, few⟩ := enough_enter listed (by simp [known]) white enough
    have rounds := rounds_followEdge less path
      fun next member => (⟨_, known, member⟩ : Edge edges node next)
    have deeperPath : ∀ outer ∈ node :: path, ∃ more, steps < more ∧ DeadEnd edges more outer := by
      intro outer member
      rcases mem_cons.mp member with rfl | later
      · exact ⟨steps + 1, by omega, .beyond known clear dead⟩
      · obtain ⟨more, longer, also⟩ := deeper outer later
        exact ⟨more, by omega, also⟩
    obtain ⟨after, fails, silent⟩ := rounds.deadEnd (traceNode_clear listed)
      (ih deeperPath) clear dead deeperPath (unreported.enter white edge) few
    refine ⟨after, ?_, silent⟩
    simp only [traceNode, known, fails]
    rfl

/-- A visit that fails without a report is the visit of a node at a dead end. -/
theorem traceNode_meets {fuel : Nat} {path : List ν} {node : ν} {trail stopped : Trail ν}
    (unreported : Unreported edges path trail) (white : trail.colors node = .white)
    (edge : ∀ parent ∈ path.head?, Edge edges parent node)
    (enough : (whites nodes trail.search).card ≤ fuel)
    (fails : traceNode edges fuel node trail = .error stopped) (silent : stopped.reports = []) :
    ∃ steps, DeadEnd edges steps node := by
  induction fuel generalizing path node trail stopped with
  | zero =>
    refine ⟨0, .here ?_⟩
    by_contra known
    obtain ⟨less, covered, _⟩ := enough_enter listed known white enough
    omega
  | succ fuel ih =>
    cases known : edges node with
    | none => exact ⟨0, .here known⟩
    | some nexts =>
      obtain ⟨less, covered, few⟩ := enough_enter listed (by simp [known]) white enough
      obtain rfl : fuel = less := by omega
      have rounds := rounds_followEdge fuel path
        fun next member => (⟨nexts, known, member⟩ : Edge edges node next)
      simp only [traceNode, known] at fails
      cases loop : nexts.foldlM (followEdge (traceNode edges fuel) node)
          (trail.paint node .gray) with
      | ok final =>
        rw [loop] at fails
        cases fails
      | error other =>
        rw [loop] at fails
        obtain rfl : other = stopped := Except.error.inj fails
        obtain ⟨before, next, rest, steps, rfl, clear, dead⟩ :=
          rounds.meets ih (unreported.enter white edge) few loop silent
        exact ⟨steps + 1, .beyond known clear dead⟩

end Runs

/-! ## Whole searches -/

omit [DecidableEq ν] in
/-- Nothing is reported at the start. -/
theorem unreported_start : Unreported edges [] (.start : Trail ν) := ⟨searching_start, rfl⟩

section Searches

variable {nodes : List ν} (listed : ∀ node, edges node ≠ none → node ∈ nodes)
  {fuel : Nat} (enough : nodes.length ≤ fuel)

include listed enough

/-- A search from all nodes ends without a report exactly when they are all clear. -/
theorem traceFrom_clear_iff :
    (∃ after, traceFrom edges fuel nodes .start = .ok after ∧ after.reports = []) ↔
      ∀ node ∈ nodes, Clear edges node := by
  constructor
  · rintro ⟨after, ends, silent⟩ node member
    have searched : searchFrom edges fuel nodes (.start : Search ν) = some after.search := by
      rw [show (Search.start : Search ν) = Trail.start.search from rfl, ← traceFrom_forget, ends]
      rfl
    obtain ⟨searching, _, black⟩ := searchFrom_keeps searching_start searched
    exact (⟨searching, silent⟩ : Unreported edges [] after).black (black node member)
  · intro clear
    have few := (whites_start_le nodes).trans enough
    obtain ⟨after, ends, still, _⟩ :=
      (rounds_roots fuel nodes).clear (traceNode_clear listed) clear unreported_start few
    exact ⟨after, ends, still.reports⟩

/-- A search from all nodes fails without a report exactly when the first node that is not clear is
at a dead end. -/
theorem traceFrom_meets_iff :
    (∃ stopped, traceFrom edges fuel nodes .start = .error stopped ∧ stopped.reports = []) ↔
      MeetsDeadEnd edges nodes := by
  have few := (whites_start_le nodes).trans enough
  constructor
  · rintro ⟨stopped, fails, silent⟩
    exact (rounds_roots fuel nodes).meets (traceNode_meets listed) unreported_start few fails silent
  · rintro ⟨before, node, rest, steps, split, clear, dead⟩
    have roots : Rounds edges fuel [] nodes _ := rounds_roots fuel nodes
    have rounds := split ▸ roots
    obtain ⟨stopped, fails, silent⟩ := rounds.deadEnd (traceNode_clear listed)
      (traceNode_deadEnd listed dead (by simp)) clear dead (by simp) unreported_start few
    refine ⟨stopped, ?_, silent⟩
    rw [traceFrom, split]
    exact fails

end Searches

end Nobify.Lib
