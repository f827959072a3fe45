import Nobify.Lib.ColorSearch

/-!
# Collecting over a walk with a visited set

A walk visits a node once, appends what the node contributes, and goes on to its successors. It
collects, in visiting order, the contributions of new nodes that the seeds lead to, and what it
has visited in the end is closed under successors.
-/

namespace Nobify.Lib

open List Option

variable {ν β : Type} [DecidableEq ν] (edges : ν → Option (List ν)) (emit : ν → List β)

/-- Visited nodes and collected contributions. -/
structure Walk (ν β : Type) where
  visited : List ν
  out : List β

/-- Visit a node and what it leads to, with a bound on the length of the path to it. -/
def walkNode : Nat → ν → Walk ν β → Option (Walk ν β)
  | fuel, node, walk =>
    if node ∈ walk.visited then some walk
    else
      match fuel with
      | 0 => none
      | fuel + 1 =>
        (edges node).bind fun nexts =>
          nexts.foldlM (fun walk next => walkNode fuel next walk)
            ⟨walk.visited ++ [node], walk.out ++ emit node⟩

/-- Visit the seeds in order. -/
def walkFrom (fuel : Nat) (seeds : List ν) (walk : Walk ν β) : Option (Walk ν β) :=
  seeds.foldlM (fun walk node => walkNode edges emit fuel node walk) walk

/-- What a walk added: new nodes, each with its contribution, led to by a seed, and with known
successors that are all visited in the end. -/
structure Extended (seeds : List ν) (before after : Walk ν β) (added : List ν) : Prop where
  visited : after.visited = before.visited ++ added
  out : after.out = before.out ++ added.flatMap emit
  fresh : ∀ node ∈ added, node ∉ before.visited
  reached : ∀ node ∈ added, ∃ seed ∈ seeds, Relation.ReflTransGen (Edge edges) seed node
  closed : ∀ node ∈ added, ∃ nexts, edges node = some nexts ∧ ∀ next ∈ nexts, next ∈ after.visited
  seeded : ∀ seed ∈ seeds, seed ∈ after.visited

variable {edges emit}

omit [DecidableEq ν] in
/-- Nothing is added when the seeds were visited before. -/
theorem Extended.refl {seeds : List ν} {walk : Walk ν β}
    (seen : ∀ seed ∈ seeds, seed ∈ walk.visited) : Extended edges emit seeds walk walk [] :=
  ⟨by simp, by simp, by simp, by simp, by simp, seen⟩

omit [DecidableEq ν] in
/-- One walk after the other. -/
theorem Extended.trans {first second : List ν} {before middle after : Walk ν β}
    {here more : List ν} (head : Extended edges emit first before middle here)
    (tail : Extended edges emit second middle after more) :
    Extended edges emit (first ++ second) before after (here ++ more) := by
  have grows : ∀ node ∈ middle.visited, node ∈ after.visited := fun node member => by
    rw [tail.visited]
    exact mem_append_left _ member
  refine ⟨?_, ?_, ?_, ?_, ?_, ?_⟩
  · rw [tail.visited, head.visited, append_assoc]
  · rw [tail.out, head.out, flatMap_append, append_assoc]
  · intro node member
    rcases mem_append.mp member with early | late
    · exact head.fresh node early
    · intro old
      refine tail.fresh node late ?_
      rw [head.visited]
      exact mem_append_left _ old
  · intro node member
    rcases mem_append.mp member with early | late
    · obtain ⟨seed, found, path⟩ := head.reached node early
      exact ⟨seed, mem_append_left _ found, path⟩
    · obtain ⟨seed, found, path⟩ := tail.reached node late
      exact ⟨seed, mem_append_right _ found, path⟩
  · intro node member
    rcases mem_append.mp member with early | late
    · obtain ⟨nexts, known, inside⟩ := head.closed node early
      exact ⟨nexts, known, fun next found => grows next (inside next found)⟩
    · exact tail.closed node late
  · intro seed member
    rcases mem_append.mp member with early | late
    · exact grows seed (head.seeded seed early)
    · exact tail.seeded seed late

variable {fuel : Nat} {before after : Walk ν β}

/-- The walk after a loop over successors or seeds, when single visits are as stated. -/
theorem foldlM_extended
    (single : ∀ {node : ν} {before after : Walk ν β}, walkNode edges emit fuel node before = some
      after → ∃ added, Extended edges emit [node] before after added) {seeds : List ν}
    (walked : seeds.foldlM (fun walk node => walkNode edges emit fuel node walk) before = some
      after) : ∃ added, Extended edges emit seeds before after added := by
  induction seeds generalizing before with
  | nil =>
    cases walked
    exact ⟨[], .refl (by simp)⟩
  | cons seed rest ih =>
    rw [foldlM_cons] at walked
    obtain ⟨middle, first, later⟩ := bind_eq_some_iff.mp walked
    obtain ⟨here, head⟩ := single first
    obtain ⟨more, tail⟩ := ih later
    exact ⟨here ++ more, head.trans tail⟩

/-- A single visit extends the walk from its node. -/
theorem walkNode_extended {node : ν} (walked : walkNode edges emit fuel node before = some after) :
    ∃ added, Extended edges emit [node] before after added := by
  induction fuel generalizing node before after with
  | zero =>
    unfold walkNode at walked
    split at walked
    · rename_i seen
      cases walked
      exact ⟨[], .refl (by simpa using seen)⟩
    · cases walked
  | succ fuel ih =>
    unfold walkNode at walked
    split at walked
    · rename_i seen
      cases walked
      exact ⟨[], .refl (by simpa using seen)⟩
    · rename_i unseen
      obtain ⟨nexts, known, rest⟩ := bind_eq_some_iff.mp walked
      obtain ⟨added, extended⟩ := foldlM_extended ih rest
      have nodeVisited : node ∈ after.visited := by
        rw [extended.visited]
        simp
      refine ⟨node :: added, ?_, ?_, ?_, ?_, ?_, ?_⟩
      · simpa using extended.visited
      · simpa using extended.out
      · intro other member
        rcases mem_cons.mp member with rfl | later
        · exact unseen
        · exact fun old => extended.fresh other later (mem_append_left _ old)
      · intro other member
        refine ⟨node, mem_singleton_self _, ?_⟩
        rcases mem_cons.mp member with rfl | later
        · exact .refl
        · obtain ⟨next, found, path⟩ := extended.reached other later
          exact .head ⟨nexts, known, found⟩ path
      · intro other member
        rcases mem_cons.mp member with rfl | later
        · exact ⟨nexts, known, extended.seeded⟩
        · exact extended.closed other later
      · intro start member
        obtain rfl := mem_singleton.mp member
        exact nodeVisited

/-- A finished walk adds new nodes with their contributions. -/
theorem walkFrom_extended {seeds : List ν}
    (walked : walkFrom edges emit fuel seeds before = some after) :
    ∃ added, Extended edges emit seeds before after added :=
  foldlM_extended walkNode_extended walked

omit [DecidableEq ν] in
/-- From a root that is visited at the start, a finished walk visits everything that the seeds
lead to by steps that are successors wherever successors are known, when steps from the root
lead to seeds. -/
theorem Extended.visits_path {step : ν → ν → Prop} {root : ν} {seeds added : List ν}
    {out : List β} {after : Walk ν β}
    (extended : Extended edges emit seeds ⟨[root], out⟩ after added)
    (follows : ∀ {node next nexts}, edges node = some nexts → step node next → next ∈ nexts)
    (fromRoot : ∀ {next}, step root next → next ∈ seeds) {seed node : ν}
    (member : seed ∈ seeds) (path : Relation.ReflTransGen step seed node) :
    node ∈ after.visited := by
  induction path with
  | refl => exact extended.seeded seed member
  | tail _ last ih =>
    rw [extended.visited] at ih
    rcases mem_append.mp ih with start | new
    · obtain rfl := mem_singleton.mp start
      exact extended.seeded _ (fromRoot last)
    · obtain ⟨nexts, known, inside⟩ := extended.closed _ new
      exact inside _ (follows known last)

/-! ## Walks fail only with a query -/

end Nobify.Lib
