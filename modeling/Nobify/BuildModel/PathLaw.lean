import Nobify.BuildModel.Path
import Nobify.Lib.Climbs

/-!
# Laws of paths

A path is its position: whether it is absolute, and where its segments lead when `..` takes back
the segment before it. The normal form prints the position, and the position of a normal form is
the position it was printed from. Joining and rebasing are walks from one position to the next, so
their laws are the laws of such walks.

Before a source is looked up, a path that already starts with its base is only normalized. So two
different paths may come to stand for one file.
-/

namespace Nobify.BuildModel

open Lib (climbAll Settled Detour)
open List

variable {path rhs : StringView} {position : List StringView} {absolute : Bool}

/-! ## Segments -/

/-- No piece of a split text holds the separator. -/
theorem notMem_of_mem_splitOn {separator : Char} {text piece : StringView}
    (member : piece ∈ text.splitOn separator) : separator ∉ piece := by
  induction text generalizing piece with
  | nil =>
    obtain rfl := mem_singleton.mp member
    exact not_mem_nil
  | cons char rest ih =>
    rw [splitOn_cons_eq_if_modifyHead] at member
    by_cases same : (char == separator) = true
    · rw [if_pos same] at member
      rcases mem_cons.mp member with rfl | later
      · exact not_mem_nil
      · exact ih later
    · rw [if_neg same] at member
      cases pieces : rest.splitOn separator with
      | nil => exact absurd pieces (splitOn_ne_nil _ _)
      | cons first others =>
        rw [pieces] at ih member
        rcases mem_cons.mp member with rfl | later
        · intro found
          rcases mem_cons.mp found with rfl | inside
          · exact same (beq_self_eq_true _)
          · exact ih mem_cons_self inside
        · exact ih (mem_cons_of_mem _ later)

/-- A segment of a path. -/
def IsSegment (segment : StringView) : Prop := segment ≠ [] ∧ '/' ∉ segment

theorem isSegment_of_mem {segment : StringView} (member : segment ∈ pathSegments path) :
    IsSegment segment := by
  obtain ⟨piece, filled⟩ := mem_filter.mp member
  exact ⟨of_decide_eq_true filled, notMem_of_mem_splitOn piece⟩

theorem pathSegments_slash (left right : StringView) :
    pathSegments (left ++ '/' :: right) = pathSegments left ++ pathSegments right := by
  unfold pathSegments
  rw [splitOn_append_cons_self, filter_append]

/-- The segments of a printed list of segments. -/
theorem pathSegments_intercalate {segments : List StringView}
    (good : ∀ segment ∈ segments, IsSegment segment) :
    pathSegments (['/'].intercalate segments) = segments := by
  by_cases none : segments = []
  · subst none
    rfl
  · unfold pathSegments
    rw [splitOn_intercalate '/' (fun segment member => (good segment member).2) none,
      filter_eq_self]
    exact fun segment member => decide_eq_true (good segment member).1

theorem intercalate_ne_nil {segments : List StringView} (filled : segments ≠ [])
    (good : ∀ segment ∈ segments, IsSegment segment) : ['/'].intercalate segments ≠ [] := by
  intro empty
  have back := pathSegments_intercalate good
  rw [empty] at back
  exact filled back.symm

/-- A printed list starts with its first segment. -/
theorem pathIsAbs_intercalate {segments : List StringView}
    (good : ∀ segment ∈ segments, IsSegment segment) :
    pathIsAbs (['/'].intercalate segments) = false := by
  cases segments with
  | nil => rfl
  | cons first rest =>
    obtain ⟨filled, plain⟩ := good first mem_cons_self
    cases first with
    | nil => exact absurd rfl filled
    | cons char text =>
      have other : char ≠ '/' := fun same => plain (same ▸ mem_cons_self)
      have start : (['/'].intercalate ((char :: text) :: rest)).head? = some char := by
        cases rest with
        | nil => rw [intercalate_singleton, List.head?_cons]
        | cons next others =>
          rw [intercalate_cons_cons, append_assoc, cons_append, List.head?_cons]
      unfold pathIsAbs
      rw [start]
      exact beq_false_of_ne fun same => other (Option.some.inj same)

/-! ## Positions -/

/-- The segments that move: all but `.`. -/
def pathSteps (path : StringView) : List StringView := (pathSegments path).filter (· ≠ sv ".")

/-- Where a path leads. -/
def pathPosition (path : StringView) : List StringView :=
  climbAll (sv "..") (pathIsAbs path) [] (pathSteps path)

/-- The text of a position. -/
def printPath (absolute : Bool) (position : List StringView) : StringView :=
  let joined := (if absolute then ['/'] else []) ++ ['/'].intercalate position
  if joined = [] then ['.'] else joined

/-- The segments of a path that are not dropped. -/
def Clean (steps : List StringView) : Prop :=
  ∀ step ∈ steps, IsSegment step ∧ step ≠ sv "."

theorem clean_pathSteps (path : StringView) : Clean (pathSteps path) := by
  intro step member
  obtain ⟨segment, kept⟩ := mem_filter.mp member
  exact ⟨isSegment_of_mem segment, of_decide_eq_true kept⟩

/-- A walk makes no new segments. -/
theorem Clean.climbAll {rooted : Bool} {steps : List StringView} (clean : Clean position)
    (more : Clean steps) : Clean (climbAll (sv "..") rooted position steps) := by
  intro step member
  rcases Lib.mem_climbAll member with before | walked
  · exact clean step before
  · exact more step walked

theorem clean_nil : Clean [] := fun _ member => nomatch member

theorem clean_pathPosition (path : StringView) : Clean (pathPosition path) :=
  clean_nil.climbAll (clean_pathSteps path)

theorem Clean.segments {steps : List StringView} (clean : Clean steps) :
    ∀ step ∈ steps, IsSegment step := fun step member => (clean step member).1

/-- The segment machine of `bm_normalize_path` walks by the steps of the path. -/
theorem foldl_pushSegment (absolute : Bool) (position segments : List StringView) :
    segments.foldl (pushSegment absolute) position =
      climbAll (sv "..") absolute position (segments.filter (· ≠ sv ".")) := by
  induction segments generalizing position with
  | nil => rfl
  | cons segment rest ih =>
    rw [foldl_cons, ih]
    by_cases dot : segment = sv "."
    · rw [filter_cons_of_neg (by simp [dot]), pushSegment, if_pos dot]
    · rw [filter_cons_of_pos (by simp [dot]), Lib.climbAll_cons, pushSegment, if_neg dot]
      by_cases same : segment = sv ".."
      · rw [if_pos same, Lib.climb, if_pos same]
      · rw [if_neg same, Lib.climb, if_neg same]

/-- The normal form is the text of the position. -/
theorem normalizePath_eq (path : StringView) :
    normalizePath path = printPath (pathIsAbs path) (pathPosition path) := by
  show printPath (pathIsAbs path) ((pathSegments path).foldl (pushSegment (pathIsAbs path)) []) = _
  rw [foldl_pushSegment]
  rfl

theorem pathSegments_print (clean : Clean position) : pathSegments (printPath absolute position) =
      if absolute = false ∧ position = [] then [sv "."] else position := by
  cases absolute with
  | true =>
    rw [if_neg (by simp)]
    show pathSegments ([] ++ '/' :: ['/'].intercalate position) = position
    rw [pathSegments_slash, pathSegments_intercalate clean.segments]
    rfl
  | false =>
    by_cases none : position = []
    · subst none
      rfl
    · have filled := intercalate_ne_nil none clean.segments
      rw [if_neg fun both => none both.2]
      show pathSegments (if ['/'].intercalate position = [] then ['.']
        else ['/'].intercalate position) = position
      rw [if_neg filled, pathSegments_intercalate clean.segments]

theorem pathSteps_print (clean : Clean position) :
    pathSteps (printPath absolute position) = position := by
  unfold pathSteps
  rw [pathSegments_print clean]
  split
  · rename_i none
    rw [none.2]
    rfl
  · exact filter_eq_self.mpr fun step member => decide_eq_true (clean step member).2

theorem pathIsAbs_print (clean : Clean position) :
    pathIsAbs (printPath absolute position) = absolute := by
  cases absolute with
  | true => rfl
  | false =>
    by_cases none : position = []
    · subst none
      rfl
    · have filled := intercalate_ne_nil none clean.segments
      show pathIsAbs (if ['/'].intercalate position = [] then ['.']
        else ['/'].intercalate position) = false
      rw [if_neg filled, pathIsAbs_intercalate clean.segments]

theorem pathIsAbs_normalizePath (path : StringView) :
    pathIsAbs (normalizePath path) = pathIsAbs path := by
  rw [normalizePath_eq, pathIsAbs_print (clean_pathPosition path)]

theorem pathSteps_normalizePath (path : StringView) :
    pathSteps (normalizePath path) = pathPosition path := by
  rw [normalizePath_eq, pathSteps_print (clean_pathPosition path)]

/-- A relative path leads to steps up and names behind them. -/
theorem settled_pathPosition (relative : pathIsAbs path = false) :
    Settled (sv "..") (pathPosition path) := by
  unfold pathPosition
  rw [relative]
  exact Lib.settled_climbAll

/-- An absolute path leads to names. -/
theorem up_notMem_pathPosition (absolute : pathIsAbs path = true) :
    sv ".." ∉ pathPosition path := by
  unfold pathPosition
  rw [absolute]
  exact Lib.up_notMem_climbAll not_mem_nil

/-- A position leads to itself. -/
theorem climbAll_pathPosition (path : StringView) :
    climbAll (sv "..") (pathIsAbs path) [] (pathPosition path) = pathPosition path := by
  cases absolute : pathIsAbs path with
  | true =>
    rw [Lib.climbAll_names (up_notMem_pathPosition absolute), nil_append]
  | false => exact (settled_pathPosition absolute).climbAll_eq

theorem pathPosition_normalizePath (path : StringView) :
    pathPosition (normalizePath path) = pathPosition path := by
  rw [pathPosition, pathIsAbs_normalizePath, pathSteps_normalizePath, climbAll_pathPosition]

/-- `bm_normalize_path` is idempotent. -/
theorem normalizePath_idem (path : StringView) :
    normalizePath (normalizePath path) = normalizePath path := by
  rw [normalizePath_eq (normalizePath path), pathIsAbs_normalizePath, pathPosition_normalizePath,
    normalizePath_eq path]

/-- Paths have one normal form when they lead to one position from one start. -/
theorem normalizePath_eq_iff {left right : StringView} : normalizePath left = normalizePath right ↔
      pathIsAbs left = pathIsAbs right ∧ pathPosition left = pathPosition right := by
  constructor
  · intro same
    have starts := congrArg pathIsAbs same
    have positions := congrArg pathPosition same
    rw [pathIsAbs_normalizePath, pathIsAbs_normalizePath] at starts
    rw [pathPosition_normalizePath, pathPosition_normalizePath] at positions
    exact ⟨starts, positions⟩
  · rintro ⟨starts, positions⟩
    rw [normalizePath_eq, normalizePath_eq, starts, positions]

/-! ## Joining -/

theorem pathSteps_slash (left right : StringView) :
    pathSteps (left ++ '/' :: right) = pathSteps left ++ pathSteps right := by
  unfold pathSteps
  rw [pathSegments_slash, filter_append]

/-- The text that `bm_path_join` normalizes. -/
def joinedText (lhs rhs : StringView) : StringView :=
  lhs ++ (if lhs ≠ [] ∧ lhs.getLast? ≠ some '/' then ['/'] else []) ++ rhs

theorem pathSteps_joinedText (lhs rhs : StringView) :
    pathSteps (joinedText lhs rhs) = pathSteps lhs ++ pathSteps rhs := by
  unfold joinedText
  by_cases none : lhs = []
  · subst none
    rfl
  · by_cases closed : lhs.getLast? = some '/'
    · -- the slash at the end of the left path separates
      obtain ⟨front, rfl⟩ : ∃ front, lhs = front ++ ['/'] :=
        ⟨lhs.dropLast, (dropLast_append_getLast? '/' closed).symm⟩
      rw [if_neg fun open' => open'.2 closed, append_nil, append_assoc,
        singleton_append, pathSteps_slash, pathSteps_slash]
      show _ = pathSteps front ++ [] ++ pathSteps rhs
      rw [append_nil]
    · rw [if_pos ⟨none, closed⟩, append_assoc, singleton_append, pathSteps_slash]

theorem pathIsAbs_joinedText (relative : pathIsAbs rhs = false) (lhs : StringView) :
    pathIsAbs (joinedText lhs rhs) = pathIsAbs lhs := by
  cases lhs with
  | nil => exact relative
  | cons char rest => rfl

/-- Joining walks on from the position of the left path. -/
theorem pathJoin_eq (relative : pathIsAbs rhs = false) (lhs : StringView) :
    pathJoin lhs rhs = printPath (pathIsAbs lhs)
      (climbAll (sv "..") (pathIsAbs lhs) (pathPosition lhs) (pathPosition rhs)) := by
  have walked : pathPosition (joinedText lhs rhs) =
      climbAll (sv "..") (pathIsAbs lhs) (pathPosition lhs) (pathPosition rhs) := by
    unfold pathPosition
    rw [pathIsAbs_joinedText relative, relative, pathSteps_joinedText, Lib.climbAll_append,
      Lib.climbAll_climbAll]
  show normalizePath (joinedText lhs rhs) = _
  rw [normalizePath_eq, walked, pathIsAbs_joinedText relative]

/-- Where a walk from the position of a path leads. -/
theorem clean_walk (lhs rhs : StringView) :
    Clean (climbAll (sv "..") (pathIsAbs lhs) (pathPosition lhs) (pathPosition rhs)) :=
  (clean_pathPosition lhs).climbAll (clean_pathPosition rhs)

theorem pathIsAbs_pathJoin (relative : pathIsAbs rhs = false) (lhs : StringView) :
    pathIsAbs (pathJoin lhs rhs) = pathIsAbs lhs := by
  rw [pathJoin_eq relative, pathIsAbs_print (clean_walk lhs rhs)]

theorem pathPosition_pathJoin (relative : pathIsAbs rhs = false) (lhs : StringView) :
    pathPosition (pathJoin lhs rhs) =
      climbAll (sv "..") (pathIsAbs lhs) (pathPosition lhs) (pathPosition rhs) := by
  have steps : pathPosition (pathJoin lhs rhs) = pathSteps (pathJoin lhs rhs) := by
    have twice := pathSteps_normalizePath (joinedText lhs rhs)
    have once := pathPosition_normalizePath (joinedText lhs rhs)
    exact once.trans twice.symm
  rw [steps, pathJoin_eq relative, pathSteps_print (clean_walk lhs rhs)]

/-- Joining is associative on relative right paths. -/
theorem pathJoin_assoc {second third : StringView} (secondRelative : pathIsAbs second = false)
    (thirdRelative : pathIsAbs third = false) (first : StringView) :
    pathJoin (pathJoin first second) third = pathJoin first (pathJoin second third) := by
  have relative : pathIsAbs (pathJoin second third) = false := by
    rw [pathIsAbs_pathJoin thirdRelative, secondRelative]
  rw [pathJoin_eq thirdRelative, pathJoin_eq relative, pathIsAbs_pathJoin secondRelative,
    pathPosition_pathJoin secondRelative, pathPosition_pathJoin thirdRelative, secondRelative,
    ← Lib.climbAll_append]
  have walked : climbAll (sv "..") false (pathPosition second) (pathPosition third) =
      climbAll (sv "..") false [] (pathPosition second ++ pathPosition third) := by
    rw [Lib.climbAll_append, (settled_pathPosition secondRelative).climbAll_eq]
  rw [walked, Lib.climbAll_climbAll]

/-- Rebasing a relative path joins it. -/
theorem pathRebase_relative (relative : pathIsAbs path = false) (base : StringView) :
    pathRebase base path = pathJoin base path := by
  rw [pathRebase, if_neg (by rw [relative]; exact Bool.false_ne_true)]

end Nobify.BuildModel
