import Nobify.Evaluator.Condition
import Nobify.Lib.Depths

/-!
# Normal forms of paths

The evaluator has two functions that normalize a path. `eval_sv_path_normalize_temp` computes the
size of its result before it writes it, and keeps the first two segments behind two separators.
`sv_path_normalize_temp` serves `PATH_EQUAL` and treats two separators as one.

Both walk by the segments of a path and print where the walk leads. What they print is a normal
form when it is read back with the same root, which a drive prefix that appears in front of a
relative path prevents.
-/

namespace Nobify.Evaluator

open Lib (climb climbAll Settled Stays Returns)
open List

variable {path segment text : StringView} {char letter : Char}
  {more segments steps : List StringView}

/-! ## Segments -/

/-- What can be a segment that is walked: neither empty nor a point, and without separators. -/
def IsStep (segment : StringView) : Prop :=
  segment ≠ [] ∧ segment ≠ sv "." ∧ ∀ char ∈ segment, isPathSep char = false

/-- The pieces of a split text are made of its characters and hold no separator. -/
theorem mem_splitOnP {separator : Char → Bool} {piece : StringView}
    (member : piece ∈ text.splitOnP separator) :
    ∀ char ∈ piece, char ∈ text ∧ separator char = false := by
  induction text generalizing piece with
  | nil =>
    obtain rfl := mem_singleton.mp member
    exact fun char listed => nomatch listed
  | cons first rest ih =>
    have kept : ∀ {later : StringView}, later ∈ rest.splitOnP separator →
        ∀ char ∈ later, char ∈ first :: rest ∧ separator char = false := fun later char listed =>
      ⟨mem_cons_of_mem _ (ih later char listed).1, (ih later char listed).2⟩
    rw [splitOnP_cons_eq_if_modifyHead] at member
    cases separates : separator first with
    | true =>
      rw [separates, if_pos rfl] at member
      rcases mem_cons.mp member with rfl | later
      · exact fun char listed => nomatch listed
      · exact kept later
    | false =>
      rw [separates, if_neg Bool.false_ne_true] at member
      cases pieces : rest.splitOnP separator with
      | nil => exact absurd pieces (splitOnP_ne_nil _ _)
      | cons front others =>
        rw [pieces] at kept member
        rcases mem_cons.mp member with rfl | later
        · intro char listed
          rcases mem_cons.mp listed with rfl | inside
          · exact ⟨mem_cons_self, separates⟩
          · exact kept mem_cons_self char inside
        · exact kept (mem_cons_of_mem _ later)

theorem isStep_of_mem (member : segment ∈ pathSegments text) : IsStep segment := by
  obtain ⟨piece, kept⟩ := mem_filter.mp member
  have parts : segment ≠ [] ∧ segment ≠ sv "." := by
    cases segment <;> simp_all
  exact ⟨parts.1, parts.2, fun char listed => (mem_splitOnP piece char listed).2⟩

theorem mem_of_mem_pathSegments (member : segment ∈ pathSegments text) (listed : char ∈ segment) :
    char ∈ text :=
  (mem_splitOnP (mem_filter.mp member).1 char listed).1

/-- The segments on both sides of a separator. -/
theorem pathSegments_sep (separates : isPathSep char = true) (left right : StringView) :
    pathSegments (left ++ char :: right) = pathSegments left ++ pathSegments right := by
  unfold pathSegments
  rw [splitOnP_append_cons _ _ separates, filter_append]

theorem isStep_filter (good : IsStep segment) : (!segment.isEmpty && segment != sv ".") = true := by
  obtain ⟨filled, other, _⟩ := good
  cases segment with
  | nil => exact absurd rfl filled
  | cons char rest => simpa using other

/-- A segment is its own only segment. -/
theorem pathSegments_step (good : IsStep segment) : pathSegments segment = [segment] := by
  unfold pathSegments
  rw [splitOnP_eq_singleton good.2.2, filter_eq_self]
  intro other member
  rw [mem_singleton.mp member]
  exact isStep_filter good

/-- The segments with a slash between any two of them. -/
def printSteps (segments : List StringView) : StringView := (sv "/").intercalate segments

theorem printSteps_cons (first : StringView) (rest : List StringView) :
    printSteps (first :: rest) = first ++ rest.flatMap ('/' :: ·) := by
  induction rest generalizing first with
  | nil => rw [printSteps, intercalate_singleton, flatMap_nil, append_nil]
  | cons second others ih =>
    have later := ih second
    unfold printSteps at later ⊢
    rw [intercalate_cons_cons, later, flatMap_cons, append_assoc]
    rfl

/-- The segments of a printed list of segments. -/
theorem pathSegments_printSteps (good : ∀ segment ∈ segments, IsStep segment) :
    pathSegments (printSteps segments) = segments := by
  cases segments with
  | nil => rfl
  | cons first rest =>
    rw [printSteps_cons]
    induction rest generalizing first with
    | nil => rw [flatMap_nil, append_nil, pathSegments_step (good first mem_cons_self)]
    | cons second others ih =>
      have later := ih second fun segment member => good segment (mem_cons_of_mem _ member)
      rw [flatMap_cons, cons_append, pathSegments_sep rfl, later,
        pathSegments_step (good first mem_cons_self), singleton_append]

/-- What stands behind a first segment. -/
theorem flatMap_slash (filled : steps ≠ []) :
    steps.flatMap ('/' :: ·) = '/' :: printSteps steps := by
  cases steps with
  | nil => exact absurd rfl filled
  | cons first rest => rw [printSteps_cons, flatMap_cons, cons_append]

theorem pathSegments_slash (good : ∀ step ∈ steps, IsStep step) :
    pathSegments ('/' :: printSteps steps) = steps := by
  have split := @pathSegments_sep '/' rfl [] (printSteps steps)
  rw [pathSegments_printSteps good] at split
  exact split

/-- A printed list starts with the first character of its first segment. -/
theorem head?_printSteps (good : ∀ segment ∈ segments, IsStep segment) :
    (printSteps segments).head?.any isPathSep = false := by
  cases segments with
  | nil => rfl
  | cons first rest =>
    obtain ⟨filled, _, plain⟩ := good first mem_cons_self
    rw [printSteps_cons]
    cases first with
    | nil => exact absurd rfl filled
    | cons char others =>
      rw [cons_append, List.head?_cons, Option.any_some, plain char mem_cons_self]

theorem mem_printSteps (listed : char ∈ printSteps segments) :
    char = '/' ∨ ∃ segment ∈ segments, char ∈ segment := by
  cases segments with
  | nil => cases listed
  | cons first rest =>
    rw [printSteps_cons, mem_append, mem_flatMap] at listed
    rcases listed with inside | ⟨segment, member, inside⟩
    · exact .inr ⟨first, mem_cons_self, inside⟩
    · rcases mem_cons.mp inside with slash | later
      · exact .inl slash
      · exact .inr ⟨segment, mem_cons_of_mem _ member, later⟩

/-- The length of a printed list, with one more for each segment but the first. -/
theorem length_printSteps (segments : List StringView) : (printSteps segments).length =
      (segments.map List.length).sum + (segments.length - 1) := by
  cases segments with
  | nil => rfl
  | cons first rest =>
    rw [printSteps_cons, length_append, map_cons, sum_cons, length_cons,
      Nat.add_sub_cancel, length_flatMap, Nat.add_assoc]
    congr 1
    induction rest with
    | nil => rfl
    | cons second others ih =>
      simp only [map_cons, sum_cons, length_cons] at ih ⊢
      omega

/-! ## Walking by the segments -/

/-- A root at which steps up stop. -/
def PathRoot.rooted : PathRoot → Bool
  | .slash | .drive _ => true
  | .relative | .driveRelative _ => false

/-- Where the segments of a path lead behind its root. -/
def walked (path : StringView) : List StringView :=
  climbAll (sv "..") (pathRoot path).1.rooted [] (pathSegments (pathRoot path).2)

/-- One segment of `sv_path_normalize_temp` is one step of a walk. -/
theorem pathStep_eq (rooted : Bool) (position : List StringView) (step : StringView) :
    pathStep rooted position.reverse step = (climb (sv "..") rooted position step).reverse := by
  unfold pathStep climb
  cases position using List.reverseRecOn with
  | nil => by_cases up : step = sv ".." <;> cases rooted <;> simp [up]
  | append_singleton before last =>
    by_cases up : step = sv ".." <;> by_cases same : last = sv ".." <;> cases rooted <;>
      simp [up, same]

theorem foldl_pathStep (rooted : Bool) (position steps : List StringView) :
    steps.foldl (pathStep rooted) position.reverse =
      (climbAll (sv "..") rooted position steps).reverse := by
  induction steps generalizing position with
  | nil => rfl
  | cons step rest ih => rw [foldl_cons, pathStep_eq, ih, Lib.climbAll_cons]

/-- The normal form of `sv_path_normalize_temp` is the root with the segments behind it. -/
theorem svPathNormalize_eq (path : StringView) :
    svPathNormalize path = (pathRoot path).1.text ++ printSteps (walked path) := by
  have segments := foldl_pathStep (pathRoot path).1.rooted [] (pathSegments (pathRoot path).2)
  rw [reverse_nil] at segments
  show (pathRoot path).1.text ++ (sv "/").intercalate
    ((pathSegments (pathRoot path).2).foldl (pathStep (pathRoot path).1.rooted) []).reverse = _
  rw [segments, reverse_reverse]
  rfl

/-- One segment of `eval_sv_path_normalize_temp` is one step of a walk, unless two separators
stand in front. -/
theorem foldl_normalizeStep (absolute : Bool) (position steps : List StringView) :
    steps.foldl (normalizeStep absolute false) (position.reverse, 0) =
      ((climbAll (sv "..") absolute position steps).reverse, 0) := by
  induction steps generalizing position with
  | nil => rfl
  | cons step rest ih =>
    have one : normalizeStep absolute false (position.reverse, 0) step =
        ((climb (sv "..") absolute position step).reverse, 0) := by
      unfold normalizeStep climb
      cases position using List.reverseRecOn with
      | nil => by_cases up : step = sv ".." <;> cases absolute <;> simp [up]
      | append_singleton before last =>
        by_cases up : step = sv ".." <;> by_cases same : last = sv ".." <;> cases absolute <;>
          simp [up, same]
    rw [foldl_cons, one, ih, Lib.climbAll_cons]

/-! ## Roots -/

/-- `is_unc`: two separators stand in front. -/
def isUnc : StringView → Bool
  | first :: second :: _ => isPathSep first && isPathSep second
  | _ => false

/-- `has_drive`: a letter and a colon stand in front. -/
def hasDrive : StringView → Bool
  | first :: second :: _ => isLetter first && second == ':'
  | _ => false

theorem isPathSep_of_isLetter (letter : isLetter char = true) : isPathSep char = false := by
  cases separates : isPathSep char with
  | false => rfl
  | true =>
    have either : char = '/' ∨ char = '\\' := by simpa only [isPathSep, Bool.or_eq_true, beq_iff_eq]
      using separates
    rcases either with rfl | rfl <;> cases letter

/-- A path with a separator in front has no drive. -/
theorem hasDrive_sep (front : path.head?.any isPathSep = true) : hasDrive path = false := by
  match path with
  | [_] => rfl
  | first :: second :: _ =>
    show (isLetter first && second == ':') = false
    cases letter : isLetter first with
    | false => rfl
    | true =>
      have separates : isPathSep first = true := front
      rw [isPathSep_of_isLetter letter] at separates
      cases separates

variable (good : isLetter letter = true)

include good in
theorem hasDrive_letter (rest : StringView) : hasDrive (letter :: ':' :: rest) = true := by
  show (isLetter letter && ':' == ':') = true
  rw [good]
  rfl

/-- Without two separators in front both functions find the same root. -/
theorem normalizeRoot_eq (single : isUnc path = false) : normalizeRoot path =
      ((pathRoot path).1.text, (pathRoot path).1.rooted, false, (pathRoot path).2) := by
  match path with
  | [] => rfl
  | [char] =>
    by_cases separates : isPathSep char = true <;>
      simp [normalizeRoot, pathRoot, separates, PathRoot.text, PathRoot.rooted, sv]
  | first :: second :: rest =>
    have single : (isPathSep first && isPathSep second) = false := single
    have front : normalizeRoot (first :: second :: rest) =
        if isLetter first && second == ':' then
          if rest.head?.any isPathSep then (first :: sv ":/", true, false, rest)
          else (first :: sv ":", false, false, rest)
        else if isPathSep first then (sv "/", true, false, second :: rest)
        else ([], false, false, first :: second :: rest) := by
      rw [normalizeRoot, single, if_neg Bool.false_ne_true]
    rw [front, pathRoot]
    cases separates : isPathSep first with
    | true =>
      have none : isLetter first = false := by
        cases letter : isLetter first with
        | false => rfl
        | true => rw [isPathSep_of_isLetter letter] at separates; cases separates
      rw [none]
      rfl
    | false =>
      cases drive : isLetter first && second == ':' with
      | true => cases behind : rest.head?.any isPathSep <;> rfl
      | false => rfl

theorem normalizeSegments_eq (single : isUnc path = false) :
    normalizeSegments path = walked path := by
  have segments := foldl_normalizeStep (pathRoot path).1.rooted [] (pathSegments (pathRoot path).2)
  rw [reverse_nil] at segments
  unfold normalizeSegments
  rw [normalizeRoot_eq single]
  show (((pathSegments (pathRoot path).2).foldl
    (normalizeStep (pathRoot path).1.rooted false) ([], 0)).1).reverse = _
  rw [segments, reverse_reverse]
  rfl

theorem pathRoot_relative (plain : text.head?.any isPathSep = false) (none : hasDrive text = false)
    : pathRoot text = (.relative, text) := by
  match text with
  | [] => rfl
  | [char] =>
    have plain : isPathSep char = false := plain
    rw [pathRoot, plain]
    rfl
  | first :: second :: rest =>
    have plain : isPathSep first = false := plain
    have none : (isLetter first && second == ':') = false := none
    rw [pathRoot, plain, none]
    rfl

theorem pathRoot_slash (text : StringView) : pathRoot ('/' :: text) = (.slash, text) := by
  cases text <;> rfl

include good

theorem pathRoot_drive (text : StringView) :
    pathRoot (letter :: ':' :: '/' :: text) = (.drive letter, '/' :: text) := by
  rw [pathRoot, isPathSep_of_isLetter good, good]
  rfl

theorem pathRoot_driveRelative (plain : text.head?.any isPathSep = false) :
    pathRoot (letter :: ':' :: text) = (.driveRelative letter, text) := by
  rw [pathRoot, isPathSep_of_isLetter good, good, plain]
  rfl

omit good

/-- The four roots, and the texts in front of which they are found. -/
theorem pathRoot_cases (path : StringView) :
    (path.head?.any isPathSep = true ∧ ∃ rest, pathRoot path = (.slash, rest)) ∨
      (∃ letter rest, isLetter letter = true ∧ path = letter :: ':' :: rest ∧
        rest.head?.any isPathSep = true ∧ pathRoot path = (.drive letter, rest)) ∨
      (∃ letter rest, isLetter letter = true ∧ path = letter :: ':' :: rest ∧
        rest.head?.any isPathSep = false ∧ pathRoot path = (.driveRelative letter, rest)) ∨
      (path.head?.any isPathSep = false ∧ hasDrive path = false ∧
        pathRoot path = (.relative, path)) := by
  cases separates : path.head?.any isPathSep with
  | true =>
    refine .inl ⟨rfl, ?_⟩
    match path with
    | [char] =>
      have separates : isPathSep char = true := separates
      exact ⟨[], by rw [pathRoot, separates]; rfl⟩
    | first :: second :: rest =>
      have separates : isPathSep first = true := separates
      exact ⟨second :: rest, by rw [pathRoot, separates]; rfl⟩
  | false =>
    cases drive : hasDrive path with
    | false => exact .inr (.inr (.inr ⟨rfl, rfl, pathRoot_relative separates drive⟩))
    | true =>
      match path with
      | letter :: second :: rest =>
        obtain ⟨good, colon⟩ := (Bool.and_eq_true _ _).mp drive
        obtain rfl := eq_of_beq colon
        have plain := isPathSep_of_isLetter good
        cases behind : rest.head?.any isPathSep with
        | true =>
          refine .inr (.inl ⟨letter, rest, good, rfl, behind, ?_⟩)
          rw [pathRoot, plain, good, behind]
          rfl
        | false =>
          exact .inr (.inr (.inl ⟨letter, rest, good, rfl, behind,
            pathRoot_driveRelative good behind⟩))

/-! ## Where normal forms lead -/

theorem isStep_walked (path : StringView) : ∀ segment ∈ walked path, IsStep segment := by
  intro segment member
  rcases Lib.mem_climbAll member with before | walks
  · exact nomatch before
  · exact isStep_of_mem walks

/-- Walking by the segments that are left leads to them. -/
theorem climbAll_walked (path : StringView) :
    climbAll (sv "..") (pathRoot path).1.rooted [] (walked path) = walked path := by
  unfold walked
  cases (pathRoot path).1.rooted with
  | true =>
    rw [Lib.climbAll_names (Lib.up_notMem_climbAll not_mem_nil), nil_append]
  | false => exact Lib.settled_climbAll.climbAll_eq

theorem walked_eq {root : PathRoot} (found : pathRoot path = (root, text))
    (segments : pathSegments text = steps) :
    walked path = climbAll (sv "..") root.rooted [] steps := by
  rw [walked, found, ← segments]

/-- The first names of the segments that are left. -/
theorem walked_head? (relative : (pathRoot path).1.rooted = false) {name : StringView}
    (down : name ≠ sv "..") :
    (walked path).head? = some name ↔
      Lib.Begins (sv "..") name (pathSegments (pathRoot path).2) := by
  rw [walked, relative]
  exact Lib.climbAll_head?_iff down

/-- A text that is read back with its root is its own normal form. -/
theorem svPathNormalize_again (found : pathRoot (svPathNormalize path) = ((pathRoot path).1, text))
    (segments : pathSegments text = walked path) :
    svPathNormalize (svPathNormalize path) = svPathNormalize path := by
  rw [svPathNormalize_eq (svPathNormalize path), walked_eq found segments, found,
    climbAll_walked, ← svPathNormalize_eq]

include good in
/-- Behind a drive the segments stay what they are. -/
theorem svPathNormalize_driveRelative (plain : text.head?.any isPathSep = false)
    (segments : pathSegments text = steps)
    (settled : Settled (sv "..") steps) :
    svPathNormalize (letter :: ':' :: text) = letter :: ':' :: printSteps steps := by
  have found := pathRoot_driveRelative good plain
  rw [svPathNormalize_eq, walked_eq found segments, found, PathRoot.rooted, settled.climbAll_eq]
  rfl

/-- What is left of a relative path behind a name is names. -/
theorem up_notMem_behind {name : StringView} (relative : (pathRoot path).1.rooted = false)
    (left : walked path = name :: more) (down : name ≠ sv "..") : sv ".." ∉ more := by
  have settled : Settled (sv "..") (walked path) := by
    rw [walked, relative]
    exact Lib.settled_climbAll
  have free := settled.up_notMem (by rw [left, List.head?_cons]) down
  rw [left] at free
  exact fun member => free (mem_cons_of_mem _ member)

include good

/-- No step up starts with a drive prefix. -/
theorem prefixed_ne_up (rest : StringView) : letter :: ':' :: rest ≠ sv ".." := by
  intro same
  have first := (List.cons.inj same).1
  rw [first] at good
  cases good

/-- A drive prefix alone, in front of names. -/
theorem svPathNormalize_letter (steps : ∀ segment ∈ more, IsStep segment) (free : sv ".." ∉ more) :
    svPathNormalize (letter :: ':' :: more.flatMap ('/' :: ·)) =
      letter :: ':' :: more.flatMap ('/' :: ·) := by
  by_cases none : more = []
  · subst none
    exact svPathNormalize_driveRelative good rfl rfl Settled.nil
  · have found := pathRoot_drive good (printSteps more)
    rw [flatMap_slash none, svPathNormalize_eq, walked_eq found (pathSegments_slash steps), found,
      PathRoot.rooted, Lib.climbAll_names free]
    rfl

/-- A drive prefix with a point behind it: the point is dropped. -/
theorem svPathNormalize_point (steps : ∀ segment ∈ more, IsStep segment) (free : sv ".." ∉ more) :
    svPathNormalize (letter :: ':' :: (sv "." ++ more.flatMap ('/' :: ·))) =
      letter :: ':' :: printSteps more := by
  have segments : pathSegments (sv "." ++ more.flatMap ('/' :: ·)) = more := by
    by_cases none : more = []
    · subst none
      rfl
    · rw [flatMap_slash none, pathSegments_sep rfl, pathSegments_printSteps steps]
      rfl
  exact svPathNormalize_driveRelative good rfl segments ⟨0, more, free, rfl⟩

/-- A drive prefix with any other segment behind it. -/
theorem svPathNormalize_behind {rest : StringView}
    (steps : ∀ segment ∈ rest :: more, IsStep segment) (free : sv ".." ∉ more) :
    svPathNormalize (letter :: ':' :: (rest ++ more.flatMap ('/' :: ·))) =
      letter :: ':' :: (rest ++ more.flatMap ('/' :: ·)) := by
  have settled : Settled (sv "..") (rest :: more) := by
    by_cases up : rest = sv ".."
    · exact ⟨1, more, free, by rw [up]; rfl⟩
    · refine ⟨0, rest :: more, ?_, rfl⟩
      intro member
      rcases mem_cons.mp member with same | later
      · exact up same.symm
      · exact free later
  have front := head?_printSteps steps
  have segments := pathSegments_printSteps steps
  have again := svPathNormalize_driveRelative good front segments settled
  rw [printSteps_cons] at again
  exact again

/-- A relative path of which a drive prefix is left in front. -/
theorem svPathNormalize_prefixed {rest : StringView}
    (root : (pathRoot path).1 = .relative) (left : walked path = (letter :: ':' :: rest) :: more) :
    svPathNormalize (svPathNormalize path) = svPathNormalize path ↔ rest ≠ sv "." := by
  have whole : svPathNormalize path = letter :: ':' :: (rest ++ more.flatMap ('/' :: ·)) := by
    rw [svPathNormalize_eq, root, left, printSteps_cons]
    rfl
  have free : sv ".." ∉ more := up_notMem_behind (by rw [root]; rfl) left (prefixed_ne_up good rest)
  have steps := isStep_walked path
  rw [left] at steps
  have moreSteps : ∀ segment ∈ more, IsStep segment :=
    fun segment member => steps segment (mem_cons_of_mem _ member)
  rw [whole]
  by_cases none : rest = []
  · subst none
    exact iff_of_true (svPathNormalize_letter good moreSteps free) (by decide)
  by_cases dot : rest = sv "."
  · subst dot
    refine iff_of_false ?_ fun other => other rfl
    rw [svPathNormalize_point good moreSteps free]
    intro same
    have lengths := congrArg List.length same
    cases more with
    | nil => cases lengths
    | cons second others =>
      rw [printSteps_cons] at lengths
      simp only [length_cons, length_append, flatMap_cons] at lengths
      omega
  · refine iff_of_true (svPathNormalize_behind good ?_ free) dot
    intro segment member
    rcases mem_cons.mp member with rfl | later
    · exact ⟨none, dot, fun char listed => (steps _ mem_cons_self).2.2 char
        (mem_cons_of_mem _ (mem_cons_of_mem _ listed))⟩
    · exact moreSteps segment later

omit good

/-- A printed list starts like a path on a drive when its first segment does. -/
theorem hasDrive_printSteps (good : ∀ step ∈ steps, IsStep step) :
    hasDrive (printSteps steps) = true ↔
      ∃ letter rest more, isLetter letter = true ∧ steps = (letter :: ':' :: rest) :: more := by
  constructor
  · intro drive
    cases steps with
    | nil => cases drive
    | cons first more =>
      rw [printSteps_cons] at drive
      match first with
      | [] => exact absurd rfl (good [] mem_cons_self).1
      | [char] =>
        -- behind a single character stands a slash, not a colon
        cases more with
        | nil => cases drive
        | cons second others =>
          obtain ⟨_, colon⟩ := (Bool.and_eq_true _ _).mp drive
          cases eq_of_beq colon
      | letter :: second :: rest =>
        obtain ⟨letterGood, colon⟩ := (Bool.and_eq_true _ _).mp drive
        obtain rfl := eq_of_beq colon
        exact ⟨letter, rest, more, letterGood, rfl⟩
  · rintro ⟨letter, rest, more, letterGood, rfl⟩
    rw [printSteps_cons]
    exact hasDrive_letter letterGood _

/-- `sv_path_normalize_temp` gives a normal form unless the path is relative and the first segment
that is left of it is a letter, a colon and a point. -/
theorem svPathNormalize_idem_iff (path : StringView) :
    svPathNormalize (svPathNormalize path) = svPathNormalize path ↔
      ((pathRoot path).1 = .relative → ∀ letter, isLetter letter = true →
        ¬ Lib.Begins (sv "..") [letter, ':', '.'] (pathSegments path)) := by
  have steps := isStep_walked path
  have normal := svPathNormalize_eq path
  rcases pathRoot_cases path with ⟨_, rest, found⟩ | ⟨letter, rest, good, _, _, found⟩ |
    ⟨letter, rest, good, _, _, found⟩ | ⟨_, _, found⟩
  · -- a separator in front
    refine iff_of_true ?_ (fun relative => by rw [found] at relative; cases relative)
    refine svPathNormalize_again ?_ (pathSegments_printSteps steps)
    rw [normal, found]
    exact pathRoot_slash _
  · -- a drive and a separator
    refine iff_of_true ?_ (fun relative => by rw [found] at relative; cases relative)
    refine svPathNormalize_again ?_ (pathSegments_slash steps)
    rw [normal, found]
    exact pathRoot_drive good _
  · -- a drive and no separator
    refine iff_of_true ?_ (fun relative => by rw [found] at relative; cases relative)
    refine svPathNormalize_again ?_ (pathSegments_printSteps steps)
    rw [normal, found]
    exact pathRoot_driveRelative good (head?_printSteps steps)
  · have begins : ∀ letter, isLetter letter = true →
        ((walked path).head? = some [letter, ':', '.'] ↔
          Lib.Begins (sv "..") [letter, ':', '.'] (pathSegments path)) := by
      intro letter good
      have first := @walked_head? path (by rw [found]; rfl) _ (prefixed_ne_up good ['.'])
      rw [found] at first
      exact first
    rw [found]
    cases drive : hasDrive (printSteps (walked path)) with
    | false =>
      have plain := pathRoot_relative (head?_printSteps steps) drive
      refine iff_of_true ?_ fun _ letter good starts => ?_
      · refine svPathNormalize_again ?_ (pathSegments_printSteps steps)
        rw [normal, found]
        exact plain
      · have first := (begins letter good).mpr starts
        obtain ⟨more, left⟩ := List.head?_eq_some_iff.mp first
        have drives := (hasDrive_printSteps steps).mpr ⟨letter, ['.'], more, good, left⟩
        rw [drive] at drives
        cases drives
    | true =>
      obtain ⟨letter, rest, more, good, left⟩ := (hasDrive_printSteps steps).mp drive
      have root : (pathRoot path).1 = .relative := by rw [found]
      rw [svPathNormalize_prefixed good root left]
      constructor
      · intro other _ first firstGood starts
        have same := (begins first firstGood).mpr starts
        rw [left, List.head?_cons] at same
        cases same
        exact other rfl
      · rintro none rfl
        exact none rfl letter good ((begins letter good).mp (by rw [left, List.head?_cons]; rfl))

/-! ## What `eval_sv_path_normalize_temp` writes -/

/-- The text so far with one more segment. -/
def writeStep (text segment : StringView) : StringView :=
  if text ≠ [] ∧ text.getLast? ≠ some '/' then text ++ '/' :: segment else text ++ segment

/-- A text that goes on with a slash. -/
def Closed (text : StringView) : Prop := text ≠ [] ∧ text.getLast? ≠ some '/'

/-- A text that ends with a segment goes on with a slash. -/
theorem closed_append (good : IsStep segment) (text : StringView) : Closed (text ++ segment) := by
  obtain ⟨filled, _, plain⟩ := good
  refine ⟨append_ne_nil_of_right_ne_nil text filled, ?_⟩
  rw [List.getLast?_append_of_ne_nil text filled]
  intro last
  have separates := plain '/' (mem_of_getLast? last)
  cases separates

theorem foldl_writeStep (closed : Closed text) (good : ∀ step ∈ steps, IsStep step) :
    steps.foldl writeStep text = text ++ steps.flatMap ('/' :: ·) := by
  induction steps generalizing text with
  | nil => exact (append_nil text).symm
  | cons first rest ih =>
    have later : ∀ step ∈ rest, IsStep step := fun step member =>
      good step (mem_cons_of_mem _ member)
    have next : Closed (text ++ '/' :: first) := by
      have whole := closed_append (good first mem_cons_self) (text ++ ['/'])
      rwa [append_assoc] at whole
    have one : writeStep text first = text ++ '/' :: first := if_pos closed
    rw [foldl_cons, one, ih next later, flatMap_cons, append_assoc]

theorem foldl_writeStep_open (opened : ¬ Closed text) (good : ∀ step ∈ steps, IsStep step) :
    steps.foldl writeStep text = text ++ printSteps steps := by
  cases steps with
  | nil => exact (append_nil text).symm
  | cons first rest =>
    have later : ∀ step ∈ rest, IsStep step := fun step member =>
      good step (mem_cons_of_mem _ member)
    have one : writeStep text first = text ++ first := if_neg opened
    rw [foldl_cons, one, foldl_writeStep (closed_append (good first mem_cons_self) text)
      later, printSteps_cons, append_assoc]

theorem normalizeWritten_def (path : StringView) : normalizeWritten path =
      if (normalizeSegments path).foldl writeStep (normalizeRoot path).1 = [] then sv "."
      else (normalizeSegments path).foldl writeStep (normalizeRoot path).1 := rfl

/-- Without two separators and without a drive prefix in front, both functions give the same text,
but for a point in place of an empty one. -/
theorem normalizeWritten_plain (single : isUnc path = false)
    (opened : ¬ Closed (pathRoot path).1.text) :
    normalizeWritten path =
      if svPathNormalize path = [] then sv "." else svPathNormalize path := by
  rw [normalizeWritten_def, normalizeSegments_eq single, normalizeRoot_eq single,
    foldl_writeStep_open opened (isStep_walked path), ← svPathNormalize_eq]

/-- What is left behind the root is made of characters of the path. -/
theorem mem_walked (member : segment ∈ walked path) (listed : char ∈ segment) : char ∈ path := by
  have inside : char ∈ (pathRoot path).2 := by
    rcases Lib.mem_climbAll member with before | walks
    · exact nomatch before
    · exact mem_of_mem_pathSegments walks listed
  match path with
  | [] => exact inside
  | [first] =>
    rw [pathRoot] at inside
    split at inside
    · cases inside
    · exact inside
  | first :: second :: rest =>
    rw [pathRoot] at inside
    split at inside
    · exact mem_cons_of_mem _ inside
    · split at inside
      · split at inside <;> exact mem_cons_of_mem _ (mem_cons_of_mem _ inside)
      · exact inside

/-- No drive prefix is found where none stands. -/
theorem open_root (none : hasDrive path = false) :
    (pathRoot path).1 = .slash ∨ pathRoot path = (.relative, path) := by
  rcases pathRoot_cases path with ⟨_, rest, found⟩ | ⟨letter, rest, good, rfl, _, _⟩ |
    ⟨letter, rest, good, rfl, _, _⟩ | ⟨_, _, found⟩
  · exact .inl (by rw [found])
  · rw [hasDrive_letter good rest] at none
    cases none
  · rw [hasDrive_letter good rest] at none
    cases none
  · exact .inr found

/-- The normal form of `eval_sv_path_normalize_temp` from that of `sv_path_normalize_temp`. -/
theorem evalPathNormalize_plain (nulFree : '\x00' ∉ path) (none : hasDrive path = false)
    (single : isUnc path = false) :
    evalPathNormalize path = if svPathNormalize path = [] then sv "." else svPathNormalize path := by
  have opened : ¬ Closed (pathRoot path).1.text := by
    rcases open_root none with root | root
    · rw [root]
      exact fun closed => closed.2 rfl
    · rw [root]
      exact fun closed => closed.1 rfl
  have clean : '\x00' ∉ svPathNormalize path := by
    intro listed
    rw [svPathNormalize_eq] at listed
    rcases mem_append.mp listed with front | behind
    · rcases open_root none with root | root <;> rw [root] at front
      · cases mem_singleton.mp front
      · cases front
    · rcases mem_printSteps behind with slash | ⟨segment, member, inside⟩
      · cases slash
      · exact nulFree (mem_walked member inside)
  unfold evalPathNormalize
  by_cases empty : path = []
  · subst empty
    rfl
  · rw [if_neg empty, normalizeWritten_plain single opened]
    split
    · rfl
    · exact svToCstr_eq_self clean

/-- The normal form of `sv_path_normalize_temp` is never a single point. -/
theorem svPathNormalize_ne_point (none : hasDrive path = false) :
    svPathNormalize path ≠ sv "." := by
  intro point
  rw [svPathNormalize_eq] at point
  rcases open_root none with root | root <;> rw [root] at point
  · have first := (List.cons.inj point).1
    cases first
  · have whole : printSteps (walked path) = sv "." := point
    have segments := pathSegments_printSteps (isStep_walked path)
    rw [whole] at segments
    rw [← segments] at whole
    cases whole

/-- Two paths without a drive prefix and without two separators in front have the same normal form
under one function when they have it under the other. -/
theorem svPathNormalize_eq_iff {left right : StringView} (leftFree : '\x00' ∉ left)
    (rightFree : '\x00' ∉ right) (leftNone : hasDrive left = false)
    (rightNone : hasDrive right = false) (leftSingle : isUnc left = false)
    (rightSingle : isUnc right = false) :
    svPathNormalize left = svPathNormalize right ↔
      evalPathNormalize left = evalPathNormalize right := by
  have leftPoint := svPathNormalize_ne_point leftNone
  have rightPoint := svPathNormalize_ne_point rightNone
  rw [evalPathNormalize_plain leftFree leftNone leftSingle,
    evalPathNormalize_plain rightFree rightNone rightSingle]
  constructor
  · intro same
    rw [same]
  · intro same
    split at same <;> split at same
    · rename_i leftEmpty rightEmpty
      rw [leftEmpty, rightEmpty]
    · exact absurd same.symm rightPoint
    · exact absurd same leftPoint
    · exact same

/-- `sv_path_normalize_temp` is idempotent on all paths but the relative ones of which a letter, a
colon and a point are left in front, and agrees with `eval_sv_path_normalize_temp` on which paths
are equal. -/
theorem svPathNormalize_normalForms (path left right : StringView) :
    (svPathNormalize (svPathNormalize path) = svPathNormalize path ↔
      ((pathRoot path).1 = .relative → ∀ letter, isLetter letter = true →
        ¬ Lib.Begins (sv "..") [letter, ':', '.'] (pathSegments path))) ∧
    ('\x00' ∉ left → '\x00' ∉ right → hasDrive left = false → hasDrive right = false →
      isUnc left = false → isUnc right = false →
      (svPathNormalize left = svPathNormalize right ↔
        evalPathNormalize left = evalPathNormalize right)) :=
  ⟨svPathNormalize_idem_iff path, svPathNormalize_eq_iff⟩

/-- A path that goes up above its root, and two paths with points and doubled separators. -/
theorem svPathNormalize_normalForms_dots :
    svPathNormalize (svPathNormalize (sv "/../a/")) = svPathNormalize (sv "/../a/") ∧
      (svPathNormalize (sv "a/./b/..") = svPathNormalize (sv "./a//") ↔
        evalPathNormalize (sv "a/./b/..") = evalPathNormalize (sv "./a//")) :=
  have laws := svPathNormalize_normalForms (sv "/../a/") (sv "a/./b/..") (sv "./a//")
  ⟨laws.1.mpr fun relative => absurd relative (by decide),
    laws.2 (by decide) (by decide) (by decide) (by decide) (by decide) (by decide)⟩

/-- The normal form of `./C:.` is `C:.`, and the normal form of that is `C:`. -/
theorem svPathNormalize_not_idem :
    ¬ ∀ path, svPathNormalize (svPathNormalize path) = svPathNormalize path := by
  intro idem
  have same := idem (sv "./C:.")
  revert same
  decide

end Nobify.Evaluator
