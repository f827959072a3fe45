import Nobify.BuildModel.PathLaw
import Nobify.Codegen.Context

/-!
# Paths in the generator

The generator normalizes and joins paths by functions of its own. They give the texts that the
build model gives, so both name a file in the same way. A path relative to a directory leads back
from there: the directory joined with it is the path that it was made from.
-/

namespace Nobify.Codegen

open BuildModel
open Lib (climbAll)
open List

variable {char : Char} {path : StringView}

/-! ## The functions of the generator -/

/-- One segment in the loop of `cg_normalize_path_to_arena`. -/
def takeSegment (absolute : Bool) (segments : List StringView) (segment : StringView) :
    List StringView :=
  if segment = sv "." then segments
  else if segment = sv ".." then
    match segments.getLast? with
    | some last =>
      if last ≠ sv ".." then segments.dropLast
      else if absolute then segments
      else segments ++ [segment]
    | none => if absolute then segments else segments ++ [segment]
  else segments ++ [segment]

/-- The loop of `cg_normalize_path_to_arena`: slashes are skipped, and a segment goes up to the
next slash. -/
def takeSegments (absolute : Bool) (segments : List StringView) (path : StringView) :
    List StringView :=
  match _shape : path.dropWhile (· == '/') with
  | [] => segments
  | char :: rest =>
    takeSegments absolute (takeSegment absolute segments ((char :: rest).takeWhile (· != '/')))
      (rest.dropWhile (· != '/'))
termination_by path.length
decreasing_by
  have skipped := (dropWhile_suffix (· == '/') (l := path)).length_le
  have cut := (dropWhile_suffix (· != '/') (l := rest)).length_le
  rw [_shape, length_cons] at skipped
  omega

/-- `cg_normalize_path_to_arena`. The result is read up to its first NUL. -/
def normalizePathToArena (path : StringView) : StringView :=
  let absolute := pathIsAbs path
  let text := (if absolute then ['/'] else []) ++ ['/'].intercalate (takeSegments absolute [] path)
  svToCstr (if text = [] then (if absolute then ['/'] else ['.']) else text)

/-! ## The same normal forms -/

theorem takeSegment_eq (absolute : Bool) (segments : List StringView) (segment : StringView) :
    takeSegment absolute segments segment = pushSegment absolute segments segment := by
  unfold takeSegment pushSegment
  by_cases dot : segment = sv "."
  · rw [if_pos dot, if_pos dot]
  · rw [if_neg dot, if_neg dot]
    by_cases up : segment = sv ".."
    · rw [if_pos up, if_pos up]
      cases last : segments.getLast? with
      | none =>
        have none : ¬ (segments ≠ [] ∧ Option.none ≠ some (sv "..")) :=
          fun filled => filled.1 (List.getLast?_eq_none_iff.mp last)
        rw [if_neg none]
      | some segment' =>
        have filled : segments ≠ [] := by
          intro empty
          rw [empty] at last
          cases last
        by_cases same : segment' = sv ".."
        · have stays : ¬ (segments ≠ [] ∧ some segment' ≠ some (sv "..")) :=
            fun both => both.2 (congrArg some same)
          rw [if_neg stays]
          exact if_neg fun different => different same
        · have back : segments ≠ [] ∧ some segment' ≠ some (sv "..") :=
            ⟨filled, fun both => same (Option.some.inj both)⟩
          rw [if_pos back]
          exact if_pos same
    · rw [if_neg up, if_neg up]

theorem pathSegments_slashes (path : StringView) :
    pathSegments (path.dropWhile (· == '/')) = pathSegments path := by
  induction path with
  | nil => rfl
  | cons char rest ih =>
    by_cases slash : char = '/'
    · subst slash
      exact ih.trans (pathSegments_slash [] rest).symm
    · rw [dropWhile_cons, if_neg (by simpa using slash)]

/-- The first segment of a path that does not start with a slash. -/
theorem pathSegments_cons {rest : StringView} (visible : char ≠ '/') : pathSegments (char :: rest) =
      (char :: rest).takeWhile (· != '/') :: pathSegments (rest.dropWhile (· != '/')) := by
  have start : ((char :: rest).takeWhile (· != '/')) = char :: rest.takeWhile (· != '/') :=
    takeWhile_cons_of_pos (bne_iff_ne.mpr visible)
  have segment : IsSegment (char :: rest.takeWhile (· != '/')) := by
    refine ⟨cons_ne_nil _ _, ?_⟩
    intro member
    rcases mem_cons.mp member with same | later
    · exact visible same.symm
    · have other := mem_takeWhile_imp (p := (· != '/')) later
      exact bne_iff_ne.mp other rfl
  have alone : pathSegments (char :: rest.takeWhile (· != '/')) =
      [char :: rest.takeWhile (· != '/')] := by
    have all : ∀ other ∈ [char :: rest.takeWhile (· != '/')], IsSegment other :=
      fun other member => mem_singleton.mp member ▸ segment
    have printed := pathSegments_intercalate all
    rwa [intercalate_singleton] at printed
  have whole : char :: rest = (char :: rest.takeWhile (· != '/')) ++ rest.dropWhile (· != '/') := by
    rw [cons_append, takeWhile_append_dropWhile]
  rw [start]
  cases after : rest.dropWhile (· != '/') with
  | nil =>
    rw [whole, after, append_nil, alone]
    rfl
  | cons next others =>
    have slash : next = '/' := by
      have filled : rest.dropWhile (· != '/') ≠ [] := after ▸ cons_ne_nil next others
      have stopped := head_dropWhile_not (· != '/') filled
      simpa [after] using stopped
    rw [whole, after, slash, pathSegments_slash, alone]
    show _ = _ :: pathSegments ([] ++ '/' :: others)
    rw [pathSegments_slash]
    rfl

theorem takeSegments_eq (absolute : Bool) (segments : List StringView) (path : StringView) :
    takeSegments absolute segments path =
      (pathSegments path).foldl (pushSegment absolute) segments := by
  fun_induction takeSegments absolute segments path with
  | case1 segments path shape =>
    rw [← pathSegments_slashes path, shape]
    rfl
  | case2 segments path char rest shape ih =>
    have visible : char ≠ '/' := by
      have filled : path.dropWhile (· == '/') ≠ [] := shape ▸ cons_ne_nil char rest
      have stopped := head_dropWhile_not (· == '/') filled
      simpa [shape] using stopped
    rw [ih, ← pathSegments_slashes path, shape, pathSegments_cons visible, foldl_cons,
      takeSegment_eq]

/-! ## No new characters -/

theorem mem_of_mem_splitOn {separator : Char} {text piece : StringView}
    (member : piece ∈ text.splitOn separator) (inside : char ∈ piece) : char ∈ text := by
  induction text generalizing piece with
  | nil =>
    obtain rfl := mem_singleton.mp member
    exact inside
  | cons first rest ih =>
    rw [splitOn_cons_eq_if_modifyHead] at member
    by_cases same : (first == separator) = true
    · rw [if_pos same] at member
      rcases mem_cons.mp member with rfl | later
      · exact nomatch inside
      · exact mem_cons_of_mem _ (ih later inside)
    · rw [if_neg same] at member
      cases pieces : rest.splitOn separator with
      | nil => exact absurd pieces (splitOn_ne_nil _ _)
      | cons head others =>
        rw [pieces] at ih member
        rcases mem_cons.mp member with rfl | later
        · rcases mem_cons.mp inside with rfl | deeper
          · exact mem_cons_self
          · exact mem_cons_of_mem _ (ih mem_cons_self deeper)
        · exact mem_cons_of_mem _ (ih (mem_cons_of_mem _ later) inside)

theorem mem_intercalate {segments : List StringView} (member : char ∈ ['/'].intercalate segments) :
    char = '/' ∨ ∃ segment ∈ segments, char ∈ segment := by
  induction segments with
  | nil => exact nomatch member
  | cons first rest ih =>
    by_cases last : rest = []
    · subst last
      rw [intercalate_singleton] at member
      exact .inr ⟨first, mem_cons_self, member⟩
    · rw [intercalate_cons_of_ne_nil last, append_assoc] at member
      rcases mem_append.mp member with here | later
      · exact .inr ⟨first, mem_cons_self, here⟩
      · rcases mem_append.mp later with slash | deeper
        · exact .inl (mem_singleton.mp slash)
        · rcases ih deeper with slash | ⟨segment, listed, inside⟩
          · exact .inl slash
          · exact .inr ⟨segment, mem_cons_of_mem _ listed, inside⟩

/-- A normal form has the characters of its path, and slashes and points. -/
theorem mem_normalizePath (member : char ∈ normalizePath path) :
    char = '/' ∨ char = '.' ∨ char ∈ path := by
  have inside : ∀ {segment}, segment ∈ pathPosition path → char ∈ segment → char ∈ path := by
    intro segment listed found
    rcases Lib.mem_climbAll listed with none | step
    · exact nomatch none
    · have kept := (mem_filter.mp step).1
      exact mem_of_mem_splitOn (mem_filter.mp kept).1 found
  have printed : ∀ {text : StringView}, text = ['/'].intercalate (pathPosition path) →
      char ∈ text → char = '/' ∨ char = '.' ∨ char ∈ path := by
    rintro text rfl found
    rcases mem_intercalate found with slash | ⟨segment, listed, deeper⟩
    · exact .inl slash
    · exact .inr (.inr (inside listed deeper))
  rw [normalizePath_eq] at member
  by_cases empty : (if pathIsAbs path then ['/'] else []) ++
      ['/'].intercalate (pathPosition path) = []
  · have text : printPath (pathIsAbs path) (pathPosition path) = ['.'] := if_pos empty
    rw [text] at member
    exact .inr (.inl (mem_singleton.mp member))
  · have text : printPath (pathIsAbs path) (pathPosition path) =
        (if pathIsAbs path then ['/'] else []) ++ ['/'].intercalate (pathPosition path) :=
      if_neg empty
    rw [text] at member
    rcases mem_append.mp member with start | rest
    · by_cases absolute : pathIsAbs path = true
      · rw [if_pos absolute] at start
        exact .inl (mem_singleton.mp start)
      · rw [if_neg absolute] at start
        exact nomatch start
    · exact printed rfl rest

/-- `cg_normalize_path_to_arena` is `bm_normalize_path`. -/
theorem normalizePathToArena_eq (nulFree : '\x00' ∉ path) :
    normalizePathToArena path = normalizePath path := by
  have same : (let text := (if pathIsAbs path then ['/'] else []) ++
        ['/'].intercalate (takeSegments (pathIsAbs path) [] path)
      if text = [] then (if pathIsAbs path then ['/'] else ['.']) else text) =
      normalizePath path := by
    unfold normalizePath
    rw [takeSegments_eq]
    cases pathIsAbs path with
    | true => rfl
    | false => rfl
  unfold normalizePathToArena
  dsimp only at same ⊢
  rw [same]
  refine svToCstr_eq_self fun member => ?_
  rcases mem_normalizePath member with slash | point | inside
  · cases slash
  · cases point
  · exact nulFree inside

/-- The laws of normal forms: idempotence, rebasing in two steps, and one form in the model and in
the generator. -/
theorem path_laws (first second third : StringView) (nulFree : '\x00' ∉ first)
    (secondRelative : pathIsAbs second = false) (thirdRelative : pathIsAbs third = false) :
    normalizePath (normalizePath first) = normalizePath first ∧
      pathRebase (pathRebase first second) third = pathRebase first (pathJoin second third) ∧
      normalizePathToArena first = normalizePath first := by
  have relative : pathIsAbs (pathJoin second third) = false := by
    rw [pathIsAbs_pathJoin thirdRelative, secondRelative]
  refine ⟨normalizePath_idem first, ?_, normalizePathToArena_eq nulFree⟩
  rw [pathRebase_relative secondRelative, pathRebase_relative thirdRelative,
    pathRebase_relative relative, pathJoin_assoc secondRelative thirdRelative]

theorem path_laws_aboveRoot :
    normalizePath (normalizePath (sv "/usr/../..")) = normalizePath (sv "/usr/../..") ∧
      pathRebase (pathRebase (sv "/usr/../..") (sv "../a")) (sv "../b") =
        pathRebase (sv "/usr/../..") (pathJoin (sv "../a") (sv "../b")) ∧
      normalizePathToArena (sv "/usr/../..") = normalizePath (sv "/usr/../..") :=
  path_laws (sv "/usr/../..") (sv "../a") (sv "../b") (by decide) (by decide) (by decide)

/-! ## Relative paths -/

variable {directory target : List StringView}

theorem relativeSegments_walk (directoryNames : sv ".." ∉ directory)
    (targetNames : sv ".." ∉ target) (front : List StringView) :
    climbAll (sv "..") true (front ++ directory) (relativeSegments directory target) =
      front ++ target := by
  fun_induction relativeSegments directory target generalizing front with
  | case1 target => rw [append_nil, Lib.climbAll_names targetNames]
  | case2 directory =>
    rw [map_const', Lib.climbAll_back directoryNames, append_nil]
  | case3 directory next target ih =>
    have later := ih (fun member => directoryNames (mem_cons_of_mem _ member))
      (fun member => targetNames (mem_cons_of_mem _ member)) (front ++ [next])
    simpa only [append_assoc, singleton_append] using later
  | case4 inner directory next target different =>
    rw [map_const', Lib.climbAll_append, Lib.climbAll_back directoryNames,
      Lib.climbAll_names targetNames]

theorem mem_relativeSegments {segment : StringView}
    (member : segment ∈ relativeSegments directory target) :
    segment = sv ".." ∨ segment ∈ target := by
  fun_induction relativeSegments directory target with
  | case1 target => exact .inr member
  | case2 directory => exact .inl (mem_map.mp member).choose_spec.2.symm
  | case3 directory next target ih =>
    rcases ih member with up | later
    · exact .inl up
    · exact .inr (mem_cons_of_mem _ later)
  | case4 inner directory next target different =>
    rcases mem_append.mp member with up | later
    · exact .inl (mem_map.mp up).choose_spec.2.symm
    · exact .inr later

/-- The segments of the normal form of an absolute path are its position. -/
theorem pathSegments_normalizePath (absolute : pathIsAbs path = true) :
    pathSegments (normalizePath path) = pathPosition path := by
  rw [normalizePath_eq, absolute, pathSegments_print (clean_pathPosition path)]
  exact if_neg fun both => Bool.noConfusion both.1

/-- A relative path is the text of its segments. -/
theorem relativePath_eq {directory target : StringView} (directoryAbs : pathIsAbs directory = true)
    (targetAbs : pathIsAbs target = true) :
    relativePath directory target =
      printPath false (relativeSegments (pathPosition directory) (pathPosition target)) := by
  unfold relativePath
  rw [pathSegments_normalizePath directoryAbs, pathSegments_normalizePath targetAbs]
  rfl

theorem clean_relativeSegments (directory : List StringView) (target : StringView) :
    Clean (relativeSegments directory (pathPosition target)) := by
  intro segment member
  rcases mem_relativeSegments member with rfl | listed
  · exact ⟨⟨by decide, by decide⟩, by decide⟩
  · exact clean_pathPosition target segment listed

/-- The path from a directory to a target is relative, and joined to the directory it is the
target. -/
theorem relativePath_leads (directory target : StringView) (directoryAbs : pathIsAbs directory = true)
    (targetAbs : pathIsAbs target = true) :
    pathIsAbs (relativePath directory target) = false ∧
      pathJoin directory (relativePath directory target) = normalizePath target := by
  have clean := clean_relativeSegments (pathPosition directory) target
  have relative : pathIsAbs (relativePath directory target) = false := by
    rw [relativePath_eq directoryAbs targetAbs, pathIsAbs_print clean]
  have steps : pathSteps (relativePath directory target) =
      relativeSegments (pathPosition directory) (pathPosition target) := by
    rw [relativePath_eq directoryAbs targetAbs, pathSteps_print clean]
  have walked : climbAll (sv "..") true (pathPosition directory)
      (pathPosition (relativePath directory target)) = pathPosition target := by
    have position : pathPosition (relativePath directory target) = climbAll (sv "..") false []
          (relativeSegments (pathPosition directory) (pathPosition target)) := by
      rw [pathPosition, relative, steps]
    rw [position, Lib.climbAll_climbAll]
    exact relativeSegments_walk (up_notMem_pathPosition directoryAbs)
      (up_notMem_pathPosition targetAbs) []
  refine ⟨relative, ?_⟩
  rw [pathJoin_eq relative, directoryAbs, walked, normalizePath_eq, targetAbs]

theorem relativePath_leads_sibling :
    pathIsAbs (relativePath (sv "/out/./build/") (sv "/src/../lib//x.c")) = false ∧
      pathJoin (sv "/out/./build/") (relativePath (sv "/out/./build/") (sv "/src/../lib//x.c")) =
        normalizePath (sv "/src/../lib//x.c") :=
  relativePath_leads (sv "/out/./build/") (sv "/src/../lib//x.c") (by decide) (by decide)

end Nobify.Codegen
