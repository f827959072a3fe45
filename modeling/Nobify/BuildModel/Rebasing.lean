import Nobify.BuildModel.PathLaw

/-!
# Paths that may already be rebased

The sources of a target come with or without the directory they are in. `bm_path_rebase_if_needed`
takes a relative path that starts with the base as rebased already and joins any other path to the
base. Two different paths then stand for one file when one is taken as rebased and the other one
leads there, or when one leaves the base and comes back. No other two do.
-/

namespace Nobify.BuildModel

open Lib (climbAll Detour)

/-! ## Paths that start with the base -/

/-! ## Rebased paths -/

/-- A relative path is taken as rebased already. -/
def takenAsRebased (base path : StringView) : Bool :=
  svHasPathPrefix (normalizePath path) (normalizePath base)

/-- The position that a relative path is given. -/
def rebasedPosition (base path : StringView) : List StringView :=
  if takenAsRebased base path then pathPosition path
  else climbAll (sv "..") false (pathPosition base) (pathPosition path)

theorem clean_rebasedPosition (base path : StringView) : Clean (rebasedPosition base path) := by
  unfold rebasedPosition
  split
  · exact clean_pathPosition path
  · exact (clean_pathPosition base).climbAll (clean_pathPosition path)

theorem pathRebaseIfNeeded_eq {base path : StringView} (baseRelative : pathIsAbs base = false)
    (relative : pathIsAbs path = false) :
    pathRebaseIfNeeded base path = printPath false (rebasedPosition base path) := by
  have notAbsolute : ¬ pathIsAbs path = true := by
    rw [relative]
    exact Bool.false_ne_true
  unfold pathRebaseIfNeeded rebasedPosition takenAsRebased
  rw [if_neg notAbsolute]
  split
  · rw [normalizePath_eq, relative]
  · rw [pathRebase_relative relative, pathJoin_eq relative, baseRelative]

theorem pathRebaseIfNeeded_eq_iff_position {base first second : StringView}
    (baseRelative : pathIsAbs base = false) (firstRelative : pathIsAbs first = false)
    (secondRelative : pathIsAbs second = false) :
    pathRebaseIfNeeded base first = pathRebaseIfNeeded base second ↔
      rebasedPosition base first = rebasedPosition base second := by
  rw [pathRebaseIfNeeded_eq baseRelative firstRelative,
    pathRebaseIfNeeded_eq baseRelative secondRelative]
  constructor
  · intro same
    have steps := congrArg pathSteps same
    rwa [pathSteps_print (clean_rebasedPosition base first),
      pathSteps_print (clean_rebasedPosition base second)] at steps
  · exact fun same => by rw [same]

/-! ## Different paths to one file -/

/-- The first path is taken as rebased, and the second one, which is not, leads there from the
base. -/
def MeetsRebased (base first second : StringView) : Prop :=
  takenAsRebased base first = true ∧ takenAsRebased base second = false ∧
    pathPosition first = climbAll (sv "..") false (pathPosition base) (pathPosition second)

/-- No path is taken as rebased, and the second one leaves the base further than the first, comes
back by directories of the base, and goes on as the first. -/
def MeetsByDetour (base first second : StringView) : Prop :=
  takenAsRebased base first = false ∧ takenAsRebased base second = false ∧
    Detour (sv "..") (pathPosition base) (pathPosition first) (pathPosition second)

/-- Paths with different normal forms stand for one file when one meets the other, and only
then. -/
theorem pathRebaseIfNeeded_eq_iff {base first second : StringView}
    (baseRelative : pathIsAbs base = false) (firstRelative : pathIsAbs first = false)
    (secondRelative : pathIsAbs second = false)
    (different : normalizePath first ≠ normalizePath second) :
    pathRebaseIfNeeded base first = pathRebaseIfNeeded base second ↔
      MeetsRebased base first second ∨ MeetsRebased base second first ∨
        MeetsByDetour base first second ∨ MeetsByDetour base second first := by
  have apart : pathPosition first ≠ pathPosition second := by
    intro same
    exact different (normalizePath_eq_iff.mpr ⟨firstRelative.trans secondRelative.symm, same⟩)
  rw [pathRebaseIfNeeded_eq_iff_position baseRelative firstRelative secondRelative]
  unfold rebasedPosition MeetsRebased MeetsByDetour
  cases one : takenAsRebased base first with
  | true =>
    cases two : takenAsRebased base second with
    | true => simp [apart]
    | false => simp
  | false =>
    cases two : takenAsRebased base second with
    | true => simp [eq_comm]
    | false =>
      have walks := Lib.climbAll_eq_iff (settled_pathPosition baseRelative)
        (settled_pathPosition firstRelative) (settled_pathPosition secondRelative)
      simpa [apart] using walks

/-- In the directory `a`, the source `a/x.c` and the source `x.c`. -/
theorem pathRebaseIfNeeded_eq_iff_nested : normalizePath (sv "a/x.c") ≠ normalizePath (sv "x.c") ∧
      (pathRebaseIfNeeded (sv "a") (sv "a/x.c") = pathRebaseIfNeeded (sv "a") (sv "x.c") ↔
        MeetsRebased (sv "a") (sv "a/x.c") (sv "x.c") ∨
        MeetsRebased (sv "a") (sv "x.c") (sv "a/x.c") ∨
        MeetsByDetour (sv "a") (sv "a/x.c") (sv "x.c") ∨
        MeetsByDetour (sv "a") (sv "x.c") (sv "a/x.c")) := by
  have different : normalizePath (sv "a/x.c") ≠ normalizePath (sv "x.c") := by decide
  exact ⟨different, pathRebaseIfNeeded_eq_iff (by decide) (by decide) (by decide) different⟩

/-- The file `a/x.c` below the directory `a` and the file `x.c` in it get one effective path. -/
theorem nestedSource_meets :
    pathIsAbs (sv "a") = false ∧ pathIsAbs (sv "a/x.c") = false ∧ pathIsAbs (sv "x.c") = false ∧
      normalizePath (sv "a/x.c") ≠ normalizePath (sv "x.c") ∧
      pathRebaseIfNeeded (sv "a") (sv "a/x.c") = pathRebaseIfNeeded (sv "a") (sv "x.c") := by
  decide

end Nobify.BuildModel
