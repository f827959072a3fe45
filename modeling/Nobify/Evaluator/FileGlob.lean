import Nobify.Lib.LastStar
import Nobify.Evaluator.Compare
import Nobify.Evaluator.ListSort

/-!
# Wildcards of file names

Both matchers of the source go back to their last `*` only. That of `file(GLOB)` has sets beside
`?`, does not pass a separator with any of them, and reads the pattern's own characters where they
do not hold. It has no way out where a character is not read before the first `*`: there it stays.
-/

namespace Nobify.Evaluator

open List Lib

/-- How `archive_glob_match` reads. -/
def archiveGlob : StarRules Char Char where
  star := '*'
  reads
    | [], _ => none
    | letter :: pattern, char => if letter = '?' ∨ letter = char then some pattern else none
  stops _ := false
  givesUp := true

/-- `archive_glob_match` after at most so many rounds of its loop. -/
def archiveGlobMatch (rounds : Nat) (pat text : StringView) : Option Bool :=
  archiveGlob.run rounds ⟨pat, text, none⟩

theorem archiveGlob_reads {pattern rest : List Char} {char : Char}
    (read : archiveGlob.reads pattern char = some rest) : ∃ letter, pattern = letter :: rest := by
  cases pattern with
  | nil => cases read
  | cons letter pattern =>
    obtain ⟨_, same⟩ := Option.ite_none_right_eq_some.mp read
    exact ⟨letter, congrArg (letter :: ·) (Option.some.inj same)⟩

theorem archiveGlob_shrinks : archiveGlob.Shrinks := by
  intro pattern char rest read
  obtain ⟨letter, rfl⟩ := archiveGlob_reads read
  exact Nat.lt_succ_self _

theorem archiveGlob_uniform : archiveGlob.Uniform fun _ => True := by
  intro pattern first second rest other _ _ read alsoRead
  obtain ⟨letter, rfl⟩ := archiveGlob_reads read
  obtain ⟨_, same⟩ := archiveGlob_reads alsoRead
  exact ⟨(List.cons.inj same).2, rfl⟩

/-- The matcher of archive members always answers, and accepts what its pattern stands for. -/
theorem archiveGlobMatch_decides (pat text : StringView) :
    (∃ rounds answer, archiveGlobMatch rounds pat text = some answer) ∧
      ∀ rounds answer, archiveGlobMatch rounds pat text = some answer →
        (answer = true ↔ archiveGlob.Denotes pat text) := by
  refine ⟨(StarRules.ends_iff archiveGlob_shrinks pat text).mpr (.inl rfl), ?_⟩
  refine fun rounds answer ran => ⟨?_, fun denotes => ?_⟩
  · rintro rfl
    exact .of_run ran
  · exact denotes.accepted archiveGlob_uniform archiveGlob_shrinks (fun _ _ => trivial) ran

/-- A byte as a `char`, which is signed. -/
def charValue (char : Char) : Int := if char.toNat < 128 then char.toNat else char.toNat - 256

/-- A character as it is compared. -/
def lowered (ci : Bool) (char : Char) : Char := if ci then char.toLower else char

/-- Whether a set holds a character: its members are ranges `a-b`, in either order, and letters. -/
def setHolds (ci : Bool) (char : Char) : List Char → Bool
  | [] => false
  | low :: '-' :: high :: members =>
    let ends := (charValue (lowered ci low), charValue (lowered ci high))
    let value := charValue (lowered ci char)
    decide (min ends.1 ends.2 ≤ value ∧ value ≤ max ends.1 ends.2) || setHolds ci char members
  | member :: members => lowered ci char == lowered ci member || setHolds ci char members

/-- What is left behind a set `[...]` that takes the character; `!` and `^` turn a set around. -/
def readsSet (ci : Bool) (pattern : List Char) (char : Char) : Option (List Char) :=
  let set := pattern.takeWhile (· != ']')
  let neg := set.head?.any fun first => first == '!' || first == '^'
  match pattern.dropWhile (· != ']') with
  | [] => none
  | _ :: rest =>
    if setHolds ci char (if neg then set.tail else set) != neg then some rest else none

/-- How `eval_file_glob_match_sv` reads. -/
def evalFileGlob (ci : Bool) : StarRules Char Char where
  star := '*'
  reads
    | [], _ => none
    | letter :: pattern, char =>
      (if isPathSep char then none
      else if letter = '?' then some pattern
      else if letter = '[' then readsSet ci pattern char else none) <|>
        if lowered ci letter = lowered ci char then some pattern else none
  stops := isPathSep
  givesUp := false

/-- `eval_file_glob_match_sv` after at most so many rounds of its loop. -/
def evalFileGlobMatchSv (rounds : Nat) (pat str : StringView) (ci : Bool) : Option Bool :=
  (evalFileGlob ci).run rounds ⟨pat, str, none⟩

section

variable {ci : Bool} {letter char : Char} {pattern rest : List Char}

/-- What is left behind a set does not depend on the character. -/
theorem readsSet_behind (read : readsSet ci pattern char = some rest) :
    rest = (pattern.dropWhile (· != ']')).tail := by
  unfold readsSet at read
  dsimp only at read
  split at read
  · cases read
  · rename_i closed
    rw [closed]
    exact (Option.some.inj (Option.ite_none_right_eq_some.mp read).2).symm

/-- What is no letter is compared with itself alone. -/
theorem lowered_eq_iff (low : letter.toNat < 65 ∨ 90 < letter.toNat)
    (high : letter.toNat < 97 ∨ 122 < letter.toNat) : lowered ci char = letter ↔ char = letter := by
  cases ci with
  | false => rfl
  | true =>
    rw [lowered, if_pos rfl, ← Char.toNat_inj, toNat_toLower, ← Char.toNat_inj]
    split <;> omega

/-- Lower case neither makes nor hides a separator. -/
theorem isPathSep_lowered : isPathSep (lowered ci char) = isPathSep char := by
  rw [Bool.eq_iff_iff]
  simp only [isPathSep, Bool.or_eq_true, beq_iff_eq]
  rw [lowered_eq_iff (by decide) (by decide), lowered_eq_iff (by decide) (by decide)]

/-- What is read is no separator and passed by `?` or a set, or the pattern's own character. -/
theorem evalFileGlob_reads (read : (evalFileGlob ci).reads (letter :: pattern) char = some rest) :
    isPathSep char = false ∧ (letter = '?' ∧ rest = pattern ∨
        letter = '[' ∧ readsSet ci pattern char = some rest) ∨
      lowered ci letter = lowered ci char ∧ rest = pattern := by
  simp only [evalFileGlob, Option.orElse_eq_some, Option.ite_none_right_eq_some] at read
  rcases read with passed | ⟨_, same, rest⟩
  · split at passed
    · cases passed
    · rename_i inside
      refine .inl ⟨Bool.eq_false_iff.mpr inside, ?_⟩
      split at passed
      · rename_i any
        exact .inl ⟨any, (Option.some.inj passed).symm⟩
      · split at passed
        · rename_i set
          exact .inr ⟨set, passed⟩
        · cases passed
  · exact .inr ⟨same, (Option.some.inj rest).symm⟩

theorem evalFileGlob_shrinks (ci : Bool) : (evalFileGlob ci).Shrinks := by
  intro pattern char rest read
  cases pattern with
  | nil => cases read
  | cons letter pattern =>
    rw [length_cons, Nat.lt_succ_iff]
    rcases evalFileGlob_reads read with ⟨_, ⟨_, rfl⟩ | ⟨_, set⟩⟩ | ⟨_, rfl⟩
    · exact Nat.le_refl _
    · rw [readsSet_behind set, length_tail]
      exact (Nat.sub_le _ _).trans (dropWhile_sublist _).length_le
    · exact Nat.le_refl _

/-- A `[` that is read as itself leaves the members of its set in the pattern; for every other
character the first one of the pattern decides what is left, and whether a star stops. -/
theorem evalFileGlob_leaves (plain : char ≠ '[')
    (read : (evalFileGlob ci).reads (letter :: pattern) char = some rest) :
    rest = (if letter = '[' then (pattern.dropWhile (· != ']')).tail else pattern) ∧
      isPathSep char = isPathSep letter := by
  rcases evalFileGlob_reads read with ⟨inside, ⟨rfl, rfl⟩ | ⟨rfl, set⟩⟩ | ⟨same, rfl⟩
  · exact ⟨rfl, inside⟩
  · exact ⟨readsSet_behind set, inside⟩
  · have kept : isPathSep (lowered ci char) = isPathSep char := isPathSep_lowered
    rw [← kept, ← same, isPathSep_lowered, if_neg]
    · exact ⟨rfl, rfl⟩
    · rintro rfl
      rw [(lowered_eq_iff (by decide) (by decide)).mpr rfl] at same
      exact plain ((lowered_eq_iff (by decide) (by decide)).mp same.symm)

theorem evalFileGlob_uniform (ci : Bool) : (evalFileGlob ci).Uniform (· ≠ '[') := by
  intro pattern first second rest other plain alsoPlain read alsoRead
  cases pattern with
  | nil => cases read
  | cons letter pattern =>
    obtain ⟨rfl, stops⟩ := evalFileGlob_leaves plain read
    obtain ⟨rfl, alsoStops⟩ := evalFileGlob_leaves alsoPlain alsoRead
    exact ⟨rfl, stops.trans alsoStops.symm⟩

end

/-- The matcher of `file(GLOB)` answers unless it is stuck before the first `*`. What it accepts
its pattern stands for, and of the texts without a `[` it accepts all of these. -/
theorem evalFileGlobMatchSv_decides (pat str : StringView) (ci : Bool) :
    ((∃ rounds answer, evalFileGlobMatchSv rounds pat str ci = some answer) ↔
        (evalFileGlob ci).stuck pat str = false) ∧
      ∀ rounds answer, evalFileGlobMatchSv rounds pat str ci = some answer →
        (answer = true → (evalFileGlob ci).Denotes pat str) ∧
          ('[' ∉ str → (evalFileGlob ci).Denotes pat str → answer = true) := by
  have ends := StarRules.ends_iff (evalFileGlob_shrinks ci) pat str
  rw [or_iff_right (show (evalFileGlob ci).givesUp ≠ true from Bool.false_ne_true)] at ends
  refine ⟨ends, fun rounds answer ran => ⟨?_, fun free denotes => ?_⟩⟩
  · rintro rfl
    exact .of_run ran
  · exact denotes.accepted (evalFileGlob_uniform ci) (evalFileGlob_shrinks ci)
      (fun char listed same => free (same ▸ listed)) ran

/-- Here the `[` of the text is read as itself, and what follows it with the members of the set;
the `]` that is left of the pattern then finds no character. -/
example : evalFileGlobMatchSv 9 "*[x]*]".toList "[x]".toList false = some false ∧
    (evalFileGlob false).Denotes "*[x]*]".toList "[x]".toList := by
  refine ⟨by decide, .take (by decide) (.pass ?_)⟩
  exact .char (by decide) rfl (.pass (.char (by decide) rfl .nil))

end Nobify.Evaluator
