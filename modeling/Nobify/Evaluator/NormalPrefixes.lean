import Nobify.Evaluator.NormalPaths

/-!
# Prefixes of normal forms

`eval_sv_path_normalize_temp` computes the size of its result before it writes it, with its own
rules for separators. The two agree for every prefix but one: behind a drive without a separator
the first segment is written with a slash that is not counted.

The result is a normal form when its prefix is read back as it was. A relative path can come to
start with a drive prefix. Behind two separators the first two segments are kept, but a step up
counts as one of them only by its place, so a walk that starts with a step up can end where a
second walk takes back what the first has kept.
-/

namespace Nobify.Evaluator

open Lib (climb climbAll Settled Stays Returns Begins Uproots Single namesMet)
open List

variable {seen : Nat} {steps : List StringView} {path rest : StringView} {char letter : Char}

/-! ## Behind two separators -/

/-- The walk of `eval_sv_path_normalize_temp` behind two separators: the segments with the latest
first, and how many of the first two have been seen. -/
def uncWalk (steps : List StringView) : List StringView × Nat :=
  steps.foldl (normalizeStep false true) ([], 0)

/-- The segments that this walk keeps. -/
def uncLeft (steps : List StringView) : List StringView := (uncWalk steps).1.reverse

theorem uncWalk_append (steps more : List StringView) :
    uncWalk (steps ++ more) = more.foldl (normalizeStep false true) (uncWalk steps) :=
  foldl_append

/-- A name is kept. -/
theorem normalizeStep_name {step : StringView} (down : step ≠ sv "..")
    (segments : List StringView) (seen : Nat) :
    normalizeStep false true (segments, seen) step =
      (step :: segments, if seen < 2 then seen + 1 else seen) := by
  simp [normalizeStep, down]

/-- A step up takes back a name that is not one of the first two. -/
theorem normalizeStep_back {last : StringView} (down : last ≠ sv "..") {before : List StringView}
    (behind : seen < before.length + 1) :
    normalizeStep false true (last :: before, seen) (sv "..") = (before, seen) := by
  simp [normalizeStep, down, behind]

/-- Any other step up is kept. -/
theorem normalizeStep_up {segments : List StringView}
    (stuck : segments = [] ∨ segments.head? = some (sv "..") ∨ segments.length ≤ seen) :
    normalizeStep false true (segments, seen) (sv "..") = (sv ".." :: segments, seen) := by
  have stays : ¬ (segments ≠ [] ∧ segments.head? ≠ some (sv "..") ∧
      (true = false ∨ seen < segments.length)) := by
    rintro ⟨filled, other, early | behind⟩
    · cases early
    · rcases stuck with none | last | short
      · exact filled none
      · exact other last
      · omega
  dsimp only [normalizeStep]
  rw [if_pos rfl, if_neg stays, if_neg Bool.false_ne_true]

/-- The walk keeps no more than it meets. -/
theorem length_foldl_normalizeStep (state : List StringView × Nat) (steps : List StringView) :
    (steps.foldl (normalizeStep false true) state).1.length ≤ state.1.length + steps.length := by
  induction steps generalizing state with
  | nil => exact Nat.le_refl _
  | cons step rest ih =>
    have one : (normalizeStep false true state step).1.length ≤ state.1.length + 1 := by
      unfold normalizeStep
      grind
    have later := ih (normalizeStep false true state step)
    rw [foldl_cons, length_cons]
    omega

/-- Behind two segments that are not taken back, the walk goes on like any other. -/
theorem foldl_behind {first second : StringView} (kept : second = sv ".." ∨ seen = 2)
    (few : seen ≤ 2) (position steps : List StringView) :
    ∃ count, (second = sv ".." ∨ count = 2) ∧
      steps.foldl (normalizeStep false true) (([first, second] ++ position).reverse, seen) =
        (([first, second] ++ climbAll (sv "..") false position steps).reverse, count) := by
  induction steps generalizing position seen with
  | nil => exact ⟨seen, kept, rfl⟩
  | cons step rest ih =>
    rw [foldl_cons, Lib.climbAll_cons]
    by_cases up : step = sv ".."
    · subst up
      have one : normalizeStep false true (([first, second] ++ position).reverse, seen) (sv "..") =
          (([first, second] ++ climb (sv "..") false position (sv "..")).reverse, seen) := by
        cases position using List.reverseRecOn with
        | nil =>
          refine normalizeStep_up ?_
          rcases kept with up | two
          · exact .inr (.inl (by rw [up]; rfl))
          · exact .inr (.inr (by rw [two]; exact Nat.le_refl 2))
        | append_singleton before last =>
          have shape : ([first, second] ++ (before ++ [last])).reverse =
              last :: ([first, second] ++ before).reverse := by
            rw [← append_assoc, reverse_append, reverse_singleton, singleton_append]
          by_cases down : last = sv ".."
          · have stays : climb (sv "..") false (before ++ [last]) (sv "..") =
                before ++ [last] ++ [sv ".."] := by
              subst down
              simp [climb]
            rw [stays, normalizeStep_up (.inr (.inl (by rw [shape, down]; rfl)))]
            simp
          · rw [Lib.climb_back down, shape, normalizeStep_back down]
            simp only [length_reverse, length_append, length_cons, length_nil]
            omega
      rw [one]
      exact ih kept few _
    · have one : normalizeStep false true (([first, second] ++ position).reverse, seen) step =
          (([first, second] ++ climb (sv "..") false position step).reverse,
            if seen < 2 then seen + 1 else seen) := by
        rw [normalizeStep_name up, Lib.climb_name up]
        simp
      rw [one]
      refine ih ?_ (by split <;> omega) _
      rcases kept with up | two
      · exact .inl up
      · exact .inr (by rw [two]; rfl)

/-! ## Behind a step up -/

/-- A step up behind a first step up: it is walked like any other, or uproots. -/
theorem uncWalk_up_again :
    let position := climbAll (sv "..") false [] steps
    let state := ((sv ".." :: position).reverse, min 2 (namesMet (sv "..") steps))
    (normalizeStep false true state (sv "..") =
        ((sv ".." :: climb (sv "..") false position (sv "..")).reverse, min 2 (namesMet (sv "..") steps)) ∧
      ¬ (Single (sv "..") steps ∧ sv ".." ∈ steps)) ∨
    ((Single (sv "..") steps ∧ sv ".." ∈ steps) ∧ ∃ name, name ≠ sv ".." ∧
        normalizeStep false true state (sv "..") = ([sv "..", name, sv ".."].reverse, 2)) := by
  intro position state
  have single := @Lib.single_iff _ _ (sv "..") steps
  have few : min 2 (namesMet (sv "..") steps) ≤ 2 := Nat.min_le_left _ _
  rcases eq_nil_or_concat position with none | ⟨before, last, whole⟩
  · refine .inl ⟨?_, fun parts => ?_⟩
    · show normalizeStep false true ((sv ".." :: position).reverse, _) _ = _
      rw [none]
      exact normalizeStep_up (.inr (.inl rfl))
    · obtain ⟨name, _, leads⟩ := single.mp parts.1
      have same : position = [name] := leads
      rw [none] at same
      cases same
  · rw [concat_eq_append] at whole
    have shape : (sv ".." :: position).reverse = last :: (sv ".." :: before).reverse := by
      rw [whole, ← cons_append, reverse_append, reverse_singleton, singleton_append]
    by_cases down : last = sv ".."
    · refine .inl ⟨?_, fun parts => ?_⟩
      · have stays : climb (sv "..") false position (sv "..") = position ++ [sv ".."] := by
          rw [whole, down]
          simp [climb]
        show normalizeStep false true ((sv ".." :: position).reverse, _) _ = _
        rw [stays, normalizeStep_up (.inr (.inl (by rw [shape, down]; rfl)))]
        simp
      · obtain ⟨name, other, leads⟩ := single.mp parts.1
        have same : position = [name] := leads
        rw [whole] at same
        obtain ⟨_, last⟩ := @append_inj' _ before _ [] _ same rfl
        rw [← (List.cons.inj last).1] at other
        exact other down
    · have back : climb (sv "..") false position (sv "..") = before := by
        rw [whole]
        exact Lib.climb_back down
      by_cases behind : min 2 (namesMet (sv "..") steps) < (sv ".." :: before).reverse.length + 1
      · refine .inl ⟨?_, fun parts => ?_⟩
        · show normalizeStep false true ((sv ".." :: position).reverse, _) _ = _
          rw [shape, normalizeStep_back down behind, back]
        · -- a second name was met, and only one is left
          obtain ⟨name, _, leads⟩ := single.mp parts.1
          have same : position = [name] := leads
          rw [whole] at same
          obtain ⟨none, _⟩ := @append_inj' _ before _ [] _ same rfl
          have met := parts.1.two_le_namesMet_iff.mpr parts.2
          rw [none, length_reverse, length_singleton] at behind
          omega
      · rw [length_reverse, length_cons] at behind
        have none : before = [] := length_eq_zero_iff.mp (by omega)
        subst none
        have leads : position = [last] := whole
        have ends := single.mpr ⟨last, down, leads⟩
        rw [length_nil] at behind
        have two : min 2 (namesMet (sv "..") steps) = 2 := by omega
        have met := ends.two_le_namesMet_iff.mp (by omega)
        refine .inr ⟨⟨ends, met⟩, last, down, ?_⟩
        show normalizeStep false true ((sv ".." :: position).reverse, _) _ = _
        rw [two, leads, normalizeStep_up (.inr (.inr (Nat.le_refl 2)))]
        rfl

/-- A walk behind a first step up is one like any other until it uproots, and from then on it keeps
the name that it should have taken back. -/
theorem uncWalk_up (steps : List StringView) :
    (¬ Uproots (sv "..") (sv ".." :: steps) ∧ uncWalk (sv ".." :: steps) =
      ((sv ".." :: climbAll (sv "..") false [] steps).reverse, min 2 (namesMet (sv "..") steps))) ∨
    (Uproots (sv "..") (sv ".." :: steps) ∧ ∃ name after, name ≠ sv ".." ∧
      uncWalk (sv ".." :: steps) =
        (([sv "..", name] ++ climbAll (sv "..") false [sv ".."] after).reverse, 2)) := by
  induction steps using List.reverseRecOn with
  | nil =>
    refine .inl ⟨?_, by decide⟩
    rintro ⟨before, after, same, _⟩
    have lengths := congrArg List.length same
    simp only [length_cons, length_append, length_nil] at lengths
    omega
  | append_singleton steps step ih =>
    have whole : uncWalk (sv ".." :: (steps ++ [step])) =
        normalizeStep false true (uncWalk (sv ".." :: steps)) step := by
      rw [← cons_append, uncWalk_append]
      rfl
    rw [whole, Lib.uproots_concat]
    rcases ih with ⟨plain, walks⟩ | ⟨uproots, name, after, down, walks⟩
    · rw [walks, Lib.climbAll_concat]
      by_cases up : step = sv ".."
      · subst up
        rcases @uncWalk_up_again steps with ⟨goes, rooted⟩ | ⟨ends, name, down, goes⟩
        · refine .inl ⟨fun either => either.elim plain fun parts => rooted parts.2, ?_⟩
          rw [goes, Lib.namesMet_concat_up]
        · exact .inr ⟨.inr ⟨rfl, ends⟩, name, [], down, goes⟩
      · refine .inl ⟨fun either => either.elim plain fun parts => up parts.1, ?_⟩
        rw [normalizeStep_name up, Lib.climb_name up, Lib.namesMet_concat_name up]
        simp only [reverse_cons, reverse_append, reverse_nil, nil_append,
          cons_append, Prod.mk.injEq, true_and]
        split <;> omega
    · refine .inr ⟨.inl uproots, name, after ++ [step], down, ?_⟩
      obtain ⟨count, kept, goes⟩ := @foldl_behind _ (sv "..") name (.inr rfl)
        (Nat.le_refl 2) (climbAll (sv "..") false [sv ".."] after) [step]
      have two := kept.resolve_left down
      rw [two] at goes
      rw [walks, Lib.climbAll_append]
      exact goes

/-- Behind two segments of which the second is not taken back, the walk goes on like any other. -/
theorem uncLeft_behind {first second : StringView} (other : first ≠ sv ".." ∨ second = sv "..")
    (steps : List StringView) :
    uncLeft (first :: second :: steps) =
      first :: second :: climbAll (sv "..") false [] steps := by
  obtain ⟨seen, kept, few, starts⟩ : ∃ seen, (second = sv ".." ∨ seen = 2) ∧ seen ≤ 2 ∧
      uncWalk [first, second] = ([first, second].reverse, seen) := by
    by_cases up : second = sv ".."
    · subst up
      by_cases same : first = sv ".."
      · subst same
        exact ⟨0, .inl rfl, by decide, by decide⟩
      · refine ⟨1, .inl rfl, by decide, ?_⟩
        show normalizeStep false true (normalizeStep false true ([], 0) first) (sv "..") = _
        rw [normalizeStep_name same]
        exact normalizeStep_up (.inr (.inr (Nat.le_refl 1)))
    · refine ⟨2, .inr rfl, by decide, ?_⟩
      show normalizeStep false true (normalizeStep false true ([], 0) first) second = _
      rw [normalizeStep_name (other.resolve_right up), normalizeStep_name up]
      rfl
  have whole : uncWalk (first :: second :: steps) =
      steps.foldl (normalizeStep false true) (uncWalk [first, second]) :=
    uncWalk_append [first, second] steps
  obtain ⟨count, _, goes⟩ := foldl_behind kept few [] steps
  rw [append_nil] at goes
  rw [uncLeft, whole, starts, goes, reverse_reverse]
  rfl

/-- A walk that uproots loses, when it is walked again, the name that it has kept. -/
theorem uncLeft_shorter {name : StringView} (down : name ≠ sv "..") (steps : List StringView) :
    (uncLeft (sv ".." :: name :: sv ".." :: steps)).length ≤ 1 + steps.length := by
  have whole : uncWalk (sv ".." :: name :: sv ".." :: steps) =
      steps.foldl (normalizeStep false true) (uncWalk [sv "..", name, sv ".."]) :=
    uncWalk_append [sv "..", name, sv ".."] steps
  have starts : uncWalk [sv "..", name, sv ".."] = ([sv ".."], 1) := by
    show normalizeStep false true (normalizeStep false true
      (normalizeStep false true ([], 0) (sv "..")) name) (sv "..") = _
    rw [normalizeStep_up (.inl rfl), normalizeStep_name down]
    exact normalizeStep_back down (Nat.le_refl 2)
  have bound := length_foldl_normalizeStep ([sv ".."], 1) steps
  rw [uncLeft, whole, starts, length_reverse]
  exact bound

/-- What the walk keeps is kept again exactly when it has not uprooted. -/
theorem uncLeft_idem_iff (steps : List StringView) :
    uncLeft (uncLeft steps) = uncLeft steps ↔ ¬ Uproots (sv "..") steps := by
  have settled : ∀ more, Settled (sv "..") (climbAll (sv "..") false [] more) :=
    fun more => Lib.settled_climbAll
  match steps with
  | [] =>
    refine iff_of_true rfl ?_
    rintro ⟨before, after, same, _⟩
    cases same
  | first :: rest =>
    by_cases up : first = sv ".."
    · subst up
      rcases uncWalk_up rest with ⟨plain, walks⟩ | ⟨uproots, name, after, down, walks⟩
      · refine iff_of_true ?_ plain
        have left : uncLeft (sv ".." :: rest) = sv ".." :: climbAll (sv "..") false [] rest := by
          rw [uncLeft, walks, reverse_reverse]
        rcases uncWalk_up (climbAll (sv "..") false [] rest) with ⟨_, again⟩ | ⟨uproots, _⟩
        · rw [left, uncLeft, again, reverse_reverse, (settled rest).climbAll_eq]
        · exact absurd uproots (settled rest).not_uproots
      · refine iff_of_false (fun same => ?_) fun plain => plain uproots
        have left : uncLeft (sv ".." :: rest) =
            sv ".." :: name :: sv ".." :: climbAll (sv "..") false [] after := by
          have behind : climbAll (sv "..") false [sv ".."] after =
              sv ".." :: climbAll (sv "..") false [] after :=
            @Lib.climbAll_behind_ups _ _ (sv "..") after 1
          rw [uncLeft, walks, reverse_reverse, behind]
          rfl
        have short := uncLeft_shorter down (climbAll (sv "..") false [] after)
        rw [left] at same
        rw [same] at short
        simp only [length_cons] at short
        omega
    · refine iff_of_true ?_ ?_
      · cases rest with
        | nil =>
          have one : uncLeft [first] = [first] := by
            show (normalizeStep false true ([], 0) first).1.reverse = _
            rw [normalizeStep_name up]
            rfl
          rw [one, one]
        | cons second more =>
          rw [uncLeft_behind (.inl up), uncLeft_behind (.inl up), (settled more).climbAll_eq]
      · rintro ⟨before, after, same, _⟩
        exact up (List.cons.inj same).1

/-! ## The size -/

/-- The size that `eval_sv_path_normalize_temp` computes before it writes, without the NUL at the
end. -/
def normalizeSize (input : StringView) : Nat :=
  let (_, absolute, isUnc, _) := normalizeRoot input
  let hasDrive := hasDrive input
  let segments := normalizeSegments input
  let front := (if isUnc then 2 else if hasDrive then 2 else 0) +
    (if absolute && !isUnc && !hasDrive then 1 else 0) + (if absolute && hasDrive then 1 else 0)
  let total := segments.zipIdx.foldl (fun total (segment, index) =>
    (if 0 < index || isUnc || absolute || (hasDrive && absolute) then total + 1 else total) +
      segment.length) front
  if segments.isEmpty then
    if isUnc then total
    else if hasDrive && absolute then if total = 2 then total + 1 else total
    else if !hasDrive && !absolute then total + 1
    else total
  else total

/-- What the loop over the segments counts from an index on. -/
theorem foldl_size (counted : Bool) (segments : List StringView) (start total : Nat) :
    (segments.zipIdx start).foldl (fun total (segment, index) =>
      (if 0 < index || counted then total + 1 else total) + segment.length) total =
      total + (segments.map List.length).sum +
        (if 0 < start || counted then segments.length else segments.length - 1) := by
  induction segments generalizing start total with
  | nil => simp
  | cons segment rest ih =>
    rw [zipIdx_cons, foldl_cons, ih]
    have later : (decide (0 < start + 1) || counted) = true := by simp
    dsimp only
    rw [if_pos later, map_cons, sum_cons, length_cons]
    by_cases counts : (decide (0 < start) || counted) = true
    · rw [if_pos counts, if_pos counts]
      omega
    · rw [if_neg counts, if_neg counts]
      omega

/-- The size from the root and the segments. -/
theorem normalizeSize_eq {root : StringView} {absolute double drive : Bool}
    {segments : List StringView} (found : normalizeRoot path = (root, absolute, double, rest))
    (prefixed : hasDrive path = drive) (kept : normalizeSegments path = segments) :
    normalizeSize path = (if double then 2 else if drive then 2 else 0) +
        (if absolute && !double && !drive then 1 else 0) + (if absolute && drive then 1 else 0) +
        (segments.map List.length).sum +
        (if double || absolute then segments.length else segments.length - 1) +
        (if segments.isEmpty && !double && !drive && !absolute then 1 else 0) := by
  have counts : ∀ index : Nat, (decide (0 < index) || double || absolute || (drive && absolute)) =
      (decide (0 < index) || (double || absolute)) := by
    intro index
    cases double <;> cases absolute <;> cases drive <;> simp
  have whole := foldl_size (double || absolute) segments 0
  unfold normalizeSize
  rw [found, prefixed, kept]
  simp only [counts, whole]
  cases segments with
  | nil => cases double <;> cases absolute <;> cases drive <;> rfl
  | cons segment others => simp

/-! ## What is written -/

theorem mem_uncLeft {segment : StringView} (member : segment ∈ uncLeft steps) :
    segment ∈ steps := by
  have kept : ∀ (state : List StringView × Nat),
      segment ∈ (steps.foldl (normalizeStep false true) state).1 →
      segment ∈ state.1 ∨ segment ∈ steps := by
    clear member
    intro state member
    induction steps generalizing state with
    | nil => exact .inl member
    | cons step rest ih =>
      rw [foldl_cons] at member
      rcases ih _ member with here | later
      · have one : segment ∈ state.1 ∨ segment = step := by
          unfold normalizeStep at here
          grind [mem_of_mem_tail]
        rcases one with before | same
        · exact .inl before
        · exact .inr (same ▸ mem_cons_self)
      · exact .inr (mem_cons_of_mem _ later)
  rcases kept ([], 0) (mem_reverse.mp member) with before | walks
  · cases before
  · exact walks

variable (double : isUnc path = true)

include double

theorem front_of_isUnc : path.head?.any isPathSep = true := by
  match path with
  | first :: second :: _ => exact ((Bool.and_eq_true _ _).mp double).1

/-- Two separators in front: what is written first, and the segments behind them. -/
theorem normalizeRoot_unc : ∃ rest, normalizeRoot path = (sv "//", false, true, rest) ∧
      pathSegments rest = pathSegments path := by
  match path with
  | first :: second :: rest =>
    obtain ⟨one, two⟩ := (Bool.and_eq_true _ _).mp double
    refine ⟨rest, ?_, ?_⟩
    · rw [normalizeRoot, one, two]
      rfl
    · have outer := pathSegments_sep one [] (second :: rest)
      have inner := pathSegments_sep two [] rest
      rw [nil_append] at outer inner
      rw [outer, inner]
      rfl

theorem normalizeSegments_unc : normalizeSegments path = uncLeft (pathSegments path) := by
  obtain ⟨rest, found, segments⟩ := normalizeRoot_unc double
  unfold normalizeSegments
  rw [found, ← segments]
  rfl

omit double

theorem isStep_uncLeft (path : StringView) :
    ∀ segment ∈ uncLeft (pathSegments path), IsStep segment :=
  fun _ member => isStep_of_mem (mem_uncLeft member)

include double in
theorem normalizeWritten_unc :
    normalizeWritten path = '/' :: '/' :: printSteps (uncLeft (pathSegments path)) := by
  obtain ⟨rest, found, _⟩ := normalizeRoot_unc double
  rw [normalizeWritten_def, normalizeSegments_unc double, found,
    foldl_writeStep_open (fun closed => closed.2 rfl) (isStep_uncLeft path)]
  rfl

/-- No path on a drive starts with two separators. -/
theorem isUnc_letter (good : isLetter letter = true) (rest : StringView) :
    isUnc (letter :: rest) = false := by
  cases rest with
  | nil => rfl
  | cons second others =>
    show (isPathSep letter && isPathSep second) = false
    rw [isPathSep_of_isLetter good]
    rfl

/-- A path that is relative on its drive is written with a slash before each segment. -/
theorem normalizeWritten_driveRelative (good : isLetter letter = true)
    (plain : rest.head?.any isPathSep = false) :
    normalizeWritten (letter :: ':' :: rest) =
      letter :: ':' :: (walked (letter :: ':' :: rest)).flatMap ('/' :: ·) := by
  have single := isUnc_letter good (':' :: rest)
  have closed : Closed (letter :: sv ":") := ⟨cons_ne_nil _ _, by simp [sv]⟩
  rw [normalizeWritten_def, normalizeSegments_eq single, normalizeRoot_eq single,
    pathRoot_driveRelative good plain]
  show (if (walked _).foldl writeStep (letter :: sv ":") = [] then sv "."
    else (walked _).foldl writeStep (letter :: sv ":")) = _
  rw [foldl_writeStep closed (isStep_walked _)]
  rfl

theorem mem_foldl_writeStep {text : StringView} (listed : char ∈ steps.foldl writeStep text) :
    char ∈ text ∨ char = '/' ∨ ∃ step ∈ steps, char ∈ step := by
  induction steps generalizing text with
  | nil => exact .inl listed
  | cons first rest ih =>
    rw [foldl_cons] at listed
    rcases ih listed with before | slash | ⟨step, member, inside⟩
    · have one : char ∈ text ∨ char = '/' ∨ char ∈ first := by
        unfold writeStep at before
        grind
      rcases one with text | slash | inside
      · exact .inl text
      · exact .inr (.inl slash)
      · exact .inr (.inr ⟨first, mem_cons_self, inside⟩)
    · exact .inr (.inl slash)
    · exact .inr (.inr ⟨step, mem_cons_of_mem _ member, inside⟩)

theorem nul_not_mem_root (path : StringView) : '\x00' ∉ (normalizeRoot path).1 := by
  cases double : isUnc path with
  | true =>
    obtain ⟨rest, found, _⟩ := normalizeRoot_unc double
    rw [found]
    show '\x00' ∉ sv "//"
    decide
  | false =>
    rw [normalizeRoot_eq double]
    have other : ∀ letter, isLetter letter = true → '\x00' ≠ letter := by
      rintro letter good rfl
      cases good
    rcases pathRoot_cases path with ⟨_, rest, found⟩ | ⟨letter, rest, good, _, _, found⟩ |
      ⟨letter, rest, good, _, _, found⟩ | ⟨_, _, found⟩ <;> rw [found]
    · show '\x00' ∉ sv "/"
      decide
    · simp [PathRoot.text, sv, other letter good]
    · simp [PathRoot.text, sv, other letter good]
    · exact not_mem_nil

theorem mem_normalizeSegments {segment : StringView} (member : segment ∈ normalizeSegments path)
    (listed : char ∈ segment) : char ∈ path := by
  cases double : isUnc path with
  | true =>
    rw [normalizeSegments_unc double] at member
    exact mem_of_mem_pathSegments (mem_uncLeft member) listed
  | false =>
    rw [normalizeSegments_eq double] at member
    exact mem_walked member listed

/-- The text that is written holds no NUL unless the path does. -/
theorem nulFree_normalizeWritten (nulFree : '\x00' ∉ path) : '\x00' ∉ normalizeWritten path := by
  intro listed
  rw [normalizeWritten_def] at listed
  split at listed
  · revert listed
    decide
  · rcases mem_foldl_writeStep listed with root | slash | ⟨segment, member, inside⟩
    · exact nul_not_mem_root path root
    · cases slash
    · exact nulFree (mem_normalizeSegments member inside)

/-- A path without NUL is normalized to the text that is written. -/
theorem evalPathNormalize_eq (nulFree : '\x00' ∉ path) :
    evalPathNormalize path = normalizeWritten path := by
  unfold evalPathNormalize
  by_cases empty : path = []
  · subst empty
    rfl
  · rw [if_neg empty, svToCstr_eq_self (nulFree_normalizeWritten nulFree)]

theorem evalPathNormalize_idem_iff (nulFree : '\x00' ∉ path) :
    evalPathNormalize (evalPathNormalize path) = evalPathNormalize path ↔
      normalizeWritten (normalizeWritten path) = normalizeWritten path := by
  rw [evalPathNormalize_eq nulFree, evalPathNormalize_eq (nulFree_normalizeWritten nulFree)]

/-! ## Normal forms and sizes by the prefix -/

include double in
/-- Behind two separators the text fits, and is a normal form exactly when the walk does not
uproot. -/
theorem normalizeWritten_kept_unc :
    normalizeWritten (normalizeWritten path) = normalizeWritten path ∧
      (normalizeWritten path).length ≤ normalizeSize path ↔
    ¬ Uproots (sv "..") (pathSegments path) := by
  have good := isStep_uncLeft path
  have written := normalizeWritten_unc double
  have fits : (normalizeWritten path).length ≤ normalizeSize path := by
    obtain ⟨rest, found, _⟩ := normalizeRoot_unc double
    have drive : hasDrive path = false := hasDrive_sep (front_of_isUnc double)
    rw [normalizeSize_eq found drive (normalizeSegments_unc double), written, length_cons,
      length_cons, length_printSteps]
    simp
    omega
  have again : normalizeWritten (normalizeWritten path) =
      '/' :: '/' :: printSteps (uncLeft (uncLeft (pathSegments path))) := by
    have segments : pathSegments ('/' :: '/' :: printSteps (uncLeft (pathSegments path))) =
        uncLeft (pathSegments path) := by
      have outer := @pathSegments_sep '/' rfl [] ('/' :: printSteps (uncLeft (pathSegments path)))
      rw [pathSegments_slash good] at outer
      exact outer
    rw [written, normalizeWritten_unc rfl, segments]
  rw [and_iff_left fits, again, written, ← uncLeft_idem_iff]
  constructor
  · intro same
    have printed := (List.cons.inj (List.cons.inj same).2).2
    have back := pathSegments_printSteps good
    rw [← printed, pathSegments_printSteps fun segment member => good segment ?_] at back
    · exact back
    · exact mem_uncLeft member
  · intro same
    rw [same]

/-- What both functions write alike is a normal form of both. -/
theorem normalizeWritten_again (single : isUnc path = false)
    (opened : ¬ Closed (pathRoot path).1.text) (filled : svPathNormalize path ≠ [])
    (normal : svPathNormalize (svPathNormalize path) = svPathNormalize path)
    (againSingle : isUnc (svPathNormalize path) = false)
    (againOpened : ¬ Closed (pathRoot (svPathNormalize path)).1.text) :
    normalizeWritten path = svPathNormalize path ∧
      normalizeWritten (svPathNormalize path) = svPathNormalize path := by
  constructor
  · rw [normalizeWritten_plain single opened, if_neg filled]
  · rw [normalizeWritten_plain againSingle againOpened, normal, if_neg filled]

/-- A printed list does not start with two separators, with or without one in front. -/
theorem isUnc_slash (good : ∀ step ∈ steps, IsStep step) :
    isUnc ('/' :: printSteps steps) = false := by
  have head := head?_printSteps good
  cases printed : printSteps steps with
  | nil => rfl
  | cons char others =>
    rw [printed] at head
    have plain : isPathSep char = false := head
    show (isPathSep '/' && isPathSep char) = false
    rw [plain, Bool.and_false]

theorem isUnc_plain {text : StringView} (plain : text.head?.any isPathSep = false) :
    isUnc text = false := by
  cases double : isUnc text with
  | false => rfl
  | true =>
    rw [front_of_isUnc double] at plain
    cases plain

/-- A path with one separator in front. -/
theorem normalizeWritten_kept_slash (single : isUnc path = false)
    (front : path.head?.any isPathSep = true) (root : (pathRoot path).1 = .slash) :
    normalizeWritten (normalizeWritten path) = normalizeWritten path ∧
      (normalizeWritten path).length ≤ normalizeSize path := by
  have good := isStep_walked path
  have size := normalizeSize_eq (normalizeRoot_eq single) (hasDrive_sep front)
    (normalizeSegments_eq single)
  have normal := (svPathNormalize_idem_iff path).mpr fun relative => by
    rw [root] at relative
    cases relative
  have text := svPathNormalize_eq path
  rw [root] at text size
  have text : svPathNormalize path = '/' :: printSteps (walked path) := text
  obtain ⟨written, again⟩ := normalizeWritten_again single
    (by rw [root]; exact fun closed => closed.2 rfl) (by rw [text]; exact cons_ne_nil _ _)
    normal (by rw [text]; exact isUnc_slash good)
    (by rw [text, pathRoot_slash]; exact fun closed => closed.2 rfl)
  have fits : (svPathNormalize path).length ≤ normalizeSize path := by
    rw [text, size, length_cons, length_printSteps]
    simp [PathRoot.rooted]
    omega
  rw [written, again]
  exact ⟨rfl, fits⟩

/-- A path with a drive and a separator in front. -/
theorem normalizeWritten_kept_drive (good : isLetter letter = true)
    (root : (pathRoot (letter :: ':' :: rest)).1 = .drive letter) :
    normalizeWritten (normalizeWritten (letter :: ':' :: rest)) =
        normalizeWritten (letter :: ':' :: rest) ∧
      (normalizeWritten (letter :: ':' :: rest)).length ≤ normalizeSize (letter :: ':' :: rest) := by
  have single := isUnc_letter good (':' :: rest)
  have size := normalizeSize_eq (normalizeRoot_eq single) (hasDrive_letter good rest)
    (normalizeSegments_eq single)
  have normal := (svPathNormalize_idem_iff (letter :: ':' :: rest)).mpr fun relative => by
    rw [root] at relative
    cases relative
  have text := svPathNormalize_eq (letter :: ':' :: rest)
  rw [root] at text size
  have text : svPathNormalize (letter :: ':' :: rest) =
    letter :: ':' :: '/' :: printSteps (walked (letter :: ':' :: rest)) := text
  obtain ⟨written, again⟩ := normalizeWritten_again single
    (by rw [root]; exact fun closed => closed.2 rfl) (by rw [text]; exact cons_ne_nil _ _)
    normal (by rw [text]; exact isUnc_letter good _)
    (by rw [text, pathRoot_drive good]; exact fun closed => closed.2 rfl)
  have fits : (svPathNormalize (letter :: ':' :: rest)).length ≤
      normalizeSize (letter :: ':' :: rest) := by
    rw [text, size, length_cons, length_cons, length_cons, length_printSteps]
    simp [PathRoot.rooted]
    omega
  rw [written, again]
  exact ⟨rfl, fits⟩

/-- A drive prefix in front of names that stand behind slashes is its own normal form. -/
theorem normalizeWritten_letter (good : isLetter letter = true) {more : List StringView}
    (steps : ∀ segment ∈ more, IsStep segment) (free : sv ".." ∉ more) :
    normalizeWritten (letter :: ':' :: more.flatMap ('/' :: ·)) =
      letter :: ':' :: more.flatMap ('/' :: ·) := by
  by_cases none : more = []
  · subst none
    have nothing : walked [letter, ':'] = [] := by
      rw [walked, pathRoot_driveRelative good rfl]
      rfl
    have once := @normalizeWritten_driveRelative [] _ good rfl
    rw [nothing] at once
    exact once
  · have single := isUnc_letter good (':' :: more.flatMap ('/' :: ·))
    have opened : ¬ Closed (pathRoot (letter :: ':' :: more.flatMap ('/' :: ·))).1.text := by
      rw [flatMap_slash none, pathRoot_drive good]
      exact fun closed => closed.2 rfl
    rw [normalizeWritten_plain single opened, svPathNormalize_letter good steps free]
    rfl

/-- A drive prefix in front of anything else is written with a slash behind it. -/
theorem normalizeWritten_ne (good : isLetter letter = true) (plain : isPathSep char = false)
    (rest : StringView) :
    normalizeWritten (letter :: ':' :: char :: rest) ≠ letter :: ':' :: char :: rest := by
  intro same
  have front : (char :: rest).head?.any isPathSep = false := plain
  rw [normalizeWritten_driveRelative good front] at same
  have behind := (List.cons.inj (List.cons.inj same).2).2
  by_cases none : walked (letter :: ':' :: char :: rest) = []
  · rw [none] at behind
    cases behind
  · rw [flatMap_slash none] at behind
    rw [← (List.cons.inj behind).1] at plain
    cases plain

/-- A path that is relative on its drive: what is left is written with one slash too many, so it
fits exactly when nothing is left. -/
theorem normalizeWritten_kept_driveRelative (good : isLetter letter = true)
    (plain : rest.head?.any isPathSep = false) :
    normalizeWritten (normalizeWritten (letter :: ':' :: rest)) =
        normalizeWritten (letter :: ':' :: rest) ∧
      (normalizeWritten (letter :: ':' :: rest)).length ≤ normalizeSize (letter :: ':' :: rest) ↔
    Returns (sv "..") (pathSegments rest) := by
  have found := pathRoot_driveRelative good plain
  have single := isUnc_letter good (':' :: rest)
  have written := normalizeWritten_driveRelative good plain
  have left : walked (letter :: ':' :: rest) = climbAll (sv "..") false [] (pathSegments rest) := by
    rw [walked, found]
    rfl
  have size := normalizeSize_eq (normalizeRoot_eq single) (hasDrive_letter good rest)
    (normalizeSegments_eq single)
  rw [found] at size
  rw [← Lib.climbAll_eq_nil_iff, ← left]
  constructor
  · rintro ⟨_, fits⟩
    by_contra filled
    have long := length_pos_of_ne_nil filled
    rw [written, size, flatMap_slash filled, length_cons, length_cons,
      length_cons, length_printSteps] at fits
    simp [PathRoot.rooted] at fits
    omega
  · intro none
    rw [none, flatMap_nil] at written
    have again : normalizeWritten [letter, ':'] = [letter, ':'] :=
      @normalizeWritten_letter _ good [] (fun _ member => by cases member) not_mem_nil
    rw [written, again, size, none]
    simp [PathRoot.rooted]

/-- A segment that is read as a drive with a path behind it. -/
def DriveLike (segment : StringView) : Prop :=
  ∃ letter char rest, isLetter letter = true ∧ segment = letter :: ':' :: char :: rest

/-- A relative path fits, and is written in a normal form exactly when what is written is not read
as a path on a drive. -/
theorem normalizeWritten_kept_relative (plain : path.head?.any isPathSep = false)
    (none : hasDrive path = false) :
    normalizeWritten (normalizeWritten path) = normalizeWritten path ∧
      (normalizeWritten path).length ≤ normalizeSize path ↔
    ∀ name, DriveLike name → ¬ Begins (sv "..") name (pathSegments path) := by
  have good := isStep_walked path
  have found := pathRoot_relative plain none
  have single := isUnc_plain plain
  have written := normalizeWritten_plain single (by rw [found]; exact fun closed => closed.1 rfl)
  have form := svPathNormalize_eq path
  rw [found] at form
  have text : svPathNormalize path = printSteps (walked path) := form
  have size := normalizeSize_eq (normalizeRoot_eq single) none (normalizeSegments_eq single)
  rw [found] at size
  have fits : (normalizeWritten path).length ≤ normalizeSize path := by
    rw [written, size, text]
    split
    · rename_i empty
      have nothing : walked path = [] := by
        rw [← pathSegments_printSteps good, empty]
        rfl
      rw [nothing]
      simp [PathRoot.rooted, sv]
    · rw [length_printSteps]
      simp [PathRoot.rooted]
  have begins : ∀ name, name ≠ sv ".." → ((walked path).head? = some name ↔
      Begins (sv "..") name (pathSegments path)) := by
    intro name down
    have first := @walked_head? path (by rw [found]; rfl) _ down
    rw [found] at first
    exact first
  have drives : ∀ name, DriveLike name → Begins (sv "..") name (pathSegments path) →
      ∃ letter char rest more, isLetter letter = true ∧
        walked path = (letter :: ':' :: char :: rest) :: more := by
    rintro name ⟨letter, char, rest, letterGood, rfl⟩ starts
    have first := (begins _ (prefixed_ne_up letterGood _)).mpr starts
    obtain ⟨more, left⟩ := List.head?_eq_some_iff.mp first
    exact ⟨letter, char, rest, more, letterGood, left⟩
  rw [and_iff_left fits, written]
  cases left : walked path with
  | nil =>
    rw [text, left]
    refine iff_of_true (by decide) fun name like starts => ?_
    obtain ⟨letter, char, rest, more, _, same⟩ := drives name like starts
    rw [left] at same
    cases same
  | cons first more =>
    have filled : svPathNormalize path ≠ [] := by
      intro empty
      rw [text] at empty
      have back := pathSegments_printSteps good
      rw [empty, left] at back
      cases back
    rw [if_neg filled]
    cases drive : hasDrive (printSteps (walked path)) with
    | false =>
      refine iff_of_true ?_ fun name like starts => ?_
      · have again := pathRoot_relative (head?_printSteps good) drive
        have normal : svPathNormalize (svPathNormalize path) = svPathNormalize path := by
          refine svPathNormalize_again ?_ (pathSegments_printSteps good)
          rw [text, found]
          exact again
        exact (normalizeWritten_again single (by rw [found]; exact fun closed => closed.1 rfl) filled
          normal (by rw [text]; exact isUnc_plain (head?_printSteps good))
          (by rw [text, again]; exact fun closed => closed.1 rfl)).2
      · obtain ⟨letter, char, rest, others, letterGood, same⟩ := drives name like starts
        have driven := (hasDrive_printSteps good).mpr ⟨letter, _, others, letterGood, same⟩
        rw [drive] at driven
        cases driven
    | true =>
      obtain ⟨letter, rest, others, letterGood, same⟩ := (hasDrive_printSteps good).mp drive
      have moreSteps : ∀ segment ∈ others, IsStep segment := fun segment member =>
        good segment (by rw [same]; exact mem_cons_of_mem _ member)
      have free : sv ".." ∉ others :=
        up_notMem_behind (by rw [found]; rfl) same (prefixed_ne_up letterGood rest)
      rw [text, same, printSteps_cons, cons_append, cons_append]
      cases rest with
      | nil =>
        refine iff_of_true (normalizeWritten_letter letterGood moreSteps free)
          fun name like starts => ?_
        · obtain ⟨_, _, _, _, _, other⟩ := drives name like starts
          rw [same] at other
          cases other
      | cons char tail =>
        have charPlain := (good _ (by rw [same]; exact mem_cons_self)).2.2 char
          (mem_cons_of_mem _ (mem_cons_of_mem _ mem_cons_self))
        refine iff_of_false (normalizeWritten_ne letterGood charPlain _) fun none => ?_
        · refine none _ ⟨letter, char, tail, letterGood, rfl⟩ ((begins _ ?_).mp ?_)
          · exact prefixed_ne_up letterGood _
          · rw [same, List.head?_cons]

/-! ## The main result -/

/-- The paths that `eval_sv_path_normalize_temp` normalizes within the size it has computed: a path
that is relative on its drive comes back to where it starts, nothing that is left of a relative
path is read as a drive with a path behind it, and a walk behind two separators does not uproot. -/
structure Normalizable (path : StringView) : Prop where
  drive : hasDrive path = true → (path.drop 2).head?.any isPathSep = false →
    Returns (sv "..") (pathSegments (path.drop 2))
  relative : hasDrive path = false → path.head?.any isPathSep = false →
    ∀ name, DriveLike name → ¬ Begins (sv "..") name (pathSegments path)
  unc : isUnc path = true → ¬ Uproots (sv "..") (pathSegments path)

/-- `eval_sv_path_normalize_temp` gives a normal form and writes no more than the size it has
computed exactly for the paths that are `Normalizable`. -/
theorem evalPathNormalize_iff {path : StringView} (nulFree : '\x00' ∉ path) :
    evalPathNormalize (evalPathNormalize path) = evalPathNormalize path ∧
      (normalizeWritten path).length ≤ normalizeSize path ↔
    Normalizable path := by
  rw [evalPathNormalize_idem_iff nulFree]
  cases double : isUnc path with
  | true =>
    have front := front_of_isUnc double
    have none := hasDrive_sep front
    rw [normalizeWritten_kept_unc double]
    constructor
    · intro plain
      exact ⟨fun drive => (by rw [none] at drive; cases drive),
        fun _ other => (by rw [front] at other; cases other), fun _ => plain⟩
    · intro normal
      exact normal.unc double
  | false =>
    have notDouble : ∀ {claim : Prop}, isUnc path = true → claim := by
      intro claim other
      rw [double] at other
      cases other
    rcases pathRoot_cases path with ⟨front, rest, found⟩ | ⟨letter, rest, good, rfl, behind, found⟩ |
      ⟨letter, rest, good, rfl, plain, found⟩ | ⟨plain, none, found⟩
    · have none := hasDrive_sep front
      refine iff_of_true (normalizeWritten_kept_slash double front (by rw [found])) ?_
      exact ⟨fun drive => (by rw [none] at drive; cases drive),
        fun _ other => (by rw [front] at other; cases other), notDouble⟩
    · have drive := hasDrive_letter good rest
      refine iff_of_true (normalizeWritten_kept_drive good (by rw [found])) ?_
      exact ⟨fun _ other => (by
          have front : rest.head?.any isPathSep = false := other
          rw [behind] at front; cases front),
        fun other => (by rw [drive] at other; cases other), notDouble⟩
    · have drive := hasDrive_letter good rest
      rw [normalizeWritten_kept_driveRelative good plain]
      constructor
      · intro returns
        exact ⟨fun _ _ => returns, fun other => (by rw [drive] at other; cases other), notDouble⟩
      · intro normal
        exact normal.drive drive plain
    · rw [normalizeWritten_kept_relative plain none]
      constructor
      · intro apart
        exact ⟨fun other => (by rw [none] at other; cases other), fun _ _ => apart, notDouble⟩
      · intro normal
        exact normal.relative none plain

/-- A path on a drive that goes up above its root. -/
theorem evalPathNormalize_iff_drive :
    evalPathNormalize (evalPathNormalize (sv "C:\\..\\a")) = evalPathNormalize (sv "C:\\..\\a") ∧
      (normalizeWritten (sv "C:\\..\\a")).length ≤ normalizeSize (sv "C:\\..\\a") :=
  (evalPathNormalize_iff (by decide)).mpr
    ⟨fun _ other => absurd other (by decide), fun other => absurd other (by decide),
      fun other => absurd other (by decide)⟩

/-- A path that is relative on its drive is written behind the size that was computed for it. -/
theorem normalizeWritten_drive_overflow : ¬ ∀ path : StringView, '\x00' ∉ path →
      evalPathNormalize (evalPathNormalize path) = evalPathNormalize path ∧
        (normalizeWritten path).length ≤ normalizeSize path := by
  intro kept
  have fits := (kept (sv "C:a") (by decide)).2
  revert fits
  decide

end Nobify.Evaluator
