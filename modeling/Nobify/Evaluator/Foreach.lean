import Nobify.Evaluator.Numerals
import Nobify.Evaluator.TargetUsage

/-!
# The items of a loop

What `eval_foreach` does with its arguments before it begins to iterate. The items come from the
arguments, from lists, or from a range of numbers. A range is walked with the arithmetic of `long`:
the step is added before the sum is compared with the end, so the sum behind the last item has to
be a `long` as well.
-/

namespace Nobify.Evaluator

open Prog
open Option

variable {start step stop value : Int}

/-! ## Ranges -/

/-- `exec_core_parse_long`: the buffer has room for 127 characters, and a NUL ends the text that is
read. Of an empty text nothing is left over. -/
def execCoreParseLong (text : StringView) : Option Int :=
  if text = [] ∨ 128 ≤ text.length then none
  else if svToCstr text = [] then some 0
  else strtol (svToCstr text)

/-- The value lies past the end of a range, in the direction of its step. -/
def beyond (stop step value : Int) : Prop :=
  0 < step ∧ stop < value ∨ step < 0 ∧ value < stop

instance (stop step value : Int) : Decidable (beyond stop step value) :=
  inferInstanceAs (Decidable (_ ∨ _))

/-- A step that does not lead past the end leads closer to it. -/
theorem closer (nonzero : step ≠ 0) (here : ¬beyond stop step (value + step)) :
    (stop - (value + step)).natAbs < (stop - value).natAbs := by
  unfold beyond at here
  omega

/-- The loop over a range; `none` stands for a sum that overflows `long`, which is undefined. -/
def rangeLoop (stop step : Int) (nonzero : step ≠ 0) (value : Int) : Option (List Int) :=
  if ¬InLong (value + step) then none
  else if beyond stop step (value + step) then some [value]
  else (rangeLoop stop step nonzero (value + step)).map (value :: ·)
termination_by (stop - value).natAbs
decreasing_by exact closer nonzero ‹_›

/-! ## Setting up -/

/-- What the arguments of a loop come to before it begins. -/
inductive ForeachSetup where
  | fatal
  | report (code : DiagCode) (cause hint : StringView)
  /-- The loop is done without an iteration, and without its events. -/
  | skip
  | items (var : StringView) (items : List StringView)
  /-- An addition overflows `long`. -/
  | overflow
  deriving DecidableEq

/-- A range from its three numbers. -/
def rangeItems (var : StringView) (start stop step : Int) : ForeachSetup :=
  if nonzero : step ≠ 0 then
    if beyond stop step start then .skip
    else
      match rangeLoop stop step nonzero start with
      | some values => .items var (values.map showLong)
      | none => .overflow
  else .report .invalidValue (sv "foreach(RANGE ...) step must be non-zero") []

/-- The arguments behind `RANGE`. -/
def foreachRange (var : StringView) : List StringView → ForeachSetup
  | [stop] =>
    match execCoreParseLong stop with
    | some stop => rangeItems var 0 stop 1
    | none => .fatal
  | [start, stop] =>
    match execCoreParseLong start, execCoreParseLong stop with
    | some start, some stop => rangeItems var start stop 1
    | _, _ => .fatal
  | [start, stop, step] =>
    match execCoreParseLong start, execCoreParseLong stop, execCoreParseLong step with
    | some start, some stop, some step => rangeItems var start stop step
    | _, _, _ => .fatal
  | _ => .report .missingRequired (sv "foreach(RANGE ...) expects 1..3 numeric arguments")
      (sv "Usage: foreach(v RANGE stop) or RANGE start stop [step]")

/-- The rows of `ZIP_LISTS`: lists that have ended go on with empty items. -/
def zipRows (lists : List (List StringView)) : List StringView :=
  (List.range ((lists.map List.length).foldr max 0)).map fun row =>
    svJoinSemi (lists.map fun items => items.getD row [])

/-- The arguments behind `IN`. -/
def foreachIn (visible : StringView → StringView) (var : StringView) :
    List StringView → ForeachSetup
  | [] => .items var []
  | keyword :: rest =>
    if svEqCi keyword (sv "ITEMS") then .items var rest
    else if svEqCi keyword (sv "LISTS") then
      .items var (rest.flatMap fun list => splitSemicolonGenexAware (visible list))
    else if svEqCi keyword (sv "ZIP_LISTS") then
      .items var (zipRows (rest.map fun list => splitSemicolonGenexAware (visible list)))
    else .items var (keyword :: rest)

/-- The part of `eval_foreach` before the loop, on resolved arguments and the variables in view. -/
def foreachSetup (visible : StringView → StringView) : List StringView → ForeachSetup
  | [] => .report .missingRequired (sv "foreach() expects at least one argument")
      (sv "Usage: foreach(<loop_var> <items...>)")
  | [var] => .items var []
  | var :: keyword :: rest =>
    if svEqCi keyword (sv "RANGE") then foreachRange var rest
    else if svEqCi keyword (sv "IN") then foreachIn visible var rest
    else .items var (keyword :: rest)

/-- The part of `eval_foreach` before the loop. Behind an overflow the program may be any. -/
def foreachItems (resolveArgs : List Arg → Prog (List StringView))
    (overflowed : Prog (EvalResult ⊕ StringView × List StringView)) (origin : Origin)
    (args : List Arg) : Prog (EvalResult ⊕ StringView × List StringView) := do
  let resolved ← resolveArgs args
  let ctx ← context
  match foreachSetup ctx.state.varGetVisible resolved with
  | .fatal => return .inl .fatal
  | .report code cause hint => do
    let _ ← emitDiag
      { severity := .error, code, component := sv "flow", command := sv "foreach", origin, cause,
        hint }
    return .inl (← resultFromCtx)
  | .skip => return .inl .ok
  | .items var items => return .inr (var, items)
  | .overflow => overflowed

/-! ## The values of a range -/

/-- So many values of a range. -/
def rangeValues (start step : Int) (count : Nat) : List Int :=
  (List.range count).map fun k : Nat => start + k * step

/-- How many steps from the start stay within the range. -/
def stepsWithin (start stop step : Int) : Nat := (stop - start).natAbs / step.natAbs

/-- The values up to that many steps are the ones that are not past the end. -/
theorem not_beyond_iff (nonzero : step ≠ 0) (within : ¬beyond stop step start) (k : Nat) :
    ¬beyond stop step (start + k * step) ↔ k ≤ stepsWithin start stop step := by
  unfold stepsWithin
  rw [Nat.le_div_iff_mul_le (Int.natAbs_pos.mpr nonzero)]
  have scaled : ((k * step.natAbs : Nat) : Int) = k * step.natAbs := Int.natCast_mul _ _
  unfold beyond at within ⊢
  rcases Int.lt_or_gt_of_ne nonzero with down | up
  · have magnitude : (step.natAbs : Int) = -step := by omega
    rw [magnitude, Int.mul_neg] at scaled
    omega
  · have magnitude : (step.natAbs : Int) = step := by omega
    rw [magnitude] at scaled
    omega

/-- Steps from the next value are steps from this one. -/
theorem add_steps (start step : Int) (k : Nat) :
    start + step + k * step = start + (k + 1 : Nat) * step := by
  rw [Int.natCast_add, Int.add_mul]
  omega

theorem rangeValues_succ (start step : Int) (count : Nat) :
    rangeValues start step (count + 1) = start :: rangeValues (start + step) step count := by
  unfold rangeValues
  rw [List.range_succ_eq_map, List.map_cons, List.map_map]
  simp [Function.comp_def, add_steps]

/-- No step is left when the next value is past the end. -/
theorem stepsWithin_eq_zero (nonzero : step ≠ 0) (within : ¬beyond stop step start)
    (past : beyond stop step (start + step)) : stepsWithin start stop step = 0 := by
  by_contra some
  have one : 1 ≤ stepsWithin start stop step := Nat.pos_of_ne_zero some
  have inside := (not_beyond_iff nonzero within 1).mpr one
  rw [Int.natCast_one, Int.one_mul] at inside
  exact inside past

/-- A step within the range leaves one step less. -/
theorem stepsWithin_next (nonzero : step ≠ 0) (within : ¬beyond stop step start)
    (inside : ¬beyond stop step (start + step)) :
    stepsWithin start stop step = stepsWithin (start + step) stop step + 1 := by
  have steps : ∀ k : Nat, k + 1 ≤ stepsWithin start stop step ↔
      k ≤ stepsWithin (start + step) stop step := by
    intro k
    rw [← not_beyond_iff nonzero within, ← not_beyond_iff nonzero inside, add_steps]
  have first := (steps 0).mpr (Nat.zero_le _)
  have upper := (steps (stepsWithin start stop step - 1)).mp (by omega)
  have lower := (steps (stepsWithin (start + step) stop step)).mpr (Nat.le_refl _)
  omega

/-- What lies within the range of two values of `long` is one. -/
theorem inLong_of_not_beyond (long : InLong start) (longStop : InLong stop)
    (next : value = start + step) (inside : ¬beyond stop step value) : InLong value := by
  unfold InLong beyond at *
  omega

/-- The loop walks over the values within the range, unless the first value past the end is no
`long`. -/
theorem rangeLoop_eq (nonzero : step ≠ 0) (long : InLong start) (longStop : InLong stop)
    (within : ¬beyond stop step start) :
    rangeLoop stop step nonzero start =
      if InLong (start + (stepsWithin start stop step + 1 : Nat) * step) then
        some (rangeValues start step (stepsWithin start stop step + 1))
      else none := by
  fun_induction rangeLoop stop step nonzero start with
  | case1 start overflow =>
    have past : beyond stop step (start + step) := by
      by_contra inside
      exact overflow (inLong_of_not_beyond long longStop rfl inside)
    have last : stepsWithin start stop step = 0 := stepsWithin_eq_zero nonzero within past
    rw [last, if_neg (by simpa using overflow)]
  | case2 start fits past =>
    have last : stepsWithin start stop step = 0 := stepsWithin_eq_zero nonzero within past
    rw [last, if_pos (by simpa using fits), rangeValues_succ]
    rfl
  | case3 start fits inside ih =>
    have more : stepsWithin start stop step = stepsWithin (start + step) stop step + 1 :=
      stepsWithin_next nonzero within inside
    rw [ih (inLong_of_not_beyond long longStop rfl inside) inside, more, add_steps]
    by_cases last : InLong (start + (stepsWithin (start + step) stop step + 1 + 1 : Nat) * step)
    · rw [if_pos last, if_pos last, map_some, rangeValues_succ start]
    · rw [if_neg last, if_neg last, map_none]

/-! ## The claimed iterations -/

/-- The loop runs over these items and no others. A loop that is skipped runs over none. -/
def ForeachSetup.IteratesOver (setup : ForeachSetup) (var : StringView)
    (items : List StringView) : Prop :=
  setup = .items var items ∨ setup = .skip ∧ items = []

/-- The value lies between both ends of a range, in the direction of its step. -/
def Between (start stop step value : Int) : Prop :=
  (0 < step → start ≤ value ∧ value ≤ stop) ∧ (step < 0 → stop ≤ value ∧ value ≤ start)

/-- The loop runs over the values of a range, in order. -/
def IteratesOverRange (setup : ForeachSetup) (var : StringView) (start stop step : Int) : Prop :=
  ∃ count : Nat, (∀ k : Nat, k < count ↔ Between start stop step (start + k * step)) ∧
    setup.IteratesOver var ((rangeValues start step count).map showLong)

/-- The start lies past the end, or the first value past the end is a `long`. -/
def RangeFits (start stop step : Int) : Prop :=
  beyond stop step start ∨ InLong (start + (((stop - start).natAbs / step.natAbs : Nat) + 1) * step)

instance (start stop step : Int) : Decidable (RangeFits start stop step) :=
  inferInstanceAs (Decidable (_ ∨ _))

theorem between_iff (nonzero : step ≠ 0) (k : Nat) :
    Between start stop step (start + k * step) ↔ ¬beyond stop step (start + k * step) := by
  unfold Between beyond
  rcases Int.lt_or_gt_of_ne nonzero with down | up
  · have scaled : k * step ≤ 0 := Int.mul_nonpos_of_nonneg_of_nonpos (Int.natCast_nonneg k)
      (Int.le_of_lt down)
    omega
  · have scaled : 0 ≤ k * step := Int.mul_nonneg (Int.natCast_nonneg k) (Int.le_of_lt up)
    omega

/-- A number that was read is a `long`. -/
theorem inLong_execCoreParseLong {text : StringView} (parsed : execCoreParseLong text = some value)
    : InLong value := by
  unfold execCoreParseLong at parsed
  split at parsed
  · cases parsed
  · split at parsed
    · cases parsed
      decide
    · simp only [strtol] at parsed
      split at parsed
      · cases parsed
      · cases parsed
        unfold InLong
        omega

/-- A printed `long` is read back. -/
theorem execCoreParseLong_showLong (long : InLong value) :
    execCoreParseLong (showLong value) = some value := by
  have short := length_showLong long
  have nulFree : '\x00' ∉ showLong value := by
    intro nul
    rcases mem_showLong nul with sign | digit
    · cases sign
    · cases digit
  have filled := showLong_ne_nil value
  rw [execCoreParseLong, if_neg (not_or.mpr ⟨filled, by omega⟩), svToCstr_eq_self nulFree,
    if_neg filled, strtol_showLong long]

/-- The three numbers of a range are read before anything else is done. -/
theorem foreachSetup_range (visible : StringView → StringView)
    {var keyword startText stopText stepText : StringView}
    (range : svEqCi keyword (sv "RANGE") = true)
    (startParsed : execCoreParseLong startText = some start)
    (stopParsed : execCoreParseLong stopText = some stop)
    (stepParsed : execCoreParseLong stepText = some step) :
    foreachSetup visible [var, keyword, startText, stopText, stepText] =
      rangeItems var start stop step := by
  rw [foreachSetup, if_pos range, foreachRange, startParsed, stopParsed, stepParsed]

/-- The values that lie within a range, when it is not empty. -/
theorem between_count_iff (nonzero : step ≠ 0) (within : ¬beyond stop step start) (count : Nat) :
    (∀ k : Nat, k < count ↔ Between start stop step (start + k * step)) ↔
      count = stepsWithin start stop step + 1 := by
  have steps : ∀ k : Nat, Between start stop step (start + k * step) ↔
      k < stepsWithin start stop step + 1 := by
    intro k
    rw [between_iff nonzero, not_beyond_iff nonzero within, Nat.lt_succ_iff]
  constructor
  · intro same
    have lower := (steps count).not.mp fun inside => Nat.lt_irrefl count ((same count).mpr inside)
    have upper := (same (stepsWithin start stop step + 1)).not.mpr
      ((steps _).not.mpr (Nat.lt_irrefl _))
    omega
  · rintro rfl k
    exact (steps k).symm

/-- `foreach(RANGE)` runs over the values of the range when the first value past its end is still
a `long`. Behind an addition that overflows nothing is promised. -/
theorem foreachRange_iterates_iff (visible : StringView → StringView)
    {var keyword startText stopText stepText : StringView} {start stop step : Int}
    (range : svEqCi keyword (sv "RANGE") = true)
    (startParsed : execCoreParseLong startText = some start)
    (stopParsed : execCoreParseLong stopText = some stop)
    (stepParsed : execCoreParseLong stepText = some step) (nonzero : step ≠ 0) :
    IteratesOverRange (foreachSetup visible [var, keyword, startText, stopText, stepText]) var
      start stop step ↔ RangeFits start stop step := by
  have long := inLong_execCoreParseLong startParsed
  have longStop := inLong_execCoreParseLong stopParsed
  rw [foreachSetup_range visible range startParsed stopParsed stepParsed]
  unfold IteratesOverRange RangeFits rangeItems
  rw [dif_pos nonzero]
  by_cases empty : beyond stop step start
  · rw [if_pos empty]
    refine ⟨fun _ => .inl empty, fun _ => ⟨0, ?_, .inr ⟨rfl, rfl⟩⟩⟩
    intro k
    have outside : ¬Between start stop step (start + k * step) := by
      unfold Between beyond at *
      omega
    exact ⟨fun none => absurd none (Nat.not_lt_zero k), fun inside => absurd inside outside⟩
  · rw [if_neg empty, rangeLoop_eq nonzero long longStop empty]
    by_cases fits : InLong (start + (stepsWithin start stop step + 1 : Nat) * step)
    · rw [if_pos fits]
      refine ⟨fun _ => .inr (by simpa [stepsWithin] using fits), fun _ => ?_⟩
      exact ⟨_, (between_count_iff nonzero empty _).mpr rfl, .inl rfl⟩
    · rw [if_neg fits]
      constructor
      · rintro ⟨count, _, run | ⟨run, _⟩⟩
        · cases run
        · cases run
      · rintro (past | small)
        · exact absurd past empty
        · exact absurd (by simpa [stepsWithin] using small) fits

/-- A range of two values that starts at minus one. -/
theorem foreachRange_iterates_iff_zero :
    IteratesOverRange (foreachSetup (fun _ => []) [sv "v", sv "range", sv "-1", sv "0", sv "1"])
      (sv "v") (-1) 0 1 :=
  (foreachRange_iterates_iff (fun _ => []) (by decide) (by decide) (by decide) (by decide)
    (by decide)).mpr (by decide)

/-- The range of the largest `long` alone adds to it. -/
theorem foreachRange_largest :
    ¬∀ (visible : StringView → StringView) (var : StringView) (start stop step : Int),
      InLong start → InLong stop → InLong step → step ≠ 0 →
      IteratesOverRange
        (foreachSetup visible [var, sv "RANGE", showLong start, showLong stop, showLong step]) var
        start stop step := by
  intro all
  have largest : InLong (2 ^ 63 - 1) := by decide
  have one : InLong 1 := by decide
  obtain ⟨count, _, run⟩ := all (fun _ => []) [] _ _ 1 largest largest one (by decide)
  rw [foreachSetup_range _ (by decide) (execCoreParseLong_showLong largest)
    (execCoreParseLong_showLong largest) (execCoreParseLong_showLong one), rangeItems,
    dif_pos (by decide), if_neg (by decide), rangeLoop, if_pos (by decide)] at run
  rcases run with run | ⟨run, _⟩
  · cases run
  · cases run

end Nobify.Evaluator
