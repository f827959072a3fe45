import Nobify.Evaluator.ListItems
import Nobify.Evaluator.WrittenVars
import Nobify.Lib.InsertionSort

/-!
# `list(SORT)`

Items are compared by characters, by file name, or naturally: a run of digits is compared as a
number, by its digits behind leading zeros, and of equal numbers the one with fewer zeros comes
first. The case of letters may be left out of account, and the order may be turned around.

Every comparison is one of keys: a text is cut into single characters and runs of digits, each of
which has a list of numbers as its key. Characters below the digits come before all runs and
characters above them behind all runs, so comparing two texts piece by piece is an order.
-/

namespace Nobify.Evaluator

open Nobify.Lib Prog
open List

variable {char left right : Char} {text : StringView}

/-! ## Comparing items -/

/-- `List_Sort_Compare`. -/
inductive ListSortCompare where
  | string
  | fileBasename
  | natural
  deriving DecidableEq

/-- `List_Sort_Case`. -/
inductive ListSortCase where
  | sensitive
  | insensitive
  deriving DecidableEq

/-- `List_Sort_Order`. -/
inductive ListSortOrder where
  | ascending
  | descending
  deriving DecidableEq

/-- `List_Sort_Options`. -/
structure ListSortOptions where
  compare : ListSortCompare := .string
  caseMode : ListSortCase := .sensitive
  order : ListSortOrder := .ascending

/-- `list_path_basename`: what follows the last separator. -/
def listPathBasename (path : StringView) : StringView :=
  (path.reverse.takeWhile fun char => !isPathSep char).reverse

/-- `list_char_cmp`. -/
def listCharCmp (left right : Char) (caseSensitive : Bool) : Ordering :=
  let left := if caseSensitive then left else left.toLower
  let right := if caseSensitive then right else right.toLower
  if left.toNat < right.toNat then .lt
  else if right.toNat < left.toNat then .gt
  else .eq

/-- `list_sv_lex_cmp`. -/
def listSvLexCmp : StringView → StringView → Bool → Ordering
  | left :: lefts, right :: rights, caseSensitive =>
    match listCharCmp left right caseSensitive with
    | .eq => listSvLexCmp lefts rights caseSensitive
    | other => other
  | [], _ :: _, _ => .lt
  | _ :: _, [], _ => .gt
  | [], [], _ => .eq

/-- The digits of a run behind its leading zeros. -/
def significant (text : StringView) : StringView :=
  (text.dropWhile (· == '0')).takeWhile isDigit

/-- What follows a run of digits. -/
def behindRun (text : StringView) : StringView :=
  (text.dropWhile (· == '0')).dropWhile isDigit

theorem length_behindRun_le (text : StringView) : (behindRun text).length ≤ text.length :=
  ((dropWhile_suffix _).trans (dropWhile_suffix _)).length_le

/-- A run takes at least its first digit. -/
theorem length_behindRun_lt (digit : isDigit char = true) (rest : StringView) :
    (behindRun (char :: rest)).length < (char :: rest).length := by
  have later := length_behindRun_le rest
  have shorter := (dropWhile_suffix isDigit (l := rest)).length_le
  unfold behindRun at *
  by_cases zero : char = '0'
  · rw [dropWhile_cons_of_pos (by simp [zero]), length_cons]
    omega
  · rw [dropWhile_cons_of_neg (by simpa using zero), dropWhile_cons_of_pos digit, length_cons]
    omega

/-- `list_sv_natural_cmp`. -/
def listSvNaturalCmp : StringView → StringView → Bool → Ordering
  | left :: lefts, right :: rights, caseSensitive =>
    if runs : isDigit left = true ∧ isDigit right = true then
      let leftDigits := significant (left :: lefts)
      let rightDigits := significant (right :: rights)
      let leftRest := behindRun (left :: lefts)
      let rightRest := behindRun (right :: rights)
      have : leftRest.length < (left :: lefts).length := length_behindRun_lt runs.1 lefts
      if leftDigits.length ≠ rightDigits.length then
        if leftDigits.length < rightDigits.length then .lt else .gt
      else
        match listSvLexCmp leftDigits rightDigits true with
        | .eq =>
          let leftRun := (left :: lefts).length - leftRest.length
          let rightRun := (right :: rights).length - rightRest.length
          if leftRun ≠ rightRun then if leftRun < rightRun then .lt else .gt
          else listSvNaturalCmp leftRest rightRest caseSensitive
        | other => other
    else
      match listCharCmp left right caseSensitive with
      | .eq => listSvNaturalCmp lefts rights caseSensitive
      | other => other
  | _ :: _, [], _ => .gt
  | [], _ :: _, _ => .lt
  | [], [], _ => .eq
termination_by left => left.length
decreasing_by
  · assumption
  · exact Nat.lt_succ_self lefts.length

/-- `list_sort_item_cmp`. -/
def listSortItemCmp (options : ListSortOptions) (left right : StringView) : Ordering :=
  let caseSensitive := options.caseMode == .sensitive
  let left := if options.compare = .fileBasename then listPathBasename left else left
  let right := if options.compare = .fileBasename then listPathBasename right else right
  let compared := if options.compare = .natural then listSvNaturalCmp left right caseSensitive
    else listSvLexCmp left right caseSensitive
  if options.order = .descending then compared.swap else compared

/-- The loops of `list(SORT)`. -/
def listSort (options : ListSortOptions) (items : List StringView) : List StringView :=
  sortInPlace (listSortItemCmp options) items

/-! ## Keys -/

/-- The number by which a character is compared. -/
def foldedCode (caseSensitive : Bool) (char : Char) : Nat :=
  (if caseSensitive then char else char.toLower).toNat

/-- The key of a run of digits: the place of the digits among the characters, the number of its
digits behind leading zeros, these digits, and the length of the run. -/
def runKey (text : StringView) : List Nat :=
  '0'.toNat :: (significant text).length ::
    ((significant text).map Char.toNat ++ [text.length - (behindRun text).length])

/-- The keys of the characters and runs of a text. -/
def naturalKey (caseSensitive : Bool) : StringView → List (List Nat)
  | [] => []
  | char :: rest =>
    if digit : isDigit char = true then
      have : (behindRun (char :: rest)).length < (char :: rest).length :=
        length_behindRun_lt digit rest
      runKey (char :: rest) :: naturalKey caseSensitive (behindRun (char :: rest))
    else [foldedCode caseSensitive char] :: naturalKey caseSensitive rest
termination_by text => text.length
decreasing_by
  · assumption
  · exact Nat.lt_succ_self rest.length

/-- The keys of the characters of a text. -/
def lexKey (caseSensitive : Bool) (text : StringView) : List (List Nat) :=
  text.map fun char => [foldedCode caseSensitive char]

/-- What the options compare of an item. -/
def sortKey (options : ListSortOptions) (item : StringView) : List (List Nat) :=
  match options.compare with
  | .string => lexKey (options.caseMode == .sensitive) item
  | .fileBasename => lexKey (options.caseMode == .sensitive) (listPathBasename item)
  | .natural => naturalKey (options.caseMode == .sensitive) item

/-- Numbers are compared as the source compares them. -/
theorem compare_nat (left right : Nat) :
    (if left < right then Ordering.lt else if right < left then .gt else .eq) =
      compare left right := by
  rcases Nat.lt_trichotomy left right with below | same | above
  · rw [if_pos below, Nat.compare_eq_lt.mpr below]
  · rw [same, if_neg (Nat.lt_irrefl right), if_neg (Nat.lt_irrefl right), Nat.compare_eq_eq.mpr rfl]
  · rw [if_neg (Nat.lt_asymm above), if_pos above, Nat.compare_eq_gt.mpr above]

theorem listCharCmp_eq (left right : Char) (caseSensitive : Bool) :
    listCharCmp left right caseSensitive =
      compare (foldedCode caseSensitive left) (foldedCode caseSensitive right) :=
  compare_nat _ _

theorem compare_singletons (left right : Nat) : compare [left] [right] = compare left right := by
  rw [List.compare_cons_cons, List.compare_nil_nil]
  cases compare left right <;> rfl

theorem compare_lexKey_cons (caseSensitive : Bool) (left right : Char) (lefts rights : StringView) :
    compare (lexKey caseSensitive (left :: lefts)) (lexKey caseSensitive (right :: rights)) =
      (compare (foldedCode caseSensitive left) (foldedCode caseSensitive right)).then
        (compare (lexKey caseSensitive lefts) (lexKey caseSensitive rights)) := by
  rw [← compare_singletons]
  exact List.compare_cons_cons

/-- Texts are compared by the keys of their characters. -/
theorem listSvLexCmp_eq (left right : StringView) (caseSensitive : Bool) :
    listSvLexCmp left right caseSensitive =
      compare (lexKey caseSensitive left) (lexKey caseSensitive right) := by
  fun_induction listSvLexCmp left right caseSensitive with
  | case1 left lefts right rights caseSensitive same ih =>
    rw [listCharCmp_eq] at same
    rw [ih, compare_lexKey_cons, same]
    rfl
  | case2 left lefts right rights caseSensitive other =>
    rw [listCharCmp_eq] at other ⊢
    rw [compare_lexKey_cons]
    cases compared : compare (foldedCode caseSensitive left) (foldedCode caseSensitive right) with
    | lt => rfl
    | gt => rfl
    | eq => exact absurd compared other
  | case3 => rfl
  | case4 => rfl
  | case5 => rfl

/-- Of lists of one length, what stands behind decides only when the lists are equal. -/
theorem compare_append {first second : List Nat} (same : first.length = second.length)
    (left right : List Nat) :
    compare (first ++ left) (second ++ right) =
      (compare first second).then (compare left right) := by
  induction first generalizing second with
  | nil =>
    cases second with
    | nil => rfl
    | cons _ _ => cases same
  | cons front first ih =>
    cases second with
    | nil => cases same
    | cons other second =>
      rw [cons_append, cons_append, List.compare_cons_cons, List.compare_cons_cons,
        ih (Nat.succ.inj same), Ordering.then_assoc]

theorem compare_lexKey (left right : StringView) : compare (lexKey true left) (lexKey true right) =
      compare (left.map Char.toNat) (right.map Char.toNat) := by
  induction left generalizing right with
  | nil => cases right <;> rfl
  | cons char rest ih =>
    cases right with
    | nil => rfl
    | cons other others =>
      rw [compare_lexKey_cons, ih, map_cons, map_cons, List.compare_cons_cons]
      rfl

/-- Runs of digits are compared by their keys. -/
theorem compare_runKey (left right : StringView) : compare (runKey left) (runKey right) =
      (compare (significant left).length (significant right).length).then
        ((listSvLexCmp (significant left) (significant right) true).then
          (compare (left.length - (behindRun left).length)
            (right.length - (behindRun right).length))) := by
  unfold runKey
  rw [List.compare_cons_cons, Nat.compare_eq_eq.mpr rfl, List.compare_cons_cons, listSvLexCmp_eq,
    compare_lexKey]
  cases compared : compare (significant left).length (significant right).length with
  | lt => rfl
  | gt => rfl
  | eq =>
    have same := Nat.compare_eq_eq.mp compared
    rw [compare_append (by simpa using same), compare_singletons]
    rfl

/-! ## Natural comparison -/

theorem isDigit_iff : isDigit char = true ↔ 48 ≤ char.toNat ∧ char.toNat ≤ 57 := by
  unfold isDigit
  rw [Bool.and_eq_true, decide_eq_true_eq, decide_eq_true_eq, Char.le_def, Char.le_def,
    UInt32.le_iff_toNat_le, UInt32.le_iff_toNat_le]
  rfl

/-- `tolower` in the C locale, on the number of a character. -/
theorem toNat_toLower (char : Char) :
    char.toLower.toNat = if 65 ≤ char.toNat ∧ char.toNat ≤ 90 then char.toNat + 32
      else char.toNat := by
  have upper : char.val ≥ 'A'.val ∧ char.val ≤ 'Z'.val ↔ 65 ≤ char.toNat ∧ char.toNat ≤ 90 := by
    rw [ge_iff_le, UInt32.le_iff_toNat_le, UInt32.le_iff_toNat_le]
    rfl
  unfold Char.toLower
  by_cases letter : char.val ≥ 'A'.val ∧ char.val ≤ 'Z'.val
  · rw [dif_pos letter, if_pos (upper.mp letter)]
    have bounds := upper.mp letter
    have sum : (char.val + ('a'.val - 'A'.val)).toNat = char.toNat + 32 := by
      rw [UInt32.toNat_add]
      exact Nat.mod_eq_of_lt (by show char.toNat + 32 < _; omega)
    exact sum
  · rw [dif_neg letter, if_neg (upper.not.mp letter)]

/-- The case of a digit cannot be changed. -/
theorem foldedCode_digit (digit : isDigit char = true) (caseSensitive : Bool) :
    48 ≤ foldedCode caseSensitive char ∧ foldedCode caseSensitive char ≤ 57 := by
  have bounds := (isDigit_iff).mp digit
  unfold foldedCode
  cases caseSensitive with
  | true => exact bounds
  | false =>
    rw [if_neg Bool.false_ne_true, toNat_toLower, if_neg (by omega)]
    exact bounds

/-- No other character becomes a digit. -/
theorem foldedCode_other (other : isDigit char = false) (caseSensitive : Bool) :
    foldedCode caseSensitive char < 48 ∨ 57 < foldedCode caseSensitive char := by
  have outside : ¬ (48 ≤ char.toNat ∧ char.toNat ≤ 57) := by
    rw [← isDigit_iff, other]
    decide
  unfold foldedCode
  cases caseSensitive with
  | true =>
    rw [if_pos rfl]
    omega
  | false =>
    rw [if_neg Bool.false_ne_true, toNat_toLower]
    split <;> omega

/-- A single character and the start of a run are never equal. -/
theorem compare_run_char (digit : isDigit left = true) (other : isDigit right = false)
    (caseSensitive : Bool) (lefts : StringView) :
    compare (runKey (left :: lefts)) [foldedCode caseSensitive right] =
        listCharCmp left right caseSensitive ∧
      compare [foldedCode caseSensitive right] (runKey (left :: lefts)) =
        listCharCmp right left caseSensitive ∧
      listCharCmp left right caseSensitive ≠ .eq ∧ listCharCmp right left caseSensitive ≠ .eq := by
  have within := foldedCode_digit digit caseSensitive
  have outside := foldedCode_other other caseSensitive
  rw [listCharCmp_eq, listCharCmp_eq, runKey, List.compare_cons_cons, List.compare_cons_cons]
  have zero : '0'.toNat = 48 := rfl
  rw [zero]
  rcases outside with below | above
  · have first : compare 48 (foldedCode caseSensitive right) = .gt := Nat.compare_eq_gt.mpr below
    have second : compare (foldedCode caseSensitive right) 48 = .lt := Nat.compare_eq_lt.mpr below
    have third : compare (foldedCode caseSensitive left) (foldedCode caseSensitive right) = .gt :=
      Nat.compare_eq_gt.mpr (by omega)
    have fourth : compare (foldedCode caseSensitive right) (foldedCode caseSensitive left) = .lt :=
      Nat.compare_eq_lt.mpr (by omega)
    rw [first, second, third, fourth]
    exact ⟨rfl, rfl, by decide, by decide⟩
  · have first : compare 48 (foldedCode caseSensitive right) = .lt := Nat.compare_eq_lt.mpr (by omega)
    have second : compare (foldedCode caseSensitive right) 48 = .gt :=
      Nat.compare_eq_gt.mpr (by omega)
    have third : compare (foldedCode caseSensitive left) (foldedCode caseSensitive right) = .lt :=
      Nat.compare_eq_lt.mpr (by omega)
    have fourth : compare (foldedCode caseSensitive right) (foldedCode caseSensitive left) = .gt :=
      Nat.compare_eq_gt.mpr (by omega)
    rw [first, second, third, fourth]
    exact ⟨rfl, rfl, by decide, by decide⟩

theorem naturalKey_run (digit : isDigit char = true) (caseSensitive : Bool) (rest : StringView) :
    naturalKey caseSensitive (char :: rest) =
      runKey (char :: rest) :: naturalKey caseSensitive (behindRun (char :: rest)) := by
  rw [naturalKey, dif_pos digit]

theorem naturalKey_char (other : isDigit char = false) (caseSensitive : Bool) (rest : StringView) :
    naturalKey caseSensitive (char :: rest) =
      [foldedCode caseSensitive char] :: naturalKey caseSensitive rest := by
  rw [naturalKey, dif_neg (by rw [other]; decide)]

/-- A text that is not empty has keys. -/
theorem naturalKey_cons (caseSensitive : Bool) (char : Char) (rest : StringView) :
    ∃ first others, naturalKey caseSensitive (char :: rest) = first :: others := by
  cases digit : isDigit char with
  | true => exact ⟨_, _, naturalKey_run digit caseSensitive rest⟩
  | false => exact ⟨_, _, naturalKey_char digit caseSensitive rest⟩

/-- Two runs in front, compared step by step. -/
theorem compare_naturalKey_runs (leftDigit : isDigit left = true)
    (rightDigit : isDigit right = true) (caseSensitive : Bool) (lefts rights : StringView) :
    compare (naturalKey caseSensitive (left :: lefts)) (naturalKey caseSensitive (right :: rights)) =
      (compare (significant (left :: lefts)).length (significant (right :: rights)).length).then
        ((listSvLexCmp (significant (left :: lefts)) (significant (right :: rights)) true).then
          ((compare ((left :: lefts).length - (behindRun (left :: lefts)).length)
              ((right :: rights).length - (behindRun (right :: rights)).length)).then
            (compare (naturalKey caseSensitive (behindRun (left :: lefts)))
              (naturalKey caseSensitive (behindRun (right :: rights)))))) := by
  rw [naturalKey_run leftDigit, naturalKey_run rightDigit, List.compare_cons_cons, compare_runKey,
    Ordering.then_assoc, Ordering.then_assoc]

/-- Two pieces in front that are not both runs. -/
theorem compare_naturalKey_chars (chars : ¬ (isDigit left = true ∧ isDigit right = true))
    (caseSensitive : Bool) (lefts rights : StringView) :
    compare (naturalKey caseSensitive (left :: lefts)) (naturalKey caseSensitive (right :: rights)) =
      (listCharCmp left right caseSensitive).then
        (compare (naturalKey caseSensitive lefts) (naturalKey caseSensitive rights)) := by
  cases leftDigit : isDigit left with
  | true =>
    have rightOther : isDigit right = false :=
      Bool.eq_false_iff.mpr fun rightDigit => chars ⟨leftDigit, rightDigit⟩
    obtain ⟨same, _, apart, _⟩ := compare_run_char leftDigit rightOther caseSensitive lefts
    rw [naturalKey_run leftDigit, naturalKey_char rightOther, List.compare_cons_cons, same]
    cases compared : listCharCmp left right caseSensitive with
    | lt => rfl
    | gt => rfl
    | eq => exact absurd compared apart
  | false =>
    cases rightDigit : isDigit right with
    | true =>
      obtain ⟨_, same, _, apart⟩ := compare_run_char rightDigit leftDigit caseSensitive rights
      rw [naturalKey_char leftDigit, naturalKey_run rightDigit, List.compare_cons_cons, same]
      cases compared : listCharCmp left right caseSensitive with
      | lt => rfl
      | gt => rfl
      | eq => exact absurd compared apart
    | false =>
      rw [naturalKey_char leftDigit, naturalKey_char rightDigit, List.compare_cons_cons,
        compare_singletons, listCharCmp_eq]

/-- Natural comparison is comparison of the keys of characters and runs. -/
theorem listSvNaturalCmp_eq (left right : StringView) (caseSensitive : Bool) :
    listSvNaturalCmp left right caseSensitive =
      compare (naturalKey caseSensitive left) (naturalKey caseSensitive right) := by
  fun_induction listSvNaturalCmp left right caseSensitive with
  | case1 left lefts right rights caseSensitive runs _ _ _ _ _ shorter =>
    rw [compare_naturalKey_runs runs.1 runs.2, Nat.compare_eq_lt.mpr shorter]
    rfl
  | case2 left lefts right rights caseSensitive runs _ _ _ _ other longer =>
    have above := Nat.lt_of_le_of_ne (Nat.le_of_not_lt longer) (Ne.symm other)
    rw [compare_naturalKey_runs runs.1 runs.2, Nat.compare_eq_gt.mpr above]
    rfl
  | case3 left lefts right rights caseSensitive runs _ _ _ _ _ lengths digits _ _ _ shorter =>
    rw [compare_naturalKey_runs runs.1 runs.2, Nat.compare_eq_eq.mpr (not_not.mp lengths), digits,
      Nat.compare_eq_lt.mpr shorter]
    rfl
  | case4 left lefts right rights caseSensitive runs _ _ _ _ _ lengths digits _ _ other longer =>
    have above := Nat.lt_of_le_of_ne (Nat.le_of_not_lt longer) (Ne.symm other)
    rw [compare_naturalKey_runs runs.1 runs.2, Nat.compare_eq_eq.mpr (not_not.mp lengths), digits,
      Nat.compare_eq_gt.mpr above]
    rfl
  | case5 left lefts right rights caseSensitive runs _ _ _ _ _ lengths digits _ _ same ih =>
    rw [compare_naturalKey_runs runs.1 runs.2, Nat.compare_eq_eq.mpr (not_not.mp lengths), digits,
      Nat.compare_eq_eq.mpr (not_not.mp same), ih]
    rfl
  | case6 left lefts right rights caseSensitive runs _ _ _ _ lengths digits =>
    rw [compare_naturalKey_runs runs.1 runs.2, Nat.compare_eq_eq.mpr (not_not.mp lengths)]
    cases compared : listSvLexCmp (significant (left :: lefts)) (significant (right :: rights)) true with
    | lt => rfl
    | gt => rfl
    | eq => exact absurd compared digits
  | case7 left lefts right rights caseSensitive chars same ih =>
    rw [compare_naturalKey_chars chars, same, ih]
    rfl
  | case8 left lefts right rights caseSensitive chars other =>
    rw [compare_naturalKey_chars chars]
    cases compared : listCharCmp left right caseSensitive with
    | lt => rfl
    | gt => rfl
    | eq => exact absurd compared other
  | case9 char rest caseSensitive =>
    obtain ⟨first, others, keys⟩ := naturalKey_cons caseSensitive char rest
    rw [keys, naturalKey]
    rfl
  | case10 char rest caseSensitive =>
    obtain ⟨first, others, keys⟩ := naturalKey_cons caseSensitive char rest
    rw [keys, naturalKey]
    rfl
  | case11 =>
    rw [naturalKey]
    rfl

/-! ## The order of items -/

/-- Items are compared by their keys, in one order or the other. -/
theorem listSortItemCmp_eq (options : ListSortOptions) (left right : StringView) :
    listSortItemCmp options left right =
      if options.order = .descending then compare (sortKey options right) (sortKey options left)
      else compare (sortKey options left) (sortKey options right) := by
  obtain ⟨mode, caseMode, order⟩ := options
  have swapped : ∀ first second : List (List Nat),
      (compare first second).swap = compare second first := fun _ _ => Std.OrientedCmp.eq_swap.symm
  cases mode <;> simp only [listSortItemCmp, sortKey, listSvLexCmp_eq, listSvNaturalCmp_eq,
    swapped, if_true, reduceCtorEq, if_false]

/-- Comparing items is a total preorder. -/
instance listSortItemCmp_trans (options : ListSortOptions) :
    Std.TransCmp (listSortItemCmp options) where
  eq_swap {left right} := by
    rw [listSortItemCmp_eq, listSortItemCmp_eq]
    split
    · exact Std.OrientedCmp.eq_swap
    · exact Std.OrientedCmp.eq_swap
  isLE_trans {first second third} := by
    rw [listSortItemCmp_eq, listSortItemCmp_eq, listSortItemCmp_eq]
    split
    · exact fun left right => Std.TransCmp.isLE_trans right left
    · exact Std.TransCmp.isLE_trans

/-- For all options, comparing items is a total preorder, and sorting returns a permutation of the
items, in the order of the comparison, in which equal items keep their order. -/
theorem listSort_sorts (options : ListSortOptions) : Std.TransCmp (listSortItemCmp options) ∧
    ∀ items : List StringView, (listSort options items).Perm items ∧
      (listSort options items).Pairwise
        (fun left right => (listSortItemCmp options left right).isLE = true) ∧
      ∀ item, (listSort options items).filter (listSortItemCmp options · item == .eq) =
        items.filter (listSortItemCmp options · item == .eq) := by
  refine ⟨listSortItemCmp_trans options, fun items => ⟨?_, ?_, fun item => ?_⟩⟩
  · exact sortInPlace_perm items
  · exact sortInPlace_ascending items
  · exact sortInPlace_stable items item

end Nobify.Evaluator
