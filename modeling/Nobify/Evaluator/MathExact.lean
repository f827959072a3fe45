import Nobify.Evaluator.MathGrammar

/-!
# Values of expressions

Each operation of `math(EXPR)` gives the exact result, or reports an error where it is no
`long long`. Nothing that the source computes overflows, on any text. Two guards refuse results that
exist: shifts by the width of a number or more, and the remainder of the least number by minus one.
Only the shift of a negative number to the left is not checked.
-/

namespace Nobify.Evaluator

open Lib Prog
open List

variable (cause : StringView) (op : MathOp)

variable {value : Int}

/-! ## Exact operations -/

/-- The value, or an error where it is no `long long`. -/
def exactOr (cause : StringView) (value : Int) : MathResult Int :=
  if InLong value then .ok value else mathEmitError cause

theorem signed_eq (long : InLong value) : signed value = .ok value := by
  unfold signed
  rw [if_pos long]

theorem compareWith_eq {bound : Int} (long : InLong bound) (compare : Int → Bool) :
    compareWith bound compare = .ok (compare bound) := by
  unfold compareWith
  rw [signed_eq long]
  rfl

/-- A guard that tells whether the value is a `long long` makes an operation exact. -/
theorem guarded_eq {cause : StringView} {overflows : Bool}
    (guards : overflows = true ↔ ¬InLong value) :
    (if overflows then mathEmitError cause else signed value) = exactOr cause value := by
  unfold exactOr
  by_cases long : InLong value
  · have passes : overflows = false := Bool.eq_false_iff.mpr fun stops => guards.mp stops long
    rw [passes, if_neg (by decide), if_pos long, signed_eq long]
  · rw [guards.mpr long, if_pos rfl, if_neg long]

theorem mathCheckedNeg_eq (long : InLong value) :
    mathCheckedNeg value = exactOr (sv "Integer overflow in unary minus") (-value) := by
  unfold mathCheckedNeg exactOr
  unfold InLong at long
  by_cases least : value = llongMin
  · have beyond : ¬InLong (-value) := by
      unfold InLong
      unfold llongMin at least
      omega
    rw [if_pos least, if_neg beyond]
  · have fits : InLong (-value) := by
      unfold InLong
      unfold llongMin at least
      omega
    rw [if_neg least, if_pos fits, signed_eq fits]

section Binary

variable {lhs rhs : Int} (left : InLong lhs) (right : InLong rhs)

include left right

theorem mathCheckedAdd_eq :
    mathCheckedAdd lhs rhs = exactOr (sv "Integer overflow in addition") (lhs + rhs) := by
  unfold InLong at left right
  unfold mathCheckedAdd
  by_cases positive : 0 < rhs
  · have bound : InLong (llongMax - rhs) := by
      unfold InLong llongMax
      omega
    rw [if_pos positive, compareWith_eq bound]
    apply guarded_eq
    unfold InLong llongMax
    rw [decide_eq_true_eq]
    omega
  · rw [if_neg positive]
    by_cases negative : rhs < 0
    · have bound : InLong (llongMin - rhs) := by
        unfold InLong llongMin
        omega
      rw [if_pos negative, compareWith_eq bound]
      apply guarded_eq
      unfold InLong llongMin
      rw [decide_eq_true_eq]
      omega
    · have fits : InLong (lhs + rhs) := by
        unfold InLong
        omega
      unfold exactOr
      rw [if_neg negative, if_pos fits, ← signed_eq fits]
      rfl

theorem mathCheckedSub_eq :
    mathCheckedSub lhs rhs = exactOr (sv "Integer overflow in subtraction") (lhs - rhs) := by
  unfold InLong at left right
  unfold mathCheckedSub
  by_cases positive : 0 < rhs
  · have bound : InLong (llongMin + rhs) := by
      unfold InLong llongMin
      omega
    rw [if_pos positive, compareWith_eq bound]
    apply guarded_eq
    unfold InLong llongMin
    rw [decide_eq_true_eq]
    omega
  · rw [if_neg positive]
    by_cases negative : rhs < 0
    · have bound : InLong (llongMax + rhs) := by
        unfold InLong llongMax
        omega
      rw [if_pos negative, compareWith_eq bound]
      apply guarded_eq
      unfold InLong llongMax
      rw [decide_eq_true_eq]
      omega
    · have fits : InLong (lhs - rhs) := by
        unfold InLong
        omega
      unfold exactOr
      rw [if_neg negative, if_pos fits, ← signed_eq fits]
      rfl

omit left right in
/-- A quotient by a positive number lies between zero and the dividend, and tells whether a product
goes past it. -/
theorem quotient_crosses {bound divisor : Int} (natural : 0 ≤ bound) (positive : 0 < divisor)
    (factor : Int) : 0 ≤ bound / divisor ∧ bound / divisor ≤ bound ∧
      (bound / divisor < factor ↔ bound < factor * divisor) :=
  ⟨Int.ediv_nonneg natural (Int.le_of_lt positive), Int.ediv_le_self _ natural,
    Int.ediv_lt_iff_lt_mul positive⟩

/-- The guards of a product, for factors that are not zero, tell whether it fits; where they compute
the quotient of the least number it is not by minus one. -/
theorem mulOverflows_eq (leftNonzero : lhs ≠ 0) (rightNonzero : rhs ≠ 0) :
    ∃ overflows, mulOverflows lhs rhs = .ok overflows ∧
      (overflows = true ↔ ¬InLong (lhs * rhs)) := by
  unfold InLong at left right
  unfold mulOverflows
  by_cases leftPositive : 0 < lhs
  · rw [if_pos leftPositive]
    by_cases rightPositive : 0 < rhs
    · have quotient : llongMax.tdiv rhs = llongMax / rhs := Int.tdiv_eq_ediv_of_nonneg (by decide)
      obtain ⟨low, high, crosses⟩ := @quotient_crosses llongMax _ (by decide) rightPositive lhs
      have bound : InLong (llongMax / rhs) := by
        unfold InLong llongMax at *
        omega
      have product : 0 < lhs * rhs := Int.mul_pos leftPositive rightPositive
      rw [if_pos rightPositive, quotient, compareWith_eq bound]
      refine ⟨_, rfl, ?_⟩
      rw [decide_eq_true_eq, crosses]
      unfold InLong llongMax
      omega
    · have positive : 0 < -rhs := by omega
      have quotient : llongMin.tdiv lhs = -(2 ^ 63 / lhs) := by
        unfold llongMin
        rw [Int.neg_tdiv, Int.tdiv_eq_ediv_of_nonneg (by decide)]
      obtain ⟨low, high, crosses⟩ := @quotient_crosses (2 ^ 63) _ (by decide) leftPositive (-rhs)
      have bound : InLong (-(2 ^ 63 / lhs)) := by
        unfold InLong
        omega
      have product : 0 < -rhs * lhs := Int.mul_pos positive leftPositive
      have magnitude : -rhs * lhs = -(lhs * rhs) := by rw [Int.neg_mul, Int.mul_comm]
      rw [if_neg rightPositive, quotient, compareWith_eq bound]
      refine ⟨_, rfl, ?_⟩
      rw [magnitude] at crosses product
      rw [decide_eq_true_eq]
      unfold InLong
      omega
  · rw [if_neg leftPositive]
    have leftMagnitude : 0 < -lhs := by omega
    by_cases rightPositive : 0 < rhs
    · have quotient : llongMin.tdiv rhs = -(2 ^ 63 / rhs) := by
        unfold llongMin
        rw [Int.neg_tdiv, Int.tdiv_eq_ediv_of_nonneg (by decide)]
      obtain ⟨low, high, crosses⟩ := @quotient_crosses (2 ^ 63) _ (by decide) rightPositive (-lhs)
      have bound : InLong (-(2 ^ 63 / rhs)) := by
        unfold InLong
        omega
      have product : 0 < -lhs * rhs := Int.mul_pos leftMagnitude rightPositive
      rw [if_pos rightPositive, quotient, compareWith_eq bound]
      refine ⟨_, rfl, ?_⟩
      rw [Int.neg_mul] at crosses product
      rw [decide_eq_true_eq]
      unfold InLong
      omega
    · have positive : 0 < -rhs := by omega
      have quotient : llongMax.tdiv rhs = -(llongMax / -rhs) := by
        have opposite : llongMax.tdiv (- -rhs) = -llongMax.tdiv (-rhs) := Int.tdiv_neg ..
        rw [Int.neg_neg] at opposite
        rw [opposite, Int.tdiv_eq_ediv_of_nonneg (by decide)]
      obtain ⟨low, high, crosses⟩ := @quotient_crosses llongMax _ (by decide) positive (-lhs)
      have bound : InLong (-(llongMax / -rhs)) := by
        unfold InLong llongMax at *
        omega
      have product : 0 < -lhs * -rhs := Int.mul_pos leftMagnitude positive
      rw [if_neg rightPositive, quotient, compareWith_eq bound]
      refine ⟨_, rfl, ?_⟩
      rw [Int.neg_mul_neg] at crosses product
      rw [decide_eq_true_eq]
      unfold InLong llongMax at *
      omega

theorem mathCheckedMul_eq :
    mathCheckedMul lhs rhs = exactOr (sv "Integer overflow in multiplication") (lhs * rhs) := by
  unfold mathCheckedMul
  by_cases zero : lhs = 0 ∨ rhs = 0
  · have product : lhs * rhs = 0 := Int.mul_eq_zero.mpr zero
    rw [if_pos zero, product]
    rfl
  · rw [if_neg zero]
    obtain ⟨leftNonzero, rightNonzero⟩ := not_or.mp zero
    by_cases opposite : lhs = -1 ∧ rhs = llongMin ∨ rhs = -1 ∧ lhs = llongMin
    · have product : lhs * rhs = 2 ^ 63 := by
        rcases opposite with ⟨rfl, rfl⟩ | ⟨rfl, rfl⟩ <;> rfl
      rw [if_pos opposite, product]
      rfl
    · obtain ⟨overflows, same, guards⟩ := mulOverflows_eq left right leftNonzero rightNonzero
      rw [if_neg opposite, same]
      exact guarded_eq guards

end Binary

/-- A quotient fits unless the least number is divided by minus one. -/
theorem inLong_tdiv {lhs rhs : Int} (left : InLong lhs) (nonzero : rhs ≠ 0) :
    InLong (lhs.tdiv rhs) ↔ ¬(lhs = llongMin ∧ rhs = -1) := by
  have magnitude := Int.natAbs_tdiv lhs rhs
  unfold InLong at left ⊢
  unfold llongMin
  constructor
  · rintro fits ⟨rfl, rfl⟩
    exact absurd fits (by decide)
  · intro other
    by_cases unit : rhs.natAbs = 1
    · rcases (show rhs = 1 ∨ rhs = -1 by omega) with rfl | rfl
      · rw [Int.tdiv_one]
        omega
      · rw [Int.tdiv_neg, Int.tdiv_one]
        omega
    · have half : lhs.natAbs / rhs.natAbs ≤ lhs.natAbs / 2 :=
        Nat.div_le_div_left (by omega) (by decide)
      change _ = lhs.natAbs / rhs.natAbs at magnitude
      omega

theorem inLong_tmod {lhs rhs : Int} (right : InLong rhs) (nonzero : rhs ≠ 0) :
    InLong (lhs.tmod rhs) := by
  have magnitude := Int.natAbs_tmod lhs rhs
  have small := Nat.mod_lt lhs.natAbs (Int.natAbs_pos.mpr nonzero)
  unfold InLong at right ⊢
  omega

theorem mathCheckedDiv_eq {lhs rhs : Int} (left : InLong lhs) : mathCheckedDiv lhs rhs =
      if rhs = 0 then mathEmitError (sv "Division by zero")
      else exactOr (sv "Integer overflow in division") (lhs.tdiv rhs) := by
  unfold mathCheckedDiv exactOr
  by_cases zero : rhs = 0
  · rw [if_pos zero, if_pos zero]
  · have fits := inLong_tdiv left zero
    rw [if_neg zero, if_neg zero]
    by_cases least : lhs = llongMin ∧ rhs = -1
    · rw [if_pos least, if_neg fun long => fits.mp long least]
    · rw [if_neg least, if_pos (fits.mpr least), signed_eq (fits.mpr least)]

theorem mathCheckedMod_eq {lhs rhs : Int} (left : InLong lhs) : mathCheckedMod lhs rhs =
      if rhs = 0 then mathEmitError (sv "Division by zero")
      else if lhs = llongMin ∧ rhs = -1 then mathEmitError (sv "Integer overflow in modulo")
      else .ok (lhs.tmod rhs) := by
  unfold mathCheckedMod
  by_cases zero : rhs = 0
  · rw [if_pos zero, if_pos zero]
  · rw [if_neg zero, if_neg zero]
    by_cases least : lhs = llongMin ∧ rhs = -1
    · rw [if_pos least, if_pos least]
    · rw [if_neg least, if_neg least, signed_eq ((inLong_tdiv left zero).mpr least)]
      rfl

/-- The value of 64 bits is a `long long`. -/
theorem inLong_toInt (word : BitVec 64) : InLong word.toInt :=
  ⟨BitVec.le_toInt word, BitVec.toInt_lt⟩

/-- The values of a `long long` are the signed words of 64 bits. -/
theorem fitsBits_of_inLong (long : InLong value) : FitsBits 63 value := long

/-- A shift to the left of a number that is not negative is exact, and so is that of a negative one
when the product fits. -/
theorem mathShiftLeft_eq {lhs rhs : Int} (left : InLong lhs) (low : 0 ≤ rhs) (high : rhs < 64)
    (checked : 0 ≤ lhs ∨ InLong (lhs * 2 ^ rhs.toNat)) :
    mathShiftLeft lhs rhs =
      exactOr (sv "Integer overflow in left shift") (lhs * 2 ^ rhs.toNat) := by
  have power : (0 : Int) < 2 ^ rhs.toNat := Int.pow_pos (by decide)
  have crosses : llongMax / 2 ^ rhs.toNat < lhs ↔ llongMax < lhs * 2 ^ rhs.toNat :=
    Int.ediv_lt_iff_lt_mul power
  unfold mathShiftLeft mathCheckedShift exactOr
  rw [if_neg (by omega), if_neg (by omega)]
  dsimp only
  by_cases fits : InLong (lhs * 2 ^ rhs.toNat)
  · have below : ¬(0 < rhs ∧ 0 ≤ lhs ∧ llongMax / 2 ^ rhs.toNat < lhs) := by
      rintro ⟨_, _, beyond⟩
      have larger := crosses.mp beyond
      unfold InLong at fits
      unfold llongMax at larger
      omega
    rw [if_neg below, if_pos fits, toInt_shiftLeft_ofInt (fitsBits_of_inLong fits)]
  · have natural : 0 ≤ lhs := checked.resolve_right fits
    have positive : 0 < rhs := by
      by_contra zero
      obtain rfl : rhs = 0 := by omega
      exact fits (by simpa using left)
    have product : 0 ≤ lhs * 2 ^ rhs.toNat := Int.mul_nonneg natural (Int.le_of_lt power)
    have beyond : llongMax / 2 ^ rhs.toNat < lhs := by
      rw [crosses]
      unfold InLong at fits
      unfold llongMax
      omega
    rw [if_pos ⟨positive, natural, beyond⟩, if_neg fits]

/-- A quotient by a power of two fits. -/
theorem inLong_ediv_pow {lhs : Int} (left : InLong lhs) (count : Nat) :
    InLong (lhs / 2 ^ count) := by
  have value := toInt_sshiftRight_ofInt (fitsBits_of_inLong left) count
  rw [← value]
  exact inLong_toInt _

/-! ## No operation overflows -/

/-- Errors that are reported. -/
def Reported : MathFault → Prop
  | .reported causes => causes ≠ []
  | _ => False

/-- The result is a `long long`, or an error is reported. -/
abbrev Settles (result : MathResult Int) : Prop := Operators.Meets InLong Reported result

theorem exactOr_settles (value : Int) : Settles (exactOr cause value) := by
  unfold exactOr
  split
  · assumption
  · exact cons_ne_nil cause []

theorem mathEmitError_settles : Settles (mathEmitError cause) :=
  cons_ne_nil cause []

theorem mathShift_settles (rhs : Int) {shift : Nat → MathResult Int}
    (settles : ∀ count, Settles (shift count)) : Settles (mathCheckedShift rhs shift) := by
  unfold mathCheckedShift
  split
  · exact mathEmitError_settles _
  · split
    · exact mathEmitError_settles _
    · exact settles _

theorem mathApply_settles {lhs rhs : Int} (left : InLong lhs) (right : InLong rhs) :
    Settles (mathApply op lhs rhs) := by
  cases op with
  | mul =>
    show Settles (mathCheckedMul lhs rhs)
    rw [mathCheckedMul_eq left right]
    exact exactOr_settles _ _
  | div =>
    show Settles (mathCheckedDiv lhs rhs)
    rw [mathCheckedDiv_eq left]
    split
    · exact mathEmitError_settles _
    · exact exactOr_settles _ _
  | mod =>
    show Settles (mathCheckedMod lhs rhs)
    rw [mathCheckedMod_eq left]
    split
    · exact mathEmitError_settles _
    · split
      · exact mathEmitError_settles _
      · exact inLong_tmod right ‹_›
  | add =>
    show Settles (mathCheckedAdd lhs rhs)
    rw [mathCheckedAdd_eq left right]
    exact exactOr_settles _ _
  | sub =>
    show Settles (mathCheckedSub lhs rhs)
    rw [mathCheckedSub_eq left right]
    exact exactOr_settles _ _
  | shl =>
    show Settles (mathShiftLeft lhs rhs)
    apply mathShift_settles rhs
    intro count
    split
    · exact mathEmitError_settles _
    · exact inLong_toInt _
  | shr =>
    show Settles (mathShiftRight lhs rhs)
    apply mathShift_settles rhs
    exact fun count => inLong_toInt _
  | bitand => exact inLong_toInt _
  | bitxor => exact inLong_toInt _
  | bitor => exact inLong_toInt _

theorem mathParseNumber_settles (text : StringView) :
    Operators.Meets (fun found => InLong found.1) Reported (mathParseNumber text) := by
  unfold mathParseNumber
  split
  · exact cons_ne_nil _ []
  · split
    · assumption
    · exact cons_ne_nil _ _

theorem mathParseLevel_settles {factor : MathParser} {bound : Nat} (shortens : factor.Shortens)
    (settles : ∀ text, text.length ≤ bound →
      Operators.Meets (fun found => InLong found.1) Reported (factor text)) (level : Nat) :
    ∀ text, text.length ≤ bound → Operators.Meets (fun found => InLong found.1) Reported
        (mathParseLevel factor level text) := by
  induction level with
  | zero => exact settles
  | succ level ih =>
    intro text short
    exact Operators.chain_meets (mathParseLevel_shortens shortens level) ih
      (fun op lhs rhs left right => mathApply_settles op left right) short

/-- On every text the recursion of `math_parse_factor` ends, and nothing overflows. -/
theorem mathParseFactor_settles (depth : Nat) : ∀ text, text.length < depth →
      Operators.Meets (fun found => InLong found.1) Reported (mathParseFactor depth text) := by
  induction depth with
  | zero => exact fun text short => absurd short (Nat.not_lt_zero _)
  | succ depth ih =>
    intro text short
    have skipped := mathSkipWs_length text
    unfold mathParseFactor
    split
    · exact cons_ne_nil _ []
    · rename_i inner shape
      rw [shape, length_cons] at skipped
      obtain ⟨less, rfl⟩ : ∃ less, depth = less + 1 := ⟨depth - 1, by omega⟩
      refine (mathParseLevel_settles (mathParseFactor_shortens (less + 1))
        (fun text short => ih text (Nat.lt_succ_of_le short)) 6 inner (by omega)).bind ?_
      intro found _ long
      dsimp only
      split
      · exact long
      · exact cons_ne_nil _ []
    · rename_i inner shape
      rw [shape, length_cons] at skipped
      exact ih inner (by omega)
    · rename_i inner shape
      rw [shape, length_cons] at skipped
      refine (ih inner (by omega)).bind ?_
      intro found _ long
      have negated : Settles (mathCheckedNeg found.1) := by
        rw [mathCheckedNeg_eq long]
        exact exactOr_settles _ _
      exact negated.bind fun value _ long => long
    · rename_i inner shape
      rw [shape, length_cons] at skipped
      refine (ih inner (by omega)).bind ?_
      intro found _ long
      exact inLong_toInt _
    · exact mathParseNumber_settles _

/-- On every text an expression has a value or an error is reported, and no operation of the source
overflows. -/
theorem mathEvaluate_settles (text : StringView) : Settles (mathEvaluate text) := by
  unfold mathEvaluate
  refine (mathParseLevel_settles (mathParseFactor_shortens _)
    (fun text short => mathParseFactor_settles _ text (Nat.lt_succ_of_le short)) 6 _
    (Nat.le_refl _)).bind ?_
  intro found _ long
  dsimp only
  split
  · exact long
  · exact cons_ne_nil _ []

/-! ## Expected values -/

/-- Why an expression is not expected to have a value. -/
inductive MathFailure where
  /-- An error is to be reported. -/
  | error
  /-- Nothing is expected. -/
  | unsettled
  deriving DecidableEq

/-- The integer that a sign makes of an integer. -/
def MathSign.exact : MathSign → Int → Int
  | .plus, value => value
  | .minus, value => -value
  | .complement, value => -value - 1

/-- The integer that an operator makes of two integers. Quotients are rounded towards zero; a shift
to the left multiplies by a power of two, and one to the right divides and rounds down; the other
operators work on the bits of the integers, in which the sign goes on without end. -/
def MathOp.exact : MathOp → Int → Int → Option Int
  | .mul, lhs, rhs => some (lhs * rhs)
  | .div, lhs, rhs => if rhs = 0 then none else some (lhs.tdiv rhs)
  | .mod, lhs, rhs => if rhs = 0 then none else some (lhs.tmod rhs)
  | .add, lhs, rhs => some (lhs + rhs)
  | .sub, lhs, rhs => some (lhs - rhs)
  | .shl, lhs, rhs => if rhs < 0 then none else some (lhs * 2 ^ rhs.toNat)
  | .shr, lhs, rhs => if rhs < 0 then none else some (lhs / 2 ^ rhs.toNat)
  | .bitand, lhs, rhs => some (Int.land lhs rhs)
  | .bitxor, lhs, rhs => some (Int.xor lhs rhs)
  | .bitor, lhs, rhs => some (Int.lor lhs rhs)

/-- A value that is expected, if it is a `long long`. -/
def fit (value : Int) : Except MathFailure Int :=
  if InLong value then .ok value else .error .error

/-- The exact result of an operator, if it is a `long long`. -/
def MathOp.exactResult (op : MathOp) (lhs rhs : Int) : Except MathFailure Int :=
  (op.exact lhs rhs).elim (.error .error) fit

/-- Guards that refuse a result that may exist. -/
def MathOp.Refuses (op : MathOp) (lhs rhs : Int) : Prop :=
  (op = .shl ∨ op = .shr) ∧ 64 ≤ rhs ∨ op = .mod ∧ lhs = llongMin ∧ rhs = -1

instance (op : MathOp) (lhs rhs : Int) : Decidable (op.Refuses lhs rhs) :=
  inferInstanceAs (Decidable (_ ∨ _))

/-- The shift of a negative number to the left whose result is no `long long`. -/
def MathOp.Unchecked (op : MathOp) (lhs rhs : Int) : Prop :=
  op = .shl ∧ lhs < 0 ∧ 0 ≤ rhs ∧ ¬InLong (lhs * 2 ^ rhs.toNat)

instance (op : MathOp) (lhs rhs : Int) : Decidable (op.Unchecked lhs rhs) :=
  inferInstanceAs (Decidable (_ ∧ _))

/-- The result that the guards of the source leave. -/
def MathOp.guardedResult (op : MathOp) (lhs rhs : Int) : Except MathFailure Int :=
  if op.Refuses lhs rhs then .error .error
  else if op.Unchecked lhs rhs then .error .unsettled
  else op.exactResult lhs rhs

/-- The expected value of an expression, by the results of its operators. -/
def MathExpr.expected (result : MathOp → Int → Int → Except MathFailure Int) :
    MathExpr → Except MathFailure Int
  | .literal number => fit number
  | .signed sign operand =>
    operand.expected result >>= fun value => fit (sign.exact value)
  | .binary op left right =>
    left.expected result >>= fun lhs => right.expected result >>= fun rhs => result op lhs rhs

/-- A computed value is the expected one, and an error is reported where one is to be. -/
def Agrees (computed : MathResult Int) (expected : Except MathFailure Int) : Prop :=
  match expected with
  | .ok value => computed = .ok value
  | .error .error => ∃ causes, causes ≠ [] ∧ computed = .error (.reported causes)
  | .error .unsettled => True

theorem exactOr_agrees (value : Int) : Agrees (exactOr cause value) (fit value) := by
  unfold exactOr fit
  by_cases long : InLong value
  · rw [if_pos long, if_pos long]
    rfl
  · rw [if_neg long, if_neg long]
    exact ⟨_, cons_ne_nil cause [], rfl⟩

theorem ok_agrees (long : InLong value) : Agrees (.ok value) (fit value) := by
  unfold fit
  rw [if_pos long]
  rfl

/-- An operation on the bits has the value of that operation on integers. -/
theorem onBits_agrees {combine : BitVec 64 → BitVec 64 → BitVec 64} {lhs rhs : Int}
    (same : onBits combine lhs rhs = value) :
    Agrees (.ok (onBits combine lhs rhs)) (fit value) := by
  have long : InLong value := same ▸ inLong_toInt _
  rw [same]
  exact ok_agrees long

theorem mathEmitError_agrees :
    Agrees (mathEmitError cause) (.error .error) := ⟨_, cons_ne_nil cause [], rfl⟩

theorem Agrees.bind {first : MathResult Int} {expected : Except MathFailure Int}
    {next : Int → MathResult Int} {further : Int → Except MathFailure Int}
    (agrees : Agrees first expected)
    (rest : ∀ value, first = .ok value → Agrees (next value) (further value)) :
    Agrees (first >>= next) (expected >>= further) := by
  cases expected with
  | ok value =>
    have same : first = .ok value := agrees
    rw [same]
    exact rest value same
  | error failure =>
    cases failure with
    | error =>
      obtain ⟨causes, filled, same⟩ := agrees
      rw [same]
      exact ⟨causes, filled, rfl⟩
    | unsettled => trivial

/-- A shift is checked as its result is expected. -/
theorem mathShift_agrees {lhs rhs : Int} {op : MathOp} {shifted : Int}
    {shift : Nat → MathResult Int} (isShift : op = .shl ∨ op = .shr)
    (exact' : op.exact lhs rhs = if rhs < 0 then none else some shifted)
    (within : 0 ≤ rhs → rhs < 64 → ¬op.Unchecked lhs rhs → Agrees (shift rhs.toNat) (fit shifted)) :
    Agrees (mathCheckedShift rhs shift) (op.guardedResult lhs rhs) := by
  unfold mathCheckedShift MathOp.guardedResult MathOp.exactResult
  rw [exact']
  by_cases negative : rhs < 0
  · have small : ¬op.Refuses lhs rhs := by
      unfold MathOp.Refuses
      rcases isShift with rfl | rfl <;> simp <;> omega
    have defined : ¬op.Unchecked lhs rhs := fun unchecked => by
      have natural := unchecked.2.2.1
      omega
    rw [if_pos negative, if_pos negative, if_neg small, if_neg defined]
    exact mathEmitError_agrees _
  · rw [if_neg negative, if_neg negative]
    by_cases large : 64 ≤ rhs
    · rw [if_pos large, if_pos (.inl ⟨isShift, large⟩)]
      exact mathEmitError_agrees _
    · have small : ¬op.Refuses lhs rhs := by
        unfold MathOp.Refuses
        rcases isShift with rfl | rfl <;> simp <;> omega
      rw [if_neg large, if_neg small]
      by_cases unchecked : op.Unchecked lhs rhs
      · rw [if_pos unchecked]
        trivial
      · rw [if_neg unchecked]
        exact within (by omega) (by omega) unchecked

/-- The expected result of an operator that no guard singles out. -/
theorem guardedResult_eq {lhs rhs : Int} (plain : op ≠ .shl ∧ op ≠ .shr)
    (other : op = .mod → ¬(lhs = llongMin ∧ rhs = -1)) :
    op.guardedResult lhs rhs = op.exactResult lhs rhs := by
  unfold MathOp.guardedResult
  rw [if_neg, if_neg]
  · exact fun unchecked => plain.1 unchecked.1
  · rintro (⟨shift, _⟩ | ⟨isMod, least⟩)
    · exact shift.elim plain.1 plain.2
    · exact other isMod least

/-- The operations of the source give the results that their guards leave. -/
theorem mathApply_agrees {lhs rhs : Int} (left : InLong lhs) (right : InLong rhs) :
    Agrees (mathApply op lhs rhs) (op.guardedResult lhs rhs) := by
  have first := fitsBits_of_inLong left
  have second := fitsBits_of_inLong right
  cases op with
  | mul =>
    show Agrees (mathCheckedMul lhs rhs) _
    rw [guardedResult_eq .mul (by decide) nofun, mathCheckedMul_eq left right]
    exact exactOr_agrees _ _
  | div =>
    show Agrees (mathCheckedDiv lhs rhs) _
    rw [guardedResult_eq .div (by decide) nofun, mathCheckedDiv_eq left]
    unfold MathOp.exactResult MathOp.exact
    dsimp only
    split
    · exact mathEmitError_agrees _
    · exact exactOr_agrees _ _
  | mod =>
    show Agrees (mathCheckedMod lhs rhs) _
    rw [mathCheckedMod_eq left]
    by_cases least : lhs = llongMin ∧ rhs = -1
    · obtain ⟨rfl, rfl⟩ := least
      exact mathEmitError_agrees _
    · rw [guardedResult_eq .mod (by decide) fun _ => least, if_neg least]
      unfold MathOp.exactResult MathOp.exact
      dsimp only
      split
      · exact mathEmitError_agrees _
      · exact ok_agrees (inLong_tmod right ‹_›)
  | add =>
    show Agrees (mathCheckedAdd lhs rhs) _
    rw [guardedResult_eq .add (by decide) nofun, mathCheckedAdd_eq left right]
    exact exactOr_agrees _ _
  | sub =>
    show Agrees (mathCheckedSub lhs rhs) _
    rw [guardedResult_eq .sub (by decide) nofun, mathCheckedSub_eq left right]
    exact exactOr_agrees _ _
  | shl =>
    show Agrees (mathShiftLeft lhs rhs) _
    refine mathShift_agrees (.inl rfl) rfl ?_
    intro low high checked
    have natural : 0 ≤ lhs ∨ InLong (lhs * 2 ^ rhs.toNat) := by
      by_contra neither
      obtain ⟨negative, beyond⟩ := not_or.mp neither
      exact checked ⟨rfl, by omega, low, beyond⟩
    have shifted := mathShiftLeft_eq left low high natural
    unfold mathShiftLeft mathCheckedShift at shifted
    rw [if_neg (by omega), if_neg (by omega)] at shifted
    dsimp only at shifted
    rw [shifted]
    exact exactOr_agrees _ _
  | shr =>
    show Agrees (mathShiftRight lhs rhs) _
    refine mathShift_agrees (.inr rfl) rfl ?_
    intro low high _
    rw [toInt_sshiftRight_ofInt first]
    exact ok_agrees (inLong_ediv_pow left rhs.toNat)
  | bitand =>
    rw [guardedResult_eq .bitand (by decide) nofun]
    exact onBits_agrees (toInt_and_ofInt first second)
  | bitxor =>
    rw [guardedResult_eq .bitxor (by decide) nofun]
    exact onBits_agrees (toInt_xor_ofInt first second)
  | bitor =>
    rw [guardedResult_eq .bitor (by decide) nofun]
    exact onBits_agrees (toInt_or_ofInt first second)

theorem mathSign_agrees (sign : MathSign) (long : InLong value) :
    Agrees (mathSign sign value) (fit (sign.exact value)) := by
  cases sign with
  | plus => exact ok_agrees long
  | minus =>
    show Agrees (mathCheckedNeg value) _
    rw [mathCheckedNeg_eq long]
    exact exactOr_agrees _ _
  | complement =>
    have same : (~~~BitVec.ofInt 64 value).toInt = -value - 1 :=
      toInt_not_ofInt (fitsBits_of_inLong long)
    have fits : InLong (-value - 1) := same ▸ inLong_toInt _
    show Agrees (.ok (~~~BitVec.ofInt 64 value).toInt) _
    rw [same]
    exact ok_agrees fits

theorem mathLiteral_agrees (value : Int) : Agrees (mathLiteral value) (fit value) := by
  unfold mathLiteral fit
  by_cases long : InLong value
  · rw [if_pos long, if_pos long]
    rfl
  · rw [if_neg long, if_neg long]
    exact ⟨_, cons_ne_nil _ _, rfl⟩

theorem mathLiteral_settles (value : Int) : Settles (mathLiteral value) := by
  unfold mathLiteral
  split
  · assumption
  · exact cons_ne_nil _ _

theorem mathSign_settles (sign : MathSign) (long : InLong value) :
    Settles (mathSign sign value) := by
  cases sign with
  | plus => exact long
  | minus =>
    show Settles (mathCheckedNeg value)
    rw [mathCheckedNeg_eq long]
    exact exactOr_settles _ _
  | complement => exact inLong_toInt _

theorem MathExpr.compute_settles (expression : MathExpr) : Settles expression.compute := by
  induction expression with
  | literal number =>
    rw [MathExpr.compute]
    generalize (number : Int) = value
    exact mathLiteral_settles value
  | signed sign operand ih =>
    rw [MathExpr.compute]
    exact ih.bind fun value _ long => mathSign_settles sign long
  | binary op left right ihLeft ihRight =>
    rw [MathExpr.compute]
    refine ihLeft.bind fun lhs _ leftLong => ihRight.bind fun rhs _ rightLong => ?_
    exact mathApply_settles op leftLong rightLong

/-- A value that is computed is a `long long`. -/
theorem MathExpr.inLong_compute {expression : MathExpr} (computed : expression.compute = .ok value)
    : InLong value := by
  have settles := expression.compute_settles
  rw [computed] at settles
  exact settles

/-- An expression computes what its operators leave it to. -/
theorem MathExpr.compute_agrees (expression : MathExpr) :
    Agrees expression.compute (expression.expected MathOp.guardedResult) := by
  induction expression with
  | literal number =>
    rw [MathExpr.compute, MathExpr.expected]
    generalize (number : Int) = value
    exact mathLiteral_agrees value
  | signed sign operand ih =>
    rw [MathExpr.compute, MathExpr.expected]
    exact ih.bind fun value computed => mathSign_agrees sign (inLong_compute computed)
  | binary op left right ihLeft ihRight =>
    rw [MathExpr.compute, MathExpr.expected]
    refine ihLeft.bind fun lhs leftComputed => ihRight.bind fun rhs rightComputed => ?_
    exact mathApply_agrees op (inLong_compute leftComputed) (inLong_compute rightComputed)

end Nobify.Evaluator
