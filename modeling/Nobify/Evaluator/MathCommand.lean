import Nobify.Evaluator.MathExact
import Nobify.Evaluator.Formula
import Nobify.Evaluator.WrittenVars

/-!
# The command `math(EXPR)`

What `eval_handle_math` leaves in the variables: the printed value of the expression in the output
variable, or everything as it was and one or several errors.
-/

namespace Nobify.Evaluator

open Lib Prog
open List

/-! ## Arguments -/

theorem toUpper_eq_O {char : Char} (upper : char.toUpper = 'O') : char = 'O' ∨ char = 'o' := by
  unfold Char.toUpper at upper
  split at upper
  · right
    rename_i lower
    have value := congrArg Char.val upper
    apply Char.ext
    have known : char.val + ('A'.val - 'a'.val) = 'O'.val := value
    have shifted : char.val = 'O'.val - ('A'.val - 'a'.val) := by
      rw [← known, UInt32.add_sub_cancel]
    rw [shifted]
    rfl
  · exact .inl upper

/-- The text of an expression is no keyword of the command. -/
theorem MathExpr.IsText.not_outputFormat {expression : MathExpr} {text : StringView}
    (isText : expression.IsText text) : svEqCi text (sv "OUTPUT_FORMAT") = false := by
  rw [Bool.eq_false_iff]
  intro same
  have upper : text.map Char.toUpper = (sv "OUTPUT_FORMAT").map Char.toUpper := eq_of_beq same
  have first : 'O' ∈ text.map Char.toUpper := by
    rw [upper]
    decide
  obtain ⟨char, member, letter⟩ := mem_map.mp first
  have math := all_eq_true.mp isText.all_isMathChar char member
  rcases toUpper_eq_O letter with rfl | rfl
  · exact absurd math (by decide)
  · exact absurd math (by decide)

/-- The arguments of a plain expression. -/
theorem mathRequest_isText {expression : MathExpr} {text : StringView}
    (isText : expression.IsText text) {keyword : StringView}
    (expr : svEqCi keyword (sv "EXPR") = true) (outVar : StringView) :
    mathRequest [keyword, outVar, text] = .ok ⟨outVar, text, .decimal⟩ := by
  have plain : mathWords [text] = .ok ([text], .decimal) := by
    unfold mathWords
    simp only [isText.not_outputFormat, Bool.not_false, dropWhile_cons_of_pos, dropWhile_nil]
    split
    · rfl
    · rfl
  simp [mathRequest, expr, plain, Except.bind]

/-! ## The command -/

section Command

variable {dispatch : Nat → Nat → StringView → List Arg → EvalExecContext → Option (Run EvalResult)}

theorem reportAll_ends {α : Type} {requests : List DiagRequest} {ctx : EvalExecContext}
    {next : Unit → Prog α} {post : α → EvalExecContext → Prop}
    (rest : Ends dispatch (next ()) (requests.foldl EvalExecContext.emitDiag ctx) post) :
    Ends dispatch (reportAll requests >>= next) ctx post := by
  induction requests generalizing ctx with
  | nil => exact rest
  | cons request requests ih =>
    unfold reportAll
    rw [bind_assoc]
    apply Ends.perform
    exact ih rest

/-- Diagnostics leave the state alone. -/
theorem foldl_emitDiag_state (requests : List DiagRequest) (ctx : EvalExecContext) :
    (requests.foldl EvalExecContext.emitDiag ctx).state = ctx.state := by
  induction requests generalizing ctx with
  | nil => rfl
  | cons request requests ih =>
    have step := ih (ctx.emitDiag request)
    rw [emitDiag_state] at step
    exact step

/-- A command whose arguments come to an expression for an output variable, in a context that is
running before and after they are resolved. -/
structure MathCall
    (dispatch : Nat → Nat → StringView → List Arg → EvalExecContext → Option (Run EvalResult))
    (resolveArgs : List Arg → Prog (List StringView)) (args : List Arg)
    (ctx before : EvalExecContext) (outVar text : StringView) : Prop where
  running : ctx.shouldStop = false
  resolves : ∃ keyword trace, svEqCi keyword (sv "EXPR") = true ∧
    (resolveArgs args).exec dispatch ctx = some ⟨[keyword, outVar, text], before, trace⟩
  stillRunning : before.shouldStop = false
  bounds : Scoped before.state.scope

/-- The output variable has the value; or errors are reported and no variable has changed. -/
def Computes
    (dispatch : Nat → Nat → StringView → List Arg → EvalExecContext → Option (Run EvalResult))
    (program : Prog EvalResult) (ctx before : EvalExecContext) (outVar : StringView)
    (expected : Except MathFailure Int) : Prop :=
  match expected with
  | .ok value => Ends dispatch program ctx fun _ after =>
      after.state.varGetVisible outVar = showLong value
  | .error .error => Ends dispatch program ctx fun _ after =>
      after.state = before.state ∧ ∃ requests : List DiagRequest, requests ≠ [] ∧
        (∀ request ∈ requests, request.severity = .error) ∧
        after = requests.foldl EvalExecContext.emitDiag before
  | .error .unsettled => True

variable {resolveArgs : List Arg → Prog (List StringView)} {args : List Arg}
  {ctx before : EvalExecContext} {outVar text : StringView} {expression : MathExpr}

/-- The command does what the computed value and the reported errors say. -/
theorem handleMath_of_agrees (call : MathCall dispatch resolveArgs args ctx before outVar text)
    (overflowed : Prog EvalResult) (line col : Nat) (command : StringView)
    (isText : expression.IsText text) {expected : Except MathFailure Int}
    (agrees : Agrees (mathEvaluate text) expected) :
    Computes dispatch (handleMath resolveArgs overflowed line col command args) ctx before outVar
      expected := by
  obtain ⟨keyword, trace, expr, resolves⟩ := call.resolves
  have request := mathRequest_isText isText expr outVar
  -- Up to the evaluation the program only resolves its arguments.
  have start : ∀ {post : EvalExecContext → Prop},
      Ends dispatch (mathFinish overflowed command (originOf ctx line col)
        ⟨outVar, text, .decimal⟩ (mathEvaluate text)) before (fun _ after => post after) →
      Ends dispatch (handleMath resolveArgs overflowed line col command args) ctx
        fun _ after => post after := by
    intro post rest
    unfold handleMath
    refine (shouldStop_ends ctx).bind ?_
    rintro stops after ⟨rfl, rfl⟩
    rw [call.running, if_neg (by decide)]
    apply Ends.context
    have resolved : Ends dispatch (resolveArgs args) after fun value later =>
        value = [keyword, outVar, text] ∧ later = before := ⟨_, resolves, rfl, rfl⟩
    refine resolved.bind ?_
    rintro value later ⟨rfl, rfl⟩
    refine (shouldStop_ends later).bind ?_
    rintro stops same ⟨rfl, rfl⟩
    rw [call.stillRunning, if_neg (by decide), request]
    exact rest
  cases expected with
  | ok value =>
    have evaluated : mathEvaluate text = .ok value := agrees
    unfold Computes
    apply start
    rw [evaluated]
    refine (varSetCurrent_seen call.bounds call.stillRunning outVar (showLong value)).bind ?_
    intro _ written seen
    unfold emitEvent
    rw [bind_assoc]
    refine (shouldStop_ends written).bind ?_
    rintro stops same ⟨rfl, rfl⟩
    rw [bind_assoc]
    apply Ends.perform
    have kept : ((Op.pushEvent .mathExpr [outVar, MathOutputFormat.decimal.name]
        (originOf ctx line col) false).apply same).state = same.state := pushEvent_state ..
    rw [← kept] at seen
    cases same.shouldStop with
    | true => exact Ends.pure seen
    | false => exact resultFromCtx_ends seen
  | error failure =>
    cases failure with
    | unsettled => trivial
    | error =>
      obtain ⟨causes, filled, evaluated⟩ := agrees
      unfold Computes
      apply start
      rw [evaluated]
      apply reportAll_ends
      apply resultFromCtx_ends
      refine ⟨foldl_emitDiag_state _ _, _, ?_, ?_, rfl⟩
      · exact fun none => filled (map_eq_nil_iff.mp none)
      · intro request member
        obtain ⟨cause, _, rfl⟩ := mem_map.mp member
        rfl

/-- On each text of an expression the command leaves the value that the guards of the source leave,
or reports errors and leaves the variables as they were. No text whatever makes an operation of the
source overflow, or its recursion endless. -/
theorem handleMath_computes (call : MathCall dispatch resolveArgs args ctx before outVar text)
    (overflowed : Prog EvalResult) (line col : Nat) (command : StringView)
    (isText : expression.IsText text) :
    Computes dispatch (handleMath resolveArgs overflowed line col command args) ctx before outVar
        (expression.expected MathOp.guardedResult) ∧
      ∀ any, mathEvaluate any ≠ .error .overflow ∧ mathEvaluate any ≠ .error .exhausted := by
  constructor
  · have agrees := expression.compute_agrees
    rw [← mathEvaluate_isText isText] at agrees
    exact handleMath_of_agrees call overflowed line col command isText agrees
  · intro any
    have settles := mathEvaluate_settles any
    constructor
    · intro overflows
      rw [overflows] at settles
      exact settles
    · intro exhausted
      rw [exhausted] at settles
      exact settles

end Command

/-! ## Two calls -/

/-- The arguments `EXPR V` and a text. -/
def exprWords (text : StringView) : List Arg → Prog (List StringView) :=
  fun _ => return [sv "EXPR", sv "V", text]

theorem exprWords_call (text : StringView) :
    MathCall noCommands (exprWords text) [] freshContext freshContext (sv "V") text :=
  ⟨rfl, ⟨sv "EXPR", [], by decide, rfl⟩, rfl, ⟨by decide, by decide⟩⟩

/-- `-7/2*(3-1)`. -/
def quotientExpr : MathExpr :=
  .binary .mul (.binary .div (.signed .minus (.literal 7)) (.literal 2))
    (.binary .sub (.literal 3) (.literal 1))

theorem handleMath_computes_quotient : MathExpr.print 6 quotientExpr = sv "-7/2*(3-1)" ∧
      quotientExpr.expected MathOp.guardedResult = .ok (-6) ∧
      Computes noCommands
        (handleMath (exprWords (sv "-7/2*(3-1)")) (return .fatal) 1 1 (sv "math") [])
        freshContext freshContext (sv "V") (quotientExpr.expected MathOp.guardedResult) := by
  have printed : MathExpr.print 6 quotientExpr = sv "-7/2*(3-1)" := by decide
  have isText : quotientExpr.IsText (sv "-7/2*(3-1)") :=
    printed ▸ MathExpr.isText_print quotientExpr
  exact ⟨printed, by decide, (handleMath_computes (exprWords_call _) _ 1 1 (sv "math") isText).1⟩

/-- `0<<64`. -/
def wideShift : MathExpr := .binary .shl (.literal 0) (.literal 64)

/-- The exact value of a shift by 64 is refused. -/
theorem wideShift_not_exact :
    ¬∀ (dispatch : Nat → Nat → StringView → List Arg → EvalExecContext → Option (Run EvalResult))
      (resolveArgs : List Arg → Prog (List StringView)) (args : List Arg)
      (ctx before : EvalExecContext) (outVar text : StringView) (overflowed : Prog EvalResult)
      (line col : Nat) (command : StringView) (expression : MathExpr),
      MathCall dispatch resolveArgs args ctx before outVar text → expression.IsText text →
      Computes dispatch (handleMath resolveArgs overflowed line col command args) ctx before outVar
        (expression.expected MathOp.exactResult) := by
  intro claimed
  have printed : MathExpr.print 6 wideShift = sv "0<<64" := by decide
  have isText : wideShift.IsText (sv "0<<64") := printed ▸ MathExpr.isText_print wideShift
  have call := exprWords_call (sv "0<<64")
  have exact' : wideShift.expected MathOp.exactResult = .ok 0 := by decide
  have agrees : Agrees (mathEvaluate (sv "0<<64")) (.error .error) := by
    have guarded : wideShift.expected MathOp.guardedResult = .error .error := by decide
    have computed := wideShift.compute_agrees
    rw [guarded, ← mathEvaluate_isText isText] at computed
    exact computed
  have wanted := claimed _ _ _ _ _ _ _ (return .fatal) 1 1 (sv "math") _ call isText
  rw [exact'] at wanted
  obtain ⟨run, ran, seen⟩ := wanted
  obtain ⟨other, same, kept, _⟩ :=
    handleMath_of_agrees call (return .fatal) 1 1 (sv "math") isText agrees
  obtain rfl : run = other := Option.some.inj (ran.symm.trans same)
  have reads : run.ctx.state.varGetVisible (sv "V") = showLong 0 := seen
  rw [kept] at reads
  revert reads
  decide

end Nobify.Evaluator
