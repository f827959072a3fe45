import Mathlib.Data.List.DropRight
import Nobify.Evaluator.Numerals
import Nobify.Evaluator.ScopeCalls
import Nobify.Lib.OperatorChain
import Nobify.Lib.SignedBits

/-!
# Integer expressions

`math(EXPR)` of `eval_math.c`: a parser by recursive descent that computes while it reads. Numbers
are values of a 64-bit `long long`. The additions, subtractions, products and negations of the
source, also those in the guards that are to keep them from overflowing, are undefined where they
overflow; the other operators work on the bits of two's complement. A position in the expression is
modelled by the text from there on, which ends with the C string.
-/

namespace Nobify.Evaluator

open Lib Prog
open List

/-! ## Arithmetic -/

/-- What keeps an expression from having a value. -/
inductive MathFault where
  /-- A signed operation of the source overflows. -/
  | overflow
  /-- The recursion of the model runs out. -/
  | exhausted
  /-- `math_emit_error` with these causes, one after the other. -/
  | reported (causes : List StringView)

/-- What a part of the parser computes. -/
abbrev MathResult := Except MathFault

/-- `math_emit_error`. -/
def mathEmitError {α : Type} (cause : StringView) : MathResult α := .error (.reported [cause])

/-- `LLONG_MAX`. -/
def llongMax : Int := 2 ^ 63 - 1

/-- `LLONG_MIN`. -/
def llongMin : Int := -(2 ^ 63)

/-- The result of a signed operation. -/
def signed (value : Int) : MathResult Int :=
  if InLong value then .ok value else .error .overflow

/-- `math_checked_neg`. -/
def mathCheckedNeg (value : Int) : MathResult Int :=
  if value = llongMin then mathEmitError (sv "Integer overflow in unary minus")
  else signed (-value)

/-- A comparison with a bound that the source computes first. -/
def compareWith (bound : Int) (compare : Int → Bool) : MathResult Bool :=
  (signed bound).map compare

/-- `math_checked_add`. -/
def mathCheckedAdd (lhs rhs : Int) : MathResult Int := do
  let overflows ←
    if 0 < rhs then compareWith (llongMax - rhs) fun bound => bound < lhs
    else if rhs < 0 then compareWith (llongMin - rhs) fun bound => lhs < bound
    else .ok false
  if overflows then mathEmitError (sv "Integer overflow in addition") else signed (lhs + rhs)

/-- `math_checked_sub`. -/
def mathCheckedSub (lhs rhs : Int) : MathResult Int := do
  let overflows ←
    if 0 < rhs then compareWith (llongMin + rhs) fun bound => lhs < bound
    else if rhs < 0 then compareWith (llongMax + rhs) fun bound => bound < lhs
    else .ok false
  if overflows then mathEmitError (sv "Integer overflow in subtraction") else signed (lhs - rhs)

/-- The last guards of `math_checked_mul`, for factors that are not zero. A quotient of the source
is rounded towards zero. -/
def mulOverflows (lhs rhs : Int) : MathResult Bool :=
  if 0 < lhs then
    if 0 < rhs then compareWith (llongMax.tdiv rhs) fun bound => bound < lhs
    else compareWith (llongMin.tdiv lhs) fun bound => rhs < bound
  else
    if 0 < rhs then compareWith (llongMin.tdiv rhs) fun bound => lhs < bound
    else compareWith (llongMax.tdiv rhs) fun bound => lhs < bound

/-- `math_checked_mul`. -/
def mathCheckedMul (lhs rhs : Int) : MathResult Int := do
  if lhs = 0 ∨ rhs = 0 then return 0
  else if lhs = -1 ∧ rhs = llongMin ∨ rhs = -1 ∧ lhs = llongMin then
    mathEmitError (sv "Integer overflow in multiplication")
  else if ← mulOverflows lhs rhs then mathEmitError (sv "Integer overflow in multiplication")
  else signed (lhs * rhs)

/-- `math_checked_div`. -/
def mathCheckedDiv (lhs rhs : Int) : MathResult Int :=
  if rhs = 0 then mathEmitError (sv "Division by zero")
  else if lhs = llongMin ∧ rhs = -1 then mathEmitError (sv "Integer overflow in division")
  else signed (lhs.tdiv rhs)

/-- `math_checked_mod`; the remainder is undefined where the quotient overflows. -/
def mathCheckedMod (lhs rhs : Int) : MathResult Int :=
  if rhs = 0 then mathEmitError (sv "Division by zero")
  else if lhs = llongMin ∧ rhs = -1 then mathEmitError (sv "Integer overflow in modulo")
  else do
    let _ ← signed (lhs.tdiv rhs)
    return lhs.tmod rhs

/-- An operator on the bits of two numbers. -/
def onBits (operator : BitVec 64 → BitVec 64 → BitVec 64) (lhs rhs : Int) : Int :=
  (operator (BitVec.ofInt 64 lhs) (BitVec.ofInt 64 rhs)).toInt

/-- The checks of a shift count in `math_parse_shift`, and the shift. -/
def mathCheckedShift (rhs : Int) (shift : Nat → MathResult Int) : MathResult Int :=
  if rhs < 0 then mathEmitError (sv "Negative shift count")
  else if 64 ≤ rhs then mathEmitError (sv "Shift count is out of range for 64-bit integer")
  else shift rhs.toNat

/-- The shift to the left of `math_parse_shift`: a number that is not negative is checked, and the
bits are shifted without a sign. -/
def mathShiftLeft (lhs rhs : Int) : MathResult Int :=
  mathCheckedShift rhs fun count =>
    if 0 < rhs ∧ 0 ≤ lhs ∧ llongMax / 2 ^ count < lhs then
      mathEmitError (sv "Integer overflow in left shift")
    else .ok (BitVec.ofInt 64 lhs <<< count).toInt

/-- The shift to the right of `math_parse_shift`, which keeps the sign. -/
def mathShiftRight (lhs rhs : Int) : MathResult Int :=
  mathCheckedShift rhs fun count => .ok ((BitVec.ofInt 64 lhs).sshiftRight count).toInt

/-- The operators between two operands. -/
inductive MathOp where
  | mul | div | mod | add | sub | shl | shr | bitand | bitxor | bitor
  deriving DecidableEq

/-- What the parsing functions do with an operator and its operands. -/
def mathApply : MathOp → Int → Int → MathResult Int
  | .mul => mathCheckedMul
  | .div => mathCheckedDiv
  | .mod => mathCheckedMod
  | .add => mathCheckedAdd
  | .sub => mathCheckedSub
  | .shl => mathShiftLeft
  | .shr => mathShiftRight
  | .bitand => fun lhs rhs => .ok (onBits (· &&& ·) lhs rhs)
  | .bitxor => fun lhs rhs => .ok (onBits (· ^^^ ·) lhs rhs)
  | .bitor => fun lhs rhs => .ok (onBits (· ||| ·) lhs rhs)

/-! ## Numbers -/

/-- The value of a row of digits in a base. -/
def rowValue (base : Nat) (row : StringView) : Nat :=
  row.foldl (fun value digit => base * value + (hexDigit? digit).getD 0) 0

/-- The digits of a base. -/
def isDigitOf (base : Nat) (char : Char) : Bool := (hexDigit? char).any (· < base)

/-- The base of a number by its prefix, and the text of its digits. -/
def numberBase : StringView → Nat × StringView
  | '0' :: mark :: digit :: rest =>
    if (mark = 'x' ∨ mark = 'X') ∧ isDigitOf 16 digit then (16, digit :: rest)
    else (8, '0' :: mark :: digit :: rest)
  | '0' :: rest => (8, '0' :: rest)
  | text => (10, text)

/-- `strtoll` in base 0 before it is cut to a `long long`: the number and what follows it, or `none`
where there is no number. -/
def strtoll (text : StringView) : Option (Int × StringView) :=
  let (negative, unsigned) := takeSign (text.dropWhile isSpace)
  let (base, digits) := numberBase unsigned
  let row := digits.takeWhile (isDigitOf base)
  if row = [] then none
  else some (if negative then -(rowValue base row : Int) else rowValue base row,
    digits.drop row.length)

/-! ## The parser -/

/-- `math_skip_ws`. -/
def mathSkipWs (text : StringView) : StringView := text.dropWhile isSpace

/-- A function of the parser. -/
abbrev MathParser := Parser MathFault Char Int

/-- `math_parse_number`, and the error that `math_parse_factor` adds where it fails. -/
def mathParseNumber : MathParser := fun text =>
  match strtoll (mathSkipWs text) with
  | none => mathEmitError (sv "Invalid numeric token in expression")
  | some (value, rest) =>
    if InLong value then .ok (value, rest)
    else .error (.reported [sv "Integer literal out of range in expression",
      sv "Invalid numeric token in expression"])

theorem mathSkipWs_length (text : StringView) : (mathSkipWs text).length ≤ text.length :=
  (dropWhile_sublist _).length_le

theorem mathSkipWs_skip (text : StringView) : mathSkipWs (mathSkipWs text) = mathSkipWs text :=
  dropWhile_idempotent _ _

/-- The operators of `math_parse_term`. -/
def readTermOp : StringView → Option (MathOp × StringView)
  | '*' :: rest => some (.mul, rest)
  | '/' :: rest => some (.div, rest)
  | '%' :: rest => some (.mod, rest)
  | _ => none

/-- The operators of `math_parse_addsub`. -/
def readAddsubOp : StringView → Option (MathOp × StringView)
  | '+' :: rest => some (.add, rest)
  | '-' :: rest => some (.sub, rest)
  | _ => none

/-- The operators of `math_parse_shift`. -/
def readShiftOp : StringView → Option (MathOp × StringView)
  | '<' :: '<' :: rest => some (.shl, rest)
  | '>' :: '>' :: rest => some (.shr, rest)
  | _ => none

/-- The operator of `math_parse_bitand`. -/
def readBitandOp : StringView → Option (MathOp × StringView)
  | '&' :: rest => some (.bitand, rest)
  | _ => none

/-- The operator of `math_parse_bitxor`. -/
def readBitxorOp : StringView → Option (MathOp × StringView)
  | '^' :: rest => some (.bitxor, rest)
  | _ => none

/-- The operator of `math_parse_bitor`. -/
def readBitorOp : StringView → Option (MathOp × StringView)
  | '|' :: rest => some (.bitor, rest)
  | _ => none

/-- How the loops of the parser read their operators, from those that bind tightest on. -/
def readOp : Nat → StringView → Option (MathOp × StringView)
  | 0 => readTermOp
  | 1 => readAddsubOp
  | 2 => readShiftOp
  | 3 => readBitandOp
  | 4 => readBitxorOp
  | 5 => readBitorOp
  | _ => fun _ => none

/-- Reading an operator shortens the text. -/
theorem readOp_length (level : Nat) (text : StringView) (op : MathOp) (rest : StringView)
    (read : readOp level text = some (op, rest)) : rest.length < text.length := by
  rcases level with _ | _ | _ | _ | _ | _ | level
  all_goals simp only [readOp, readTermOp, readAddsubOp, readShiftOp, readBitandOp, readBitxorOp,
    readBitorOp, reduceCtorEq] at read
  all_goals
    split at read
    all_goals
      cases read
      try simp only [length_cons, Nat.lt_succ_iff, Nat.le_refl, Nat.le_succ]

/-- The operators of a loop. -/
def mathOperators (level : Nat) : Operators Char MathOp where
  skip := mathSkipWs
  read := readOp level
  skip_length := mathSkipWs_length
  skip_skip := mathSkipWs_skip
  read_length := readOp_length level

/-- A loop of the parser on top of the function for its operands. -/
def mathChain (level : Nat) (operand : MathParser) : MathParser :=
  (mathOperators level).chain mathApply operand .exhausted

/-- `math_parse_term`. -/
def mathParseTerm (factor : MathParser) : MathParser := mathChain 0 factor

/-- `math_parse_addsub`. -/
def mathParseAddsub (factor : MathParser) : MathParser := mathChain 1 (mathParseTerm factor)

/-- `math_parse_shift`. -/
def mathParseShift (factor : MathParser) : MathParser := mathChain 2 (mathParseAddsub factor)

/-- `math_parse_bitand`. -/
def mathParseBitand (factor : MathParser) : MathParser := mathChain 3 (mathParseShift factor)

/-- `math_parse_bitxor`. -/
def mathParseBitxor (factor : MathParser) : MathParser := mathChain 4 (mathParseBitand factor)

/-- `math_parse_bitor`. -/
def mathParseBitor (factor : MathParser) : MathParser := mathChain 5 (mathParseBitxor factor)

/-- `math_parse_expr`. -/
def mathParseExpr (factor : MathParser) : MathParser := mathParseBitor factor

/-- `math_parse_factor`, nested so deep at most. -/
def mathParseFactor : Nat → MathParser
  | 0, _ => .error .exhausted
  | depth + 1, text =>
    match mathSkipWs text with
    | [] => mathEmitError (sv "Unexpected end of expression")
    | '(' :: rest => do
      let (value, rest) ← mathParseExpr (mathParseFactor depth) rest
      match mathSkipWs rest with
      | ')' :: rest => return (value, rest)
      | _ => mathEmitError (sv "Missing ')' in expression")
    | '+' :: rest => mathParseFactor depth rest
    | '-' :: rest => do
      let (value, rest) ← mathParseFactor depth rest
      return (← mathCheckedNeg value, rest)
    | '~' :: rest => do
      let (value, rest) ← mathParseFactor depth rest
      return ((~~~BitVec.ofInt 64 value).toInt, rest)
    | char :: rest => mathParseNumber (char :: rest)

/-- The part of `eval_handle_math` that computes the value of an expression. -/
def mathEvaluate (text : StringView) : MathResult Int := do
  let expression := svToCstr text
  let (value, rest) ← mathParseExpr (mathParseFactor (expression.length + 1)) expression
  match mathSkipWs rest with
  | [] => return value
  | _ => mathEmitError (sv "Unexpected trailing tokens in expression")

/-! ## The command -/

/-- `Math_Output_Format`. -/
inductive MathOutputFormat where
  | decimal
  | hexadecimal

/-- `math_parse_output_format_sv`. -/
def mathParseOutputFormat (text : StringView) : Option MathOutputFormat :=
  if svEqCi text (sv "DECIMAL") then some .decimal
  else if svEqCi text (sv "HEXADECIMAL") then some .hexadecimal
  else none

/-- The format as the event names it. -/
def MathOutputFormat.name : MathOutputFormat → StringView
  | .decimal => sv "DECIMAL"
  | .hexadecimal => sv "HEXADECIMAL"

/-- `snprintf` with `%lld` and `0x%llx`. -/
def MathOutputFormat.print : MathOutputFormat → Int → StringView
  | .decimal, value => showLong value
  | .hexadecimal, value => sv "0x" ++ Nat.toDigits 16 (BitVec.ofInt 64 value).toNat

/-- A diagnostic about the arguments; some end the run. -/
structure MathRefusal where
  code : DiagCode
  cause : StringView
  hint : StringView
  stops : Bool := false

/-- What the arguments ask for. -/
structure MathRequest where
  outVar : StringView
  expression : StringView
  format : MathOutputFormat

/-- The usage that several diagnostics give. -/
def mathUsage : StringView :=
  sv "Usage: math(EXPR <out-var> <expression> [OUTPUT_FORMAT <DECIMAL|HEXADECIMAL>])"

/-- The words from `OUTPUT_FORMAT` on. -/
def mathOutputFormat : List StringView → Except MathRefusal MathOutputFormat
  | [] => .error ⟨.missingRequired, sv "math(EXPR) missing value after OUTPUT_FORMAT", mathUsage,
      false⟩
  | word :: rest =>
    match mathParseOutputFormat word with
    | none => .error ⟨.invalidValue, sv "math(EXPR) invalid OUTPUT_FORMAT value", word, false⟩
    | some format =>
      if rest = [] then .ok format
      else .error ⟨.unexpectedArgument,
        sv "math(EXPR) has unexpected tokens after OUTPUT_FORMAT", mathUsage, false⟩

/-- The words of the expression, and its format: after `OUTPUT_FORMAT`, or in the last of two or
more words. -/
def mathWords (words : List StringView) : Except MathRefusal (List StringView × MathOutputFormat) :=
  let isKeyword (word : StringView) : Bool := svEqCi word (sv "OUTPUT_FORMAT")
  match words.dropWhile fun word => !isKeyword word with
  | _ :: formatWords =>
    (mathOutputFormat formatWords).map fun format =>
      (words.takeWhile fun word => !isKeyword word, format)
  | [] =>
    match words.getLast?.bind mathParseOutputFormat with
    | some format =>
      if 2 ≤ words.length then .ok (words.dropLast, format) else .ok (words, .decimal)
    | none => .ok (words, .decimal)

/-- The part of `eval_handle_math` that reads its arguments. -/
def mathRequest : List StringView → Except MathRefusal MathRequest
  | [] => .error ⟨.missingRequired, sv "math() requires a subcommand", mathUsage, false⟩
  | keyword :: rest =>
    if svEqCi keyword (sv "EXPR") = false then
      .error ⟨.unsupportedOperation, sv "Unsupported math() subcommand", sv "Implemented: EXPR",
        true⟩
    else
      let missing : MathRefusal := ⟨.missingRequired,
        sv "math(EXPR) requires output variable and expression", mathUsage, false⟩
      match rest with
      | outVar :: word :: words =>
        (mathWords (word :: words)).bind fun found =>
          if found.1 = [] then .error missing else .ok ⟨outVar, found.1.flatten, found.2⟩
      | _ => .error missing

/-- What `math_emit_error` reports with a cause. -/
def mathDiag (command : StringView) (origin : Origin) (cause : StringView) : DiagRequest where
  severity := .error
  code := .invalidValue
  component := sv "math"
  command := command
  origin := origin
  cause := cause
  hint := sv "Use integer expression with + - * / % << >> & ^ | ~ and parentheses"

/-- One diagnostic after the other. -/
def reportAll : List DiagRequest → Prog Unit
  | [] => return ()
  | request :: rest => do
    perform (.emitDiag request)
    reportAll rest

/-- The part of `eval_handle_math` behind the evaluation. Behind an overflow the program may be
any. -/
def mathFinish (overflowed : Prog EvalResult) (command : StringView) (origin : Origin)
    (request : MathRequest) : MathResult Int → Prog EvalResult
  | .error (.reported causes) => do
    reportAll (causes.map (mathDiag command origin))
    resultFromCtx
  | .error _ => overflowed
  | .ok value => do
    let _ ← varSetCurrent request.outVar (request.format.print value)
    if ← emitEvent .mathExpr [request.outVar, request.format.name] origin then resultFromCtx
    else return .fatal

/-- `eval_handle_math`. -/
def handleMath (resolveArgs : List Arg → Prog (List StringView)) (overflowed : Prog EvalResult)
    (line col : Nat) (command : StringView) (args : List Arg) : Prog EvalResult := do
  if ← Prog.shouldStop then return ← resultFromCtx
  let origin := originOf (← context) line col
  let resolved ← resolveArgs args
  if ← Prog.shouldStop then return ← resultFromCtx
  match mathRequest resolved with
  | .error refusal => do
    perform (.emitDiag { severity := .error, code := refusal.code, component := sv "math", command,
                         origin, cause := refusal.cause, hint := refusal.hint })
    if refusal.stops && !(← context).runtime.continueOnErrorSnapshot then perform .requestStop
    resultFromCtx
  | .ok request =>
    mathFinish overflowed command origin request (mathEvaluate request.expression)

end Nobify.Evaluator
