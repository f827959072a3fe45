import Mathlib.Algebra.Group.Int.Defs
import Nobify.Evaluator.Exec

/-!
# Comparing values in conditions

What `eval_expr.c` does with the two sides of a comparison once it has their texts: reading
numbers with `strtol` and `strtod`, comparing texts, versions, lists and normalized paths, and
deciding which constants are true.

Numbers are read as the C library reads them in the C locale: blanks and a sign are skipped, a
value that does not fit a `long` is clamped to it, and a decimal or hexadecimal number is zero as a
`double` when it is no larger than half of the smallest positive one.
-/

namespace Nobify.Evaluator

/-! ## Numbers -/

/-- A decimal digit: `isdigit`. -/
def isDigit (char : Char) : Bool := '0' ≤ char && char ≤ '9'

/-- The value of a hexadecimal digit. -/
def hexDigit? (char : Char) : Option Nat :=
  if isDigit char then some (char.toNat - '0'.toNat)
  else if 'a' ≤ char ∧ char ≤ 'f' then some (char.toNat - 'a'.toNat + 10)
  else if 'A' ≤ char ∧ char ≤ 'F' then some (char.toNat - 'A'.toNat + 10)
  else none

/-- The value of a row of decimal digits. -/
def digitsValue (digits : StringView) : Nat :=
  digits.foldl (fun value digit => 10 * value + (digit.toNat - '0'.toNat)) 0

/-- A sign in front of a number, and what follows it. -/
def takeSign : StringView → Bool × StringView
  | '-' :: rest => (true, rest)
  | '+' :: rest => (false, rest)
  | text => (false, text)

/-- `strtol` in base ten that reads the whole text, clamped to a 64-bit `long`. -/
def strtol (text : StringView) : Option Int :=
  let (negative, digits) := takeSign (text.dropWhile isSpace)
  if digits = [] ∨ digits.all isDigit = false then none
  else
    let value : Int := if negative then -(digitsValue digits : Int) else digitsValue digits
    some (max (-(2 ^ 63)) (min value (2 ^ 63 - 1)))

/-- `sv_is_number`: the buffer has room for 127 characters. -/
def svIsNumber (text : StringView) : Option Int :=
  if text = [] ∨ 128 ≤ text.length then none else strtol text

/-- An exponent after its letter, with the whole rest of the text. -/
def exponentValue (text : StringView) : Option Int :=
  let (negative, digits) := takeSign text
  if digits = [] ∨ digits.all isDigit = false then none
  else some (if negative then -(digitsValue digits : Int) else digitsValue digits)

/-- Whether `mantissa * base ^ exponent` is more than half of the smallest positive `double`. What
is below the first bound is too small for any mantissa of 127 digits. -/
def exceedsHalfUnit (mantissa base : Nat) (exponent : Int) : Bool :=
  if 0 ≤ exponent then 0 < mantissa
  else if exponent < -2000 then false
  else base ^ exponent.natAbs < mantissa * 2 ^ 1075

/-- The digits before and after a point, and what follows them. -/
def mantissaParts (digit : Char → Bool) (text : StringView) :
    StringView × StringView × StringView :=
  let whole := text.takeWhile digit
  match text.dropWhile digit with
  | '.' :: rest => (whole, rest.takeWhile digit, rest.dropWhile digit)
  | rest => (whole, [], rest)

/-- A decimal number without its sign: whether it is not zero, or that it is no number. -/
def decimalNonzero (text : StringView) : Option Bool :=
  let (whole, fraction, rest) := mantissaParts isDigit text
  let mantissa := digitsValue (whole ++ fraction)
  if whole = [] ∧ fraction = [] then none
  else
    match rest with
    | [] => some (exceedsHalfUnit mantissa 10 (-(fraction.length : Int)))
    | letter :: exponent =>
      if letter = 'e' ∨ letter = 'E' then
        (exponentValue exponent).map fun value =>
          exceedsHalfUnit mantissa 10 (value - fraction.length)
      else none

/-- A hexadecimal number behind its `0x`. -/
def hexNonzero (text : StringView) : Option Bool :=
  let (whole, fraction, rest) := mantissaParts (fun char => (hexDigit? char).isSome) text
  let mantissa := (whole ++ fraction).foldl
    (fun value digit => 16 * value + (hexDigit? digit).getD 0) 0
  if whole = [] ∧ fraction = [] then none
  else
    match rest with
    | [] => some (exceedsHalfUnit mantissa 2 (-(4 * fraction.length : Int)))
    | letter :: exponent =>
      if letter = 'p' ∨ letter = 'P' then
        (exponentValue exponent).map fun value =>
          exceedsHalfUnit mantissa 2 (value - 4 * fraction.length)
      else none

/-- The characters that may stand in the parentheses of `nan(...)`. -/
def isNanChar (char : Char) : Bool :=
  isDigit char || ('a' ≤ char && char ≤ 'z') || ('A' ≤ char && char ≤ 'Z') || char == '_'

/-- The forms of infinity and of what is no number. -/
def isSpecialNumber (text : StringView) : Bool :=
  svEqCi text (sv "inf") || svEqCi text (sv "infinity") || svEqCi text (sv "nan") ||
    (svEqCi (text.take 4) (sv "nan(") && text.getLast? == some ')' &&
      ((text.drop 4).dropLast).all isNanChar)

/-- `strtod` that reads the whole text: whether the value is not zero. -/
def strtodNonzero (text : StringView) : Option Bool :=
  let (_, number) := takeSign (text.dropWhile isSpace)
  if isSpecialNumber number then some true
  else
    match number with
    | '0' :: 'x' :: rest | '0' :: 'X' :: rest => hexNonzero rest
    | _ => decimalNonzero number

/-- `sv_is_numeric_nonzero`. -/
def svIsNumericNonzero (text : StringView) : Option Bool :=
  if text = [] ∨ 128 ≤ text.length then none else strtodNonzero text

/-! ## Constants -/

/-- `sv_ends_with_ci_lit`. -/
def svEndsWithCi (text suffix : StringView) : Bool :=
  suffix.length ≤ text.length && svEqCi (text.drop (text.length - suffix.length)) suffix

/-- `eval_truthy_constant_only`: `none` when the text is no constant. -/
def truthyConstantOnly (text : StringView) : Option Bool :=
  let named := fun (name : String) => svEqCi text (sv name)
  if text = [] then some false
  else if named "1" || named "ON" || named "YES" || named "TRUE" || named "Y" then some true
  else if named "0" || named "OFF" || named "NO" || named "FALSE" || named "N" ||
      named "IGNORE" || named "NOTFOUND" then some false
  else if svEndsWithCi text (sv "-NOTFOUND") then some false
  else svIsNumericNonzero text

/-! ## Texts, lists and versions -/

/-- `sv_lex_cmp`: bytes as unsigned numbers, and a text before its extensions. -/
def svLexCmp : StringView → StringView → Ordering
  | [], [] => .eq
  | [], _ :: _ => .lt
  | _ :: _, [] => .gt
  | left :: lefts, right :: rights =>
    if left.toNat < right.toNat then .lt
    else if right.toNat < left.toNat then .gt
    else svLexCmp lefts rights

/-- `sv_list_contains_item`. -/
def svListContainsItem (list item : StringView) : Bool := (list.splitOn ';').contains item

/-- `sv_is_digits`. -/
def svIsDigits (text : StringView) : Bool := !text.isEmpty && text.all isDigit

/-- `sv_numeric_cmp_digits`: without leading zeros the longer number is the larger one. -/
def svNumericCmpDigits (left right : StringView) : Ordering :=
  let left := left.dropWhile (· == '0')
  let right := right.dropWhile (· == '0')
  if left.length < right.length then .lt
  else if right.length < left.length then .gt
  else svLexCmp left right

/-- The parts that `sv_next_version_part` gives in turn: an end behind a last point is none. -/
def versionParts (text : StringView) : List StringView :=
  let parts := text.splitOn '.'
  if parts.getLast? = some [] then parts.dropLast else parts

/-- Two parts of a version. -/
def versionPartCmp (left right : StringView) : Ordering :=
  if svIsDigits left && svIsDigits right then svNumericCmpDigits left right
  else svLexCmp left right

/-- The loop of `sv_version_cmp`: a version that has ended goes on with empty parts. -/
def versionPartsCmp : List StringView → List StringView → Ordering
  | [], [] => .eq
  | left :: lefts, [] => (versionPartCmp left []).then (versionPartsCmp lefts [])
  | [], right :: rights => (versionPartCmp [] right).then (versionPartsCmp [] rights)
  | left :: lefts, right :: rights =>
    (versionPartCmp left right).then (versionPartsCmp lefts rights)

/-- `sv_version_cmp`. -/
def svVersionCmp (left right : StringView) : Ordering :=
  versionPartsCmp (versionParts left) (versionParts right)

/-! ## Paths -/

/-- `svu_is_path_sep`. -/
def isPathSep (char : Char) : Bool := char == '/' || char == '\\'

/-- `isalpha` in the C locale. -/
def isLetter (char : Char) : Bool := ('a' ≤ char && char ≤ 'z') || ('A' ≤ char && char ≤ 'Z')

/-- The segments between separators that are neither empty nor a single point. -/
def pathSegments (text : StringView) : List StringView :=
  (text.splitOnP isPathSep).filter fun segment => !segment.isEmpty && segment != sv "."

/-- `root_kind` of `sv_path_normalize_temp`. -/
inductive PathRoot where
  | relative
  | slash
  | drive (letter : Char)
  | driveRelative (letter : Char)
  deriving DecidableEq

/-- The root of a path, and the rest of it. -/
def pathRoot : StringView → PathRoot × StringView
  | [] => (.relative, [])
  | [char] => if isPathSep char then (.slash, []) else (.relative, [char])
  | first :: second :: rest =>
    if isPathSep first then (.slash, second :: rest)
    else if isLetter first && second == ':' then
      if (rest.head?.any isPathSep) then (.drive first, rest) else (.driveRelative first, rest)
    else (.relative, first :: second :: rest)

/-- One segment: `..` takes back the one before it, and at a root nothing. The segments are kept
with the latest first. -/
def pathStep (rooted : Bool) (segments : List StringView) (segment : StringView) :
    List StringView :=
  if segment = sv ".." then
    match segments with
    | last :: before =>
      if last ≠ sv ".." then before
      else if rooted then segments
      else segment :: segments
    | [] => if rooted then [] else [segment]
  else segment :: segments

/-- The text of a root. -/
def PathRoot.text : PathRoot → StringView
  | .relative => []
  | .slash => sv "/"
  | .drive letter => letter :: sv ":/"
  | .driveRelative letter => letter :: sv ":"

/-- `sv_path_normalize_temp` of `eval_expr.c`. -/
def svPathNormalize (text : StringView) : StringView :=
  let (root, rest) := pathRoot text
  let rooted := match root with
    | .slash | .drive _ => true
    | .relative | .driveRelative _ => false
  let segments := ((pathSegments rest).foldl (pathStep rooted) []).reverse
  root.text ++ (sv "/").intercalate segments

/-- `eval_sv_is_abs_path`. -/
def svIsAbsPath : StringView → Bool
  | [] => false
  | [char] => isPathSep char
  | first :: second :: _ => second == ':' || isPathSep first

end Nobify.Evaluator
