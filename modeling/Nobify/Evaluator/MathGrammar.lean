import Nobify.Evaluator.Math
import Nobify.Lib.Spans

/-!
# Texts of expressions

Which texts are texts of an expression: the precedence and the left associativity of C, with blanks
between the tokens and parentheses where they are needed, or more of them. The parser computes what
the expression says, with the checked operations of the source, on each of its texts.
-/

namespace Nobify.Evaluator

open Lib
open List

variable {expression : MathExpr} {blanks text : StringView} {char : Char} {factor : MathParser}

/-! ## Expressions -/

/-- The operators in front of one operand. -/
inductive MathSign where
  | plus | minus | complement

/-- Expressions. -/
inductive MathExpr where
  | literal (number : Nat)
  | signed (sign : MathSign) (operand : MathExpr)
  | binary (op : MathOp) (left right : MathExpr)

/-- The character of a sign. -/
def MathSign.symbol : MathSign → Char
  | .plus => '+'
  | .minus => '-'
  | .complement => '~'

/-- The characters of an operator. -/
def MathOp.symbol : MathOp → StringView
  | .mul => ['*']
  | .div => ['/']
  | .mod => ['%']
  | .add => ['+']
  | .sub => ['-']
  | .shl => ['<', '<']
  | .shr => ['>', '>']
  | .bitand => ['&']
  | .bitxor => ['^']
  | .bitor => ['|']

/-- How loosely an operator binds. -/
def MathOp.level : MathOp → Nat
  | .mul | .div | .mod => 0
  | .add | .sub => 1
  | .shl | .shr => 2
  | .bitand => 3
  | .bitxor => 4
  | .bitor => 5

/-- There are six loops. -/
theorem MathOp.level_lt (op : MathOp) : op.level < 6 := by
  cases op <;> decide

namespace MathExpr

/-- The texts of an expression in which operators below a level may stand without parentheses. The
left operand of an operator may have operators of its level, the right operand only tighter ones. -/
inductive Prints : Nat → MathExpr → StringView → Prop where
  | literal {blanks : StringView} (blank : blanks.all isSpace = true) (number : Nat) :
    Prints 0 (.literal number) (blanks ++ Nat.toDigits 10 number)
  | signed {blanks text : StringView} {operand : MathExpr} (blank : blanks.all isSpace = true)
    (sign : MathSign) (prints : Prints 0 operand text) :
    Prints 0 (.signed sign operand) (blanks ++ sign.symbol :: text)
  | parens {before after text : StringView} {inner : MathExpr} (first : before.all isSpace = true)
    (last : after.all isSpace = true) (prints : Prints 6 inner text) :
    Prints 0 inner (before ++ '(' :: (text ++ (after ++ [')'])))
  | binary {blanks leftText rightText : StringView} {left right : MathExpr}
    (blank : blanks.all isSpace = true) (op : MathOp) (first : Prints (op.level + 1) left leftText)
    (second : Prints op.level right rightText) :
    Prints (op.level + 1) (.binary op left right) (leftText ++ (blanks ++ (op.symbol ++ rightText)))
  | looser {level : Nat} {inner : MathExpr} {text : StringView} (prints : Prints level inner text) :
    Prints (level + 1) inner text

/-- The texts of an expression. -/
def IsText (expression : MathExpr) (text : StringView) : Prop :=
  ∃ body blanks, Prints 6 expression body ∧ blanks.all isSpace = true ∧ text = body ++ blanks

/-- The text without blanks and with parentheses only where they are needed. -/
def print : Nat → MathExpr → StringView
  | _, .literal number => Nat.toDigits 10 number
  | _, .signed sign operand => sign.symbol :: print 0 operand
  | level, .binary op left right =>
    let text := print (op.level + 1) left ++ (op.symbol ++ print op.level right)
    if op.level < level then text else '(' :: (text ++ [')'])

theorem Prints.mono {level higher : Nat} (prints : Prints level expression text)
    (le : level ≤ higher) : Prints higher expression text := by
  induction le with
  | refl => exact prints
  | step _ ih => exact ih.looser

theorem prints_print (level : Nat) (expression : MathExpr) :
    Prints level expression (print level expression) := by
  induction expression generalizing level with
  | literal number =>
    have plain := @Prints.literal [] rfl number
    rw [nil_append] at plain
    exact plain.mono (Nat.zero_le level)
  | signed sign operand ih =>
    have plain := @Prints.signed [] _ _ rfl sign (ih 0)
    rw [nil_append] at plain
    exact plain.mono (Nat.zero_le level)
  | binary op left right ihLeft ihRight =>
    have body := @Prints.binary [] _ _ _ _ rfl op (ihLeft (op.level + 1)) (ihRight op.level)
    rw [nil_append] at body
    unfold print
    by_cases loose : op.level < level
    · rw [if_pos loose]
      exact body.mono loose
    · rw [if_neg loose]
      have whole := @Prints.parens [] [] _ _ rfl rfl (body.mono op.level_lt)
      rw [nil_append, nil_append] at whole
      exact whole.mono (Nat.zero_le level)

/-- The printed text is a text of the expression. -/
theorem isText_print (expression : MathExpr) : expression.IsText (print 6 expression) :=
  ⟨_, [], prints_print 6 expression, rfl, (append_nil _).symm⟩

end MathExpr

/-! ## What expressions compute -/

/-- What `math_parse_factor` does with a sign. -/
def mathSign : MathSign → Int → MathResult Int
  | .plus, value => .ok value
  | .minus, value => mathCheckedNeg value
  | .complement, value => .ok (~~~BitVec.ofInt 64 value).toInt

/-- What `math_parse_number` makes of a decimal literal with a value. -/
def mathLiteral (value : Int) : MathResult Int :=
  if InLong value then .ok value
  else .error (.reported [sv "Integer literal out of range in expression",
    sv "Invalid numeric token in expression"])

/-- An expression, computed with the operations of the source from left to right. -/
def MathExpr.compute : MathExpr → MathResult Int
  | .literal number => mathLiteral number
  | .signed sign operand => operand.compute >>= mathSign sign
  | .binary op left right =>
    left.compute >>= fun lhs => right.compute >>= fun rhs => mathApply op lhs rhs

/-! ## Reading numbers -/

/-- What may stand behind a literal. -/
def Apart (rest : StringView) : Prop :=
  ∀ char ∈ rest.head?, isDigit char = false ∧ char ≠ 'x' ∧ char ≠ 'X'

theorem isDigitOf_eq_false {base : Nat} (small : base ≤ 10) (other : isDigit char = false) :
    isDigitOf base char = false := by
  unfold isDigitOf hexDigit?
  rw [other]
  split
  · contradiction
  · split
    · rw [Option.any_some, decide_eq_false_iff_not]
      omega
    · split
      · rw [Option.any_some, decide_eq_false_iff_not]
        omega
      · rfl

theorem hexDigit?_of_isDigit (digit : isDigit char = true) :
    hexDigit? char = some (char.toNat - '0'.toNat) := by
  unfold hexDigit?
  rw [if_pos digit]

theorem isDigitOf_ten (digit : isDigit char = true) : isDigitOf 10 char = true := by
  have bound := toNat_of_isDigit digit
  have zero : '0'.toNat = 48 := rfl
  unfold isDigitOf
  rw [hexDigit?_of_isDigit digit, Option.any_some, decide_eq_true_eq]
  omega

theorem rowValue_ten {row : StringView} (digits : row.all isDigit = true) :
    rowValue 10 row = digitsValue row := by
  rw [all_eq_true] at digits
  unfold rowValue digitsValue
  apply foldl_ext
  intro value digit member
  rw [hexDigit?_of_isDigit (digits digit member)]
  rfl

/-- A row of digits in front of something else is taken whole. -/
theorem takeWhile_digits {base : Nat} {digits rest : StringView} (small : base ≤ 10)
    (all : ∀ digit ∈ digits, isDigitOf base digit = true) (apart : Apart rest) :
    (digits ++ rest).takeWhile (isDigitOf base) = digits := by
  refine Spans.takeWhile_eq_iff.mpr ⟨rest, rfl, all, fun char first => ?_⟩
  exact isDigitOf_eq_false small (apart char first).1

/-- A number that is not zero starts with another digit. -/
theorem toDigits_cons {number : Nat} (positive : 0 < number) :
    ∃ digit digits, Nat.toDigits 10 number = digit :: digits ∧ isDigit digit = true ∧
      digit ≠ '0' := by
  have all := all_isDigit_toDigits number
  have value := digitsValue_toDigits number
  cases shape : Nat.toDigits 10 number with
  | nil => exact absurd shape Nat.toDigits_ne_nil
  | cons digit digits =>
    rw [shape] at all value
    obtain ⟨here, rest⟩ := allDigits_cons.mp all
    refine ⟨digit, digits, rfl, here, ?_⟩
    intro zero
    have stripped : digitsValue (digit :: digits) = digitsValue digits := by
      rw [zero, digitsValue_cons]
      simp
    have below := digitsValue_lt rest
    have filled : 0 < digits.length := by
      cases digits with
      | nil =>
        have empty : digitsValue [] = 0 := rfl
        omega
      | cons next digits => exact Nat.succ_pos _
    have short := (Nat.length_toDigits_le_iff (by decide) filled).mpr
      (show number < 10 ^ digits.length by omega)
    rw [shape, length_cons] at short
    omega

/-- A printed number is read, up to its end. -/
theorem strtoll_toDigits (number : Nat) {rest : StringView} (apart : Apart rest) :
    strtoll (Nat.toDigits 10 number ++ rest) = some ((number : Int), rest) := by
  rcases Nat.eq_zero_or_pos number with rfl | positive
  · have zero : ∀ digit ∈ ['0'], isDigitOf 8 digit = true := by
      intro digit member
      obtain rfl := mem_singleton.mp member
      rfl
    have row : ('0' :: rest).takeWhile (isDigitOf 8) = ['0'] :=
      @takeWhile_digits 8 ['0'] rest (by decide) zero apart
    have base : numberBase ('0' :: rest) = (8, '0' :: rest) := by
      rcases rest with _ | ⟨mark, _ | ⟨digit, rest⟩⟩
      · rfl
      · rfl
      · have other := (apart mark rfl).2
        simp [numberBase, other]
    have unsigned : takeSign (('0' :: rest).dropWhile isSpace) = (false, '0' :: rest) := rfl
    rw [Nat.toDigits_zero]
    show strtoll ('0' :: rest) = _
    unfold strtoll
    rw [unsigned]
    dsimp only
    rw [base]
    dsimp only
    rw [row]
    rfl
  · have all := all_isDigit_toDigits number
    have value := digitsValue_toDigits number
    obtain ⟨digit, digits, shape, here, nonzero⟩ := toDigits_cons positive
    have row : (Nat.toDigits 10 number ++ rest).takeWhile (isDigitOf 10) =
        Nat.toDigits 10 number := by
      refine takeWhile_digits (by decide) ?_ apart
      intro digit member
      exact isDigitOf_ten (all_eq_true.mp all digit member)
    have base : numberBase (Nat.toDigits 10 number ++ rest) =
        (10, Nat.toDigits 10 number ++ rest) := by
      rw [shape, cons_append]
      unfold numberBase
      split
      · rename_i same
        exact absurd (List.cons.inj same).1 nonzero
      · rename_i same
        exact absurd (List.cons.inj same).1 nonzero
      · rfl
    have unsigned : takeSign ((Nat.toDigits 10 number ++ rest).dropWhile isSpace) =
        (false, Nat.toDigits 10 number ++ rest) := by
      rw [shape, cons_append, dropWhile_cons_of_neg (by
        rw [isSpace_of_isDigit here]
        decide)]
      unfold takeSign
      split
      · rename_i same
        rw [(List.cons.inj same).1] at here
        exact absurd here (by decide)
      · rename_i same
        rw [(List.cons.inj same).1] at here
        exact absurd here (by decide)
      · rfl
    unfold strtoll
    rw [unsigned]
    dsimp only
    rw [base]
    dsimp only
    rw [row, if_neg Nat.toDigits_ne_nil, if_neg (by decide), rowValue_ten all, value, drop_left]

/-! ## Reading on -/

/-- The parser of the operands below so many loops. -/
def mathParseLevel (factor : MathParser) : Nat → MathParser
  | 0 => factor
  | level + 1 => mathChain level (mathParseLevel factor level)

theorem mathParseExpr_eq (factor : MathParser) : mathParseExpr factor = mathParseLevel factor 6 :=
  rfl

theorem mathParseLevel_shortens (shortens : factor.Shortens) (level : Nat) :
    (mathParseLevel factor level).Shortens := by
  induction level with
  | zero => exact shortens
  | succ level ih => exact Operators.chain_shortens ih

theorem strtoll_length {rest : StringView} {value : Int} (read : strtoll text = some (value, rest))
    : rest.length ≤ text.length := by
  have sign : ∀ text : StringView, (takeSign text).2.length ≤ text.length := by
    intro text
    unfold takeSign
    split
    · exact Nat.le_succ _
    · exact Nat.le_succ _
    · exact Nat.le_refl _
  have base : ∀ text : StringView, (numberBase text).2.length ≤ text.length := by
    intro text
    unfold numberBase
    split
    · split
      · simp only [length_cons]
        omega
      · exact Nat.le_refl _
    · exact Nat.le_refl _
    · exact Nat.le_refl _
  simp only [strtoll] at read
  split at read
  · cases read
  · cases read
    have first := mathSkipWs_length text
    have second := sign (mathSkipWs text)
    have third := base (takeSign (mathSkipWs text)).2
    rw [length_drop]
    unfold mathSkipWs at first second third
    omega

theorem mathParseNumber_shortens : Parser.Shortens mathParseNumber := by
  intro text value rest parsed
  unfold mathParseNumber at parsed
  have skipped := mathSkipWs_length text
  split at parsed
  · cases parsed
  · rename_i number behind read
    split at parsed
    · cases parsed
      have shorter := strtoll_length read
      omega
    · cases parsed

theorem mathParseFactor_shortens (depth : Nat) : Parser.Shortens (mathParseFactor depth) := by
  induction depth with
  | zero =>
    intro text value rest parsed
    cases parsed
  | succ depth ih =>
    intro text value rest parsed
    have skipped := mathSkipWs_length text
    unfold mathParseFactor at parsed
    split at parsed
    · cases parsed
    · rename_i inner shape
      rw [shape, length_cons] at skipped
      obtain ⟨found, here, parsed⟩ := bind_eq_ok.mp parsed
      have first := mathParseLevel_shortens ih 6 inner found.1 found.2 here
      have second := mathSkipWs_length found.2
      dsimp only at parsed
      split at parsed
      · rename_i behind closed
        cases parsed
        rw [closed, length_cons] at second
        omega
      · cases parsed
    · rename_i inner shape
      rw [shape, length_cons] at skipped
      have first := ih inner value rest parsed
      omega
    · rename_i inner shape
      rw [shape, length_cons] at skipped
      obtain ⟨found, here, parsed⟩ := bind_eq_ok.mp parsed
      obtain ⟨negated, _, parsed⟩ := bind_eq_ok.mp parsed
      cases parsed
      have first := ih inner found.1 found.2 here
      omega
    · rename_i inner shape
      rw [shape, length_cons] at skipped
      obtain ⟨found, here, parsed⟩ := bind_eq_ok.mp parsed
      cases parsed
      have first := ih inner found.1 found.2 here
      omega
    · rename_i char inner _ _ _ _ shape
      rw [shape] at skipped
      have first := mathParseNumber_shortens (char :: inner) value rest parsed
      omega

/-- What follows an operand goes on at that level: nothing that belongs to the operand. -/
structure StopsAt (level : Nat) (rest : StringView) : Prop where
  apart : Apart rest
  closed : ∀ tighter, tighter + 1 < level → readOp tighter (mathSkipWs rest) = none

variable {level : Nat}

theorem StopsAt.tighter {rest : StringView} (stops : StopsAt (level + 1) rest) :
    StopsAt level rest :=
  ⟨stops.apart, fun tighter less => stops.closed tighter (Nat.lt_succ_of_lt less)⟩

/-- The loop around an operand that has been read. -/
def goOn (factor : MathParser) : Nat → Int → MathParser
  | 0, value, rest => .ok (value, rest)
  | level + 1, value, rest =>
    (mathOperators level).loop mathApply (mathParseLevel factor level) .exhausted rest.length value
      rest

theorem goOn_stop {rest : StringView} (none : readOp level (mathSkipWs rest) = none) (value : Int) :
    goOn factor (level + 1) value rest = .ok (value, mathSkipWs rest) :=
  Operators.loop_stop none rest.length value

/-- Behind a complete operand the loops of its operators end at once. -/
theorem goOn_loop (shortens : factor.Shortens) {rest : StringView}
    (stops : StopsAt (level + 1) rest) (value : Int) (next : Int → MathResult Int) :
    (goOn factor level value rest >>= fun found =>
        next found.1 >>= fun value => goOn factor (level + 1) value found.2) =
      next value >>= fun value => goOn factor (level + 1) value rest := by
  cases level with
  | zero => rfl
  | succ level =>
    rw [goOn_stop (stops.closed level (Nat.lt_succ_self _))]
    show (next value >>= fun value => goOn factor (level + 2) value (mathSkipWs rest)) = _
    congr 1
    funext value
    exact Operators.loop_skip (mathParseLevel_shortens shortens (level + 1)) value rest

/-! ## Blanks and symbols -/

theorem mathSkipWs_blanks (blank : blanks.all isSpace = true) (rest : StringView) :
    mathSkipWs (blanks ++ rest) = mathSkipWs rest := by
  unfold mathSkipWs
  rw [dropWhile_append_of_pos (all_eq_true.mp blank)]

theorem mathSkipWs_all (blank : blanks.all isSpace = true) : mathSkipWs blanks = [] := by
  have whole := mathSkipWs_blanks blank []
  rw [append_nil] at whole
  exact whole

theorem mathSkipWs_cons (visible : isSpace char = false) (rest : StringView) :
    mathSkipWs (char :: rest) = char :: rest := by
  unfold mathSkipWs
  rw [dropWhile_cons_of_neg (by rw [visible]; decide)]

theorem mathSkipWs_close (blank : blanks.all isSpace = true) (rest : StringView) :
    mathSkipWs (blanks ++ ')' :: rest) = ')' :: rest := by
  rw [mathSkipWs_blanks blank, mathSkipWs_cons (by decide)]

theorem mathSkipWs_symbol (blank : blanks.all isSpace = true) (op : MathOp) (rest : StringView) :
    mathSkipWs (blanks ++ (op.symbol ++ rest)) = op.symbol ++ rest := by
  rw [mathSkipWs_blanks blank]
  cases op <;> exact mathSkipWs_cons (by decide) _

/-- Its own loop reads an operator. -/
theorem readOp_symbol (op : MathOp) (rest : StringView) :
    readOp op.level (op.symbol ++ rest) = some (op, rest) := by
  cases op <;> rfl

/-- The loops of tighter operators do not read it. -/
theorem readOp_tighter {op : MathOp} {tighter : Nat} (less : tighter < op.level)
    (rest : StringView) : readOp tighter (op.symbol ++ rest) = none := by
  have bound := op.level_lt
  rcases tighter with _ | _ | _ | _ | _ | tighter
  all_goals
    cases op
    all_goals
      first
      | rfl
      | exact absurd less (by simp only [MathOp.level]; omega)

theorem readOp_close (level : Nat) (rest : StringView) : readOp level (')' :: rest) = none := by
  rcases level with _ | _ | _ | _ | _ | _ | level <;> rfl

theorem readOp_nil (level : Nat) : readOp level [] = none := by
  rcases level with _ | _ | _ | _ | _ | _ | level <;> rfl

theorem apart_blanks {rest : StringView} (blank : blanks.all isSpace = true) (apart : Apart rest) :
    Apart (blanks ++ rest) := by
  cases blanks with
  | nil => exact apart
  | cons char blanks =>
    have here : isSpace char = true := all_eq_true.mp blank char mem_cons_self
    intro other head
    obtain rfl : char = other := Option.some.inj head
    refine ⟨?_, ?_, ?_⟩
    · rw [Bool.eq_false_iff]
      intro digit
      rw [isSpace_of_isDigit digit] at here
      cases here
    · rintro rfl
      exact absurd here (by decide)
    · rintro rfl
      exact absurd here (by decide)

theorem apart_symbol (op : MathOp) (rest : StringView) : Apart (op.symbol ++ rest) := by
  intro char head
  cases op <;> cases head <;> decide

theorem stopsAt_symbol (blank : blanks.all isSpace = true) (op : MathOp) (rest : StringView) :
    StopsAt (op.level + 1) (blanks ++ (op.symbol ++ rest)) := by
  refine ⟨apart_blanks blank (apart_symbol op rest), ?_⟩
  intro tighter less
  rw [mathSkipWs_symbol blank]
  exact readOp_tighter (Nat.lt_of_succ_lt_succ less) rest

theorem stopsAt_close (blank : blanks.all isSpace = true) (level : Nat) (rest : StringView) :
    StopsAt level (blanks ++ ')' :: rest) := by
  refine ⟨apart_blanks blank ?_, fun tighter _ => by rw [mathSkipWs_close blank, readOp_close]⟩
  intro char head
  cases head
  decide

theorem stopsAt_blanks (blank : blanks.all isSpace = true) (level : Nat) :
    StopsAt level blanks := by
  refine ⟨?_, fun tighter _ => by rw [mathSkipWs_all blank, readOp_nil]⟩
  have padded := @apart_blanks blanks [] blank nofun
  rw [append_nil] at padded
  exact padded

/-! ## Parsing -/

section Factor

variable {before rest : StringView} (blank : before.all isSpace = true) (depth : Nat)

include blank

theorem mathParseFactor_literal (number : Nat) (apart : Apart rest) :
    mathParseFactor (depth + 1) (before ++ (Nat.toDigits 10 number ++ rest)) =
      mathLiteral number >>= fun value => .ok (value, rest) := by
  obtain ⟨digit, digits, shape⟩ : ∃ digit digits, Nat.toDigits 10 number = digit :: digits := by
    cases shape : Nat.toDigits 10 number with
    | nil => exact absurd shape Nat.toDigits_ne_nil
    | cons digit digits => exact ⟨digit, digits, rfl⟩
  have here : isDigit digit = true := by
    have all := all_isDigit_toDigits number
    rw [shape] at all
    exact (allDigits_cons.mp all).1
  have skipped : mathSkipWs (Nat.toDigits 10 number ++ rest) = Nat.toDigits 10 number ++ rest := by
    rw [shape]
    exact mathSkipWs_cons (isSpace_of_isDigit here) _
  have parsed : mathParseFactor (depth + 1) (before ++ (Nat.toDigits 10 number ++ rest)) =
      mathParseNumber (Nat.toDigits 10 number ++ rest) := by
    unfold mathParseFactor
    rw [mathSkipWs_blanks blank, skipped, shape, cons_append]
    split
    · contradiction
    all_goals
      first
      | rename_i same
        rw [(List.cons.inj same).1] at here
        exact absurd here (by decide)
      | rename_i same
        rw [same]
  have read := strtoll_toDigits number apart
  rw [parsed]
  unfold mathParseNumber mathLiteral
  rw [skipped, read]
  dsimp only
  by_cases long : InLong number
  · rw [if_pos long, if_pos long]
    rfl
  · rw [if_neg long, if_neg long]
    rfl

theorem mathParseFactor_sign (sign : MathSign) (text : StringView) :
    mathParseFactor (depth + 1) (before ++ sign.symbol :: text) =
      mathParseFactor depth text >>= fun found =>
        mathSign sign found.1 >>= fun value => .ok (value, found.2) := by
  conv_lhs => unfold mathParseFactor
  rw [mathSkipWs_blanks blank]
  cases sign with
  | plus =>
    rw [mathSkipWs_cons (by decide)]
    show mathParseFactor depth text = _
    cases mathParseFactor depth text with
    | error fault => rfl
    | ok found => rfl
  | minus =>
    rw [mathSkipWs_cons (by decide)]
    rfl
  | complement =>
    rw [mathSkipWs_cons (by decide)]
    rfl

theorem mathParseFactor_parens (text : StringView) :
    mathParseFactor (depth + 1) (before ++ '(' :: text) =
      mathParseLevel (mathParseFactor depth) 6 text >>= fun found =>
        match mathSkipWs found.2 with
        | ')' :: rest => .ok (found.1, rest)
        | _ => mathEmitError (sv "Missing ')' in expression") := by
  conv_lhs => unfold mathParseFactor
  rw [mathSkipWs_blanks blank, mathSkipWs_cons (by decide)]
  rfl

end Factor

/-- On a text of an expression the parser computes the expression, and goes on behind it. -/
theorem MathExpr.Prints.parse (prints : Prints level expression text) {depth : Nat}
    (deep : text.length ≤ depth) {rest : StringView} (stops : StopsAt level rest) :
    mathParseLevel (mathParseFactor depth) level (text ++ rest) =
      expression.compute >>= fun value => goOn (mathParseFactor depth) level value rest := by
  induction prints generalizing depth rest with
  | literal blank number =>
    have filled : 0 < (Nat.toDigits 10 number).length :=
      length_pos_iff.mpr Nat.toDigits_ne_nil
    rw [length_append] at deep
    obtain ⟨less, rfl⟩ : ∃ less, depth = less + 1 := ⟨depth - 1, by omega⟩
    rw [append_assoc]
    exact mathParseFactor_literal blank less number stops.apart
  | signed blank sign prints ih =>
    rw [length_append, length_cons] at deep
    obtain ⟨less, rfl⟩ : ∃ less, depth = less + 1 := ⟨depth - 1, by omega⟩
    rw [append_assoc, cons_append]
    have inner := @ih less (by omega) rest stops
    show mathParseFactor (less + 1) _ = _
    rw [mathParseFactor_sign blank less sign]
    show (mathParseLevel (mathParseFactor less) 0 _ >>= _) = _
    rw [inner, MathExpr.compute, bind_assoc, bind_assoc]
    rfl
  | @parens before after text inner first last prints ih =>
    simp only [length_append, length_cons] at deep
    obtain ⟨less, rfl⟩ : ∃ less, depth = less + 1 := ⟨depth - 1, by omega⟩
    have whole : before ++ '(' :: (text ++ (after ++ [')'])) ++ rest =
        before ++ '(' :: (text ++ (after ++ ')' :: rest)) := by
      simp only [append_assoc, cons_append, nil_append]
    have closing := mathSkipWs_close last rest
    have parsed := @ih less (by omega) _ (stopsAt_close last 6 rest)
    show mathParseFactor (less + 1) _ = _
    rw [whole, mathParseFactor_parens first less, parsed, bind_assoc]
    congr 1
    funext value
    have none : readOp 5 (mathSkipWs (after ++ ')' :: rest)) = none := by
      rw [closing, readOp_close]
    rw [goOn_stop none, closing]
    show (match mathSkipWs (')' :: rest) with
      | ')' :: rest => Except.ok (value, rest)
      | _ => mathEmitError (sv "Missing ')' in expression")) = _
    rw [mathSkipWs_cons (by decide)]
    rfl
  | @binary blanks leftText rightText left right blank op first second ihLeft ihRight =>
    simp only [length_append] at deep
    have shortens := mathParseFactor_shortens depth
    have whole : leftText ++ (blanks ++ (op.symbol ++ rightText)) ++ rest =
        leftText ++ (blanks ++ (op.symbol ++ (rightText ++ rest))) := by
      simp only [append_assoc]
    have leftParsed := @ihLeft depth (by omega) _ (stopsAt_symbol blank op (rightText ++ rest))
    have rightParsed := @ihRight depth (by omega) rest stops.tighter
    rw [whole, leftParsed, MathExpr.compute, bind_assoc]
    congr 1
    funext lhs
    have read : readOp op.level (mathSkipWs (blanks ++ (op.symbol ++ (rightText ++ rest)))) =
        some (op, rightText ++ rest) := by
      rw [mathSkipWs_symbol blank, readOp_symbol]
    have looped := @Operators.loop_read _ _ _ _ (mathOperators op.level) mathApply
      (mathParseLevel (mathParseFactor depth) op.level) .exhausted
      (mathParseLevel_shortens shortens op.level) _ _ _ read lhs
    refine Eq.trans looped ?_
    rw [rightParsed, bind_assoc, bind_assoc]
    congr 1
    funext rhs
    exact goOn_loop shortens stops rhs (mathApply op lhs)
  | @looser level inner text prints ih =>
    have shortens := mathParseFactor_shortens depth
    have parsed := @ih depth deep rest stops.tighter
    show (mathParseLevel (mathParseFactor depth) level (text ++ rest) >>= _) = _
    rw [parsed, bind_assoc]
    congr 1
    funext value
    exact goOn_loop shortens stops value fun value => .ok value

/-- The characters of expressions. -/
def isMathChar (char : Char) : Bool :=
  isSpace char || isDigit char || (sv "+-*/%<>&^|~()").contains char

theorem isMathChar_blanks (blank : blanks.all isSpace = true) : blanks.all isMathChar = true := by
  rw [all_eq_true] at blank ⊢
  intro char member
  unfold isMathChar
  rw [blank char member, Bool.true_or, Bool.true_or]

theorem isMathChar_digits {digits : StringView} (all : digits.all isDigit = true) :
    digits.all isMathChar = true := by
  rw [all_eq_true] at all ⊢
  intro char member
  unfold isMathChar
  rw [all char member, Bool.or_true, Bool.true_or]

theorem MathExpr.Prints.all_isMathChar (prints : Prints level expression text) :
    text.all isMathChar = true := by
  have open' : isMathChar '(' = true := by decide
  have close : isMathChar ')' = true := by decide
  induction prints with
  | literal blank number =>
    rw [all_append, isMathChar_blanks blank, isMathChar_digits (all_isDigit_toDigits number)]
    rfl
  | signed blank sign prints ih =>
    have symbol : isMathChar sign.symbol = true := by cases sign <;> decide
    rw [all_append, isMathChar_blanks blank, all_cons, symbol, ih]
    rfl
  | parens first last prints ih =>
    rw [all_append, isMathChar_blanks first, all_cons, open', all_append, ih,
      all_append, isMathChar_blanks last, all_cons, close]
    rfl
  | binary blank op first second ihLeft ihRight =>
    have symbol : op.symbol.all isMathChar = true := by cases op <;> decide
    rw [all_append, ihLeft, all_append, isMathChar_blanks blank, all_append, symbol, ihRight]
    rfl
  | looser prints ih => exact ih

theorem MathExpr.IsText.all_isMathChar (isText : expression.IsText text) :
    text.all isMathChar = true := by
  obtain ⟨body, blanks, prints, blank, rfl⟩ := isText
  rw [all_append, prints.all_isMathChar, isMathChar_blanks blank]
  rfl

/-- A text of an expression is a C string. -/
theorem MathExpr.IsText.svToCstr_eq (isText : expression.IsText text) : svToCstr text = text := by
  apply svToCstr_eq_self
  intro member
  have char := all_eq_true.mp isText.all_isMathChar _ member
  exact absurd char (by decide)

/-- A text of an expression has the value that the expression computes. -/
theorem mathEvaluate_isText (isText : expression.IsText text) :
    mathEvaluate text = expression.compute := by
  have cstr := isText.svToCstr_eq
  obtain ⟨body, blanks, prints, blank, rfl⟩ := isText
  have skipped := mathSkipWs_all blank
  have deep : body.length ≤ (body ++ blanks).length + 1 := by
    rw [length_append]
    omega
  have parsed := prints.parse deep (stopsAt_blanks blank 6)
  unfold mathEvaluate
  dsimp only
  rw [cstr, mathParseExpr_eq, parsed, bind_assoc]
  have ended : ∀ value, goOn (mathParseFactor ((body ++ blanks).length + 1)) 6 value blanks =
      .ok (value, []) := by
    intro value
    have none : readOp 5 (mathSkipWs blanks) = none := by rw [skipped, readOp_nil]
    rw [goOn_stop none, skipped]
  simp only [ended]
  exact bind_pure expression.compute

end Nobify.Evaluator
