import Nobify.Parser.Lexer
import Mathlib.Data.List.Count

/-!
# What the lexer reads

Every loop of the lexer advances by a number of bytes that depends only on the bytes from the
cursor on. The spans below compute these numbers; `lexerNext_visible` says that a call
skips the span of the trivia, reads the span of the token and ends right after it. The line and the column are
kept by every step of the cursor.
-/

namespace Nobify.Parser

open Spans
open List

variable {lexer : Lexer} {openLen : Nat} {rest : StringView} {char : Char}

/-! ## Movement of the cursor -/

@[simp] theorem content_advance (lexer : Lexer) : lexer.advance.content = lexer.content := by
  unfold Lexer.advance
  split
  · split <;> rfl
  · rfl

@[simp] theorem content_advanceN (lexer : Lexer) (count : Nat) :
    (lexer.advanceN count).content = lexer.content := by
  induction count generalizing lexer with
  | zero => rfl
  | succ count ih => rw [Lexer.advanceN, ih, content_advance]

theorem advanceN_add (lexer : Lexer) (first second : Nat) :
    lexer.advanceN (first + second) = (lexer.advanceN first).advanceN second := by
  induction first generalizing lexer with
  | zero => rw [Nat.zero_add]; rfl
  | succ first ih => rw [Nat.succ_add, Lexer.advanceN, Lexer.advanceN, ih]

theorem cursor_advance (inside : lexer.cursor < lexer.content.length) :
    lexer.advance.cursor = lexer.cursor + 1 := by
  unfold Lexer.advance
  rw [if_pos inside]
  split <;> rfl

theorem cursor_advanceN {count : Nat} (fits : lexer.cursor + count ≤ lexer.content.length) :
    (lexer.advanceN count).cursor = lexer.cursor + count := by
  induction count generalizing lexer with
  | zero => rfl
  | succ count ih =>
    have moved : lexer.advance.cursor = lexer.cursor + 1 := cursor_advance (by omega)
    rw [Lexer.advanceN, ih (by rw [moved, content_advance]; omega), moved]
    omega

theorem rest_advance (lexer : Lexer) : lexer.advance.rest = lexer.rest.drop 1 := by
  by_cases inside : lexer.cursor < lexer.content.length
  · rw [Lexer.rest, cursor_advance inside, content_advance, Lexer.rest, drop_drop]
  · have stays : lexer.advance = lexer := by rw [Lexer.advance, if_neg inside]
    have empty : lexer.rest = [] := drop_eq_nil_of_le (by omega)
    rw [stays, empty]
    rfl

theorem rest_advanceN (lexer : Lexer) (count : Nat) :
    (lexer.advanceN count).rest = lexer.rest.drop count := by
  induction count generalizing lexer with
  | zero => rfl
  | succ count ih => rw [Lexer.advanceN, ih, rest_advance, drop_drop, Nat.add_comm]

theorem length_rest (lexer : Lexer) :
    lexer.rest.length = lexer.content.length - lexer.cursor := length_drop

/-! ## The place of the cursor -/

/-- The number of bytes after the last line end. -/
def lineTail (text : StringView) : Nat := (text.reverse.takeWhile (· != '\n')).length

theorem lineTail_append (text : StringView) (char : Char) :
    lineTail (text ++ [char]) = if char = '\n' then 0 else lineTail text + 1 := by
  unfold lineTail
  rw [reverse_append, reverse_singleton, singleton_append, takeWhile_cons]
  by_cases line : char = '\n'
  · simp [line]
  · simp [line]

/-- The line and the start of the line are those of the cursor, which is not past the end. -/
structure Placed (lexer : Lexer) : Prop where
  bound : lexer.cursor ≤ lexer.content.length
  lines : lexer.line = 1 + (lexer.content.take lexer.cursor).count '\n'
  column : lexer.bol + lineTail (lexer.content.take lexer.cursor) = lexer.cursor

theorem placed_lexerInit (content : StringView) : Placed (lexerInit content) where
  bound := Nat.zero_le _
  lines := by simp [lexerInit]
  column := by simp [lexerInit, lineTail]

/-- One step of the cursor keeps its place. -/
theorem Placed.advance (placed : Placed lexer) : Placed lexer.advance := by
  by_cases inside : lexer.cursor < lexer.content.length
  · have here : peek lexer.rest 0 = lexer.content[lexer.cursor] := by
      simp [peek, Lexer.rest, inside]
    have read : lexer.content.take (lexer.cursor + 1) =
        lexer.content.take lexer.cursor ++ [lexer.content[lexer.cursor]] :=
      take_succ_eq_append_getElem inside
    have lines := placed.lines
    have column := placed.column
    unfold Lexer.advance
    rw [if_pos inside, here]
    by_cases line : lexer.content[lexer.cursor] = '\n'
    · rw [if_pos line]
      constructor
      · exact inside
      · change lexer.line + 1 = 1 + (lexer.content.take (lexer.cursor + 1)).count '\n'
        rw [read, count_append, line, lines]
        rfl
      · change lexer.cursor + 1 + lineTail (lexer.content.take (lexer.cursor + 1)) = _
        rw [read, lineTail_append, if_pos line]
    · rw [if_neg line]
      constructor
      · exact inside
      · change lexer.line = 1 + (lexer.content.take (lexer.cursor + 1)).count '\n'
        rw [read, count_append, count_singleton, lines]
        simp [line]
      · change lexer.bol + lineTail (lexer.content.take (lexer.cursor + 1)) = lexer.cursor + 1
        rw [read, lineTail_append, if_neg line]
        omega
  · have stays : lexer.advance = lexer := by rw [Lexer.advance, if_neg inside]
    rw [stays]
    exact placed

/-- Every movement of the cursor keeps its place. -/
theorem Placed.advanceN (placed : Placed lexer) (count : Nat) : Placed (lexer.advanceN count) := by
  induction count generalizing lexer with
  | zero => exact placed
  | succ count ih => exact ih placed.advance

/-! ## Spans -/

/-- How far a line comment reaches. -/
def lineSpan (rest : StringView) : Nat := (rest.takeWhile (· != '\n')).length

/-- How far a comment reaches after its `#`. -/
def commentSpan (rest : StringView) : Nat :=
  let openLen := getBracketOpenLen rest
  if 0 < openLen then openLen + untilCloser (bracketCloser openLen) (rest.drop openLen)
  else lineSpan rest

/-- What one turn of the loop over trivia skips. -/
def triviaStep (rest : StringView) : Nat :=
  match rest with
  | [] => 0
  | char :: others =>
    if isSpace char then 1
    else if char = '#' then 1 + commentSpan others
    else continuationLen rest

/-- What so many turns of the loop over trivia skip. -/
def triviaTurns : Nat → StringView → Nat
  | 0, _ => 0
  | turns + 1, rest =>
    if triviaStep rest = 0 then 0
    else triviaStep rest + triviaTurns turns (rest.drop (triviaStep rest))

/-- The length of the trivia at the front. -/
def triviaSpan (rest : StringView) : Nat := triviaTurns rest.length rest

/-- How far an identifier reaches. -/
def identifierSpan : StringView → Nat
  | [] => 0
  | char :: rest =>
    if endsIdentifier (char :: rest) then 0
    else if char == '\\' then
      match rest with
      | [] => 1
      | _ :: others => identifierSpan others + 2
    else identifierSpan rest + 1

/-- Kind and length of a delimited token. -/
def scanDelimited (delims : Delims Char) (openLen : Nat) (kind : TokenKind) (rest : StringView) :
    TokenKind × Nat :=
  let inside := nested delims (rest.drop openLen) 1
  (if inside.2 = 0 then kind else .invalid, openLen + inside.1)

/-- Kind and length of a raw string. -/
def scanRaw (openLen : Nat) (rest : StringView) : TokenKind × Nat :=
  let len := openLen + untilCloser (bracketCloser openLen) (rest.drop openLen)
  (if rest.length ≤ len ∧ ¬ (bracketCloser openLen).isSuffixOf rest then .invalid
    else .rawString, len)

/-- Kind and length of the token at the front. -/
def scan (rest : StringView) : TokenKind × Nat :=
  let char := peek rest 0
  if char = '(' then (.lparen, 1)
  else if char = ')' then (.rparen, 1)
  else if char = ';' then (.semicolon, 1)
  else if char = '"' then scanDelimited quoteDelims 1 .string rest
  else if 0 < getBracketOpenLen rest then scanRaw (getBracketOpenLen rest) rest
  else if char = '$' then
    if peek rest 1 = '<' then scanDelimited genexDelims 2 .genExp rest
    else if 0 < checkVarStart rest then scanDelimited varDelims (checkVarStart rest) .var rest
    else (.identifier, 1)
  else (.identifier, identifierSpan rest)

/-! ## The loops move by their spans -/

theorem length_bracketCloser (long : 2 ≤ openLen) : (bracketCloser openLen).length = openLen := by
  simp only [bracketCloser, length_cons, length_append, length_replicate, length_nil]
  omega

/-- A bracket opener has its two brackets. -/
theorem two_le_getBracketOpenLen (opened : 0 < getBracketOpenLen rest) :
    2 ≤ getBracketOpenLen rest := by
  unfold getBracketOpenLen at opened ⊢
  split at opened
  · dsimp only at opened ⊢
    split at opened
    · rename_i bracket
      rw [if_pos bracket]
      omega
    · exact absurd opened (Nat.lt_irrefl 0)
  · exact absurd opened (Nat.lt_irrefl 0)

theorem skipBracketLoop_eq (long : 2 ≤ openLen) (rest : StringView) (lexer : Lexer) :
    skipBracketLoop openLen rest lexer =
      lexer.advanceN (untilCloser (bracketCloser openLen) rest) := by
  induction rest generalizing lexer with
  | nil => rfl
  | cons char rest ih =>
    rw [skipBracketLoop, untilCloser]
    split
    · rw [length_bracketCloser long]
    · rw [ih]
      rfl

theorem skipLineLoop_eq (rest : StringView) (lexer : Lexer) :
    skipLineLoop rest lexer = lexer.advanceN (lineSpan rest) := by
  induction rest generalizing lexer with
  | nil => rfl
  | cons char rest ih =>
    rw [skipLineLoop, lineSpan, takeWhile_cons]
    by_cases line : char = '\n'
    · simp [line, Lexer.advanceN]
    · have other : (char != '\n') = true := bne_iff_ne.mpr line
      rw [if_neg line, if_pos other, ih]
      rfl

theorem skipComment_eq (lexer : Lexer) :
    lexer.skipComment = lexer.advanceN (commentSpan lexer.rest) := by
  unfold Lexer.skipComment commentSpan
  dsimp only
  by_cases opened : 0 < getBracketOpenLen lexer.rest
  · rw [if_pos opened, if_pos opened, Lexer.skipBracketContent,
      skipBracketLoop_eq (two_le_getBracketOpenLen opened), rest_advanceN, ← advanceN_add]
  · rw [if_neg opened, if_neg opened, skipLineLoop_eq]

theorem triviaStep_space (others : StringView) (space : isSpace char = true) :
    triviaStep (char :: others) = 1 := by
  rw [triviaStep, if_pos space]

theorem triviaStep_comment (others : StringView) :
    triviaStep ('#' :: others) = 1 + commentSpan others := by
  rw [triviaStep, if_neg (by decide), if_pos rfl]

theorem triviaStep_other (others : StringView) (plain : ¬ isSpace char = true) (code : char ≠ '#') :
    triviaStep (char :: others) = continuationLen (char :: others) := by
  rw [triviaStep, if_neg plain, if_neg code]

/-- A turn of the loop over trivia advances by its step, and breaks when there is none. -/
theorem skipTriviaStep_eq (lexer : Lexer) : lexer.skipTriviaStep =
      if triviaStep lexer.rest = 0 then none
      else some (lexer.advanceN (triviaStep lexer.rest)) := by
  unfold Lexer.skipTriviaStep
  cases front : lexer.rest with
  | nil => rfl
  | cons char others =>
    dsimp only
    by_cases space : isSpace char = true
    · rw [if_pos space, triviaStep_space others space, if_neg Nat.one_ne_zero]
      rfl
    · rw [if_neg space]
      by_cases comment : char = '#'
      · have after : lexer.advance.rest = others := by rw [rest_advance, front]; rfl
        rw [if_pos comment, comment, triviaStep_comment, skipComment_eq, after,
          if_neg (by omega), advanceN_add]
        rfl
      · rw [if_neg comment, triviaStep_other others space comment]
        cases continuationLen (char :: others) with
        | zero => rfl
        | succ count => rfl

theorem skipTriviaLoop_eq (turns : Nat) (lexer : Lexer) :
    skipTriviaLoop turns lexer = lexer.advanceN (triviaTurns turns lexer.rest) := by
  induction turns generalizing lexer with
  | zero => rfl
  | succ turns ih =>
    rw [skipTriviaLoop, skipTriviaStep_eq, triviaTurns]
    by_cases stops : triviaStep lexer.rest = 0
    · rw [if_pos stops, if_pos stops]
      rfl
    · rw [if_neg stops, if_neg stops, advanceN_add, ← rest_advanceN]
      exact ih _

/-- Skipping trivia advances by the span of the trivia. -/
theorem skipTrivia_eq (lexer : Lexer) :
    lexer.skipTrivia = lexer.advanceN (triviaSpan lexer.rest) := skipTriviaLoop_eq _ lexer

/-- The loops over delimited text count the bytes that they advance by. -/
theorem delimitedLoop_eq (delims : Delims Char) (rest : StringView) (lexer : Lexer)
    (depth len : Nat) :
    delimitedLoop delims rest lexer depth len =
      (lexer.advanceN (nested delims rest depth).1, (nested delims rest depth).2,
        len + (nested delims rest depth).1) := by
  fun_induction delimitedLoop delims rest lexer depth len with
  | case1 lexer depth len => rfl
  | case2 char rest lexer len =>
    rw [nested_zero]
    rfl
  | case3 char lexer depth len inside hides =>
    rw [nested.eq_def]
    simp only [if_neg inside, if_pos hides]
    rfl
  | case4 char lexer depth len inside hides next others ih =>
    rw [ih, nested_hidden next others inside hides]
    have count : len + 2 + (nested delims others depth).1 =
        len + ((nested delims others depth).1 + 2) := by omega
    rw [count]
    rfl
  | case5 char rest lexer depth len inside plain ih =>
    rw [ih, nested_plain rest inside plain]
    have count : len + 1 + (nested delims rest (delims.depthAfter depth char)).1 =
        len + ((nested delims rest (delims.depthAfter depth char)).1 + 1) := by omega
    rw [count]
    rfl

/-- The loop over an identifier counts the bytes that it advances by. -/
theorem identifierLoop_eq (rest : StringView) (lexer : Lexer) (len : Nat) :
    identifierLoop rest lexer len =
      (lexer.advanceN (identifierSpan rest), len + identifierSpan rest) := by
  fun_induction identifierLoop rest lexer len with
  | case1 lexer len => rfl
  | case2 char rest lexer len ends =>
    rw [identifierSpan.eq_def]
    simp only [if_pos ends]
    rfl
  | case3 char lexer len hides ends =>
    rw [identifierSpan.eq_def]
    simp only [if_neg ends, if_pos hides]
    rfl
  | case4 char lexer len hides next others ends ih =>
    rw [ih, identifierSpan.eq_def (char :: next :: others)]
    simp only [if_neg ends, if_pos hides]
    have count : len + 2 + identifierSpan others = len + (identifierSpan others + 2) := by omega
    rw [count]
    rfl
  | case5 char rest lexer len ends plain ih =>
    rw [ih, identifierSpan.eq_def (char :: rest)]
    simp only [if_neg ends, if_neg plain]
    have count : len + 1 + identifierSpan rest = len + (identifierSpan rest + 1) := by omega
    rw [count]
    rfl

/-! ## A call of the lexer -/

theorem delimited_eq (lexer : Lexer) (delims : Delims Char) (openLen : Nat) (kind : TokenKind)
    (hasSpaceLeft : Bool) :
    lexer.delimited delims openLen kind hasSpaceLeft =
      (lexer.token (scanDelimited delims openLen kind lexer.rest).1
        (scanDelimited delims openLen kind lexer.rest).2 hasSpaceLeft,
        lexer.advanceN (scanDelimited delims openLen kind lexer.rest).2) := by
  simp only [Lexer.delimited, scanDelimited, delimitedLoop_eq, rest_advanceN, advanceN_add]

/-- The check of the source on the end of its input is one on the bytes from the token on. -/
theorem hasCloser_iff (long : 2 ≤ openLen) (fits : openLen ≤ lexer.rest.length) :
    hasCloser lexer.content openLen = (bracketCloser openLen).isSuffixOf lexer.rest := by
  have split : lexer.content.take lexer.cursor ++ lexer.rest = lexer.content :=
    take_append_drop _ _
  have size : lexer.content.length = (lexer.content.take lexer.cursor).length +
      lexer.rest.length := by rw [← length_append, split]
  have whole : openLen ≤ lexer.content.length := by omega
  rw [Bool.eq_iff_iff, isSuffixOf_iff_suffix]
  simp only [hasCloser, whole, decide_true, Bool.true_and, beq_iff_eq]
  constructor
  · intro closed
    have suffix : bracketCloser openLen <:+ lexer.content := closed ▸ drop_suffix _ _
    have other : lexer.rest <:+ lexer.content := drop_suffix _ _
    exact suffix_of_suffix_length_le suffix other (by rw [length_bracketCloser long]; exact fits)
  · intro closed
    have suffix : bracketCloser openLen <:+ lexer.content :=
      closed.trans (drop_suffix _ _)
    have cut := suffix_iff_eq_drop.mp suffix
    rw [length_bracketCloser long] at cut
    exact cut.symm

/-- A bracket opener lies in the bytes that it was found in. -/
theorem getBracketOpenLen_le (rest : StringView) : getBracketOpenLen rest ≤ rest.length := by
  unfold getBracketOpenLen
  split
  · rename_i others
    dsimp only
    split
    · rename_i bracket
      have inside : (others.takeWhile (· == '=')).length < others.length := by
        by_contra outside
        rw [drop_eq_nil_of_le (by omega)] at bracket
        simp at bracket
      simp only [length_cons]
      omega
    · exact Nat.zero_le _
  · exact Nat.zero_le _

theorem rawString_eq (long : 2 ≤ openLen) (fits : openLen ≤ lexer.rest.length) (hasSpaceLeft : Bool)
    : lexer.rawString openLen hasSpaceLeft =
      (lexer.token (scanRaw openLen lexer.rest).1 (scanRaw openLen lexer.rest).2 hasSpaceLeft,
        lexer.advanceN (scanRaw openLen lexer.rest).2) := by
  have content := untilCloser_le (bracketCloser openLen) (lexer.rest.drop openLen)
  have size := length_rest lexer
  have room : lexer.rest.length = openLen + (lexer.rest.drop openLen).length := by
    rw [length_drop]
    omega
  have inside : (lexer.advanceN openLen).cursor = lexer.cursor + openLen :=
    cursor_advanceN (by omega)
  have after : (lexer.advanceN openLen).skipBracketContent openLen =
      lexer.advanceN (scanRaw openLen lexer.rest).2 := by
    rw [Lexer.skipBracketContent, skipBracketLoop_eq long, rest_advanceN, ← advanceN_add]
    rfl
  have final : (lexer.advanceN (scanRaw openLen lexer.rest).2).cursor =
      lexer.cursor + (scanRaw openLen lexer.rest).2 :=
    cursor_advanceN (by simp only [scanRaw]; omega)
  have len : openLen + (lexer.cursor + (scanRaw openLen lexer.rest).2 -
      (lexer.cursor + openLen)) = (scanRaw openLen lexer.rest).2 := by
    simp only [scanRaw]
    omega
  have atEnd : lexer.content.length ≤ lexer.cursor + (scanRaw openLen lexer.rest).2 ↔
      lexer.rest.length ≤ (scanRaw openLen lexer.rest).2 := by omega
  unfold Lexer.rawString
  simp only [after, content_advanceN, inside, final, len, atEnd, hasCloser_iff long fits]
  rfl

/-- The branches of `lexer_next` return the token that was scanned and stop after it. -/
theorem visible_eq (plain : isSpace (peek lexer.rest 0) = false) (hasSpaceLeft : Bool) :
    lexer.visible hasSpaceLeft = (lexer.token (scan lexer.rest).1 (scan lexer.rest).2 hasSpaceLeft,
        lexer.advanceN (scan lexer.rest).2) := by
  unfold Lexer.visible scan
  dsimp only
  by_cases lparen : peek lexer.rest 0 = '('
  · simp only [if_pos lparen]
    rfl
  by_cases rparen : peek lexer.rest 0 = ')'
  · simp only [if_neg lparen, if_pos rparen]
    rfl
  by_cases semicolon : peek lexer.rest 0 = ';'
  · simp only [if_neg lparen, if_neg rparen, if_pos semicolon]
    rfl
  by_cases quote : peek lexer.rest 0 = '"'
  · simp only [if_neg lparen, if_neg rparen, if_neg semicolon, if_pos quote]
    exact delimited_eq lexer quoteDelims 1 .string hasSpaceLeft
  by_cases bracket : 0 < getBracketOpenLen lexer.rest
  · simp only [if_neg lparen, if_neg rparen, if_neg semicolon, if_neg quote, if_pos bracket]
    exact rawString_eq (two_le_getBracketOpenLen bracket) (getBracketOpenLen_le _) hasSpaceLeft
  by_cases dollar : peek lexer.rest 0 = '$'
  · simp only [if_neg lparen, if_neg rparen, if_neg semicolon, if_neg quote, if_neg bracket,
      if_pos dollar]
    by_cases genex : peek lexer.rest 1 = '<'
    · simp only [if_pos genex]
      exact delimited_eq lexer genexDelims 2 .genExp hasSpaceLeft
    by_cases var : 0 < checkVarStart lexer.rest
    · simp only [if_neg genex, if_pos var]
      exact delimited_eq lexer varDelims _ .var hasSpaceLeft
    · simp only [if_neg genex, if_neg var]
      rfl
  · simp only [if_neg lparen, if_neg rparen, if_neg semicolon, if_neg quote, if_neg bracket,
      if_neg dollar, plain, Bool.false_eq_true, not_false_eq_true, if_true, identifierLoop_eq,
      Nat.zero_add]

/-! ## The length of a token -/

/-- Only what is there is read as something other than zero. -/
theorem lt_of_peek {offset : Nat} (here : peek rest offset = char) (proper : char ≠ '\x00') :
    offset < rest.length := by
  by_contra outside
  apply proper
  have nothing : rest[offset]? = none := List.getElem?_eq_none (by omega)
  rw [← here, peek, getD_eq_getElem?_getD, nothing]
  rfl

theorem checkVarStart_le (rest : StringView) : checkVarStart rest ≤ rest.length := by
  unfold checkVarStart
  split
  · rename_i others
    dsimp only
    split
    · rename_i brace
      have inside := lt_of_peek brace (by decide)
      simp only [length_cons]
      omega
    · split
      · exact Nat.zero_le _
      · split
        · rename_i brace
          have inside := lt_of_peek brace (by decide)
          simp only [length_cons]
          omega
        · exact Nat.zero_le _
  · exact Nat.zero_le _

theorem identifierSpan_le (rest : StringView) : identifierSpan rest ≤ rest.length := by
  fun_induction identifierSpan rest with
  | case1 => exact Nat.le_refl 0
  | case2 => exact Nat.zero_le _
  | case3 => exact Nat.le_refl 1
  | case4 char hides next others ends ih =>
    simp only [length_cons]
    omega
  | case5 char rest ends plain ih =>
    simp only [length_cons]
    omega

theorem scanDelimited_le (delims : Delims Char) (kind : TokenKind) (fits : openLen ≤ rest.length) :
    (scanDelimited delims openLen kind rest).2 ≤ rest.length := by
  have inside := nested_le delims (rest.drop openLen) 1
  rw [length_drop] at inside
  simp only [scanDelimited]
  omega

theorem scanRaw_le (fits : openLen ≤ rest.length) : (scanRaw openLen rest).2 ≤ rest.length := by
  have inside := untilCloser_le (bracketCloser openLen) (rest.drop openLen)
  rw [length_drop] at inside
  simp only [scanRaw]
  omega

/-- A token ends before the input does. -/
theorem scan_le (some : rest ≠ []) : (scan rest).2 ≤ rest.length := by
  have one : 1 ≤ rest.length := length_pos_of_ne_nil some
  unfold scan
  dsimp only
  split
  · exact one
  split
  · exact one
  split
  · exact one
  split
  · exact scanDelimited_le _ _ one
  split
  · exact scanRaw_le (getBracketOpenLen_le rest)
  split
  · split
    · rename_i genex
      exact scanDelimited_le _ _ (lt_of_peek genex (by decide))
    · split
      · exact scanDelimited_le _ _ (checkVarStart_le rest)
      · exact one
  · exact identifierSpan_le rest

/-- Nothing ends an identifier at a byte that starts one. -/
theorem identifierSpan_pos {others : StringView} (goes : endsIdentifier (char :: others) = false) :
    0 < identifierSpan (char :: others) := by
  rw [identifierSpan.eq_def]
  simp only [goes, Bool.false_eq_true, if_false]
  split
  · split <;> omega
  · omega

/-- A byte that starts neither trivia nor another token starts an identifier. -/
theorem endsIdentifier_eq_false {others : StringView} (plain : triviaStep (char :: others) = 0)
    (lparen : char ≠ '(') (rparen : char ≠ ')') (semicolon : char ≠ ';') (quote : char ≠ '"')
    (dollar : char ≠ '$') :
    endsIdentifier (char :: others) = false := by
  have space : isSpace char = false := by
    cases known : isSpace char with
    | false => rfl
    | true =>
      rw [triviaStep_space others known] at plain
      exact absurd plain Nat.one_ne_zero
  have comment : char ≠ '#' := by
    intro known
    rw [known, triviaStep_comment] at plain
    omega
  have straight : continuationLen (char :: others) = 0 := by
    rw [← triviaStep_other others (by rw [space]; decide) comment]
    exact plain
  have front : peek (char :: others) 0 = char := rfl
  simp [endsIdentifier, front, space, comment, straight, lparen, rparen, semicolon, quote, dollar]

/-- A byte that starts no trivia starts a token, so the last branch of the source is never
reached. -/
theorem scan_pos (some : rest ≠ []) (plain : triviaStep rest = 0) : 0 < (scan rest).2 := by
  cases rest with
  | nil => exact absurd rfl some
  | cons char others =>
    unfold scan
    have front : peek (char :: others) 0 = char := rfl
    simp only [front]
    split
    · exact Nat.one_pos
    split
    · exact Nat.one_pos
    split
    · exact Nat.one_pos
    split
    · simp only [scanDelimited]
      omega
    split
    · simp only [scanRaw]
      omega
    split
    · split
      · simp only [scanDelimited]
        omega
      · split
        · simp only [scanDelimited]
          omega
        · exact Nat.one_pos
    · rename_i lparen rparen semicolon quote bracket dollar
      exact identifierSpan_pos (endsIdentifier_eq_false plain lparen rparen semicolon quote dollar)

theorem scan_ne_end (rest : StringView) : (scan rest).1 ≠ .end := by
  unfold scan scanDelimited scanRaw
  dsimp only
  repeat' split
  all_goals exact TokenKind.noConfusion

/-! ## The length of trivia -/

theorem continuationLen_le (rest : StringView) : continuationLen rest ≤ rest.length := by
  unfold continuationLen
  split
  · split
    · rename_i feed
      exact lt_of_peek feed (by decide)
    · split
      · rename_i feeds
        exact lt_of_peek feeds.2 (by decide)
      · exact Nat.zero_le _
  · exact Nat.zero_le _

/-- A continuation is a backslash with one of the two line ends after it. -/
theorem eq_of_continuationLen (more : continuationLen rest ≠ 0) :
    (∃ others, rest = '\\' :: '\n' :: others ∧ continuationLen rest = 2) ∨
      ∃ others, rest = '\\' :: '\r' :: '\n' :: others ∧ continuationLen rest = 3 := by
  unfold continuationLen at more ⊢
  by_cases slash : peek rest 0 = '\\'
  · rw [if_pos slash] at more ⊢
    have first := lt_of_peek slash (by decide)
    by_cases feed : peek rest 1 = '\n'
    · have second := lt_of_peek feed (by decide)
      match rest with
      | [] => exact absurd first (Nat.lt_irrefl 0)
      | [_] => exact absurd second (Nat.lt_irrefl 1)
      | _ :: _ :: others =>
        rw [if_pos feed]
        exact Or.inl ⟨others, by rw [← slash, ← feed]; rfl, rfl⟩
    · rw [if_neg feed] at more ⊢
      by_cases feeds : peek rest 1 = '\r' ∧ peek rest 2 = '\n'
      · have third := lt_of_peek feeds.2 (by decide)
        match rest with
        | [] => exact absurd first (Nat.lt_irrefl 0)
        | [_] => exact absurd third (by simp)
        | [_, _] => exact absurd third (Nat.lt_irrefl 2)
        | _ :: _ :: _ :: others =>
          rw [if_pos feeds]
          exact Or.inr ⟨others, by rw [← slash, ← feeds.1, ← feeds.2]; rfl, rfl⟩
      · exact absurd (if_neg feeds) more
  · exact absurd (if_neg slash) more

theorem commentSpan_le (rest : StringView) : commentSpan rest ≤ rest.length := by
  unfold commentSpan
  dsimp only
  split
  · have opener := getBracketOpenLen_le rest
    have inside := untilCloser_le (bracketCloser (getBracketOpenLen rest))
      (rest.drop (getBracketOpenLen rest))
    rw [length_drop] at inside
    omega
  · exact (List.takeWhile_prefix _).length_le

theorem triviaStep_le (rest : StringView) : triviaStep rest ≤ rest.length := by
  unfold triviaStep
  split
  · exact Nat.zero_le _
  · rename_i char others
    split
    · simp only [length_cons]
      omega
    · split
      · have comment := commentSpan_le others
        simp only [length_cons]
        omega
      · exact continuationLen_le _

theorem triviaTurns_le (turns : Nat) (rest : StringView) :
    triviaTurns turns rest ≤ rest.length := by
  induction turns generalizing rest with
  | zero => exact Nat.zero_le _
  | succ turns ih =>
    rw [triviaTurns]
    split
    · exact Nat.zero_le _
    · have step := triviaStep_le rest
      have later := ih (rest.drop (triviaStep rest))
      rw [length_drop] at later
      omega

/-- More turns than bytes change nothing. -/
theorem triviaTurns_enough {turns more : Nat} (enough : rest.length ≤ turns)
    (others : rest.length ≤ more) : triviaTurns turns rest = triviaTurns more rest := by
  induction turns generalizing more rest with
  | zero =>
    have nothing : rest = [] := length_eq_zero_iff.mp (by omega)
    rw [nothing]
    cases more <;> rfl
  | succ turns ih =>
    cases more with
    | zero =>
      have nothing : rest = [] := length_eq_zero_iff.mp (by omega)
      rw [nothing]
      rfl
    | succ more =>
      rw [triviaTurns, triviaTurns]
      by_cases stops : triviaStep rest = 0
      · rw [if_pos stops, if_pos stops]
      · have shorter : (rest.drop (triviaStep rest)).length < rest.length := by
          have step := triviaStep_le rest
          rw [length_drop]
          omega
        rw [if_neg stops, if_neg stops, ih (by omega) (by omega : _ ≤ more)]

/-- The loop over trivia, one turn at a time. -/
theorem triviaSpan_eq (rest : StringView) : triviaSpan rest = if triviaStep rest = 0 then 0
      else triviaStep rest + triviaSpan (rest.drop (triviaStep rest)) := by
  have shorter : (rest.drop (triviaStep rest)).length ≤ rest.length := by
    rw [length_drop]
    omega
  rw [triviaSpan, triviaTurns_enough (Nat.le_refl _) (Nat.le_succ rest.length), triviaTurns,
    triviaTurns_enough shorter (Nat.le_refl _)]
  rfl

theorem triviaSpan_le (rest : StringView) : triviaSpan rest ≤ rest.length :=
  triviaTurns_le _ rest

/-- No trivia follows the trivia that was skipped. -/
theorem triviaStep_drop_triviaSpan (rest : StringView) :
    triviaStep (rest.drop (triviaSpan rest)) = 0 := by
  generalize size : rest.length = count
  induction count using Nat.strong_induction_on generalizing rest with
  | _ count ih =>
    rw [triviaSpan_eq]
    by_cases stops : triviaStep rest = 0
    · rw [if_pos stops]
      exact stops
    · rw [if_neg stops, ← drop_drop]
      have step := triviaStep_le rest
      exact ih _ (by rw [length_drop]; omega) _ rfl

/-- No trivia starts where the trivia ends. -/
theorem triviaStep_skipTrivia (lexer : Lexer) : triviaStep lexer.skipTrivia.rest = 0 := by
  rw [skipTrivia_eq, rest_advanceN]
  exact triviaStep_drop_triviaSpan lexer.rest

/-- A call after which only trivia is left returns the end token. -/
theorem lexerNext_end (done : lexer.skipTrivia.rest = []) : lexerNext lexer =
      (lexer.skipTrivia.token .end 0 (decide (lexer.cursor < lexer.skipTrivia.cursor)),
        lexer.skipTrivia) := by
  unfold lexerNext
  dsimp only
  rw [if_pos (drop_eq_nil_iff.mp done)]

/-- A call skips the trivia, returns the token that starts there and stops right after it. -/
theorem lexerNext_visible (more : lexer.skipTrivia.rest ≠ []) : lexerNext lexer =
      (lexer.skipTrivia.token (scan lexer.skipTrivia.rest).1 (scan lexer.skipTrivia.rest).2
        (decide (lexer.cursor < lexer.skipTrivia.cursor)),
        lexer.skipTrivia.advanceN (scan lexer.skipTrivia.rest).2) := by
  have stops := triviaStep_skipTrivia lexer
  have inside : ¬ lexer.skipTrivia.content.length ≤ lexer.skipTrivia.cursor :=
    fun past => more (drop_eq_nil_of_le past)
  unfold lexerNext
  dsimp only
  rw [if_neg inside]
  apply visible_eq
  cases front : lexer.skipTrivia.rest with
  | nil => exact absurd front more
  | cons char others =>
    change isSpace char = false
    cases space : isSpace char with
    | false => rfl
    | true =>
      rw [front, triviaStep_space others space] at stops
      exact absurd stops Nat.one_ne_zero

/-- A call returns the end token exactly when only trivia is left. -/
theorem kind_lexerNext_eq_end (lexer : Lexer) :
    (lexerNext lexer).1.kind = .end ↔ lexer.skipTrivia.rest = [] := by
  constructor
  · intro ended
    by_contra more
    rw [lexerNext_visible more] at ended
    exact scan_ne_end _ ended
  · intro done
    rw [lexerNext_end done]
    rfl

/-- The text of a token that was returned is as long as what was scanned. -/
theorem length_token (lexer : Lexer) {kind : TokenKind} {hasSpaceLeft : Bool}
    (some : lexer.rest ≠ []) :
    (lexer.token kind (scan lexer.rest).2 hasSpaceLeft).text.length = (scan lexer.rest).2 := by
  have fits := scan_le some
  rw [Lexer.token, length_take]
  omega

end Nobify.Parser
