import Nobify.Parser.Syntax
import Nobify.Lib.Spans

/-!
# The lexer

`lexer_next` skips whitespace, comments and backslash-newline continuations and then reads one
token. The cursor moves only through `advance`, which keeps the number of the line and the place
where the line begins; the length of a token is counted beside the cursor, as in the source.

What the source reads at or after the cursor is a function of the bytes from the cursor on, so
the look-ahead helpers take those bytes. A loop over the input recurses on the bytes that are
left and advances the lexer as it goes.
-/

namespace Nobify.Parser

open Spans

/-! ## Navigation -/

/-- `Lexer`. -/
structure Lexer where
  content : StringView
  cursor : Nat
  line : Nat
  bol : Nat

/-- `lexer_init`. -/
def lexerInit (content : StringView) : Lexer := { content, cursor := 0, line := 1, bol := 0 }

/-- The bytes from the cursor on. -/
def Lexer.rest (lexer : Lexer) : StringView := lexer.content.drop lexer.cursor

/-- `peek`: zero after the end. -/
def peek (rest : StringView) (offset : Nat) : Char := rest.getD offset '\x00'

/-- `advance`. -/
def Lexer.advance (lexer : Lexer) : Lexer :=
  if lexer.cursor < lexer.content.length then
    if peek lexer.rest 0 = '\n' then
      { lexer with line := lexer.line + 1, bol := lexer.cursor + 1, cursor := lexer.cursor + 1 }
    else { lexer with cursor := lexer.cursor + 1 }
  else lexer

/-- `advance_n`. -/
def Lexer.advanceN (lexer : Lexer) : Nat → Lexer
  | 0 => lexer
  | count + 1 => lexer.advance.advanceN count

/-! ## Bracket arguments -/

/-- `get_bracket_open_len`: the length of `[`, some `=` and `[`. -/
def getBracketOpenLen (rest : StringView) : Nat :=
  match rest with
  | '[' :: others =>
    let eqCount := (others.takeWhile (· == '=')).length
    if (others.drop eqCount).head? = some '[' then eqCount + 2 else 0
  | _ => 0

/-- The closer that belongs to an opener of the given length. -/
def bracketCloser (openLen : Nat) : StringView :=
  ']' :: (List.replicate (openLen - 2) '=' ++ [']'])

/-- The loop of `skip_bracket_content`. -/
def skipBracketLoop (openLen : Nat) : StringView → Lexer → Lexer
  | [], lexer => lexer
  | char :: rest, lexer =>
    if (bracketCloser openLen).isPrefixOf (char :: rest) then lexer.advanceN openLen
    else skipBracketLoop openLen rest lexer.advance

/-- `skip_bracket_content`. -/
def Lexer.skipBracketContent (lexer : Lexer) (openLen : Nat) : Lexer :=
  skipBracketLoop openLen lexer.rest lexer

/-! ## Variables -/

/-- The characters of a name before `{`. -/
def isWordChar (char : Char) : Bool := isAlnum char || char == '_'

/-- `check_var_start`: the length of `${` or of a form such as `$ENV{`. -/
def checkVarStart (rest : StringView) : Nat :=
  match rest with
  | '$' :: others =>
    if peek others 0 = '{' then 2
    else if peek others 0 = '<' then 0
    else
      let wordLen := (others.takeWhile isWordChar).length
      if peek others wordLen = '{' then wordLen + 2 else 0
  | _ => 0

/-! ## Trivia -/

/-- The length of a backslash with the line end after it. -/
def continuationLen (rest : StringView) : Nat :=
  if peek rest 0 = '\\' then
    if peek rest 1 = '\n' then 2
    else if peek rest 1 = '\r' ∧ peek rest 2 = '\n' then 3
    else 0
  else 0

/-- The loop over a line comment, which stops before the line end. -/
def skipLineLoop : StringView → Lexer → Lexer
  | [], lexer => lexer
  | char :: rest, lexer => if char = '\n' then lexer else skipLineLoop rest lexer.advance

/-- What follows `#`: a block comment when a bracket opens there, the rest of the line
otherwise. -/
def Lexer.skipComment (lexer : Lexer) : Lexer :=
  let openLen := getBracketOpenLen lexer.rest
  if 0 < openLen then (lexer.advanceN openLen).skipBracketContent openLen
  else skipLineLoop lexer.rest lexer

/-- One turn of the loop over trivia; none where the loop breaks. -/
def Lexer.skipTriviaStep (lexer : Lexer) : Option Lexer :=
  match lexer.rest with
  | [] => none
  | char :: _ =>
    if isSpace char then some lexer.advance
    else if char = '#' then some lexer.advance.skipComment
    else
      match continuationLen lexer.rest with
      | 0 => none
      | count => some (lexer.advanceN count)

/-- The loop over trivia; each turn consumes a byte at least. -/
def skipTriviaLoop : Nat → Lexer → Lexer
  | 0, lexer => lexer
  | turns + 1, lexer =>
    match lexer.skipTriviaStep with
    | none => lexer
    | some next => skipTriviaLoop turns next

/-- The trivia in front of a token. -/
def Lexer.skipTrivia (lexer : Lexer) : Lexer := skipTriviaLoop lexer.rest.length lexer

/-! ## Tokens -/

/-- The three loops over delimited text, which count the length beside the cursor. -/
def delimitedLoop (delims : Delims Char) : StringView → Lexer → Nat → Nat → Lexer × Nat × Nat
  | [], lexer, depth, len => (lexer, depth, len)
  | char :: rest, lexer, depth, len =>
    if depth = 0 then (lexer, depth, len)
    else if delims.escape = some char then
      match rest with
      | [] => (lexer.advance, depth, len + 1)
      | _ :: others => delimitedLoop delims others lexer.advance.advance depth (len + 2)
    else delimitedLoop delims rest lexer.advance (delims.depthAfter depth char) (len + 1)

/-- Quoted strings: they do not nest, and a backslash hides what follows it. -/
def quoteDelims : Delims Char := { opener := none, closer := '"', escape := some '\\' }

/-- Generator expressions nest and have no escapes. -/
def genexDelims : Delims Char := { opener := some '<', closer := '>', escape := none }

/-- Variables nest, and a backslash hides what follows it. -/
def varDelims : Delims Char := { opener := some '{', closer := '}', escape := some '\\' }

/-- Whether an argument ends where the identifier loop has come to. -/
@[irreducible] def endsIdentifier (rest : StringView) : Bool :=
  let char := peek rest 0
  isSpace char || char == '(' || char == ')' || char == '"' || char == '#' || char == ';' ||
    (char == '$' && (peek rest 1 == '<' || 0 < checkVarStart rest)) ||
    (char == '\\' && 0 < continuationLen rest)

/-- The loop over an identifier. -/
def identifierLoop : StringView → Lexer → Nat → Lexer × Nat
  | [], lexer, len => (lexer, len)
  | char :: rest, lexer, len =>
    if endsIdentifier (char :: rest) then (lexer, len)
    else if char == '\\' then
      match rest with
      | [] => (lexer.advance, len + 1)
      | _ :: others => identifierLoop others lexer.advance.advance (len + 2)
    else identifierLoop rest lexer.advance (len + 1)

/-- The check on a raw string that reaches the end: the last bytes must be its closer. -/
def hasCloser (content : StringView) (openLen : Nat) : Bool :=
  openLen ≤ content.length && content.drop (content.length - openLen) == bracketCloser openLen

/-- The token that a branch of `lexer_next` returns for the bytes at the cursor. -/
def Lexer.token (lexer : Lexer) (kind : TokenKind) (len : Nat) (hasSpaceLeft : Bool) : Token :=
  { kind, text := lexer.rest.take len, line := lexer.line,
    col := lexer.cursor - lexer.bol + 1, hasSpaceLeft }

/-- A delimited token: its opener, then its loop. -/
def Lexer.delimited (lexer : Lexer) (delims : Delims Char) (openLen : Nat) (kind : TokenKind)
    (hasSpaceLeft : Bool) : Token × Lexer :=
  let inside := lexer.advanceN openLen
  let (final, depth, len) := delimitedLoop delims inside.rest inside 1 openLen
  (lexer.token (if depth = 0 then kind else .invalid) len hasSpaceLeft, final)

/-- A raw string. -/
def Lexer.rawString (lexer : Lexer) (openLen : Nat) (hasSpaceLeft : Bool) : Token × Lexer :=
  let inside := lexer.advanceN openLen
  let final := inside.skipBracketContent openLen
  let kind := if final.content.length ≤ final.cursor ∧ ¬ hasCloser final.content openLen then
    TokenKind.invalid else .rawString
  (lexer.token kind (openLen + (final.cursor - inside.cursor)) hasSpaceLeft, final)

/-- The token that starts at the cursor, which is not at the end. -/
def Lexer.visible (lexer : Lexer) (hasSpaceLeft : Bool) : Token × Lexer :=
  let char := peek lexer.rest 0
  let openLen := getBracketOpenLen lexer.rest
  let varLen := checkVarStart lexer.rest
  if char = '(' then (lexer.token .lparen 1 hasSpaceLeft, lexer.advance)
  else if char = ')' then (lexer.token .rparen 1 hasSpaceLeft, lexer.advance)
  else if char = ';' then (lexer.token .semicolon 1 hasSpaceLeft, lexer.advance)
  else if char = '"' then lexer.delimited quoteDelims 1 .string hasSpaceLeft
  else if 0 < openLen then lexer.rawString openLen hasSpaceLeft
  else if char = '$' then
    if peek lexer.rest 1 = '<' then lexer.delimited genexDelims 2 .genExp hasSpaceLeft
    else if 0 < varLen then lexer.delimited varDelims varLen .var hasSpaceLeft
    else (lexer.token .identifier 1 hasSpaceLeft, lexer.advance)
  else if ¬ isSpace char then
    let (final, len) := identifierLoop lexer.rest lexer 0
    (lexer.token .identifier len hasSpaceLeft, final)
  else (lexer.token .invalid 0 hasSpaceLeft, lexer.advance)

/-- `lexer_next`: the next token and the lexer after it. -/
def lexerNext (lexer : Lexer) : Token × Lexer :=
  let start := lexer.skipTrivia
  let hasSpaceLeft := decide (lexer.cursor < start.cursor)
  if start.content.length ≤ start.cursor then (start.token .end 0 hasSpaceLeft, start)
  else start.visible hasSpaceLeft

/-! ## Token lists -/

/-- The lexer after so many calls. -/
def lexerAt (content : StringView) : Nat → Lexer
  | 0 => lexerInit content
  | count + 1 => (lexerNext (lexerAt content count)).2

/-- The token that the call after so many calls returns. -/
def tokenAt (content : StringView) (count : Nat) : Token := (lexerNext (lexerAt content count)).1

/-- The loop that collects tokens up to the end, as in `flow_parse_inline_script`. -/
def lexTokensFrom : Nat → Lexer → List Token
  | 0, _ => []
  | calls + 1, lexer =>
    let (token, next) := lexerNext lexer
    if token.kind = .end then [] else token :: lexTokensFrom calls next

/-- The tokens of a text; there are no more than it has bytes. -/
def lexTokens (content : StringView) : List Token :=
  lexTokensFrom (content.length + 1) (lexerInit content)

example : (lexTokens (sv "a(b#[[x]]c $\x7bd\x7d \"e\\\"\")\\\n$;[=[]]]=]")).map
    (fun token => (token.kind, token.text, token.hasSpaceLeft)) =
    [(.identifier, sv "a", false), (.lparen, sv "(", false), (.identifier, sv "b", false),
      (.identifier, sv "c", true), (.var, sv "$\x7bd\x7d", true), (.string, sv "\"e\\\"\"", true),
      (.rparen, sv ")", false), (.identifier, sv "$", true), (.semicolon, sv ";", false),
      (.rawString, sv "[=[]]]=]", false)] := by decide +kernel

end Nobify.Parser
