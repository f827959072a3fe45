import Nobify.Text

/-!
# Tokens and syntax trees

The tokens of the lexer and the tree that the parser builds from them. An argument keeps the
tokens it was made of, and a node keeps the place of its first token.
-/

namespace Nobify.Parser

/-! ## Tokens -/

/-- `Token_Kind`. -/
inductive TokenKind where
  | end
  | invalid
  | lparen
  | rparen
  | semicolon
  | string
  | rawString
  | identifier
  | var
  | genExp
deriving DecidableEq

/-- `Token`. -/
structure Token where
  kind : TokenKind
  text : StringView
  line : Nat := 0
  col : Nat := 0
  hasSpaceLeft : Bool := false
deriving DecidableEq

/-! ## Arguments -/

/-- `Arg_Kind`. -/
inductive ArgKind where
  | unquoted
  | quoted
  | bracket
deriving DecidableEq

/-- `Arg`. -/
structure Arg where
  items : List Token
  kind : ArgKind
deriving DecidableEq

/-- `Args`. -/
abbrev Args := List Arg

/-! ## Nodes -/

/-- `Node`, with one constructor for each kind; functions and macros share a layout. -/
inductive Node where
  | command (line col : Nat) (name : StringView) (args : Args)
  | ifStmt (line col : Nat) (condition : Args) (thenBlock : List Node)
      (elseifClauses : List (Args × List Node)) (elseBlock : List Node)
  | foreachStmt (line col : Nat) (args : Args) (body : List Node)
  | whileStmt (line col : Nat) (condition : Args) (body : List Node)
  | funcDef (isMacro : Bool) (line col : Nat) (name : StringView) (params : Args) (body : List Node)

/-- `parser_make_empty_statement`. -/
def makeEmptyStatement (line col : Nat) : Node := .command line col [] []

/-- The nodes that `parse_block` keeps: all but commands without a name. -/
def Node.isKept : Node → Bool
  | .command _ _ name _ => !name.isEmpty
  | _ => true

/-! ## Names -/

/-- `isalpha` in the C locale. -/
def isAlpha (char : Char) : Bool := ('a' ≤ char && char ≤ 'z') || ('A' ≤ char && char ≤ 'Z')

/-- `isalnum` in the C locale. -/
def isAlnum (char : Char) : Bool := isAlpha char || ('0' ≤ char && char ≤ '9')

/-- `is_valid_command_name`. -/
def isValidCommandName : StringView → Bool
  | [] => false
  | first :: rest => (isAlpha first || first == '_') && rest.all fun char => isAlnum char || char == '_'

/-- `match_token_text`. -/
def matchTokenText (token : Token) (text : StringView) : Bool :=
  token.kind == .identifier && svEqCi token.text text

/-- `is_cmake_bracket_literal`: `[`, some `=`, `[` at the front and the closer of the same level at
the back. -/
def isCmakeBracketLiteral (text : StringView) : Bool :=
  match text with
  | '[' :: rest =>
    let eqCount := (rest.takeWhile (· == '=')).length
    let closer := ']' :: (List.replicate eqCount '=' ++ [']'])
    (rest.drop eqCount).head? == some '[' && eqCount + 2 + (eqCount + 2) ≤ text.length &&
      closer.isSuffixOf text
  | _ => false

/-- `parser_infer_arg_kind`. -/
def inferArgKind (token : Token) : ArgKind :=
  if token.kind = .string then .quoted
  else if token.kind = .rawString ∨ isCmakeBracketLiteral token.text then .bracket
  else .unquoted

/-- `parser_first_arg_text`. -/
def firstArgText (args : Args) : StringView :=
  ((args.head?.bind fun arg => arg.items.head?).map Token.text).getD []

end Nobify.Parser
