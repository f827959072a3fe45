import Nobify.Parser.BracketArgs

/-!
# Quoted arguments

Any text can be written as a quoted argument: a backslash goes before each backslash, double quote
and dollar sign. The lexer then reads up to the quote that was written last, and the parser makes
one quoted argument of it.
-/

namespace Nobify.Parser

open Spans
open List

/-! ## Writing -/

/-- The bytes that are written with a backslash before them. -/
def needsBackslash (char : Char) : Bool := char == '\\' || char == '"' || char == '$'

/-- A text as it is written between quotes. -/
def escapeQuoted (text : StringView) : StringView :=
  text.flatMap fun char => if needsBackslash char then ['\\', char] else [char]

/-- A text as a quoted argument. -/
def quotedText (text : StringView) : StringView := '"' :: (escapeQuoted text ++ ['"'])

/-- A call of a command with quoted arguments. -/
def quotedCall (name : StringView) (texts : List StringView) : StringView :=
  name ++ '(' :: (texts.flatMap (fun text => ' ' :: quotedText text) ++ sv ")\n")

theorem escapeQuoted_cons (char : Char) (rest : StringView) : escapeQuoted (char :: rest) =
      (if needsBackslash char then ['\\', char] else [char]) ++ escapeQuoted rest :=
  flatMap_cons

theorem escapeQuoted_special {char : Char} (special : needsBackslash char = true)
    (rest : StringView) : escapeQuoted (char :: rest) = '\\' :: char :: escapeQuoted rest := by
  rw [escapeQuoted_cons, if_pos special]
  rfl

theorem escapeQuoted_plain {char : Char} (plain : ¬ needsBackslash char = true)
    (rest : StringView) : escapeQuoted (char :: rest) = char :: escapeQuoted rest := by
  rw [escapeQuoted_cons, if_neg plain]
  rfl

/-- A byte that is written as it is, is none of those that are not. -/
theorem ne_of_plain {char other : Char} (plain : ¬ needsBackslash char = true)
    (special : needsBackslash other = true) : char ≠ other := by
  intro same
  rw [same] at plain
  exact plain special

/-! ## Lexing -/

/-- The closing quote is the one that was written last. -/
theorem nested_escapeQuoted (text after : StringView) :
    nested quoteDelims (escapeQuoted text ++ '"' :: after) 1 = ((escapeQuoted text).length + 1, 0) := by
  induction text with
  | nil =>
    have closed : quoteDelims.depthAfter 1 '"' = 0 := by decide
    show nested quoteDelims ('"' :: after) 1 = (0 + 1, 0)
    rw [nested_plain after Nat.one_ne_zero (by decide), closed, nested_zero]
  | cons char rest ih =>
    by_cases special : needsBackslash char = true
    · rw [escapeQuoted_special special, cons_append, cons_append,
        nested_hidden char _ Nat.one_ne_zero rfl, ih]
      rfl
    · have inside : quoteDelims.depthAfter 1 char = 1 := by
        have other : char ≠ quoteDelims.closer := ne_of_plain special (by decide)
        have none : ¬ quoteDelims.opener = some char := by
          intro same
          cases same
        unfold Delims.depthAfter
        rw [if_neg none, if_neg other]
      have shown : ¬ quoteDelims.escape = some char := by
        intro same
        exact ne_of_plain special (by decide) (Option.some.inj same).symm
      rw [escapeQuoted_plain special, cons_append, nested_plain _ Nat.one_ne_zero shown, inside, ih]
      rfl

/-- A quoted argument is a string. -/
theorem scan_quotedText (text after : StringView) :
    scan (quotedText text ++ after) = (.string, (quotedText text).length) := by
  have closed := nested_escapeQuoted text after
  have shape : quotedText text ++ after = '"' :: (escapeQuoted text ++ '"' :: after) := by
    rw [quotedText, cons_append, append_assoc, singleton_append]
  have size : (quotedText text).length = (escapeQuoted text).length + 2 := by
    rw [quotedText, length_cons, length_append, length_singleton]
  have front : peek ('"' :: (escapeQuoted text ++ '"' :: after)) 0 = '"' := rfl
  rw [shape, size]
  unfold scan
  simp only [front]
  rw [if_neg (by decide), if_neg (by decide), if_neg (by decide), if_pos trivial]
  unfold scanDelimited
  rw [drop_one, tail_cons, closed]
  exact congrArg (Prod.mk TokenKind.string) (by omega)

/-- No trivia starts with a quote. -/
theorem triviaStep_of_quote (after : StringView) : triviaStep ('"' :: after) = 0 := by
  have other : ¬ peek ('"' :: after) 0 = '\\' := by
    show ¬ ('"' : Char) = '\\'
    decide
  rw [triviaStep_other after (by decide) (by decide)]
  exact if_neg other

/-- The piece of a quoted argument. -/
def quotedPiece (text : StringView) : Piece := ⟨.string, quotedText text, true⟩

theorem lexed_quotedArgs (texts : List StringView) :
    Lexed (texts.flatMap (fun text => ' ' :: quotedText text) ++ sv ")\n")
      (texts.map quotedPiece ++ [⟨.rparen, sv ")", false⟩]) := by
  induction texts with
  | nil =>
    have ended : Lexed (sv "\n") [] := Lexed.nil (by decide)
    have paren : Lexed (sv ")" ++ sv "\n") [⟨.rparen, sv ")", false⟩] :=
      Lexed.glued (by decide) (by decide) (by decide) ended
    exact paren
  | cons text texts ih =>
    have plain : triviaStep (quotedText text ++
        (texts.flatMap (fun text => ' ' :: quotedText text) ++ sv ")\n")) = 0 :=
      triviaStep_of_quote _
    have here := Lexed.spaced (cons_ne_nil _ _) plain (scan_quotedText text _) ih
    rw [flatMap_cons, append_assoc]
    exact here

/-- A call is lexed into its name, its parentheses and one string for each argument. -/
theorem lexed_quotedCall {name : StringView} (named : isValidCommandName name = true)
    (texts : List StringView) :
    Lexed (quotedCall name texts) (⟨.identifier, name, false⟩ :: ⟨.lparen, sv "(", false⟩ ::
        (texts.map quotedPiece ++ [⟨.rparen, sv ")", false⟩])) := by
  have paren : Lexed (sv "(" ++ (texts.flatMap (fun text => ' ' :: quotedText text) ++ sv ")\n"))
      (⟨.lparen, sv "(", false⟩ :: (texts.map quotedPiece ++ [⟨.rparen, sv ")", false⟩])) :=
    Lexed.glued (by decide) (triviaStep_other _ (by decide) (by decide)) rfl (lexed_quotedArgs texts)
  apply lexed_name named _ paren
  apply identifierSpan_ends
  simp [endsIdentifier, peek, sv]

/-! ## Parsing -/

variable {limits : Limits}

/-- Strings with space before them are quoted arguments of their own. -/
theorem commandArgs_of_quotedPieces {texts : List StringView} {tokens : List Token}
    (same : tokens.map Token.piece = texts.map quotedPiece) :
    renderArgs (tokens.map fun token => ⟨[token], .quoted⟩) = tokens ∧
      CommandArgs limits (tokens.map fun token => ⟨[token], .quoted⟩) ∧
      tokens.map Token.text = texts.map quotedText := by
  refine ⟨?_, fun arg listed => ?_, ?_⟩
  · rw [renderArgs, flatMap_map]
    exact flatMap_singleton' tokens
  · obtain ⟨token, inside, shape⟩ := mem_map.mp listed
    have piece : token.piece ∈ texts.map quotedPiece := same ▸ mem_map_of_mem inside
    obtain ⟨text, _, here⟩ := mem_map.mp piece
    have kind : token.kind = .string := (congrArg Piece.kind here).symm
    have spaced : token.hasSpaceLeft = true := (congrArg Piece.hasSpaceLeft here).symm
    have noParen : ¬ token.IsParen := by
      intro paren
      rw [Token.IsParen, kind] at paren
      exact absurd paren (by decide)
    rw [← shape]
    refine ⟨.group spaced (fun other none => by cases none) ?_, ?_⟩
    · rw [if_neg noParen, inferArgKind, if_pos kind]
    · rw [depthAfter, if_neg (by rw [kind]; decide), if_neg (by rw [kind]; decide),
        if_neg (by rw [kind]; simp)]
      rfl
  · have texts' := congrArg (List.map Piece.text) same
    rw [List.map_map, List.map_map] at texts'
    exact texts'

/-- A call with quoted arguments is parsed into one command whose arguments are quoted and have the
texts that were written. -/
theorem parseTokens_quotedCall {name : StringView} (blocks : 0 < limits.maxBlockDepth)
    (named : isValidCommandName name = true)
    (free : ∀ word ∈ blockKeywords, svEqCi name word = false) (texts : List StringView) :
    ∃ line col parsed, parseTokens limits none (lexTokens (quotedCall name texts)) =
          some ([.command line col name parsed], []) ∧
        parsed.map (fun arg => (arg.kind, arg.items.map Token.text)) =
          texts.map fun text => (.quoted, [quotedText text]) := by
  have pieces := (lexed_lexTokens (quotedCall name texts)).unique (lexed_quotedCall named texts)
  obtain ⟨first, others, shape, word, rest⟩ := map_eq_cons_iff.mp pieces
  obtain ⟨opener, others, shape', opens, rest⟩ := map_eq_cons_iff.mp rest
  obtain ⟨tokens, back, split, same, last⟩ := map_eq_append_iff.mp rest
  obtain ⟨closer, tail, shape'', closes, ended⟩ := map_eq_cons_iff.mp last
  obtain ⟨rendered, commandArgs, written⟩ := @commandArgs_of_quotedPieces limits texts tokens same
  rw [map_eq_nil_iff.mp ended] at shape''
  refine ⟨first.line, first.col, tokens.map fun token => ⟨[token], .quoted⟩, ?_, ?_⟩
  · rw [shape, shape', split, shape'']
    have parsed := parseTokens_call blocks named free (congrArg Piece.kind word)
      (congrArg Piece.text word) (congrArg Piece.kind opens) (congrArg Piece.kind closes)
      commandArgs
    rw [rendered] at parsed
    exact parsed
  · have each := congrArg (List.map fun text => (ArgKind.quoted, [text])) written
    rw [List.map_map, List.map_map] at each
    rw [List.map_map]
    exact each

end Nobify.Parser
