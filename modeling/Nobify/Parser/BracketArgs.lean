import Nobify.Parser.Render
import Nobify.Parser.Respacing

/-!
# Commands with bracket arguments

A command whose arguments are all written as bracket arguments is lexed and parsed back into one
argument for each of them. A text that ends like the start of its closer is closed early: the
lexer returns the rest of the closer as an identifier glued to the raw string, and the parser puts
the two together again.
-/

namespace Nobify.Parser

open Spans
open List

variable {char : Char} {after name text : StringView} {openLen : Nat} {pieces : List Piece}
  {args : List BracketArg} {closer opener : Token}

/-! ## Plain bytes -/

/-- A byte that is part of an identifier whatever follows it. -/
def isPlain (char : Char) : Bool :=
  !(isSpace char || ['(', ')', '"', '#', ';', '$', '\\'].contains char)

/-- The bytes of a plain byte's kind are none of the bytes at which the lexer turns. -/
theorem ne_of_isPlain {other : Char} (plain : isPlain char = true) (turns : isPlain other = false) :
    char ≠ other := by
  intro same
  rw [same, turns] at plain
  exact Bool.false_ne_true plain

theorem isSpace_of_isPlain (plain : isPlain char = true) : isSpace char = false := by
  cases space : isSpace char with
  | false => rfl
  | true =>
    rw [isPlain, space] at plain
    exact absurd plain (by simp)

theorem endsIdentifier_of_isPlain (rest : StringView) (plain : isPlain char = true) :
    endsIdentifier (char :: rest) = false := by
  have front : peek (char :: rest) 0 = char := rfl
  have lparen := ne_of_isPlain plain (show isPlain '(' = false by decide)
  have rparen := ne_of_isPlain plain (show isPlain ')' = false by decide)
  have quote := ne_of_isPlain plain (show isPlain '"' = false by decide)
  have comment := ne_of_isPlain plain (show isPlain '#' = false by decide)
  have semicolon := ne_of_isPlain plain (show isPlain ';' = false by decide)
  have dollar := ne_of_isPlain plain (show isPlain '$' = false by decide)
  have slash := ne_of_isPlain plain (show isPlain '\\' = false by decide)
  simp [endsIdentifier, front, isSpace_of_isPlain plain, lparen, rparen, quote, comment,
    semicolon, dollar, slash]

theorem triviaStep_of_isPlain (rest : StringView) (plain : isPlain char = true) :
    triviaStep (char :: rest) = 0 := by
  have space : ¬ isSpace char = true := by
    rw [isSpace_of_isPlain plain]
    exact Bool.false_ne_true
  rw [triviaStep_other rest space (ne_of_isPlain plain (by decide))]
  exact if_neg (ne_of_isPlain plain (by decide))

/-- Plain bytes are read up to where the identifier ends. -/
theorem identifierSpan_of_isPlain (rest : StringView) (plain : ∀ char ∈ text, isPlain char = true) :
    identifierSpan (text ++ rest) = text.length + identifierSpan rest := by
  induction text with
  | nil =>
    rw [nil_append, length_nil, Nat.zero_add]
  | cons char text ih =>
    have here := plain char mem_cons_self
    have goes : ¬ endsIdentifier (char :: (text ++ rest)) = true := by
      rw [endsIdentifier_of_isPlain _ here]
      exact Bool.false_ne_true
    have later := ih fun char listed => plain char (mem_cons_of_mem _ listed)
    rw [cons_append, identifierSpan_plain goes (ne_of_isPlain here (by decide)), later, length_cons]
    omega

/-- A plain byte other than a bracket starts an identifier. -/
theorem scan_of_isPlain {char : Char} (rest : StringView) (plain : isPlain char = true)
    (bracket : char ≠ '[') :
    scan (char :: rest) = (.identifier, identifierSpan (char :: rest)) := by
  have front : peek (char :: rest) 0 = char := rfl
  have closed : ¬ 0 < getBracketOpenLen (char :: rest) := by
    rw [getBracketOpenLen_other rest bracket]
    exact Nat.lt_irrefl 0
  unfold scan
  simp only [front]
  rw [if_neg (ne_of_isPlain plain (by decide)), if_neg (ne_of_isPlain plain (by decide)),
    if_neg (ne_of_isPlain plain (by decide)), if_neg (ne_of_isPlain plain (by decide)),
    if_neg closed, if_neg (ne_of_isPlain plain (by decide))]

theorem isPlain_of_isWordChar (word : isWordChar char = true) : isPlain char = true := by
  have space : isSpace char = false := by
    cases known : isSpace char with
    | false => rfl
    | true =>
      have starts : startsTrivia char = true := by rw [startsTrivia, known]; rfl
      rw [isWordChar_of_startsTrivia starts] at word
      exact absurd word Bool.false_ne_true
  have others : ['(', ')', '"', '#', ';', '$', '\\'].contains char = false := by
    cases listed : ['(', ')', '"', '#', ';', '$', '\\'].contains char with
    | false => rfl
    | true =>
      have each : (['(', ')', '"', '#', ';', '$', '\\'].all fun other => !isWordChar other) =
          true := by decide
      have apart := all_eq_true.mp each char (contains_iff_mem.mp listed)
      rw [Bool.not_eq_true'] at apart
      rw [apart] at word
      exact absurd word Bool.false_ne_true
  rw [isPlain, space, others]
  rfl

/-- Whether an argument cannot go on at the front of a text. -/
def Separates (rest : StringView) : Prop := ∃ char others, rest = char :: others ∧
  (char = ' ' ∨ char = ')')

theorem identifierSpan_of_separates {rest : StringView} (separates : Separates rest) :
    identifierSpan rest = 0 := by
  obtain ⟨char, others, front, known⟩ := separates
  rw [front]
  apply identifierSpan_ends
  cases known with
  | inl space =>
    rw [space]
    exact endsIdentifier_space others
  | inr paren => simp [endsIdentifier, paren, peek]

/-! ## The first closer -/

/-- The brackets of a closer are at its two ends. -/
theorem ends_of_bracketCloser {openLen index : Nat} (long : 2 ≤ openLen)
    (bracket : (bracketCloser openLen)[index]? = some ']') : index = 0 ∨ index + 1 = openLen := by
  cases index with
  | zero => exact Or.inl rfl
  | succ index =>
    right
    rw [bracketCloser, List.getElem?_cons_succ] at bracket
    by_cases early : index < openLen - 2
    · rw [List.getElem?_append_left (by rw [length_replicate]; exact early),
        List.getElem?_replicate, if_pos early] at bracket
      exact absurd (Option.some.inj bracket) (by decide)
    · rw [List.getElem?_append_right (by rw [length_replicate]; omega), length_replicate] at bracket
      have inside := (List.getElem?_eq_some_iff.mp bracket).1
      rw [length_singleton] at inside
      omega

/-- A text without its closer, written before the closer, is closed by the end of that closer or
by its first byte. -/
theorem untilCloser_before (long : 2 ≤ openLen) (free : ¬ bracketCloser openLen <:+: text) :
    bracketCloser openLen <:+ (text ++ bracketCloser openLen).take
          (untilCloser (bracketCloser openLen) (text ++ bracketCloser openLen)) ∧
      (untilCloser (bracketCloser openLen) (text ++ bracketCloser openLen) = text.length + openLen ∨
        untilCloser (bracketCloser openLen) (text ++ bracketCloser openLen) = text.length + 1) := by
  have size := length_bracketCloser long
  have proper : bracketCloser openLen ≠ [] := cons_ne_nil _ _
  have bound := untilCloser_le (bracketCloser openLen) (text ++ bracketCloser openLen)
  rw [length_append, size] at bound
  cases untilCloser_spec proper (text ++ bracketCloser openLen) with
  | inl none => exact absurd (suffix_append text _).isInfix none.1
  | inr some =>
    obtain ⟨body, cut, -⟩ := some
    generalize untilCloser (bracketCloser openLen) (text ++ bracketCloser openLen) = span at *
    have count : body.length + openLen = span := by
      have lengths := congrArg List.length cut
      rw [length_take, length_append, length_append, size] at lengths
      omega
    have past : text.length < span := by
      by_contra within
      rw [take_append_of_le_length (by omega)] at cut
      apply free
      have found : bracketCloser openLen <:+: text.take span := by
        rw [cut]
        exact (suffix_append body _).isInfix
      exact found.trans (List.take_prefix _ _).isInfix
    -- the first byte of the closer after the text is a bracket of the closer that was found
    have here : ((text ++ bracketCloser openLen).take span)[text.length]? = some ']' := by
      rw [List.getElem?_take_of_lt past, List.getElem?_append_right (Nat.le_refl _), Nat.sub_self]
      rfl
    have least : body.length ≤ text.length := by omega
    rw [cut, List.getElem?_append_right least] at here
    refine ⟨⟨body, cut.symm⟩, ?_⟩
    cases ends_of_bracketCloser long here with
    | inl first => exact Or.inl (by omega)
    | inr last => exact Or.inr (by omega)

/-! ## Lexing -/

/-- The pieces of one bracket argument: a raw string and identifiers glued to it. -/
structure RawGroup (text : StringView) (pieces : List Piece) : Prop where
  raw : ∃ first others, pieces = ⟨.rawString, first, true⟩ :: others ∧
    ∀ piece ∈ others, piece.kind = .identifier ∧ piece.hasSpaceLeft = false
  whole : pieces.flatMap Piece.text = text

/-- The pieces of bracket arguments, one after the other. -/
inductive RawGroups : List StringView → List Piece → Prop
  | nil : RawGroups [] []
  | cons {text : StringView} {texts : List StringView} {first others : List Piece} :
      RawGroup text first → RawGroups texts others → RawGroups (text :: texts) (first ++ others)

/-- A bracket that is closed before the end is a raw string. -/
theorem scan_raw {body : StringView} (long : 2 ≤ openLen)
    (closed : untilCloser (bracketCloser openLen) (body ++ after) = body.length) (more :
      after ≠ []) :
    scan (bracketOpener openLen ++ (body ++ after)) =
      (.rawString, (bracketOpener openLen ++ body).length) := by
  have front : peek (bracketOpener openLen ++ (body ++ after)) 0 = '[' := rfl
  have opened := getBracketOpenLen_opener long (body ++ after)
  have size := length_bracketOpener long
  have dropped : (bracketOpener openLen ++ (body ++ after)).drop openLen = body ++ after :=
    drop_left' size
  have some : 0 < after.length := length_pos_of_ne_nil more
  have inside : ¬ ((bracketOpener openLen ++ (body ++ after)).length ≤ openLen + body.length ∧
      ¬ (bracketCloser openLen).isSuffixOf (bracketOpener openLen ++ (body ++ after)) = true) := by
    intro past
    have bound := past.1
    rw [length_append, length_append, size] at bound
    omega
  unfold scan
  simp only [front, opened]
  rw [if_neg (by decide), if_neg (by decide), if_neg (by decide), if_neg (by decide),
    if_pos (by omega)]
  simp only [scanRaw, dropped, closed]
  rw [if_neg inside, length_append, size]

variable {tail : StringView} {kind : TokenKind}

/-- A piece that is glued to what is before it. -/
theorem Lexed.glued (some : text ≠ []) (plain : triviaStep (text ++ tail) = 0)
    (token : scan (text ++ tail) = (kind, text.length)) (later : Lexed tail pieces) :
    Lexed (text ++ tail) (⟨kind, text, false⟩ :: pieces) := by
  have none := triviaSpan_zero plain
  have front : (text ++ tail).drop (triviaSpan (text ++ tail)) = text ++ tail := by
    rw [none]
    rfl
  have lexed := Lexed.cons front some (by rw [token]) later
  rw [none, token] at lexed
  exact lexed

/-- A piece after a space. -/
theorem Lexed.spaced (some : text ≠ []) (plain : triviaStep (text ++ tail) = 0)
    (token : scan (text ++ tail) = (kind, text.length)) (later : Lexed tail pieces) :
    Lexed (' ' :: (text ++ tail)) (⟨kind, text, true⟩ :: pieces) := by
  have one := triviaSpan_space plain
  have front : (' ' :: (text ++ tail)).drop (triviaSpan (' ' :: (text ++ tail))) =
      text ++ tail := by
    rw [one]
    rfl
  have lexed := Lexed.cons front some (by rw [token]) later
  rw [one, token] at lexed
  exact lexed

/-- The rest of a closer is an identifier. -/
theorem lexed_restOfCloser (separates : Separates after) (later : Lexed after pieces) :
    Lexed ((bracketCloser openLen).drop 1 ++ after)
      (⟨.identifier, (bracketCloser openLen).drop 1, false⟩ :: pieces) := by
  have shape : (bracketCloser openLen).drop 1 = List.replicate (openLen - 2) '=' ++ [']'] := rfl
  rw [shape]
  have bytes : ∀ char ∈ List.replicate (openLen - 2) '=' ++ [']'], char = '=' ∨ char = ']' := by
    intro char listed
    cases mem_append.mp listed with
    | inl equals => exact Or.inl (eq_of_mem_replicate equals)
    | inr bracket => exact Or.inr (mem_singleton.mp bracket)
  have plain : ∀ char ∈ List.replicate (openLen - 2) '=' ++ [']'],
      isPlain char = true ∧ char ≠ '[' := by
    intro char listed
    cases bytes char listed with
    | inl same => rw [same]; decide
    | inr same => rw [same]; decide
  have some : List.replicate (openLen - 2) '=' ++ [']'] ≠ [] := by simp
  generalize List.replicate (openLen - 2) '=' ++ [']'] = text at plain some
  have span := identifierSpan_of_isPlain after fun char listed => (plain char listed).1
  rw [identifierSpan_of_separates separates, Nat.add_zero] at span
  cases text with
  | nil => exact absurd rfl some
  | cons first text =>
    have here := plain first mem_cons_self
    refine Lexed.glued some (triviaStep_of_isPlain _ here.1) ?_ later
    have token := scan_of_isPlain (text ++ after) here.1 here.2
    rw [← cons_append, span] at token
    exact token

/-- A bracket argument is lexed into a raw string and what is glued to it. -/
theorem lexed_bracket (long : 2 ≤ openLen) (free : ¬ bracketCloser openLen <:+: text)
    (separates : Separates after) (later : Lexed after pieces) :
    ∃ group, RawGroup (bracketOpener openLen ++ (text ++ bracketCloser openLen)) group ∧
      Lexed (' ' :: (bracketOpener openLen ++ (text ++ bracketCloser openLen) ++ after))
        (group ++ pieces) := by
  obtain ⟨closed, known⟩ := untilCloser_before long free
  have bound := untilCloser_le (bracketCloser openLen) (text ++ bracketCloser openLen)
  have size : (text ++ bracketCloser openLen).length = text.length + openLen := by
    rw [length_append, length_bracketCloser long]
  have split := take_append_drop
    (untilCloser (bracketCloser openLen) (text ++ bracketCloser openLen))
    (text ++ bracketCloser openLen)
  have count : ((text ++ bracketCloser openLen).take
      (untilCloser (bracketCloser openLen) (text ++ bracketCloser openLen))).length =
        untilCloser (bracketCloser openLen) (text ++ bracketCloser openLen) := by
    rw [length_take]
    omega
  -- what is left of the text after the raw string, with its pieces
  have rest : ∃ others, Lexed ((text ++ bracketCloser openLen).drop
        (untilCloser (bracketCloser openLen) (text ++ bracketCloser openLen)) ++ after)
          (others ++ pieces) ∧
      (∀ piece ∈ others, piece.kind = .identifier ∧ piece.hasSpaceLeft = false) ∧
      others.flatMap Piece.text = (text ++ bracketCloser openLen).drop
        (untilCloser (bracketCloser openLen) (text ++ bracketCloser openLen)) := by
    cases known with
    | inl whole =>
      rw [whole, ← size, drop_length]
      exact ⟨[], later, by simp, rfl⟩
    | inr early =>
      have left : (text ++ bracketCloser openLen).drop (text.length + 1) =
          (bracketCloser openLen).drop 1 := by
        rw [← drop_drop, drop_left]
      rw [early, left]
      refine ⟨[⟨.identifier, (bracketCloser openLen).drop 1, false⟩],
        lexed_restOfCloser separates later, ?_, by simp⟩
      intro piece listed
      rw [mem_singleton.mp listed]
      exact ⟨rfl, rfl⟩
  obtain ⟨others, lexed, glued, texts⟩ := rest
  generalize (text ++ bracketCloser openLen).take
    (untilCloser (bracketCloser openLen) (text ++ bracketCloser openLen)) = body at *
  generalize (text ++ bracketCloser openLen).drop
    (untilCloser (bracketCloser openLen) (text ++ bracketCloser openLen)) = left at *
  have span : untilCloser (bracketCloser openLen) (body ++ (left ++ after)) = body.length := by
    have inside : untilCloser (bracketCloser openLen) (body ++ left) = body.length := by
      rw [split, count]
    exact untilCloser_append _ closed inside
  have more : left ++ after ≠ [] := by
    obtain ⟨char, tail, front, -⟩ := separates
    rw [front]
    simp
  have token := scan_raw long span more
  have some : bracketOpener openLen ++ body ≠ [] := by simp [bracketOpener]
  rw [← append_assoc] at token
  have plain : triviaStep (bracketOpener openLen ++ body ++ (left ++ after)) = 0 :=
    triviaStep_of_isPlain _ (by decide)
  refine ⟨⟨.rawString, bracketOpener openLen ++ body, true⟩ :: others, ⟨⟨_, _, rfl, glued⟩, ?_⟩, ?_⟩
  · rw [flatMap_cons, texts, ← split, append_assoc]
  · rw [← split]
    have result := Lexed.spaced some plain token lexed
    simp only [append_assoc, cons_append] at result ⊢
    exact result

/-- A bracket argument as it is written: the length of its opener and its text. -/
structure BracketArg where
  openLen : Nat
  text : StringView

/-- The argument with its brackets. -/
def BracketArg.written (arg : BracketArg) : StringView :=
  bracketOpener arg.openLen ++ (arg.text ++ bracketCloser arg.openLen)

/-- The opener is one, and the text does not hold the closer. -/
structure BracketArg.Valid (arg : BracketArg) : Prop where
  long : 2 ≤ arg.openLen
  free : ¬ bracketCloser arg.openLen <:+: arg.text

/-- A call of a command with bracket arguments. -/
def bracketCall (name : StringView) (args : List BracketArg) : StringView :=
  name ++ '(' :: (args.flatMap (fun arg => ' ' :: arg.written) ++ sv ")\n")

theorem separates_args (args : List BracketArg) :
    Separates (args.flatMap (fun arg => ' ' :: arg.written) ++ sv ")\n") := by
  cases args with
  | nil => exact ⟨')', sv "\n", rfl, Or.inr rfl⟩
  | cons arg args => exact ⟨' ', _, rfl, Or.inl rfl⟩

/-- The arguments of a call are lexed into their groups. -/
theorem lexed_args (valid : ∀ arg ∈ args, arg.Valid) :
    ∃ groups, RawGroups (args.map BracketArg.written) groups ∧
      Lexed (args.flatMap (fun arg => ' ' :: arg.written) ++ sv ")\n")
        (groups ++ [⟨.rparen, sv ")", false⟩]) := by
  induction args with
  | nil =>
    have ended : Lexed (sv "\n") [] := Lexed.nil (by decide)
    have paren : Lexed (sv ")" ++ sv "\n") [⟨.rparen, sv ")", false⟩] :=
      Lexed.glued (by decide) (by decide) (by decide) ended
    exact ⟨[], RawGroups.nil, paren⟩
  | cons arg args ih =>
    obtain ⟨groups, grouped, lexed⟩ := ih fun arg listed => valid arg (mem_cons_of_mem _ listed)
    have here := valid arg mem_cons_self
    obtain ⟨group, raw, all⟩ := lexed_bracket here.long here.free (separates_args args) lexed
    refine ⟨group ++ groups, RawGroups.cons raw grouped, ?_⟩
    rw [append_assoc, flatMap_cons, append_assoc]
    exact all

variable (named : isValidCommandName name = true)

include named

/-- The characters of a valid name are those of a word. -/
theorem isWordChar_of_validName : ∀ char ∈ name, isWordChar char = true := by
  cases name with
  | nil =>
    intro char listed
    exact nomatch listed
  | cons first rest =>
    rw [isValidCommandName, Bool.and_eq_true, all_eq_true, Bool.or_eq_true] at named
    intro char listed
    cases mem_cons.mp listed with
    | inl same =>
      rw [same, isWordChar, Bool.or_eq_true]
      cases named.1 with
      | inl letter => exact Or.inl (by rw [isAlnum, letter]; rfl)
      | inr under => exact Or.inr under
    | inr later => exact named.2 char later

/-- A valid name is an identifier where nothing continues it. -/
theorem lexed_name (stops : identifierSpan after = 0) (later : Lexed after pieces) :
    Lexed (name ++ after) (⟨.identifier, name, false⟩ :: pieces) := by
  cases name with
  | nil => exact absurd named Bool.false_ne_true
  | cons first name =>
    have words := isWordChar_of_validName named
    have plain : ∀ char ∈ first :: name, isPlain char = true :=
      fun char listed => isPlain_of_isWordChar (words char listed)
    have bracket : first ≠ '[' := by
      intro same
      have word := words first mem_cons_self
      rw [same] at word
      exact absurd word (by decide)
    have span := identifierSpan_of_isPlain after plain
    rw [stops, Nat.add_zero] at span
    have here := plain first mem_cons_self
    have token := scan_of_isPlain (name ++ after) here bracket
    rw [← cons_append, span] at token
    exact Lexed.glued (cons_ne_nil _ _) (triviaStep_of_isPlain _ here) token later

/-- A call is lexed into its name, its parentheses and its arguments. -/
theorem lexed_bracketCall (valid : ∀ arg ∈ args, arg.Valid) :
    ∃ groups, RawGroups (args.map BracketArg.written) groups ∧ Lexed (bracketCall name args)
        (⟨.identifier, name, false⟩ :: ⟨.lparen, sv "(", false⟩ ::
          (groups ++ [⟨.rparen, sv ")", false⟩])) := by
  obtain ⟨groups, grouped, lexed⟩ := lexed_args valid
  refine ⟨groups, grouped, ?_⟩
  have paren : Lexed (sv "(" ++ (args.flatMap (fun arg => ' ' :: arg.written) ++ sv ")\n"))
      (⟨.lparen, sv "(", false⟩ :: (groups ++ [⟨.rparen, sv ")", false⟩])) :=
    Lexed.glued (by decide) (triviaStep_other _ (by decide) (by decide)) rfl lexed
  apply lexed_name named _ paren
  apply identifierSpan_ends
  simp [endsIdentifier, peek, sv]

omit named

/-! ## Parsing -/

variable {limits : Limits}

/-- Tokens of a group are one argument with all its text. -/
theorem tokenGroup_of_rawGroup {group : List Piece} (raw : RawGroup text group)
    {tokens : List Token} (same : tokens.map Token.piece = group) :
    TokenGroup ⟨tokens, .bracket⟩ ∧ depthAfter limits tokens 1 = some 1 ∧
      tokens.flatMap Token.text = text := by
  obtain ⟨first, others, shape, glued⟩ := raw.raw
  have texts : tokens.flatMap Token.text = text := by
    rw [← raw.whole, ← same, flatMap_map]
    rfl
  cases tokens with
  | nil =>
    rw [shape] at same
    exact absurd same (by simp)
  | cons token tokens =>
    rw [shape, map_cons, List.cons.injEq] at same
    obtain ⟨here, later⟩ := same
    have kind : token.kind = .rawString := congrArg Piece.kind here
    have spaced : token.hasSpaceLeft = true := congrArg Piece.hasSpaceLeft here
    have each : ∀ other ∈ tokens, other.kind = .identifier ∧ other.hasSpaceLeft = false := by
      intro other listed
      exact glued other.piece (later ▸ mem_map_of_mem listed)
    have inferred : ArgKind.bracket =
        if token.IsParen then ArgKind.unquoted else inferArgKind token := by
      have noParen : ¬ token.IsParen := by
        intro paren
        rw [Token.IsParen, kind] at paren
        exact absurd paren (by decide)
      rw [if_neg noParen, inferArgKind, if_neg (by rw [kind]; decide), if_pos (Or.inl kind)]
    have flat : ∀ others : List Token, (∀ other ∈ others, other.kind = .identifier ∧
        other.hasSpaceLeft = false) → depthAfter limits others 1 = some 1 := by
      intro others each
      induction others with
      | nil => rfl
      | cons other others ih =>
        have word := (each other mem_cons_self).1
        rw [depthAfter, if_neg (by rw [word]; decide), if_neg (by rw [word]; decide),
          if_neg (by rw [word]; simp)]
        exact ih fun other listed => each other (mem_cons_of_mem _ listed)
    refine ⟨TokenGroup.group spaced (fun other listed => (each other listed).2) inferred, ?_, texts⟩
    rw [depthAfter, if_neg (by rw [kind]; decide), if_neg (by rw [kind]; decide),
      if_neg (by rw [kind]; simp)]
    exact flat tokens each

/-- The tokens of groups are arguments, one for each group. -/
theorem commandArgs_of_rawGroups {texts : List StringView} {groups : List Piece}
    (raw : RawGroups texts groups) {tokens : List Token} (same : tokens.map Token.piece = groups) :
    ∃ args : Args, renderArgs args = tokens ∧ CommandArgs limits args ∧
      args.map (fun arg => (arg.kind, arg.items.flatMap Token.text)) =
        texts.map fun text => (.bracket, text) := by
  induction raw generalizing tokens with
  | nil =>
    refine ⟨[], ?_, fun arg listed => absurd listed not_mem_nil, rfl⟩
    exact (map_eq_nil_iff.mp same).symm
  | @cons text texts first others group rest ih =>
    obtain ⟨front, back, split, sameFront, sameBack⟩ := map_eq_append_iff.mp same
    obtain ⟨args, rendered, grouped, written⟩ := ih sameBack
    obtain ⟨tokenGroup, balanced, whole⟩ := tokenGroup_of_rawGroup group sameFront
    refine ⟨⟨front, .bracket⟩ :: args, ?_, ?_, ?_⟩
    · rw [renderArgs, flatMap_cons, split, ← rendered]
      rfl
    · intro arg listed
      cases mem_cons.mp listed with
      | inl same =>
        rw [same]
        exact ⟨tokenGroup, balanced⟩
      | inr later => exact grouped arg later
    · rw [map_cons, map_cons, written, whole]

/-- The arguments of a call are parsed up to the closing parenthesis. -/
theorem parseArgs_call (line col : Nat) {args : Args} {ctx : Context} (ready : Ready ctx)
    (opens : opener.kind = .lparen) (closes : closer.kind = .rparen)
    (grouped : CommandArgs limits args) :
    parseArgs limits .commandDefault line col
        { ctx with rest := opener :: (renderArgs args ++ [closer]) } =
      ((args, true), { ctx with rest := [] }) := by
  have loop := parseArgsLoop_args line col .commandDefault
    (ready.move (renderArgs args ++ [closer]))
    (fun arg listed => ⟨(grouped arg listed).1, fun condition => nomatch condition⟩)
    grouped.counted [] [closer]
  have last : parseArgsLoop limits .commandDefault line col [closer]
      { args := [] ++ args, depth := 1 } { ctx with rest := renderArgs args ++ [closer] } =
        ((args, true), { ctx with rest := [] }) := by
    rw [parseArgsLoop]
    simp [closes]
  rw [parseArgs, if_neg (by simp [ready.running])]
  dsimp only
  rw [if_pos opens]
  exact loop.trans last

/-- The tokens of a call are a statement, whatever their places. -/
theorem parseStatement_tokens {block : BlockParser} {args : Args} {first : Token} {ctx : Context}
    (ready : Ready ctx) (named : isValidCommandName name = true)
    (free : ∀ word ∈ blockKeywords, svEqCi name word = false) (word : first.kind = .identifier)
    (text : first.text = name) (opens : opener.kind = .lparen) (closes : closer.kind = .rparen)
    (grouped : CommandArgs limits args) :
    parseStatement limits block
        { ctx with rest := first :: opener :: (renderArgs args ++ [closer]) } =
      some (.command first.line first.col name args, { ctx with rest := [] }) := by
  have each : ∀ keyword ∈ blockKeywords, matchTokenText first keyword = false := by
    intro keyword listed
    rw [matchTokenText, text, free keyword listed, Bool.and_false]
  have parsed := parseArgs_call first.line first.col ready opens closes grouped
  have opened : Context.atLparen { ctx with rest := opener :: (renderArgs args ++ [closer]) } =
      true := by simp [Context.atLparen, opens]
  rw [parseStatement, if_neg ready.going]
  dsimp only
  rw [if_neg (by rw [word]; simp), text, named, opened, each (sv "if") (by decide),
    each (sv "foreach") (by decide), each (sv "while") (by decide),
    each (sv "function") (by decide), each (sv "macro") (by decide), parsed]
  simp [ready.running]

/-- The tokens of a call are parsed into the command, whatever their places. -/
theorem parseTokens_call {args : Args} {first : Token} (blocks : 0 < limits.maxBlockDepth)
    (named : isValidCommandName name = true)
    (free : ∀ word ∈ blockKeywords, svEqCi name word = false) (word : first.kind = .identifier)
    (text : first.text = name) (opens : opener.kind = .lparen) (closes : closer.kind = .rparen)
    (grouped : CommandArgs limits args) :
    parseTokens limits none (first :: opener :: (renderArgs args ++ [closer])) =
      some ([.command first.line first.col name args], []) := by
  have ready : Ready { rest := [], blockDepth := 1 } := ⟨rfl, rfl⟩
  have some : name ≠ [] := by
    intro empty
    rw [empty] at named
    exact Bool.false_ne_true named
  have kept : (Node.command first.line first.col name args).isKept = true := by
    cases name with
    | nil => exact absurd rfl some
    | cons char name => rfl
  have statement : ∀ block : BlockParser, parseStatement limits block
      { rest := first :: opener :: (renderArgs args ++ [closer]), blockDepth := 1 } =
        Option.some (.command first.line first.col name args,
          { rest := [], blockDepth := 1 }) := fun block =>
    parseStatement_tokens ready named free word text opens closes grouped
  have appended : Context.append { rest := [], blockDepth := 1 }
      ([] ++ [Node.command first.line first.col name args]) =
        (Option.some ([] ++ [Node.command first.line first.col name args]),
          { rest := [], blockDepth := 1 }) := ready.append_eq _
  have ended : ∀ (statement : Context → NodeResult) (fuel : Nat) (nodes : List Node),
      parseBlockLoop statement [] (fuel + 1) nodes { rest := [], blockDepth := 1 } =
        Option.some ((nodes, []), { rest := [], blockDepth := 1 }) := fun _ _ _ => rfl
  have loop : ∀ (block : BlockParser) (fuel : Nat),
      parseBlockLoop (parseStatement limits block) [] (fuel + 2) []
          { rest := first :: opener :: (renderArgs args ++ [closer]), blockDepth := 1 } =
        Option.some (([.command first.line first.col name args], []),
          { rest := [], blockDepth := 1 }) := by
    intro block fuel
    rw [parseBlockLoop]
    simp only [word, reduceCtorEq, or_self, if_false, any_nil, Bool.false_eq_true,
      statement, Option.bind_eq_bind, Option.bind_some, kept, if_true, appended]
    exact ended _ fuel _
  rw [parseTokens, parseBlock, if_neg Bool.false_ne_true, if_neg (by simp only [ge_iff_le]; omega)]
  have count : (first :: opener :: (renderArgs args ++ [closer])).length + 1 =
      ((renderArgs args ++ [closer]).length + 1) + 2 := rfl
  simp only [count, Nat.zero_add, loop]
  rfl

/-- Whatever its arguments hold, a call with valid bracket arguments is parsed into one command
whose arguments have the texts that were written. -/
theorem parseTokens_bracketCall (blocks : 0 < limits.maxBlockDepth)
    (named : isValidCommandName name = true)
    (free : ∀ word ∈ blockKeywords, svEqCi name word = false) (valid : ∀ arg ∈ args, arg.Valid) :
    ∃ line col parsed, parseTokens limits none (lexTokens (bracketCall name args)) =
          some ([.command line col name parsed], []) ∧
        parsed.map (fun arg => (arg.kind, arg.items.flatMap Token.text)) =
          args.map fun arg => (.bracket, arg.written) := by
  obtain ⟨groups, grouped, lexed⟩ := lexed_bracketCall named valid
  have pieces := (lexed_lexTokens (bracketCall name args)).unique lexed
  obtain ⟨first, others, shape, word, rest⟩ := map_eq_cons_iff.mp pieces
  obtain ⟨opener, others, shape', opens, rest⟩ := map_eq_cons_iff.mp rest
  obtain ⟨front, back, split, same, last⟩ := map_eq_append_iff.mp rest
  obtain ⟨closer, tail, shape'', closes, ended⟩ := map_eq_cons_iff.mp last
  obtain ⟨parsed, rendered, commandArgs, written⟩ :=
    @commandArgs_of_rawGroups limits _ _ grouped _ same
  rw [map_eq_nil_iff.mp ended] at shape''
  refine ⟨first.line, first.col, parsed, ?_, ?_⟩
  · rw [shape, shape', split, shape'', ← rendered]
    exact parseTokens_call blocks named free (congrArg Piece.kind word)
      (congrArg Piece.text word) (congrArg Piece.kind opens) (congrArg Piece.kind closes)
      commandArgs
  · rw [written, List.map_map]
    rfl

end Nobify.Parser
