import Nobify.Lib.Chunks
import Nobify.Parser.Render

/-!
# How tokens become arguments

Between the parentheses of a call nothing is lost but the semicolons that stand outside of inner
parentheses. What is left is cut into arguments between neighbours that do not join: in a command
where there is space before the second one, in a condition also around every parenthesis.

A semicolon that is dropped leaves no space behind, so the tokens around it are neighbours and join
when there is no space before the second.
-/

namespace Nobify.Parser

open Nobify.Lib
open List
open Option (any_some mem_some_iff)

/-! ## The tokens of a list -/

/-- The parenthesis depth behind a token. -/
def depthBehind (token : Token) (depth : Nat) : Nat :=
  if token.kind = .lparen then depth + 1
  else if token.kind = .rparen then depth - 1
  else depth

/-- Every token with the depth at which it stands. -/
def tokenDepths : Nat → List Token → List (Token × Nat)
  | _, [] => []
  | depth, token :: rest => (token, depth) :: tokenDepths (depthBehind token depth) rest

/-- The tokens up to the parenthesis that closes the list, and the tokens behind it. -/
def matchingParen : Nat → List Token → Option (List Token × List Token)
  | _, [] => none
  | depth, token :: rest =>
    if token.kind = .rparen ∧ depth = 1 then some ([], rest)
    else (matchingParen (depthBehind token depth) rest).map fun (inner, after) =>
      (token :: inner, after)

/-- A semicolon outside of inner parentheses. -/
def isSeparator (entry : Token × Nat) : Bool := entry.1.kind == .semicolon && entry.2 == 1

/-- The tokens without the separators. -/
def withoutSeparators (depth : Nat) (tokens : List Token) : List Token :=
  ((tokenDepths depth tokens).filter fun entry => !isSeparator entry).map Prod.fst

/-- No parenthesis opens too deep. -/
def Shallow (limits : Limits) (depth : Nat) (tokens : List Token) : Prop :=
  ∀ entry ∈ tokenDepths depth tokens, entry.1.kind = .lparen → entry.2 < limits.maxParenDepth

instance (limits : Limits) (depth : Nat) (tokens : List Token) :
    Decidable (Shallow limits depth tokens) :=
  inferInstanceAs (Decidable (∀ entry ∈ tokenDepths depth tokens, _))

/-! ## Arguments as chunks -/

/-- Two neighbours belong to one argument. -/
def joins (mode : ParseArgsMode) (token next : Token) : Bool :=
  !next.hasSpaceLeft && (mode == .commandDefault || !(decide token.IsParen || decide next.IsParen))

/-- The kind of an argument that starts at a token: the one inferred from it, and a parenthesis
starts no quoted argument. -/
def firstKind (token : Token) : ArgKind :=
  if token.IsParen then .unquoted else inferArgKind token

/-- The arguments are the tokens, cut between neighbours that do not join. -/
structure Grouped (mode : ParseArgsMode) (tokens : List Token) (args : Args) : Prop where
  chunks : args.map Arg.items = tokens.splitBy (joins mode)
  kinds : ∀ arg ∈ args, arg.items.head?.map firstKind = some arg.kind

section Grouped

variable {mode : ParseArgsMode} {tokens : List Token} {args : Args}

/-- In order the arguments have exactly the tokens. -/
theorem Grouped.flatten (grouped : Grouped mode tokens args) : args.flatMap Arg.items = tokens := by
  rw [flatMap_def, grouped.chunks, flatten_splitBy]

/-- In a condition a parenthesis is an argument of its own. -/
theorem Grouped.paren_alone (grouped : Grouped .conditionExpr tokens args) {arg : Arg}
    (listed : arg ∈ args) {token : Token} (inside : token ∈ arg.items) (paren : token.IsParen) :
    arg.items = [token] := by
  have chunk : arg.items ∈ tokens.splitBy (joins .conditionExpr) := by
    rw [← grouped.chunks]
    exact mem_map_of_mem listed
  have chained := isChain_of_mem_splitBy chunk
  obtain ⟨before, after, shape⟩ := append_of_mem inside
  rw [shape] at chained ⊢
  have nothingAfter : after = [] := by
    cases after with
    | nil => rfl
    | cons next after =>
      have linked := (isChain_append.mp chained).2.1
      rw [isChain_cons_cons] at linked
      have joined := linked.1
      simp [joins, paren] at joined
  have nothingBefore : before = [] := by
    cases last : before.getLast? with
    | none => exact List.getLast?_eq_none_iff.mp last
    | some previous =>
      have joined := (isChain_append.mp chained).2.2 previous last token rfl
      simp [joins, paren] at joined
  rw [nothingBefore, nothingAfter]
  rfl

end Grouped

/-! ## One append -/

/-- Where a token goes: into the last argument when it joins the last token, and else into a new
one. -/
def placeToken (mode : ParseArgsMode) (args : Args) (token : Token) : Args :=
  if (lastToken? args).any (joins mode · token) then
    args.modifyLast fun arg => { arg with items := arg.items ++ [token] }
  else args ++ [{ items := [token], kind := firstKind token }]

/-- The last argument of arguments that have a last token. -/
theorem Grouped.last {mode : ParseArgsMode} {tokens : List Token} {args : Args}
    (grouped : Grouped mode tokens args) : lastToken? args = tokens.getLast? := by
  rw [← grouped.flatten]
  unfold lastToken?
  cases ends : args.getLast? with
  | none =>
    rw [List.getLast?_eq_none_iff.mp ends]
    rfl
  | some arg =>
    obtain ⟨before, shape⟩ := List.getLast?_eq_some_iff.mp ends
    have kinds := grouped.kinds arg (by rw [shape]; simp)
    have filled : arg.items ≠ [] := by
      intro empty
      rw [empty] at kinds
      cases kinds
    rw [shape, flatMap_append, flatMap_singleton, List.getLast?_append_of_ne_nil _ filled]
    rfl

/-- Placing a token keeps the arguments cut where neighbours do not join. -/
theorem Grouped.place {mode : ParseArgsMode} {tokens : List Token} {args : Args}
    (grouped : Grouped mode tokens args) (token : Token) :
    Grouped mode (tokens ++ [token]) (placeToken mode args token) := by
  unfold placeToken
  rw [grouped.last]
  cases ends : tokens.getLast? with
  | none =>
    have none : tokens = [] := List.getLast?_eq_none_iff.mp ends
    have noArgs : args = [] := by
      have chunks := grouped.chunks
      rw [none] at chunks
      exact map_eq_nil_iff.mp chunks
    rw [none, noArgs]
    exact ⟨rfl, fun arg listed => by rw [mem_singleton.mp listed]; rfl⟩
  | some last =>
    have found : lastToken? args = some last := grouped.last.trans ends
    unfold lastToken? at found
    obtain ⟨arg, lastArg, lastItem⟩ := Option.bind_eq_some_iff.mp found
    obtain ⟨before, shape⟩ := List.getLast?_eq_some_iff.mp lastArg
    obtain ⟨chunk, items⟩ := List.getLast?_eq_some_iff.mp lastItem
    by_cases joined : joins mode last token = true
    · rw [any_some, if_pos joined, shape, modifyLast_concat]
      have split : tokens.splitBy (joins mode) = before.map Arg.items ++ [chunk ++ [last]] := by
        rw [← grouped.chunks, shape, map_append, map_singleton, items]
      refine ⟨?_, fun other listed => ?_⟩
      · rw [splitBy_concat_joined split joined, map_append, map_singleton, items, append_assoc]
        rfl
      · rcases mem_append.mp listed with front | back
        · exact grouped.kinds other (by rw [shape]; exact mem_append_left _ front)
        · have kinds := grouped.kinds arg (by rw [shape]; simp)
          rw [mem_singleton.mp back, ← kinds, items]
          cases chunk <;> rfl
    · rw [any_some, if_neg joined]
      refine ⟨?_, fun other listed => ?_⟩
      · rw [splitBy_concat_apart fun previous here => ?_, map_append, grouped.chunks]
        · rfl
        · rw [ends, mem_some_iff] at here
          rw [← here]
          exact Bool.eq_false_iff.mpr joined
      · rcases mem_append.mp listed with front | back
        · exact grouped.kinds other front
        · rw [mem_singleton.mp back]
          rfl

/-- An append gives what grew, or the context has run out of memory. -/
theorem append_cases {α : Type} (ctx : Context) (grown : α) :
    (∃ left, ctx.append grown = (some grown, { ctx with failAfterAppends := left })) ∨
      ∃ failed, ctx.append grown = (none, failed) ∧ failed.oom = true := by
  unfold Context.append Context.consumeAppendBudget
  cases budget : ctx.failAfterAppends with
  | none => exact Or.inl ⟨ctx.failAfterAppends, rfl⟩
  | some left =>
    cases left with
    | zero => exact Or.inr ⟨ctx.reportOom, rfl, rfl⟩
    | succ left => exact Or.inl ⟨some left, rfl⟩

theorem appendNewArgWithToken_cases (ctx : Context) (args : Args) (token : Token) (kind : ArgKind) :
    (∃ left, appendNewArgWithToken ctx args token kind =
      (some (args ++ [⟨[token], kind⟩]), { ctx with failAfterAppends := left })) ∨
      ∃ failed, appendNewArgWithToken ctx args token kind = (none, failed) ∧ failed.oom = true := by
  unfold appendNewArgWithToken
  rcases append_cases ctx { items := [token], kind : Arg } with ⟨left, grew⟩ | ⟨failed, stopped, oom⟩
  · rw [grew]
    rcases append_cases { ctx with failAfterAppends := left } (args ++ [⟨[token], kind⟩]) with
      ⟨rest, grewAgain⟩ | ⟨failed, stopped, oom⟩
    · exact Or.inl ⟨rest, grewAgain⟩
    · exact Or.inr ⟨failed, stopped, oom⟩
  · rw [stopped]
    exact Or.inr ⟨failed, rfl, oom⟩

/-- The append of a token between the parentheses, in both modes. -/
def appendToken (mode : ParseArgsMode) (ctx : Context) (args : Args) (token : Token) :
    Option Args × Context :=
  if token.IsParen then appendParen mode ctx args token else appendPlain mode ctx args token

/-- The last token of arguments, none of which is empty. -/
theorem lastToken_cases {args : Args} (filled : ∀ arg ∈ args, arg.items ≠ []) :
    args = [] ∧ lastToken? args = none ∨ args ≠ [] ∧ ∃ last, lastToken? args = some last := by
  cases ends : args.getLast? with
  | none =>
    have none : args = [] := List.getLast?_eq_none_iff.mp ends
    exact Or.inl ⟨none, by rw [none]; rfl⟩
  | some arg =>
    have listed : arg ∈ args := mem_of_getLast? ends
    refine Or.inr ⟨ne_nil_of_mem listed, arg.items.getLast (filled arg listed), ?_⟩
    unfold lastToken?
    rw [ends]
    exact List.getLast?_eq_some_getLast _

/-- A token is appended to the last argument when it joins the last token. -/
theorem appendToken_eq (mode : ParseArgsMode) (ctx : Context) {args : Args}
    (filled : ∀ arg ∈ args, arg.items ≠ []) (token : Token) :
    appendToken mode ctx args token =
      if (lastToken? args).any (joins mode · token) then appendToLast ctx args token
      else appendNewArgWithToken ctx args token (firstKind token) := by
  have known := lastToken_cases filled
  cases mode with
  | commandDefault =>
    have command : appendToken .commandDefault ctx args token =
        appendToLastOrNew ctx args token (firstKind token) := by
      unfold appendToken firstKind
      by_cases paren : token.IsParen
      · rw [if_pos paren, if_pos paren]
        rfl
      · rw [if_neg paren, if_neg paren]
        rfl
    have glued : (args ≠ [] ∧ token.hasSpaceLeft = false) ↔
        (lastToken? args).any (joins .commandDefault · token) = true := by
      rcases known with ⟨none, noLast⟩ | ⟨some, last, isLast⟩
      · rw [noLast]
        simp [none]
      · simp [some, isLast, joins]
    rw [command, appendToLastOrNew]
    simp only [glued]
  | conditionExpr =>
    by_cases paren : token.IsParen
    · have apart : (lastToken? args).any (joins .conditionExpr · token) = false := by
        cases lastToken? args with
        | none => rfl
        | some last => simp [joins, paren]
      rw [appendToken, if_pos paren, apart, firstKind, if_pos paren]
      rfl
    · have merges : (args ≠ [] ∧ token.hasSpaceLeft = false ∧ ((lastToken? args).any fun last =>
          last.kind = .lparen ∨ last.kind = .rparen) = false) ↔
            (lastToken? args).any (joins .conditionExpr · token) = true := by
        rcases known with ⟨none, noLast⟩ | ⟨some, last, isLast⟩
        · rw [noLast]
          simp [none]
        · rw [isLast, any_some, any_some]
          by_cases lastParen : last.IsParen
          · have here : (decide (last.kind = .lparen ∨ last.kind = .rparen)) = true :=
              decide_eq_true lastParen
            rw [here]
            simp [joins, lastParen]
          · have here : (decide (last.kind = .lparen ∨ last.kind = .rparen)) = false :=
              decide_eq_false lastParen
            rw [here]
            simp [some, joins, lastParen, paren]
      rw [appendToken, if_neg paren, firstKind, if_neg paren]
      show appendWithConditionMergeRules ctx args token = _
      unfold appendWithConditionMergeRules
      simp only [merges]

/-- A token goes to its place, or the context has run out of memory. -/
theorem appendToken_cases (mode : ParseArgsMode) (ctx : Context) {args : Args}
    (filled : ∀ arg ∈ args, arg.items ≠ []) (token : Token) :
    (∃ left, appendToken mode ctx args token =
      (some (placeToken mode args token), { ctx with failAfterAppends := left })) ∨
      ∃ failed, appendToken mode ctx args token = (none, failed) ∧ failed.oom = true := by
  have fresh := appendNewArgWithToken_cases ctx args token (firstKind token)
  have merged := append_cases ctx
    (args.modifyLast fun arg => { arg with items := arg.items ++ [token] })
  have same := appendToken_eq mode ctx filled token
  rw [same]
  unfold placeToken
  by_cases joined : (lastToken? args).any (joins mode · token) = true
  · rw [if_pos joined, if_pos joined]
    exact merged
  · rw [if_neg joined, if_neg joined]
    exact fresh

/-! ## The loop -/

section Loop

variable {limits : Limits} {mode : ParseArgsMode} (line col : Nat)

/-- A token that neither closes the list nor separates is appended. -/
theorem parseArgsLoop_append {token : Token} (rest : List Token) {depth : Nat} (args : Args)
    (ctx : Context) (inside : ¬ (token.kind = .rparen ∧ depth = 1))
    (apart : isSeparator (token, depth) = false)
    (shallow : token.kind = .lparen → depth < limits.maxParenDepth) :
    parseArgsLoop limits mode line col (token :: rest) { args, depth } ctx =
      match appendToken mode ctx args token with
      | (none, failed) => (([], true), { failed with rest := token :: rest })
      | (some grown, ctx) =>
        parseArgsLoop limits mode line col rest
          { args := grown, depth := depthBehind token depth } ctx := by
  rw [parseArgsLoop]
  dsimp only
  rw [if_neg (Nat.lt_irrefl 0)]
  unfold depthBehind appendToken
  by_cases lparen : token.kind = .lparen
  · have paren : token.IsParen := Or.inl lparen
    rw [if_pos lparen, if_pos paren, if_pos lparen]
    exact if_neg (Nat.not_le.mpr (shallow lparen))
  · rw [if_neg lparen, if_neg lparen]
    by_cases rparen : token.kind = .rparen
    · have paren : token.IsParen := Or.inr rparen
      have deep : ¬ depth = 1 := fun one => inside ⟨rparen, one⟩
      rw [if_pos rparen, if_pos paren, if_pos rparen]
      exact if_neg deep
    · have plain : ¬ token.IsParen := not_or_intro lparen rparen
      have kept : ¬ (token.kind = .semicolon ∧ depth = 1) := by
        intro separator
        simp [isSeparator, separator.1, separator.2] at apart
      rw [if_neg rparen, if_neg plain, if_neg rparen]
      exact if_neg kept

/-- The loop cuts what it keeps into arguments and stops behind the parenthesis that closes the
list, unless the context runs out of memory. -/
theorem parseArgsLoop_grouped {tokens inner after before : List Token} {depth : Nat} {args : Args}
    {ctx : Context} (closes : matchingParen depth tokens = some (inner, after))
    (shallow : Shallow limits depth inner) (grouped : Grouped mode before args) :
    (∃ failed, parseArgsLoop limits mode line col tokens { args, depth } ctx =
      (([], true), failed) ∧ failed.oom = true) ∨
    ∃ final left, parseArgsLoop limits mode line col tokens { args, depth } ctx =
      ((final, true), { ctx with rest := after, failAfterAppends := left }) ∧
        Grouped mode (before ++ withoutSeparators depth inner) final := by
  induction tokens generalizing inner before depth args ctx with
  | nil => cases closes
  | cons token rest ih =>
    rw [matchingParen] at closes
    by_cases closing : token.kind = .rparen ∧ depth = 1
    · rw [if_pos closing] at closes
      cases closes
      refine Or.inr ⟨args, ctx.failAfterAppends, ?_, ?_⟩
      · rw [parseArgsLoop]
        simp [closing.1, closing.2]
      · rw [withoutSeparators, tokenDepths]
        simpa using grouped
    · rw [if_neg closing] at closes
      obtain ⟨⟨inside, behind⟩, found, same⟩ := Option.map_eq_some_iff.mp closes
      cases same
      have deeper : Shallow limits (depthBehind token depth) inside :=
        fun entry listed => shallow entry (mem_cons_of_mem _ listed)
      cases separator : isSeparator (token, depth) with
      | true =>
        have kinds : token.kind = .semicolon ∧ depth = 1 := by
          simpa [isSeparator] using separator
        have same : depthBehind token depth = depth := by
          rw [depthBehind, kinds.1]
          rfl
        have kept : withoutSeparators depth (token :: inside) = withoutSeparators depth inside := by
          rw [withoutSeparators, tokenDepths, filter_cons_of_neg (by simp [separator]), same]
          rfl
        have dropped : parseArgsLoop limits mode line col (token :: rest) { args, depth } ctx =
            parseArgsLoop limits mode line col rest { args, depth } ctx := by
          rw [parseArgsLoop]
          simp [kinds.1, kinds.2]
        rw [dropped, kept]
        rw [same] at found deeper
        exact ih found deeper grouped
      | false =>
        have kept : before ++ withoutSeparators depth (token :: inside) =
            before ++ [token] ++ withoutSeparators (depthBehind token depth) inside := by
          rw [withoutSeparators, tokenDepths, filter_cons_of_pos (by simp [separator]),
            map_cons, append_assoc]
          rfl
        have step := @parseArgsLoop_append limits mode line col token rest depth args ctx closing
          separator fun lparen => shallow (token, depth) mem_cons_self lparen
        have filled : ∀ arg ∈ args, arg.items ≠ [] := by
          intro arg listed empty
          have kinds := grouped.kinds arg listed
          rw [empty] at kinds
          cases kinds
        rw [step, kept]
        rcases appendToken_cases mode ctx filled token with ⟨left, grew⟩ | ⟨failed, stopped, oom⟩
        · rw [grew]
          rcases ih found deeper (grouped.place token) with failure | ⟨final, rest, went, fine⟩
          · exact Or.inl failure
          · exact Or.inr ⟨final, rest, went, fine⟩
        · rw [stopped]
          exact Or.inl ⟨{ failed with rest := token :: rest }, rfl, oom⟩

/-- When no append fails the tokens between the parentheses become the arguments. -/
theorem parseArgs_grouped {ctx : Context} {opener : Token} {tokens inner after : List Token}
    (opens : opener.kind = .lparen) (closes : matchingParen 1 tokens = some (inner, after))
    (shallow : Shallow limits 1 inner)
    (appended : (parseArgs limits mode line col { ctx with rest := opener :: tokens }).2.oom =
      false) :
    ∃ args left, parseArgs limits mode line col { ctx with rest := opener :: tokens } =
        ((args, true), { ctx with rest := after, failAfterAppends := left }) ∧
      Grouped mode (withoutSeparators 1 inner) args := by
  unfold parseArgs at appended ⊢
  by_cases spent : ctx.oom = true
  · rw [if_pos spent] at appended
    rw [show ctx.oom = false from appended] at spent
    exact absurd spent Bool.false_ne_true
  · rw [if_neg spent] at appended ⊢
    dsimp only at appended ⊢
    rw [if_pos opens] at appended ⊢
    have start : Grouped mode [] [] := ⟨rfl, fun arg listed => nomatch listed⟩
    rcases @parseArgsLoop_grouped limits mode line col _ _ _ _ _ _ { ctx with rest := tokens }
      closes shallow start with ⟨failed, stopped, oom⟩ | ⟨args, left, went, grouped⟩
    · rw [stopped] at appended
      rw [show failed.oom = false from appended] at oom
      exact absurd oom Bool.false_ne_true
    · exact ⟨args, left, went, grouped⟩

end Loop

/-! ## The arguments of a call -/

/-- The arguments are the tokens up to the parenthesis that closes the list, without the semicolons
outside of inner parentheses, cut between neighbours that do not join; in a condition every
parenthesis is an argument of its own, and every argument has the kind of its first token. -/
theorem parseArgs_tokens {limits : Limits} {mode : ParseArgsMode} (line col : Nat) {ctx : Context}
    {opener : Token} {tokens inner after : List Token} (opens : opener.kind = .lparen)
    (closes : matchingParen 1 tokens = some (inner, after)) (shallow : Shallow limits 1 inner)
    (appended : (parseArgs limits mode line col { ctx with rest := opener :: tokens }).2.oom =
      false) :
    ∃ args left, parseArgs limits mode line col { ctx with rest := opener :: tokens } =
        ((args, true), { ctx with rest := after, failAfterAppends := left }) ∧
      args.flatMap Arg.items = withoutSeparators 1 inner ∧
      args.map Arg.items = (withoutSeparators 1 inner).splitBy (joins mode) ∧
      (mode = .conditionExpr → ∀ arg ∈ args, ∀ token ∈ arg.items, token.IsParen →
        arg.items = [token]) ∧
      ∀ arg ∈ args, arg.items.head?.map firstKind = some arg.kind := by
  obtain ⟨args, left, parsed, grouped⟩ := parseArgs_grouped line col opens closes shallow appended
  refine ⟨args, left, parsed, grouped.flatten, grouped.chunks, fun condition arg listed token => ?_,
    grouped.kinds⟩
  subst condition
  exact grouped.paren_alone listed

/-- The tokens between the parentheses of `f(a;b (c))`. -/
def nestedList : List Token :=
  [wordToken 1 3 (sv "a"), ⟨.semicolon, sv ";", 1, 4, false⟩, wordToken 1 5 (sv "b"),
    { lparenToken 1 7 with hasSpaceLeft := true }, wordToken 1 8 (sv "c"), rparenToken 1 9]

/-- As a condition they are four arguments without the separator. -/
theorem parseArgs_tokens_nested : ∃ args left, parseArgs {} .conditionExpr 1 1
        { rest := lparenToken 1 2 :: (nestedList ++ [rparenToken 1 10]) } =
      ((args, true), { rest := [], failAfterAppends := left }) ∧
        args.map (fun arg => arg.items.map Token.text) =
          [[sv "a", sv "b"], [sv "("], [sv "c"], [sv ")"]] := by
  have closes : matchingParen 1 (nestedList ++ [rparenToken 1 10]) = some (nestedList, []) := by
    decide
  obtain ⟨args, left, parsed, _, chunks, _⟩ := @parseArgs_tokens {} .conditionExpr 1 1
    { rest := [] } (lparenToken 1 2) _ _ _ rfl closes (by decide) (by decide)
  refine ⟨args, left, parsed, ?_⟩
  have texts : args.map (fun arg => arg.items.map Token.text) =
      (args.map Arg.items).map (List.map Token.text) := by
    rw [List.map_map]
    rfl
  rw [texts, chunks]
  decide

/-! ## Separators -/

/-- The depth behind tokens. -/
def depthBehindAll (depth : Nat) (tokens : List Token) : Nat :=
  tokens.foldl (fun depth token => depthBehind token depth) depth

theorem tokenDepths_append (depth : Nat) (left right : List Token) :
    tokenDepths depth (left ++ right) =
      tokenDepths depth left ++ tokenDepths (depthBehindAll depth left) right := by
  induction left generalizing depth with
  | nil => rfl
  | cons token left ih =>
    rw [cons_append, tokenDepths, ih, tokenDepths]
    rfl

/-- A separator of a list stands between the tokens before it and those behind it. -/
structure Separated (inner left : List Token) (separator : Token) (right : List Token) : Prop where
  shape : inner = left ++ separator :: right
  semicolon : separator.kind = .semicolon
  outside : depthBehindAll 1 left = 1

/-- What is kept of a list is what is kept of its two sides. -/
theorem Separated.kept {inner left right : List Token} {separator : Token}
    (separated : Separated inner left separator right) :
    withoutSeparators 1 inner = withoutSeparators 1 left ++ withoutSeparators 1 right := by
  have dropped : isSeparator (separator, 1) = true := by
    rw [isSeparator, separated.semicolon]
    rfl
  have same : depthBehind separator 1 = 1 := by
    rw [depthBehind, separated.semicolon]
    rfl
  unfold withoutSeparators
  rw [separated.shape, tokenDepths_append, separated.outside, tokenDepths, same,
    filter_append, filter_cons_of_neg (by simp [dropped]), map_append]

/-- No argument has tokens from both sides of a separator. -/
def SeparatorsSplit (inner : List Token) (args : Args) : Prop :=
  ∀ left separator right, Separated inner left separator right →
    ∃ before after, args = before ++ after ∧ before.flatMap Arg.items = withoutSeparators 1 left ∧
      after.flatMap Arg.items = withoutSeparators 1 right

/-- The next token that is kept behind a separator has space before it, unless nothing was kept
before or, in a condition, one of the two neighbours is a parenthesis. -/
def SeparatorsSpaced (mode : ParseArgsMode) (inner : List Token) : Prop :=
  ∀ left separator right, Separated inner left separator right →
    ∀ last ∈ (withoutSeparators 1 left).getLast?, ∀ next ∈ (withoutSeparators 1 right).head?,
      next.hasSpaceLeft = true ∨ mode = .conditionExpr ∧ (last.IsParen ∨ next.IsParen)

theorem joins_eq_false_iff {mode : ParseArgsMode} {last next : Token} :
    joins mode last next = false ↔
      next.hasSpaceLeft = true ∨ mode = .conditionExpr ∧ (last.IsParen ∨ next.IsParen) := by
  unfold joins
  cases next.hasSpaceLeft with
  | true => simp
  | false =>
    cases mode with
    | commandDefault => simp
    | conditionExpr =>
      by_cases lastParen : last.IsParen
      · simp [lastParen]
      · by_cases nextParen : next.IsParen
        · simp [nextParen]
        · simp [lastParen, nextParen]

/-- The separators keep the arguments of a call apart exactly when there is space behind each of
them. -/
theorem parseArgs_separates_iff {limits : Limits} {mode : ParseArgsMode} (line col : Nat)
    {ctx : Context} {opener : Token} {tokens inner after : List Token}
    (opens : opener.kind = .lparen) (closes : matchingParen 1 tokens = some (inner, after))
    (shallow : Shallow limits 1 inner)
    (appended : (parseArgs limits mode line col { ctx with rest := opener :: tokens }).2.oom =
      false) :
    ∃ args left, parseArgs limits mode line col { ctx with rest := opener :: tokens } =
        ((args, true), { ctx with rest := after, failAfterAppends := left }) ∧
      (SeparatorsSplit inner args ↔ SeparatorsSpaced mode inner) := by
  obtain ⟨args, left, parsed, grouped⟩ := parseArgs_grouped line col opens closes shallow appended
  refine ⟨args, left, parsed, ?_⟩
  unfold SeparatorsSplit SeparatorsSpaced
  refine forall_congr' fun before => forall_congr' fun separator => forall_congr' fun behind =>
    forall_congr' fun separated => ?_
  have cut := @Lib.splitBy_cut_iff _ (joins mode) (withoutSeparators 1 before)
    (withoutSeparators 1 behind)
  simp only [joins_eq_false_iff] at cut
  rw [← cut, ← separated.kept, ← grouped.chunks]
  constructor
  · rintro ⟨front, back, rfl, fronts, backs⟩
    exact ⟨front.map Arg.items, back.map Arg.items, map_append, fronts, backs⟩
  · rintro ⟨fronts, backs, split, frontIs, backIs⟩
    obtain ⟨front, back, rfl, rfl, rfl⟩ := map_eq_append_iff.mp split
    exact ⟨front, back, rfl, frontIs, backIs⟩

/-- The tokens between the parentheses of a call with a separator. -/
def twoWords (hasSpaceLeft : Bool) : List Token :=
  [wordToken 1 3 (sv "a"), ⟨.semicolon, sv ";", 1, 4, false⟩,
    { wordToken 1 6 (sv "b") with hasSpaceLeft }]

/-- The only separator of the list stands between the words. -/
theorem Separated.twoWords {hasSpaceLeft : Bool} {left right : List Token} {separator : Token}
    (separated : Separated (twoWords hasSpaceLeft) left separator right) :
    left = [wordToken 1 3 (sv "a")] ∧ right = [{ wordToken 1 6 (sv "b") with hasSpaceLeft }] := by
  have shape := separated.shape
  have semicolon := separated.semicolon
  match left with
  | [] =>
    cases shape
    cases semicolon
  | [_] =>
    cases shape
    exact ⟨rfl, rfl⟩
  | [_, _] =>
    cases shape
    cases semicolon
  | first :: second :: third :: rest =>
    have lengths := congrArg List.length shape
    simp [Parser.twoWords] at lengths

/-- The separator of `f(a; b)` keeps the arguments apart. -/
theorem parseArgs_separates_iff_spaced : ∃ args left, parseArgs {} .commandDefault 1 1
        { rest := lparenToken 1 2 :: (twoWords true ++ [rparenToken 1 7]) } =
      ((args, true), { rest := [], failAfterAppends := left }) ∧
        SeparatorsSplit (twoWords true) args := by
  have closes : matchingParen 1 (twoWords true ++ [rparenToken 1 7]) = some (twoWords true, []) := by
    decide
  obtain ⟨args, left, parsed, split⟩ := @parseArgs_separates_iff {} .commandDefault 1 1
    { rest := [] } (lparenToken 1 2) _ _ _ rfl closes (by decide) (by decide)
  refine ⟨args, left, parsed, split.mpr ?_⟩
  intro before separator behind separated last _ next isNext
  rw [separated.twoWords.2] at isNext
  have same : next = { wordToken 1 6 (sv "b") with hasSpaceLeft := true } :=
    (mem_some_iff.mp isNext).symm
  rw [same]
  exact Or.inl rfl

/-- In `f(a;b)` both words are in one argument. -/
theorem parseArgs_glues : (parseArgs {} .commandDefault 1 1
        { rest := lparenToken 1 2 :: (twoWords false ++ [rparenToken 1 7]) }).1 =
      ([⟨[wordToken 1 3 (sv "a"), wordToken 1 6 (sv "b")], .unquoted⟩], true) ∧
      ¬ SeparatorsSplit (twoWords false)
        [⟨[wordToken 1 3 (sv "a"), wordToken 1 6 (sv "b")], .unquoted⟩] := by
  refine ⟨by decide, fun split => ?_⟩
  obtain ⟨before, after, shape, front, back⟩ := split [wordToken 1 3 (sv "a")]
    ⟨.semicolon, sv ";", 1, 4, false⟩ [wordToken 1 6 (sv "b")] ⟨rfl, rfl, rfl⟩
  match before with
  | [] => cases front
  | [_] =>
    cases shape
    cases front
  | _ :: _ :: _ => cases shape

end Nobify.Parser
