import Nobify.Parser.ArgGroups

/-!
# Every call moves on

The parser ends on every list of tokens. No part of it moves the cursor back or past the end, every
statement and every block consumes a token when there is one, and a block leaves the count of open
blocks as it found it, on the paths through a failed append too. The loops rely on that: a round of
`parse_block` without a token consumed would not end.
-/

namespace Nobify.Parser

open List
open Option (bind_eq_bind bind_some)

variable {after first second third : Context}

/-! ## Moving on -/

/-- The cursor has not moved back, as many blocks are open as before, what was logged stays, and
appends still cannot fail when they could not before. -/
structure Moves (before after : Context) : Prop where
  rest : after.rest <:+ before.rest
  depth : after.blockDepth = before.blockDepth
  logged : before.diags <+: after.diags
  ready : Ready before → Ready after

theorem Moves.refl (ctx : Context) : Moves ctx ctx :=
  ⟨suffix_refl _, rfl, prefix_refl _, id⟩

theorem Moves.trans (left : Moves first second) (right : Moves second third) : Moves first third :=
  ⟨right.rest.trans left.rest, right.depth.trans left.depth, left.logged.trans right.logged,
    right.ready ∘ left.ready⟩

/-- Logging moves nothing. -/
theorem Moves.logging (ctx : Context) (more : List Diag) :
    Moves ctx { ctx with diags := ctx.diags ++ more } :=
  ⟨suffix_refl _, rfl, List.prefix_append _ _, fun ready => ⟨ready.unlimited, ready.running⟩⟩

/-- The cursor moves without anything else. -/
theorem Moves.along {ctx : Context} {rest : List Token} (suffix : rest <:+ ctx.rest) :
    Moves ctx { ctx with rest } :=
  ⟨suffix, rfl, prefix_refl _, fun ready => ⟨ready.unlimited, ready.running⟩⟩

theorem Moves.length_le {before : Context} (moves : Moves before after) :
    after.rest.length ≤ before.rest.length := moves.rest.length_le

/-- The cursor has moved, or stood at the end. -/
structure Consumes (before after : Context) : Prop extends Moves before after where
  shorter : before.rest ≠ [] → after.rest.length < before.rest.length

theorem Moves.consumes (left : Moves first second) (right : Consumes second third)
    (some : second.rest ≠ []) : Consumes first third where
  toMoves := left.trans right.toMoves
  shorter := fun _ => Nat.lt_of_lt_of_le (right.shorter some) left.length_le

theorem Consumes.moves (left : Consumes first second) (right : Moves second third) :
    Consumes first third where
  toMoves := left.toMoves.trans right
  shorter := fun some => Nat.lt_of_le_of_lt right.length_le (left.shorter some)

/-- A parser returns, and has moved on. -/
def Returns {α : Type} (before : Context) (result : Option (α × Context)) : Prop :=
  ∃ value after, result = some (value, after) ∧ Moves before after

theorem Returns.here {α : Type} {before : Context} (value : α) (moves : Moves before after) :
    Returns before (some (value, after)) := ⟨value, after, rfl, moves⟩

/-! ## Appends -/

section Appends

variable (ctx : Context)

theorem moves_log (severity : Severity) (line col : Nat) (command cause hint : String) :
    Moves ctx (ctx.log severity line col command cause hint) :=
  Moves.logging ctx _

theorem moves_logToken (token : Token) (command cause hint : String) :
    Moves ctx (ctx.logToken token command cause hint) := Moves.logging ctx _

theorem moves_append {α : Type} (grown : α) : Moves ctx (ctx.append grown).2 := by
  have ready : Ready ctx → Ready (ctx.append grown).2 := by
    intro ready
    rw [ready.append_eq]
    exact ready
  have report : ctx.diags <+: ctx.reportOom.diags := by
    unfold Context.reportOom
    dsimp only
    split
    · exact prefix_refl _
    · exact List.prefix_append _ _
  have rest : ctx.reportOom.rest = ctx.rest ∧ ctx.reportOom.blockDepth = ctx.blockDepth := by
    unfold Context.reportOom
    dsimp only
    split
    · exact ⟨rfl, rfl⟩
    · exact ⟨rfl, rfl⟩
  unfold Context.append Context.consumeAppendBudget at ready ⊢
  cases budget : ctx.failAfterAppends with
  | none => exact Moves.refl ctx
  | some left =>
    rw [budget] at ready
    cases left with
    | zero => exact ⟨rest.1 ▸ suffix_refl _, rest.2, report, ready⟩
    | succ left => exact ⟨suffix_refl _, rfl, prefix_refl _, ready⟩

theorem moves_appendNewArgWithToken (args : Args) (token : Token) (kind : ArgKind) :
    Moves ctx (appendNewArgWithToken ctx args token kind).2 := by
  have first := moves_append ctx { items := [token], kind : Arg }
  unfold appendNewArgWithToken
  rcases grown : ctx.append { items := [token], kind : Arg } with ⟨made, next⟩
  rw [grown] at first
  cases made with
  | none => exact first
  | some arg => exact first.trans (moves_append next _)

theorem moves_appendToLastOrNew (args : Args) (token : Token) (kind : ArgKind) :
    Moves ctx (appendToLastOrNew ctx args token kind).2 := by
  unfold appendToLastOrNew
  split
  · exact moves_append ctx _
  · exact moves_appendNewArgWithToken ctx args token kind

theorem moves_appendParen (mode : ParseArgsMode) (args : Args) (token : Token) :
    Moves ctx (appendParen mode ctx args token).2 := by
  cases mode with
  | commandDefault => exact moves_appendToLastOrNew ctx args token _
  | conditionExpr => exact moves_appendNewArgWithToken ctx args token _

theorem moves_appendPlain (mode : ParseArgsMode) (args : Args) (token : Token) :
    Moves ctx (appendPlain mode ctx args token).2 := by
  cases mode with
  | commandDefault => exact moves_appendToLastOrNew ctx args token _
  | conditionExpr =>
    show Moves ctx (appendWithConditionMergeRules ctx args token).2
    unfold appendWithConditionMergeRules
    dsimp only
    split
    · exact moves_append ctx _
    · exact moves_appendNewArgWithToken ctx args token _

theorem moves_copyParams (args params : Args) : Moves ctx (copyParams args params ctx).2 := by
  induction args generalizing params ctx with
  | nil => exact Moves.refl ctx
  | cons arg rest ih =>
    have first := moves_append ctx (params ++ [arg])
    rw [copyParams]
    rcases grown : ctx.append (params ++ [arg]) with ⟨made, next⟩
    rw [grown] at first
    cases made with
    | none => exact first
    | some params => exact first.trans (ih next params)

end Appends

/-! ## Arguments -/

section Args

variable {limits : Limits} {mode : ParseArgsMode} {line col : Nat}

/-- The loop leaves the cursor among the tokens that it was given. -/
theorem parseArgsLoop_moves (tokens : List Token) (state : ArgsState) (ctx : Context) :
    Moves { ctx with rest := tokens } (parseArgsLoop limits mode line col tokens state ctx).2 := by
  induction tokens generalizing state ctx with
  | nil =>
    exact (Moves.logging { ctx with rest := [] } _).trans (Moves.along (suffix_refl _))
  | cons token rest ih =>
    have later : ∀ (state : ArgsState) {next : Context}, Moves ctx next →
        Moves { ctx with rest := token :: rest }
          (parseArgsLoop limits mode line col rest state next).2 := by
      intro state next before
      have moved := ih state next
      exact ⟨moved.rest.trans (suffix_cons token rest), moved.depth.trans before.depth,
        before.logged.trans moved.logged, fun ready => moved.ready
          ((before.ready ⟨ready.unlimited, ready.running⟩).move rest)⟩
    have refused : ∀ {next : Context}, Moves ctx next →
        Moves { ctx with rest := token :: rest } { next with rest := token :: rest } := by
      intro next before
      exact ⟨suffix_refl _, before.depth, before.logged, fun ready =>
        (before.ready ⟨ready.unlimited, ready.running⟩).move (token :: rest)⟩
    rw [parseArgsLoop]
    dsimp only
    by_cases beyond : state.overflowExtra > 0
    · rw [if_pos beyond]
      exact later _ (Moves.refl ctx)
    rw [if_neg beyond]
    by_cases lparen : token.kind = .lparen
    · rw [if_pos lparen]
      by_cases deep : state.depth ≥ limits.maxParenDepth
      · rw [if_pos deep]
        apply later
        split
        · exact Moves.refl ctx
        · exact moves_log ctx _ _ _ _ _ _
      · rw [if_neg deep]
        have moved := moves_appendParen ctx mode state.args token
        split
        · rename_i next appended
          rw [appended] at moved
          exact refused moved
        · rename_i args next appended
          rw [appended] at moved
          exact later _ moved
    rw [if_neg lparen]
    by_cases rparen : token.kind = .rparen
    · rw [if_pos rparen]
      by_cases closes : state.depth = 1
      · rw [if_pos closes]
        exact ⟨suffix_cons token rest, rfl, prefix_refl _,
          fun ready => ⟨ready.unlimited, ready.running⟩⟩
      · rw [if_neg closes]
        have moved := moves_appendParen ctx mode state.args token
        split
        · rename_i next appended
          rw [appended] at moved
          exact refused moved
        · rename_i args next appended
          rw [appended] at moved
          exact later _ moved
    rw [if_neg rparen]
    by_cases separator : token.kind = .semicolon ∧ state.depth = 1
    · rw [if_pos separator]
      exact later _ (Moves.refl ctx)
    · rw [if_neg separator]
      have moved := moves_appendPlain ctx mode state.args token
      split
      · rename_i next appended
        rw [appended] at moved
        exact refused moved
      · rename_i args next appended
        rw [appended] at moved
        exact later _ moved

/-- Reading arguments moves on, and behind arguments that were read the cursor stands further on. -/
theorem parseArgs_moves (ctx : Context) : Moves ctx (parseArgs limits mode line col ctx).2 ∧
      (ctx.oom = false → (parseArgs limits mode line col ctx).1.2 = true →
        (parseArgs limits mode line col ctx).2.rest.length < ctx.rest.length) := by
  unfold parseArgs
  by_cases spent : ctx.oom = true
  · rw [if_pos spent]
    refine ⟨Moves.refl ctx, fun running => ?_⟩
    rw [running] at spent
    exact absurd spent Bool.false_ne_true
  rw [if_neg spent]
  cases tokens : ctx.rest with
  | nil => exact ⟨Moves.refl ctx, fun _ ok => absurd ok Bool.false_ne_true⟩
  | cons token rest =>
    dsimp only
    by_cases opens : token.kind = .lparen
    · rw [if_pos opens]
      have moved := @parseArgsLoop_moves limits mode line col rest {} { ctx with rest }
      refine ⟨⟨?_, moved.depth, moved.logged, fun ready =>
        moved.ready ⟨ready.unlimited, ready.running⟩⟩,
        fun _ _ => Nat.lt_succ_of_le moved.length_le⟩
      rw [tokens]
      exact moved.rest.trans (suffix_cons token rest)
    · rw [if_neg opens]
      exact ⟨Moves.refl ctx, fun _ ok => absurd ok Bool.false_ne_true⟩

theorem parseEndSignature_moves (command : String) (expected : StringView) (node : Node)
    (ctx : Context) : Moves ctx (parseEndSignature limits line col command expected node ctx).2 := by
  unfold parseEndSignature
  have moved := (@parseArgs_moves limits .commandDefault line col ctx).1
  split
  · dsimp only
    split
    · exact moved
    split
    · exact moved
    split
    · exact moved.trans (Moves.logging _ _)
    · exact moved
  · exact Moves.refl ctx

end Args

/-! ## Blocks in a statement -/

/-- What a statement relies on: nested blocks are parsed when the context has room, up to a number
of tokens. -/
def BlocksReturn (block : BlockParser) (bound : Nat) : Prop :=
  ∀ terminators (ctx : Context), ctx.oom = false → ctx.rest.length < bound →
    Returns ctx (block terminators ctx)

variable {terminator command cause hint : String}
  {build : Args → Context → Option (List Node → Node) × Context} {expected : Args → StringView}

section Statements

variable {limits : Limits} {block : BlockParser} {bound line col : Nat}

/-- How a statement starts: its arguments are read. What follows them is left open. -/
def afterArgs {α : Type} (limits : Limits) (mode : ParseArgsMode) (line col : Nat)
    (spent unread : α) (next : Args → Context → Option (α × Context)) (ctx : Context) :
    Option (α × Context) :=
  let ((args, ok), ctx) := parseArgs limits mode line col ctx
  if ctx.oom then some (spent, ctx) else if !ok then some (unread, ctx) else next args ctx

/-- How a statement goes on: a block is parsed. What follows it is left open. -/
def afterBlock {α : Type} (block : BlockParser) (terminators : List StringView) (spent : α)
    (next : List Node → StringView → Context → Option (α × Context)) (ctx : Context) :
    Option (α × Context) := do
  let ((nodes, word), ctx) ← block terminators ctx
  if ctx.oom then some (spent, ctx) else next nodes word ctx

variable {clauses : List (Args × List Node)} {foundTerm : StringView}

theorem parseElseifs_again {fuel : Nat} {ctx : Context}
    (again : svEqCi foundTerm (sv "elseif") = true) :
    parseElseifs limits block line col (fuel + 1) clauses foundTerm ctx =
      afterArgs limits .conditionExpr line col (.inl zeroNode) (.inl (makeEmptyStatement line col))
        (fun condition => afterBlock block ifTerminators (.inl zeroNode) fun nodes word ctx =>
          match ctx.append (clauses ++ [(condition, nodes)]) with
          | (none, ctx) => some (.inl zeroNode, ctx)
          | (some clauses, ctx) => parseElseifs limits block line col fuel clauses word ctx) ctx :=
  if_pos again

variable {condition : Args} {thenBlock : List Node}

theorem parseIfEnd_else {ctx : Context} (otherwise : svEqCi foundTerm (sv "else") = true) :
    parseIfEnd limits block line col condition thenBlock clauses foundTerm ctx =
      afterArgs limits .commandDefault line col zeroNode (makeEmptyStatement line col)
        (fun _ => afterBlock block [sv "endif"] zeroNode fun elseBlock word ctx =>
          if !svEqCi word (sv "endif") then
            some (makeEmptyStatement line col, ctx.log .error line col "if"
              "if sem terminador endif()" "adicione endif() ao bloco")
          else some (parseEndSignature limits line col "endif" (firstArgText condition)
            (.ifStmt line col condition thenBlock clauses elseBlock) ctx)) ctx :=
  if_pos otherwise

theorem parseIf_eq (ctx : Context) : parseIf limits block line col ctx =
    afterArgs limits .conditionExpr line col zeroNode (makeEmptyStatement line col)
      (fun condition => afterBlock block ifTerminators zeroNode fun nodes word ctx => do
        match ← parseElseifs limits block line col (ctx.rest.length + 1) [] word ctx with
        | (.inl node, ctx) => some (node, ctx)
        | (.inr (clauses, word), ctx) =>
          parseIfEnd limits block line col condition nodes clauses word ctx) ctx := rfl

theorem parseSimpleBlock_eq {mode : ParseArgsMode} (ctx : Context) :
    parseSimpleBlock limits block line col mode terminator command cause hint build expected ctx =
      afterArgs limits mode line col zeroNode (makeEmptyStatement line col) (fun args ctx =>
        match build args ctx with
        | (none, ctx) => some (zeroNode, ctx)
        | (some node, ctx) => afterBlock block [sv terminator] zeroNode (fun body word ctx =>
          if !svEqCi word (sv terminator) then
            some (makeEmptyStatement line col, ctx.log .error line col command cause hint)
          else some (parseEndSignature limits line col terminator (expected args) (node body) ctx))
            ctx) ctx := rfl

variable {α : Type} {spent unread : α} {ctx : Context}

theorem Moves.returns {before : Context} {result : Option (α × Context)} (moves : Moves before ctx)
    (returns : Returns ctx result) : Returns before result := by
  obtain ⟨value, after, went, later⟩ := returns
  exact ⟨value, after, went, moves.trans later⟩

theorem afterArgs_returns {mode : ParseArgsMode} {next : Args → Context → Option (α × Context)}
    (onward : ∀ args mid, mid.oom = false → Moves ctx mid →
      (ctx.oom = false → mid.rest.length < ctx.rest.length) → Returns mid (next args mid)) :
    Returns ctx (afterArgs limits mode line col spent unread next ctx) := by
  obtain ⟨moved, shorter⟩ := @parseArgs_moves limits mode line col ctx
  unfold afterArgs
  rcases parsed : parseArgs limits mode line col ctx with ⟨⟨args, ok⟩, mid⟩
  rw [parsed] at moved shorter
  dsimp only
  by_cases failed : mid.oom = true
  · rw [if_pos failed]
    exact Returns.here _ moved
  rw [if_neg failed]
  cases ok with
  | false => exact Returns.here _ moved
  | true =>
    exact moved.returns (onward args mid (Bool.eq_false_iff.mpr failed) moved (shorter · rfl))

variable (returns : BlocksReturn block bound)

include returns in
theorem afterBlock_returns {terminators : List StringView}
    {next : List Node → StringView → Context → Option (α × Context)} (running : ctx.oom = false)
    (fits : ctx.rest.length < bound)
    (onward : ∀ nodes word mid, mid.oom = false → Moves ctx mid → Returns mid (next nodes word mid)) :
    Returns ctx (afterBlock block terminators spent next ctx) := by
  obtain ⟨⟨nodes, word⟩, mid, read, moves⟩ := returns terminators ctx running fits
  rw [afterBlock, read, bind_eq_bind, bind_some]
  dsimp only
  by_cases failed : mid.oom = true
  · rw [if_pos failed]
    exact Returns.here _ moves
  rw [if_neg failed]
  exact moves.returns (onward nodes word mid (Bool.eq_false_iff.mpr failed) moves)

theorem parseElseifs_returns (returns : BlocksReturn block bound) {fuel : Nat}
    {clauses : List (Args × List Node)} {foundTerm : StringView}
    (running : ctx.oom = false) (fits : ctx.rest.length < bound)
    (enough : ctx.rest.length < fuel) :
    Returns ctx (parseElseifs limits block line col fuel clauses foundTerm ctx) := by
  induction fuel generalizing clauses foundTerm ctx with
  | zero => omega
  | succ fuel ih =>
    by_cases again : svEqCi foundTerm (sv "elseif") = true
    · rw [parseElseifs_again again]
      refine afterArgs_returns fun condition next started moved shorter => ?_
      have consumed := shorter running
      refine afterBlock_returns returns started (by omega) fun nodes word after still moves => ?_
      have length := moves.length_le
      have grown := moves_append after (clauses ++ [(condition, nodes)])
      rcases append_cases after (clauses ++ [(condition, nodes)]) with
        ⟨left, grew⟩ | ⟨other, stopped, _⟩
      · rw [grew] at grown ⊢
        exact grown.returns (ih still (show after.rest.length < bound by omega)
          (show after.rest.length < fuel by omega))
      · rw [stopped] at grown ⊢
        exact Returns.here _ grown
    · rw [parseElseifs, if_neg again]
      exact Returns.here _ (Moves.refl ctx)

include returns

theorem parseIfEnd_returns (fits : ctx.rest.length < bound) :
    Returns ctx (parseIfEnd limits block line col condition thenBlock clauses foundTerm ctx) := by
  by_cases otherwise : svEqCi foundTerm (sv "else") = true
  · rw [parseIfEnd_else otherwise]
    refine afterArgs_returns fun args next started moved _ => ?_
    have length : next.rest.length ≤ ctx.rest.length := moved.length_le
    refine afterBlock_returns returns started (by omega) fun nodes word after _ _ => ?_
    split
    · exact Returns.here _ (moves_log after _ _ _ _ _ _)
    · exact Returns.here _ (parseEndSignature_moves _ _ _ after)
  · unfold parseIfEnd
    dsimp only
    rw [if_neg otherwise]
    split
    · exact Returns.here _ (parseEndSignature_moves _ _ _ ctx)
    · exact Returns.here _ (moves_log ctx _ _ _ _ _ _)

theorem parseIf_returns (fits : ctx.rest.length < bound) :
    Returns ctx (parseIf limits block line col ctx) := by
  rw [parseIf_eq]
  refine afterArgs_returns fun condition next started moved _ => ?_
  have length : next.rest.length ≤ ctx.rest.length := moved.length_le
  refine afterBlock_returns returns started (by omega) fun nodes word after still moves => ?_
  have shorter := moves.length_le
  obtain ⟨found, final, went, moves⟩ := @parseElseifs_returns limits block bound line col after
    returns (after.rest.length + 1) [] word still (by omega) (by omega)
  rw [went, bind_eq_bind, bind_some]
  have last := moves.length_le
  cases found with
  | inl node => exact Returns.here _ moves
  | inr found => exact moves.returns (parseIfEnd_returns returns (by omega))

theorem parseSimpleBlock_returns {mode : ParseArgsMode}
    (built : ∀ args ctx, Moves ctx (build args ctx).2)
    (kept : ∀ args ctx, ctx.oom = false → (build args ctx).1 ≠ none → (build args ctx).2.oom =
      false) (fits : ctx.rest.length < bound) :
    Returns ctx (parseSimpleBlock limits block line col mode terminator command cause hint build
      expected ctx) := by
  rw [parseSimpleBlock_eq]
  refine afterArgs_returns fun args next started moved _ => ?_
  have length : next.rest.length ≤ ctx.rest.length := moved.length_le
  have building := built args next
  have still := kept args next started
  rcases made : build args next with ⟨node, copied⟩
  rw [made] at building still
  replace building : Moves next copied := building
  have shorter := building.length_le
  cases node with
  | none => exact Returns.here _ building
  | some node =>
    refine building.returns (afterBlock_returns returns (still nofun) (by omega)
      fun body word after _ _ => ?_)
    split
    · exact Returns.here _ (moves_log after _ _ _ _ _ _)
    · exact Returns.here _ (parseEndSignature_moves _ _ _ after)

omit returns

/-- Parameters that were copied leave the context with room. -/
theorem copyParams_running {args params grown : Args} {ctx : Context} (running : ctx.oom = false)
    (copied : copyParams args params ctx = (some grown, after)) : after.oom = false := by
  induction args generalizing params ctx with
  | nil =>
    cases copied
    exact running
  | cons arg rest ih =>
    rw [copyParams] at copied
    rcases append_cases ctx (params ++ [arg]) with ⟨left, grew⟩ | ⟨failed, stopped, _⟩
    · rw [grew] at copied
      exact @ih (params ++ [arg]) { ctx with failAfterAppends := left } running copied
    · rw [stopped] at copied
      cases copied

include returns in
theorem parseFunctionMacro_returns (isMacro : Bool) {ctx : Context} (fits : ctx.rest.length < bound)
    :
    Returns ctx (parseFunctionMacro limits block line col isMacro ctx) := by
  apply parseSimpleBlock_returns returns _ _ fits
  · intro args ctx
    have moved := moves_copyParams ctx args.tail []
    rcases copied : copyParams args.tail [] ctx with ⟨params, after⟩
    rw [copied] at moved
    cases params with
    | none => exact moved
    | some params => exact moved
  · intro args ctx running some
    rcases copied : copyParams args.tail [] ctx with ⟨params, after⟩
    cases params with
    | none =>
      rw [copied] at some
      exact absurd rfl some
    | some params => exact copyParams_running running copied

/-- Synchronizing behind a token drops it. -/
theorem syncAfterStatementError_consumes {ctx : Context} {token : Token} {rest : List Token}
    (tokens : ctx.rest = token :: rest) : Consumes ctx (ctx.syncAfterStatementError token.line) := by
  have dropped : ctx.rest.dropWhile (·.line = token.line) = rest.dropWhile (·.line = token.line) := by
    rw [tokens, dropWhile_cons, if_pos (decide_eq_true rfl)]
  refine ⟨Moves.along (dropWhile_suffix _), fun _ => ?_⟩
  show (ctx.rest.dropWhile (·.line = token.line)).length < ctx.rest.length
  rw [dropped, tokens]
  exact Nat.lt_succ_of_le (dropWhile_suffix _).length_le

/-- A statement consumes a token. -/
theorem parseStatement_consumes {ctx : Context} (running : ctx.oom = false)
    (returns : BlocksReturn block ctx.rest.length) (some : ctx.rest ≠ []) :
    ∃ node after, parseStatement limits block ctx = Option.some (node, after) ∧
      Consumes ctx after := by
  obtain ⟨token, rest, tokens⟩ := exists_cons_of_ne_nil some
  have behind : Consumes ctx { ctx with rest } := by
    refine ⟨Moves.along ?_, fun _ => ?_⟩
    · rw [tokens]
      exact suffix_cons token rest
    · rw [tokens]
      exact Nat.lt_succ_self rest.length
  have fits : ({ ctx with rest } : Context).rest.length < ctx.rest.length := behind.shorter some
  have synced : ∀ logged : Context, Moves { ctx with rest } logged →
      Consumes ctx (logged.syncAfterStatementError token.line) := by
    intro logged moves
    exact behind.moves (moves.trans (Moves.along (dropWhile_suffix _)))
  have inside : ∀ {result : NodeResult}, Returns { ctx with rest } result →
      ∃ node after, result = Option.some (node, after) ∧ Consumes ctx after := by
    rintro result ⟨node, after, went, moves⟩
    exact ⟨node, after, went, behind.moves moves⟩
  have nested : BlocksReturn block ctx.rest.length := returns
  unfold parseStatement
  rw [if_neg (by rw [running]; exact Bool.false_ne_true), tokens]
  dsimp only
  by_cases word : token.kind ≠ .identifier
  · rw [if_pos word]
    have dropped : ∀ logged : Context, Moves ctx logged → logged.rest = token :: rest →
        Consumes ctx (logged.syncAfterStatementError token.line) := by
      intro logged moves same
      have consumed := syncAfterStatementError_consumes same
      exact moves.consumes consumed (by rw [same]; exact cons_ne_nil token rest)
    refine ⟨_, _, rfl, dropped _ ?_ ?_⟩
    · split
      · exact moves_logToken ctx _ _ _ _
      · exact moves_logToken ctx _ _ _ _
    · split
      · exact tokens
      · exact tokens
  rw [if_neg word]
  by_cases invalid : (!isValidCommandName token.text) = true
  · rw [if_pos invalid]
    exact ⟨_, _, rfl, synced _ (moves_logToken _ _ _ _ _)⟩
  rw [if_neg invalid]
  by_cases bare : (!({ ctx with rest } : Context).atLparen) = true
  · rw [if_pos bare]
    exact ⟨_, _, rfl, synced _ (moves_logToken _ _ _ _ _)⟩
  rw [if_neg bare]
  split
  · exact inside (parseIf_returns nested fits)
  split
  · exact inside (parseSimpleBlock_returns nested (fun _ ctx => Moves.refl ctx)
      (fun _ _ running _ => running) fits)
  split
  · exact inside (parseSimpleBlock_returns nested (fun _ ctx => Moves.refl ctx)
      (fun _ _ running _ => running) fits)
  split
  · exact inside (parseFunctionMacro_returns nested false fits)
  split
  · exact inside (parseFunctionMacro_returns nested true fits)
  have moved := (@parseArgs_moves limits .commandDefault token.line token.col { ctx with rest }).1
  split
  · exact ⟨_, _, rfl, behind.moves moved⟩
  split
  · exact ⟨_, _, rfl, behind.moves moved⟩
  · exact ⟨_, _, rfl, behind.moves moved⟩

end Statements

/-! ## Statements in a block -/

section Blocks

variable {limits : Limits}

/-- What `parse_block` promises on a context with room. -/
structure BlockEnds (terminators : List StringView) (before after : Context) : Prop
    extends Consumes before after where
  whole : terminators = [] → after.oom = false → after.rest = []

theorem parseBlockLoop_ends {statement : Context → NodeResult} {terminators : List StringView}
    {bound : Nat} (consumes : ∀ ctx : Context, ctx.oom = false → ctx.rest.length < bound →
      ctx.rest ≠ [] → ∃ node after, statement ctx = some (node, after) ∧ Consumes ctx after)
    {fuel : Nat} {list : List Node} {ctx : Context} (running : ctx.oom = false)
    (fits : ctx.rest.length < bound) (enough : ctx.rest.length < fuel) :
    ∃ parsed after, parseBlockLoop statement terminators fuel list ctx = some (parsed, after) ∧
      BlockEnds terminators ctx after := by
  induction fuel generalizing list ctx with
  | zero => omega
  | succ fuel ih =>
    rw [parseBlockLoop]
    cases tokens : ctx.rest with
    | nil =>
      refine ⟨_, ctx, rfl, ⟨Moves.refl ctx, fun some => absurd tokens some⟩, fun _ _ => tokens⟩
    | cons token rest =>
      have some : ctx.rest ≠ [] := by
        rw [tokens]
        exact cons_ne_nil token rest
      have behind : Consumes ctx { ctx with rest } := by
        refine ⟨Moves.along ?_, fun _ => ?_⟩
        · rw [tokens]
          exact suffix_cons token rest
        · rw [tokens]
          exact Nat.lt_succ_self rest.length
      have goOn : ∀ {next : Context} (list : List Node), Consumes ctx next → next.oom = false →
          ∃ parsed after, parseBlockLoop statement terminators fuel list next =
            Option.some (parsed, after) ∧ BlockEnds terminators ctx after := by
        intro next list consumed still
        have shorter := consumed.shorter some
        obtain ⟨parsed, after, went, ends⟩ := @ih list next still (by omega) (by omega)
        exact ⟨parsed, after, went, consumed.moves ends.toMoves, ends.whole⟩
      dsimp only
      by_cases paren : token.kind = .lparen ∨ token.kind = .rparen
      · rw [if_pos paren]
        exact goOn list (behind.moves (Moves.logging _ _)) running
      rw [if_neg paren]
      by_cases closes : terminators.any (matchTokenText token) = true
      · rw [if_pos closes]
        refine ⟨_, _, rfl, behind, fun none => ?_⟩
        rw [none] at closes
        exact absurd closes Bool.false_ne_true
      rw [if_neg closes]
      obtain ⟨node, after, went, consumed⟩ := consumes ctx running fits some
      rw [went, bind_eq_bind, bind_some]
      dsimp only
      by_cases failed : after.oom = true
      · rw [if_pos failed]
        refine ⟨_, after, rfl, consumed, fun _ still => ?_⟩
        rw [still] at failed
        exact absurd failed Bool.false_ne_true
      rw [if_neg failed]
      by_cases kept : node.isKept = true
      · rw [if_pos kept]
        have moved := moves_append after (list ++ [node])
        rcases append_cases after (list ++ [node]) with ⟨left, grew⟩ | ⟨other, stopped, oom⟩
        · rw [grew] at moved ⊢
          exact goOn (list ++ [node]) (consumed.moves moved) (Bool.eq_false_iff.mpr failed)
        · rw [stopped] at moved ⊢
          refine ⟨_, other, rfl, consumed.moves moved, fun _ still => ?_⟩
          rw [still] at oom
          exact absurd oom Bool.false_ne_true
      · rw [if_neg kept]
        exact goOn list consumed (Bool.eq_false_iff.mpr failed)

theorem skipToTerminator_suffix (terminators : List StringView) (tokens : List Token) :
    (skipToTerminator terminators tokens).2 <:+ tokens ∧
      (tokens ≠ [] → (skipToTerminator terminators tokens).2.length < tokens.length) ∧
      (terminators = [] → (skipToTerminator terminators tokens).2 = []) := by
  induction tokens with
  | nil => exact ⟨suffix_refl _, fun some => absurd rfl some, fun _ => rfl⟩
  | cons token rest ih =>
    rw [skipToTerminator]
    by_cases closes : terminators.any (matchTokenText token) = true
    · rw [if_pos closes]
      refine ⟨suffix_cons token rest, fun _ => Nat.lt_succ_self _, fun none => ?_⟩
      rw [none] at closes
      exact absurd closes Bool.false_ne_true
    · rw [if_neg closes]
      exact ⟨ih.1.trans (suffix_cons token rest), fun _ => Nat.lt_succ_of_le ih.1.length_le, ih.2.2⟩

/-- A block that is parsed with room ends, and consumes a token. -/
theorem parseBlock_ends (nesting : Nat) (terminators : List StringView) {ctx : Context}
    (running : ctx.oom = false) (enough : ctx.rest.length < nesting) :
    ∃ parsed after, parseBlock limits nesting terminators ctx = some (parsed, after) ∧
      BlockEnds terminators ctx after := by
  induction nesting generalizing terminators ctx with
  | zero => omega
  | succ nesting ih =>
    rw [parseBlock, if_neg (by rw [running]; exact Bool.false_ne_true)]
    by_cases deep : ctx.blockDepth ≥ limits.maxBlockDepth
    · rw [if_pos deep]
      have skipped := skipToTerminator_suffix terminators ctx.rest
      exact ⟨_, _, rfl, ⟨(moves_log ctx _ _ _ _ _ _).trans (Moves.along skipped.1), skipped.2.1⟩,
        fun none _ => skipped.2.2 none⟩
    · rw [if_neg deep]
      have consumes : ∀ inner : Context, inner.oom = false →
          inner.rest.length < ctx.rest.length + 1 → inner.rest ≠ [] →
          ∃ node after, parseStatement limits (parseBlock limits nesting) inner =
            some (node, after) ∧ Consumes inner after := by
        intro inner still fits some
        refine parseStatement_consumes still (fun terminators other room shorter => ?_) some
        obtain ⟨parsed, after, went, ends⟩ := @ih terminators other room (by omega)
        exact ⟨parsed, after, went, ends.toMoves⟩
      obtain ⟨parsed, after, went, ends⟩ := @parseBlockLoop_ends
        (parseStatement limits (parseBlock limits nesting)) terminators (ctx.rest.length + 1)
        consumes (ctx.rest.length + 1) [] { ctx with blockDepth := ctx.blockDepth + 1 } running
        (Nat.lt_succ_self _) (Nat.lt_succ_self _)
      have depth : after.blockDepth = ctx.blockDepth + 1 := ends.depth
      rw [went]
      refine ⟨parsed, { after with blockDepth := after.blockDepth - 1 }, rfl, ?_, ends.whole⟩
      refine ⟨⟨ends.rest, ?_, ends.logged, fun ready =>
        (ends.ready (ready.nest _)).nest _⟩, ends.shorter⟩
      show after.blockDepth - 1 = ctx.blockDepth
      omega

end Blocks

/-! ## No call after a failed append -/

/-- A parser for blocks that gives up on a context out of memory. -/
def whenRunning (block : BlockParser) : BlockParser := fun terminators ctx =>
  if ctx.oom then none else block terminators ctx

section Guarded

variable {limits : Limits} {block : BlockParser} {line col : Nat}

theorem whenRunning_eq {terminators : List StringView} {ctx : Context}
    (running : ¬ ctx.oom = true) : whenRunning block terminators ctx = block terminators ctx :=
  if_neg running

theorem parseElseifs_whenRunning (fuel : Nat) (clauses : List (Args × List Node))
    (foundTerm : StringView) (ctx : Context) :
    parseElseifs limits (whenRunning block) line col fuel clauses foundTerm ctx =
      parseElseifs limits block line col fuel clauses foundTerm ctx := by
  induction fuel generalizing clauses foundTerm ctx with
  | zero => rfl
  | succ fuel ih =>
    rw [parseElseifs, parseElseifs]
    rcases parseArgs limits .conditionExpr line col ctx with ⟨⟨condition, ok⟩, next⟩
    dsimp only
    by_cases spent : next.oom = true
    · simp only [if_pos spent]
    · simp only [if_neg spent, whenRunning_eq spent, ih]

theorem parseIfEnd_whenRunning (condition : Args) (thenBlock : List Node)
    (clauses : List (Args × List Node)) (foundTerm : StringView) (ctx : Context) :
    parseIfEnd limits (whenRunning block) line col condition thenBlock clauses foundTerm ctx =
      parseIfEnd limits block line col condition thenBlock clauses foundTerm ctx := by
  unfold parseIfEnd
  rcases parseArgs limits .commandDefault line col ctx with ⟨⟨args, ok⟩, next⟩
  dsimp only
  by_cases spent : next.oom = true
  · simp only [if_pos spent]
  · simp only [if_neg spent, whenRunning_eq spent]

theorem parseIf_whenRunning (ctx : Context) :
    parseIf limits (whenRunning block) line col ctx = parseIf limits block line col ctx := by
  unfold parseIf
  rcases parseArgs limits .conditionExpr line col ctx with ⟨⟨condition, ok⟩, next⟩
  dsimp only
  by_cases spent : next.oom = true
  · simp only [if_pos spent]
  · simp only [if_neg spent, whenRunning_eq spent, parseElseifs_whenRunning, parseIfEnd_whenRunning]

theorem parseSimpleBlock_whenRunning {mode : ParseArgsMode}
    (kept : ∀ args ctx, ctx.oom = false → (build args ctx).1 ≠ none → (build args ctx).2.oom =
      false) (ctx : Context) :
    parseSimpleBlock limits (whenRunning block) line col mode terminator command cause hint build
        expected ctx =
      parseSimpleBlock limits block line col mode terminator command cause hint build expected
        ctx := by
  unfold parseSimpleBlock
  rcases parseArgs limits mode line col ctx with ⟨⟨args, ok⟩, next⟩
  dsimp only
  by_cases spent : next.oom = true
  · rw [if_pos spent, if_pos spent]
  rw [if_neg spent, if_neg spent]
  have still := kept args next (Bool.eq_false_iff.mpr spent)
  rcases made : build args next with ⟨node, copied⟩
  rw [made] at still
  cases node with
  | none => rfl
  | some node =>
    have running : copied.oom = false := still nofun
    have going : ¬ copied.oom = true := Bool.eq_false_iff.mp running
    simp only [whenRunning_eq going]

/-- A statement asks for no block out of memory. -/
theorem parseStatement_whenRunning (ctx : Context) :
    parseStatement limits (whenRunning block) ctx = parseStatement limits block ctx := by
  have copied : ∀ isMacro line col (ctx : Context),
      parseFunctionMacro limits (whenRunning block) line col isMacro ctx =
        parseFunctionMacro limits block line col isMacro ctx := by
    intro isMacro line col ctx
    apply parseSimpleBlock_whenRunning
    intro args ctx running some
    rcases grown : copyParams args.tail [] ctx with ⟨params, after⟩
    cases params with
    | none =>
      rw [grown] at some
      exact absurd rfl some
    | some params => exact copyParams_running running grown
  have each : ∀ line col (ctx : Context),
      parseForeach limits (whenRunning block) line col ctx = parseForeach limits block line col ctx :=
    fun line col ctx => parseSimpleBlock_whenRunning (fun _ _ running _ => running) ctx
  have loop : ∀ line col (ctx : Context),
      parseWhile limits (whenRunning block) line col ctx = parseWhile limits block line col ctx :=
    fun line col ctx => parseSimpleBlock_whenRunning (fun _ _ running _ => running) ctx
  unfold parseStatement
  simp only [parseIf_whenRunning, copied, each, loop]

/-- A block asks for no statement out of memory. -/
theorem parseBlockLoop_whenRunning (statement : Context → NodeResult)
    (terminators : List StringView) (fuel : Nat) (list : List Node) {ctx : Context}
    (running : ctx.oom = false) :
    parseBlockLoop (fun inner => if inner.oom then none else statement inner) terminators fuel list
        ctx = parseBlockLoop statement terminators fuel list ctx := by
  induction fuel generalizing list ctx with
  | zero => rfl
  | succ fuel ih =>
    rw [parseBlockLoop, parseBlockLoop]
    cases tokens : ctx.rest with
    | nil => rfl
    | cons token rest =>
      dsimp only
      by_cases paren : token.kind = .lparen ∨ token.kind = .rparen
      · rw [if_pos paren, if_pos paren]
        exact ih list running
      rw [if_neg paren, if_neg paren]
      by_cases closes : terminators.any (matchTokenText token) = true
      · rw [if_pos closes, if_pos closes]
      have going : ¬ ctx.oom = true := Bool.eq_false_iff.mp running
      rw [if_neg closes, if_neg closes, if_neg going]
      cases statement ctx with
      | none => rfl
      | some parsed =>
        obtain ⟨node, after⟩ := parsed
        rw [bind_eq_bind, bind_some, bind_some]
        dsimp only
        by_cases failed : after.oom = true
        · rw [if_pos failed, if_pos failed]
        rw [if_neg failed, if_neg failed]
        have still : after.oom = false := Bool.eq_false_iff.mpr failed
        by_cases kept : node.isKept = true
        · rw [if_pos kept, if_pos kept]
          rcases append_cases after (list ++ [node]) with ⟨left, grew⟩ | ⟨other, stopped, _⟩
          · rw [grew]
            exact @ih (list ++ [node]) { after with failAfterAppends := left } still
          · rw [stopped]
        · rw [if_neg kept, if_neg kept]
          exact ih list still

end Guarded

/-! ## Token lists -/

/-- On every list of tokens and with every budget of appends the parser ends: at the end of the
list, or without a tree when an append failed. Every call of a statement and of a block that finds
a token consumes one, none moves the cursor back, and each leaves the count of open blocks as it
was; and neither is called again once an append has failed. -/
theorem parseTokens_progress (limits : Limits) (budget : Option Nat) (tokens : List Token) :
    (∃ root found final,
      parseBlock limits (tokens.length + 1) [] { rest := tokens, failAfterAppends := budget } =
          some ((root, found), final) ∧
        parseTokens limits budget tokens = some (if final.oom then [] else root, final.diags) ∧
        (final.oom = false → final.rest = []) ∧ final.blockDepth = 0) ∧
    (∀ nesting terminators (ctx : Context), ctx.oom = false → ctx.rest.length < nesting →
      ∃ parsed after, parseBlock limits nesting terminators ctx = some (parsed, after) ∧
        Consumes ctx after) ∧
    (∀ nesting (ctx : Context), ctx.oom = false → ctx.rest.length ≤ nesting → ctx.rest ≠ [] →
      ∃ node after, parseStatement limits (parseBlock limits nesting) ctx = some (node, after) ∧
        Consumes ctx after) ∧
    (∀ block (ctx : Context),
      parseStatement limits (whenRunning block) ctx = parseStatement limits block ctx) ∧
    ∀ statement terminators fuel list (ctx : Context), ctx.oom = false →
      parseBlockLoop (fun inner => if inner.oom then none else statement inner) terminators fuel
          list ctx = parseBlockLoop statement terminators fuel list ctx := by
  refine ⟨?_, fun nesting terminators ctx running enough => ?_,
    fun nesting ctx running enough some => ?_, fun block ctx => parseStatement_whenRunning ctx,
    fun statement terminators fuel list ctx running =>
      parseBlockLoop_whenRunning statement terminators fuel list running⟩
  · obtain ⟨⟨root, found⟩, final, went, ends⟩ := @parseBlock_ends limits (tokens.length + 1) []
      { rest := tokens, failAfterAppends := budget } rfl (Nat.lt_succ_self _)
    refine ⟨root, found, final, went, ?_, ends.whole rfl, ends.depth⟩
    rw [parseTokens, went]
    rfl
  · obtain ⟨parsed, after, went, ends⟩ := parseBlock_ends nesting terminators running enough
    exact ⟨parsed, after, went, ends.toConsumes⟩
  · refine parseStatement_consumes running (fun terminators inner still shorter => ?_) some
    obtain ⟨parsed, after, went, ends⟩ := @parseBlock_ends limits nesting terminators inner still
      (by omega)
    exact ⟨parsed, after, went, ends.toMoves⟩

end Nobify.Parser
