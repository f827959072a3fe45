import Nobify.Parser.Progress

/-!
# A malformed statement costs its line

A run of the parser that logs nothing does the same when more tokens follow and something was logged
before. So what stands in front of a malformed statement is parsed as it is alone, the parser then
drops the line of the statement, and what stands behind it is parsed as it is alone.
-/

namespace Nobify.Parser

open Option (bind_eq_bind bind_some map_eq_some_iff)
open List Option

variable {after : Context} {tokens : List Token} {node : Node} {fuel : Nat}
  {clauses : List (Args × List Node)} {nodes : List Node}

/-! ## More behind and before -/

/-- More tokens behind the cursor, and more logged before. -/
def Context.extend (ctx : Context) (tail : List Token) (front : List Diag) : Context :=
  { ctx with rest := ctx.rest ++ tail, diags := front ++ ctx.diags }

/-- Nothing was logged before when nothing was logged after. -/
theorem Moves.quiet {before : Context} (moves : Moves before after) (quiet : after.diags = []) :
    before.diags = [] :=
  List.prefix_nil.mp (quiet ▸ moves.logged)

/-- A context that logs is not quiet. -/
theorem log_ne_nil (diags : List Diag) (diag : Diag) : diags ++ [diag] ≠ [] :=
  append_ne_nil_of_right_ne_nil _ (cons_ne_nil _ _)

section Extend

variable {ctx : Context} {tail : List Token} {front : List Diag}

theorem Ready.extend (ready : Ready ctx) (tail : List Token) (front : List Diag) :
    Ready (ctx.extend tail front) := ⟨ready.unlimited, ready.running⟩

/-- The cursor stands at a parenthesis when it did before, as the tail begins with none. -/
theorem atLparen_extend (apart : tail.head?.all (·.kind ≠ .lparen) = true) :
    (ctx.extend tail front).atLparen = ctx.atLparen := by
  unfold Context.atLparen
  show (ctx.rest ++ tail).head?.any (·.kind = .lparen) = ctx.rest.head?.any (·.kind = .lparen)
  cases ctx.rest with
  | nil =>
    cases tail with
    | nil => rfl
    | cons token rest =>
      have other : token.kind ≠ .lparen := of_decide_eq_true apart
      exact decide_eq_false other
  | cons token rest => rfl

end Extend

/-! ## Arguments -/

/-- With room, what an append grows to depends on the arguments only. -/
theorem appendToLastOrNew_grown (args : Args) (token : Token) (kind : ArgKind) :
    ∃ grown, ∀ ctx : Context, Ready ctx →
      appendToLastOrNew ctx args token kind = (some grown, ctx) := by
  unfold appendToLastOrNew
  split
  · exact ⟨_, fun _ ready => ready.append_eq _⟩
  · exact ⟨_, fun _ ready => ready.appendNewArgWithToken_eq args token kind⟩

theorem appendParen_grown (mode : ParseArgsMode) (args : Args) (token : Token) :
    ∃ grown, ∀ ctx : Context, Ready ctx → appendParen mode ctx args token = (some grown, ctx) := by
  cases mode with
  | conditionExpr => exact ⟨_, fun _ ready => ready.appendNewArgWithToken_eq args token .unquoted⟩
  | commandDefault => exact appendToLastOrNew_grown args token .unquoted

theorem appendPlain_grown (mode : ParseArgsMode) (args : Args) (token : Token) :
    ∃ grown, ∀ ctx : Context, Ready ctx → appendPlain mode ctx args token = (some grown, ctx) := by
  cases mode with
  | conditionExpr =>
    show ∃ grown, ∀ ctx : Context, Ready ctx →
      appendWithConditionMergeRules ctx args token = (some grown, ctx)
    unfold appendWithConditionMergeRules
    dsimp only
    split
    · exact ⟨_, fun _ ready => ready.append_eq _⟩
    · exact ⟨_, fun _ ready => ready.appendNewArgWithToken_eq args token _⟩
  | commandDefault => exact appendToLastOrNew_grown args token (inferArgKind token)

section Args

variable {limits : Limits} {mode : ParseArgsMode} {line col : Nat} {tail : List Token}
  {front : List Diag}

/-- An argument list that is read without a message is read the same way with more behind it. -/
theorem parseArgsLoop_extend {state : ArgsState} {ctx : Context} (ready : Ready ctx)
    (quiet : (parseArgsLoop limits mode line col tokens state ctx).2.diags = []) :
    parseArgsLoop limits mode line col (tokens ++ tail) state (ctx.extend tail front) =
      ((parseArgsLoop limits mode line col tokens state ctx).1,
        (parseArgsLoop limits mode line col tokens state ctx).2.extend tail front) := by
  induction tokens generalizing state ctx with
  | nil => exact absurd quiet (log_ne_nil _ _)
  | cons token rest ih =>
    rw [cons_append, parseArgsLoop, parseArgsLoop]
    rw [parseArgsLoop] at quiet
    dsimp only at quiet ⊢
    obtain ⟨grownParen, paren⟩ := appendParen_grown mode state.args token
    obtain ⟨grownPlain, plain⟩ := appendPlain_grown mode state.args token
    have extended := ready.extend tail front
    rw [paren ctx ready, paren _ extended, plain ctx ready, plain _ extended]
    rw [paren ctx ready, plain ctx ready] at quiet
    dsimp only at quiet ⊢
    by_cases beyond : state.overflowExtra > 0
    · rw [if_pos beyond] at quiet
      rw [if_pos beyond, if_pos beyond]
      exact ih ready quiet
    rw [if_neg beyond] at quiet
    rw [if_neg beyond, if_neg beyond]
    by_cases lparen : token.kind = .lparen
    · rw [if_pos lparen] at quiet
      rw [if_pos lparen, if_pos lparen]
      by_cases deep : state.depth ≥ limits.maxParenDepth
      · rw [if_pos deep] at quiet
        rw [if_pos deep, if_pos deep]
        by_cases reported : state.reportedParenDepth = true
        · rw [if_pos reported] at quiet
          rw [if_pos reported, if_pos reported]
          exact ih ready quiet
        · rw [if_neg reported] at quiet
          have moved := @parseArgsLoop_moves limits mode line col rest
            { state with ok := false, overflowExtra := 1, reportedParenDepth := true }
            (ctx.log .error token.line token.col "args" "profundidade maxima de parenteses excedida"
              "reduza aninhamento ou ajuste CMK2NOB_PARSER_MAX_PAREN_DEPTH")
          exact absurd (moved.quiet quiet) (log_ne_nil _ _)
      · rw [if_neg deep] at quiet
        rw [if_neg deep, if_neg deep]
        exact ih ready quiet
    rw [if_neg lparen] at quiet
    rw [if_neg lparen, if_neg lparen]
    by_cases rparen : token.kind = .rparen
    · rw [if_pos rparen] at quiet
      rw [if_pos rparen, if_pos rparen]
      by_cases closes : state.depth = 1
      · rw [if_pos closes, if_pos closes]
        rfl
      · rw [if_neg closes] at quiet
        rw [if_neg closes, if_neg closes]
        exact ih ready quiet
    rw [if_neg rparen] at quiet
    rw [if_neg rparen, if_neg rparen]
    by_cases separator : token.kind = .semicolon ∧ state.depth = 1
    · rw [if_pos separator] at quiet
      rw [if_pos separator, if_pos separator]
      exact ih ready quiet
    · rw [if_neg separator] at quiet
      rw [if_neg separator, if_neg separator]
      exact ih ready quiet

/-- Reading arguments without a message does not depend on what follows. -/
theorem parseArgs_extend (apart : tail.head?.all (·.kind ≠ .lparen) = true) {ctx : Context}
    (ready : Ready ctx) (quiet : (parseArgs limits mode line col ctx).2.diags = []) :
    parseArgs limits mode line col (ctx.extend tail front) =
      ((parseArgs limits mode line col ctx).1,
        (parseArgs limits mode line col ctx).2.extend tail front) := by
  have same := @atLparen_extend ctx tail front apart
  unfold parseArgs at quiet ⊢
  rw [if_neg ready.going] at quiet
  rw [if_neg ready.going, if_neg (ready.extend tail front).going]
  cases tokens : ctx.rest with
  | nil =>
    have behind : (ctx.extend tail front).rest = tail := by
      show ctx.rest ++ tail = tail
      rw [tokens]
      rfl
    rw [behind]
    cases tail with
    | nil => rfl
    | cons token rest =>
      have other : token.kind ≠ .lparen := of_decide_eq_true apart
      dsimp only
      rw [if_neg other]
  | cons token rest =>
    have behind : (ctx.extend tail front).rest = token :: (rest ++ tail) := by
      show ctx.rest ++ tail = _
      rw [tokens]
      rfl
    rw [behind]
    rw [tokens] at quiet
    dsimp only at quiet ⊢
    by_cases opens : token.kind = .lparen
    · rw [if_pos opens] at quiet
      rw [if_pos opens, if_pos opens]
      exact parseArgsLoop_extend (ready.move rest) quiet
    · rw [if_neg opens, if_neg opens]

/-- The signature of an end command does not depend on what follows. -/
theorem parseEndSignature_extend (apart : tail.head?.all (·.kind ≠ .lparen) = true)
    {command : String} {expected : StringView} {ctx : Context} (ready : Ready ctx)
    (quiet : (parseEndSignature limits line col command expected node ctx).2.diags = []) :
    parseEndSignature limits line col command expected node (ctx.extend tail front) =
      ((parseEndSignature limits line col command expected node ctx).1,
        (parseEndSignature limits line col command expected node ctx).2.extend tail front) := by
  have moved := (@parseArgs_moves limits .commandDefault line col ctx).1
  have same := @parseArgs_extend limits .commandDefault line col tail front apart ctx ready
  unfold parseEndSignature at quiet ⊢
  rw [atLparen_extend apart]
  by_cases opens : ctx.atLparen = true
  · rw [if_pos opens] at quiet
    rw [if_pos opens, if_pos opens]
    rcases parsed : parseArgs limits .commandDefault line col ctx with ⟨⟨args, ok⟩, next⟩
    rw [parsed] at moved same quiet
    have still : Ready next := moved.ready ready
    dsimp only at quiet same ⊢
    rw [if_neg still.going] at quiet
    cases ok with
    | false =>
      rw [same quiet]
      dsimp only
      rw [if_neg still.going, if_neg (still.extend tail front).going]
      rfl
    | true =>
      rw [Bool.not_true, if_neg Bool.false_ne_true] at quiet
      by_cases differs : expected ≠ [] ∧ firstArgText args ≠ [] ∧
          svEqCi expected (firstArgText args) = false
      · rw [if_pos differs] at quiet
        exact absurd quiet (log_ne_nil _ _)
      · rw [if_neg differs] at quiet
        rw [same quiet]
        dsimp only
        rw [if_neg still.going, if_neg (still.extend tail front).going, Bool.not_true,
          if_neg Bool.false_ne_true, if_neg Bool.false_ne_true, if_neg differs, if_neg differs]
  · rw [if_neg opens, if_neg opens]

end Args

/-! ## Statements -/

/-- What a result says when the parser returns with it. -/
theorem Returns.moved {α : Type} {before : Context} {result : Option (α × Context)} {value : α}
    (returns : Returns before result) (went : result = some (value, after)) :
    Moves before after := by
  obtain ⟨other, same, here, moves⟩ := returns
  rw [went] at here
  cases here
  exact moves

/-- What a statement relies on: the nested blocks of the first run return, and those of the second
give the same when nothing was logged and a terminator was found. -/
structure BlocksCarry (tail : List Token) (front : List Diag) (block block' : BlockParser)
    (bound : Nat) : Prop where
  returns : BlocksReturn block bound
  carried : ∀ terminators (ctx : Context), Ready ctx → ctx.rest.length < bound →
    ∀ nodes word after, block terminators ctx = some ((nodes, word), after) → after.diags = [] →
      word ≠ [] → block' terminators (ctx.extend tail front) =
        some ((nodes, word), after.extend tail front)

/-- What holds up to a bound holds up to a smaller one. -/
theorem BlocksCarry.mono {tail : List Token} {front : List Diag} {block block' : BlockParser}
    {small bound : Nat} (carry : BlocksCarry tail front block block' bound) (le : small ≤ bound) :
    BlocksCarry tail front block block' small where
  returns := fun terminators ctx running fits => carry.returns terminators ctx running (by omega)
  carried := fun terminators ctx ready fits => carry.carried terminators ctx ready (by omega)

section Statements

variable {limits : Limits} {block block' : BlockParser} {bound line col : Nat}
  {tail : List Token} {front : List Diag}

/-- Reading arguments leaves the context ready and not longer. -/
theorem parseArgs_ready {mode : ParseArgsMode} {ctx next : Context} {args : Args} {ok : Bool}
    (ready : Ready ctx) (parsed : parseArgs limits mode line col ctx = ((args, ok), next)) :
    Ready next ∧ Moves ctx next ∧ next.rest.length ≤ ctx.rest.length := by
  have moved := (@parseArgs_moves limits mode line col ctx).1
  rw [parsed] at moved
  exact ⟨moved.ready ready, moved, moved.length_le⟩

/-- Arguments that are read without a message, with more behind them. -/
theorem parseArgs_carried {mode : ParseArgsMode} (apart : tail.head?.all (·.kind ≠ .lparen) = true)
    {ctx next : Context} {args : Args} {ok : Bool} (ready : Ready ctx)
    (parsed : parseArgs limits mode line col ctx = ((args, ok), next)) (quiet : next.diags = []) :
    parseArgs limits mode line col (ctx.extend tail front) = ((args, ok), next.extend tail front) := by
  have same := @parseArgs_extend limits mode line col tail front apart ctx ready
  rw [parsed] at same
  exact same quiet

variable (apart : tail.head?.all (·.kind ≠ .lparen) = true)

include apart in
/-- Where what follows the arguments is carried over, the whole is. -/
theorem afterArgs_carried {α : Type} {spent unread value : α} {mode : ParseArgsMode}
    {next next' : Args → Context → Option (α × Context)}
    {ctx : Context} (ready : Ready ctx)
    (went : afterArgs limits mode line col spent unread next ctx = some (value, after))
    (quiet : after.diags = [])
    (onward : ∀ args mid, Ready mid → mid.rest.length < ctx.rest.length →
      next args mid = some (value, after) →
      mid.diags = [] ∧ next' args (mid.extend tail front) = some (value, after.extend tail front)) :
    afterArgs limits mode line col spent unread next' (ctx.extend tail front) =
      some (value, after.extend tail front) := by
  unfold afterArgs at went ⊢
  rcases parsed : parseArgs limits mode line col ctx with ⟨⟨args, ok⟩, mid⟩
  obtain ⟨still, moved, _⟩ := parseArgs_ready ready parsed
  have same := @parseArgs_carried limits line col tail front mode apart ctx mid args ok ready parsed
  have shorter := (@parseArgs_moves limits mode line col ctx).2 ready.running
  rw [parsed] at went shorter
  dsimp only at went
  rw [if_neg still.going] at went
  cases ok with
  | false =>
    cases went
    rw [same quiet]
    exact if_neg (still.extend tail front).going
  | true =>
    obtain ⟨midQuiet, later⟩ := onward args mid still (shorter rfl) went
    rw [same midQuiet]
    dsimp only
    rw [if_neg (still.extend tail front).going]
    exact later

variable (carry : BlocksCarry tail front block block' bound)

include carry in
/-- Where what follows a block is carried over, the whole is, and was quiet before. -/
theorem afterBlock_carried {α : Type} {spent value : α} {terminators : List StringView}
    {next next' : List Node → StringView → Context → Option (α × Context)}
    {ctx : Context} (ready : Ready ctx)
    (fits : ctx.rest.length < bound)
    (went : afterBlock block terminators spent next ctx = some (value, after))
    (onward : ∀ nodes word mid, Ready mid → Moves ctx mid →
      block terminators ctx = some ((nodes, word), mid) →
      next nodes word mid = some (value, after) → mid.diags = [] ∧ word ≠ [] ∧
        next' nodes word (mid.extend tail front) = some (value, after.extend tail front)) :
    ctx.diags = [] ∧ afterBlock block' terminators spent next' (ctx.extend tail front) =
      some (value, after.extend tail front) := by
  unfold afterBlock at went ⊢
  obtain ⟨⟨⟨nodes, word⟩, mid⟩, read, went⟩ := bind_eq_some_iff.mp went
  have moves := (carry.returns terminators ctx ready.running fits).moved read
  have still := moves.ready ready
  dsimp only at went
  rw [if_neg still.going] at went
  obtain ⟨quiet, found, later⟩ := onward nodes word mid still moves read went
  have nested := carry.carried terminators ctx ready fits nodes word mid read quiet found
  rw [nested, bind_eq_bind, bind_some]
  dsimp only
  rw [if_neg (still.extend tail front).going]
  exact ⟨moves.quiet quiet, later⟩

variable {terminator command cause hint : String}

include apart

/-- The end of a statement with a block is carried over. -/
theorem afterEnd_carried {expected word : StringView} {whole : Node} (named : sv terminator ≠ [])
    {mid : Context}
    (ready : Ready mid) (quiet : after.diags = [])
    (went : (if !svEqCi word (sv terminator) then some (makeEmptyStatement line col, mid.log
      .error line col command cause hint) else some (parseEndSignature limits line col terminator
      expected whole mid)) = some (node, after)) :
    mid.diags = [] ∧ word ≠ [] ∧ (if !svEqCi word (sv terminator) then
      some (makeEmptyStatement line col,
        (mid.extend tail front).log .error line col command cause hint)
      else some (parseEndSignature limits line col terminator expected whole
        (mid.extend tail front))) = some (node, after.extend tail front) := by
  by_cases closed : svEqCi word (sv terminator) = true
  · rw [closed, Bool.not_true, if_neg Bool.false_ne_true] at went ⊢
    have ended := some.inj went
    have last := @parseEndSignature_moves limits line col terminator expected whole mid
    rw [ended] at last
    refine ⟨last.quiet quiet, ?_, ?_⟩
    · intro empty
      rw [empty, svEqCi, beq_iff_eq] at closed
      exact named (map_eq_nil_iff.mp closed.symm)
    · rw [parseEndSignature_extend apart ready (by rw [ended]; exact quiet), ended]
  · rw [Bool.eq_false_iff.mpr closed, Bool.not_false, if_pos rfl] at went
    cases went
    exact absurd quiet (log_ne_nil _ _)

include carry in
/-- Clauses are carried over, unless the last block ran into the end of the tokens. -/
theorem parseElseifs_carried {fuel' : Nat} (more : fuel ≤ fuel') {foundTerm : StringView}
    {ctx : Context} {value : Node ⊕ List (Args × List Node) × StringView}
    (ready : Ready ctx) (fits : ctx.rest.length < bound) (enough : ctx.rest.length < fuel)
    (went : parseElseifs limits block line col fuel clauses foundTerm ctx = some (value, after))
    (quiet : after.diags = []) (ends : ¬∃ kept, value = .inr (kept, [])) :
    parseElseifs limits block' line col fuel' clauses foundTerm (ctx.extend tail front) =
      some (value, after.extend tail front) := by
  induction fuel generalizing fuel' clauses foundTerm ctx with
  | zero => cases went
  | succ fuel ih =>
    obtain ⟨fuel', rfl⟩ : ∃ left, fuel' = left + 1 := ⟨fuel' - 1, by omega⟩
    by_cases again : svEqCi foundTerm (sv "elseif") = true
    · rw [parseElseifs_again again] at went ⊢
      refine afterArgs_carried apart ready went quiet fun condition next still shorter went => ?_
      refine afterBlock_carried carry still (by omega) went
        fun nodes word mid ready moves read went => ?_
      have length := moves.length_le
      rw [ready.append_eq] at went
      rw [(ready.extend tail front).append_eq]
      dsimp only at went
      have later := (parseElseifs_returns carry.returns ready.running (by omega) (by omega)).moved
        went
      refine ⟨later.quiet quiet, ?_, ih (by omega) ready (by omega) (by omega) went⟩
      rintro rfl
      cases fuel with
      | zero => cases went
      | succ fuel =>
        rw [parseElseifs, if_neg (by decide)] at went
        cases went
        exact ends ⟨_, rfl⟩
    · rw [parseElseifs, if_neg again] at went ⊢
      cases went
      rfl

omit apart

variable {condition : Args} {thenBlock : List Node}

/-- An `if` whose last block found no terminator is reported. -/
theorem parseIfEnd_missing {ctx : Context}
    (went : parseIfEnd limits block line col condition thenBlock clauses [] ctx = some (node,
      after)) : after.diags ≠ [] := by
  rw [parseIfEnd, if_neg (by decide), if_neg (by decide)] at went
  cases went
  exact log_ne_nil _ _

include apart carry

/-- The end of an `if` is carried over. -/
theorem parseIfEnd_carried {foundTerm : StringView} {ctx : Context} (ready : Ready ctx)
    (fits : ctx.rest.length < bound)
    (went : parseIfEnd limits block line col condition thenBlock clauses foundTerm ctx = some (node,
      after)) (quiet : after.diags = []) :
    parseIfEnd limits block' line col condition thenBlock clauses foundTerm
      (ctx.extend tail front) = some (node, after.extend tail front) := by
  by_cases otherwise : svEqCi foundTerm (sv "else") = true
  · rw [parseIfEnd_else otherwise] at went ⊢
    refine afterArgs_carried apart ready went quiet fun args next still shorter went => ?_
    exact afterBlock_carried carry still (by omega) went fun nodes word mid ready _ _ went =>
      afterEnd_carried apart (by decide) ready quiet went
  · unfold parseIfEnd at went ⊢
    dsimp only at went ⊢
    rw [if_neg otherwise] at went ⊢
    by_cases closed : svEqCi foundTerm (sv "endif") = true
    · rw [if_pos closed] at went ⊢
      have ended := some.inj went
      rw [parseEndSignature_extend apart ready (by rw [ended]; exact quiet), ended]
    · rw [if_neg closed] at went
      cases went
      exact absurd quiet (log_ne_nil _ _)

/-- An `if` statement is carried over. -/
theorem parseIf_carried {ctx : Context} (ready : Ready ctx) (fits : ctx.rest.length < bound)
    (went : parseIf limits block line col ctx = some (node, after))
    (quiet : after.diags = []) :
    parseIf limits block' line col (ctx.extend tail front) =
      some (node, after.extend tail front) := by
  rw [parseIf_eq] at went ⊢
  refine afterArgs_carried apart ready went quiet fun condition next still shorter went => ?_
  refine afterBlock_carried carry still (by omega) went
    fun nodes word mid ready moves read went => ?_
  have length := moves.length_le
  obtain ⟨⟨found, final⟩, clauses, went⟩ := bind_eq_some_iff.mp went
  have later := (parseElseifs_returns carry.returns ready.running (by omega) (by omega)).moved
    clauses
  have finalLength := later.length_le
  have ends : ¬∃ kept, found = .inr (kept, []) := by
    rintro ⟨kept, rfl⟩
    exact parseIfEnd_missing went quiet
  have finalQuiet : final.diags = [] := by
    cases found with
    | inl empty =>
      cases went
      exact quiet
    | inr found => exact ((parseIfEnd_returns carry.returns (by omega)).moved went).quiet quiet
  have grows : mid.rest.length + 1 ≤ (mid.extend tail front).rest.length + 1 := by
    show mid.rest.length + 1 ≤ (mid.rest ++ tail).length + 1
    rw [length_append]
    omega
  refine ⟨later.quiet finalQuiet, ?_, ?_⟩
  · rintro rfl
    rw [parseElseifs, if_neg (by decide)] at clauses
    cases clauses
    exact ends ⟨_, rfl⟩
  · rw [parseElseifs_carried apart carry grows ready (by omega) (by omega) clauses finalQuiet ends,
      bind_eq_bind, bind_some]
    cases found with
    | inl empty =>
      cases went
      rfl
    | inr found =>
      exact parseIfEnd_carried apart carry (later.ready ready) (by omega) went quiet

/-- The statements of one block are carried over. -/
theorem parseSimpleBlock_carried {mode : ParseArgsMode}
    {build : Args → Context → Option (List Node → Node) × Context} {expected : Args → StringView}
    (named : sv terminator ≠ [])
    (built : ∀ args, ∃ make, ∀ ctx : Context, Ready ctx → build args ctx = (some make, ctx))
    {ctx : Context} (ready : Ready ctx) (fits : ctx.rest.length < bound)
    (went : parseSimpleBlock limits block line col mode terminator command cause hint build expected
      ctx = some (node, after)) (quiet : after.diags = []) :
    parseSimpleBlock limits block' line col mode terminator command cause hint build expected
      (ctx.extend tail front) = some (node, after.extend tail front) := by
  rw [parseSimpleBlock_eq] at went ⊢
  refine afterArgs_carried apart ready went quiet fun args next still shorter went => ?_
  obtain ⟨make, makes⟩ := built args
  rw [makes next still] at went
  rw [makes _ (still.extend tail front)]
  exact afterBlock_carried carry still (by omega) went fun nodes word mid ready _ _ went =>
    afterEnd_carried apart named ready quiet went

omit carry

/-- A statement that logs nothing is carried over. -/
theorem parseStatement_carried {ctx : Context}
    (carry : BlocksCarry tail front block block' ctx.rest.length) (ready : Ready ctx)
    (some : ctx.rest ≠ []) (went : parseStatement limits block ctx = Option.some (node, after))
    (quiet : after.diags = []) :
    parseStatement limits block' (ctx.extend tail front) =
      Option.some (node, after.extend tail front) := by
  obtain ⟨token, rest, tokens⟩ := exists_cons_of_ne_nil some
  have behind : (ctx.extend tail front).rest = token :: (rest ++ tail) := by
    show ctx.rest ++ tail = _
    rw [tokens]
    rfl
  have fits : ({ ctx with rest } : Context).rest.length < ctx.rest.length := by
    rw [tokens]
    exact Nat.lt_succ_self rest.length
  have moved : Ready { ctx with rest } := ready.move rest
  have synced : ∀ {logged : Context} {empty : Node}, logged.diags ≠ [] →
      Option.some (empty, logged.syncAfterStatementError token.line) ≠ Option.some (node, after) := by
    intro logged empty noisy same
    cases same
    exact noisy quiet
  unfold parseStatement at went ⊢
  rw [if_neg ready.going, tokens] at went
  rw [if_neg (ready.extend tail front).going, behind]
  dsimp only at went ⊢
  by_cases word : token.kind ≠ .identifier
  · rw [if_pos word] at went
    split at went
    · exact absurd went (synced (log_ne_nil _ _))
    · exact absurd went (synced (log_ne_nil _ _))
  rw [if_neg word] at went ⊢
  by_cases invalid : (!isValidCommandName token.text) = true
  · rw [if_pos invalid] at went
    exact absurd went (synced (log_ne_nil _ _))
  rw [if_neg invalid] at went ⊢
  have opens : ({ ctx.extend tail front with rest := rest ++ tail } : Context).atLparen =
      ({ ctx with rest } : Context).atLparen := @atLparen_extend { ctx with rest } tail front apart
  by_cases bare : (!({ ctx with rest } : Context).atLparen) = true
  · rw [if_pos bare] at went
    exact absurd went (synced (log_ne_nil _ _))
  rw [if_neg bare] at went
  rw [opens, if_neg bare]
  have macros : ∀ isMacro, parseFunctionMacro limits block token.line token.col isMacro
      { ctx with rest } = Option.some (node, after) →
      parseFunctionMacro limits block' token.line token.col isMacro
        { ctx.extend tail front with rest := rest ++ tail } =
          Option.some (node, after.extend tail front) := by
    intro isMacro ended
    refine parseSimpleBlock_carried apart carry ?_ (fun args => ?_) moved fits ended quiet
    · cases isMacro with
      | false => decide
      | true => decide
    · refine ⟨.funcDef isMacro token.line token.col (firstArgText args) args.tail,
        fun inner still => ?_⟩
      rw [copyParams_eq still]
      rfl
  by_cases isIf : matchTokenText token (sv "if") = true
  · rw [if_pos isIf] at went ⊢
    exact parseIf_carried apart carry moved fits went quiet
  rw [if_neg isIf] at went ⊢
  by_cases isForeach : matchTokenText token (sv "foreach") = true
  · rw [if_pos isForeach] at went ⊢
    exact parseSimpleBlock_carried apart carry (by decide) (fun args => ⟨_, fun _ _ => rfl⟩) moved
      fits went quiet
  rw [if_neg isForeach] at went ⊢
  by_cases isWhile : matchTokenText token (sv "while") = true
  · rw [if_pos isWhile] at went ⊢
    exact parseSimpleBlock_carried apart carry (by decide) (fun args => ⟨_, fun _ _ => rfl⟩) moved
      fits went quiet
  rw [if_neg isWhile] at went ⊢
  by_cases isFunction : matchTokenText token (sv "function") = true
  · rw [if_pos isFunction] at went ⊢
    exact macros false went
  rw [if_neg isFunction] at went ⊢
  by_cases isMacro : matchTokenText token (sv "macro") = true
  · rw [if_pos isMacro] at went ⊢
    exact macros true went
  rw [if_neg isMacro] at went ⊢
  let command (ctx : Context) : NodeResult :=
    afterArgs limits .commandDefault token.line token.col zeroNode
      (makeEmptyStatement token.line token.col)
      (fun args ctx => Option.some (.command token.line token.col token.text args, ctx)) ctx
  change command { ctx with rest } = Option.some (node, after) at went
  change command (({ ctx with rest } : Context).extend tail front) = _
  refine afterArgs_carried apart moved went quiet fun args mid _ _ went => ?_
  cases went
  exact ⟨quiet, rfl⟩

end Statements

/-! ## Blocks -/

section Blocks

variable {limits : Limits} {tail : List Token} {front : List Diag}

/-- The rounds of a block are carried over: up to the terminator, or, where none is looked for, up
to the tail. -/
theorem parseBlockLoop_carried (apart : tail.head?.all (·.kind ≠ .lparen) = true)
    {block block' : BlockParser} {bound : Nat} (carry : BlocksCarry tail front block block' bound)
    {terminators : List StringView} (fuel' : Nat) (before : List Node) {list : List Node}
    {word : StringView} {ctx : Context} (ready : Ready ctx) (fits : ctx.rest.length ≤ bound)
    (enough : ctx.rest.length < fuel) (enough' : ctx.rest.length + tail.length < fuel')
    (went : parseBlockLoop (parseStatement limits block) terminators fuel list ctx = some ((nodes, word), after))
    (quiet : after.diags = []) :
    (terminators ≠ [] ∧ parseBlockLoop (parseStatement limits block') terminators fuel' (before ++ list)
        (ctx.extend tail front) = some ((before ++ nodes, word), after.extend tail front)) ∨
      (word = [] ∧ after.rest = [] ∧ ∃ left, tail.length < left ∧
        parseBlockLoop (parseStatement limits block') terminators fuel' (before ++ list) (ctx.extend tail front) =
          parseBlockLoop (parseStatement limits block') terminators left (before ++ nodes)
            (after.extend tail front)) := by
  have consumes : ∀ ctx : Context, ctx.oom = false → ctx.rest.length < bound + 1 →
      ctx.rest ≠ [] → ∃ node after, parseStatement limits block ctx = some (node, after) ∧
        Consumes ctx after := fun ctx running fits =>
    parseStatement_consumes running (carry.mono (by omega)).returns
  induction fuel generalizing fuel' list ctx with
  | zero => omega
  | succ fuel ih =>
    rw [parseBlockLoop] at went
    cases tokens : ctx.rest with
    | nil =>
      rw [tokens] at went
      cases went
      exact Or.inr ⟨rfl, tokens, fuel', by omega, rfl⟩
    | cons token rest =>
      have some : ctx.rest ≠ [] := by
        rw [tokens]
        exact cons_ne_nil token rest
      have behind : (ctx.extend tail front).rest = token :: (rest ++ tail) := by
        show ctx.rest ++ tail = _
        rw [tokens]
        rfl
      obtain ⟨fuel', rfl⟩ : ∃ left, fuel' = left + 1 := ⟨fuel' - 1, by omega⟩
      rw [tokens] at went
      dsimp only at went
      have later : ∀ {list : List Node} {next : Context}, next.oom = false →
          next.rest.length < ctx.rest.length →
          parseBlockLoop (parseStatement limits block) terminators fuel list next = Option.some ((nodes, word), after) →
          next.diags = [] := by
        intro list next running shorter ended
        obtain ⟨parsed, final, same, ends⟩ := @parseBlockLoop_ends (parseStatement limits block)
          terminators (bound + 1)
          consumes fuel list next running (by omega) (by omega)
        rw [ended] at same
        cases same
        exact ends.quiet quiet
      rw [parseBlockLoop, behind]
      dsimp only
      by_cases paren : token.kind = .lparen ∨ token.kind = .rparen
      · rw [if_pos paren] at went
        have shorter : rest.length < ctx.rest.length := by
          rw [tokens]
          exact Nat.lt_succ_self _
        exact absurd (later (by exact ready.running) (by exact shorter) went) (log_ne_nil _ _)
      rw [if_neg paren] at went ⊢
      by_cases closes : terminators.any (matchTokenText token) = true
      · rw [if_pos closes] at went ⊢
        cases went
        refine Or.inl ⟨fun none => ?_, rfl⟩
        rw [none] at closes
        exact absurd closes Bool.false_ne_true
      rw [if_neg closes] at went ⊢
      obtain ⟨node, mid, read, consumed⟩ := consumes ctx ready.running (by omega) some
      have shorter := consumed.shorter some
      have still := consumed.ready ready
      rw [read, bind_eq_bind, bind_some] at went
      dsimp only at went
      rw [if_neg still.going] at went
      have midQuiet : mid.diags = [] := by
        by_cases kept : node.isKept = true
        · rw [if_pos kept, still.append_eq] at went
          exact later still.running shorter went
        · rw [if_neg kept] at went
          exact later still.running shorter went
      rw [parseStatement_carried apart (carry.mono fits) ready some read midQuiet,
        bind_eq_bind, bind_some]
      dsimp only
      rw [if_neg (still.extend tail front).going]
      by_cases kept : node.isKept = true
      · rw [if_pos kept, still.append_eq] at went
        rw [if_pos kept, (still.extend tail front).append_eq, append_assoc]
        exact ih _ still (by omega) (by omega) (by omega) went
      · rw [if_neg kept] at went ⊢
        exact ih _ still (by omega) (by omega) (by omega) went

/-- Blocks are carried over, where the second run may nest deeper. -/
theorem parseBlock_carried (apart : tail.head?.all (·.kind ≠ .lparen) = true)
    {nesting nesting' : Nat} (more : nesting ≤ nesting') :
    BlocksCarry tail front (parseBlock limits nesting) (parseBlock limits nesting') nesting := by
  induction nesting generalizing nesting' with
  | zero =>
    exact ⟨fun _ ctx _ fits => absurd fits (Nat.not_lt_zero _),
      fun _ ctx _ fits => absurd fits (Nat.not_lt_zero _)⟩
  | succ nesting ih =>
    obtain ⟨nesting', rfl⟩ : ∃ left, nesting' = left + 1 := ⟨nesting' - 1, by omega⟩
    have inner : BlocksCarry tail front (parseBlock limits nesting) (parseBlock limits nesting')
        nesting := ih (by omega)
    refine ⟨fun terminators ctx running fits => ?_,
      fun terminators ctx ready fits nodes word after went quiet found => ?_⟩
    · obtain ⟨parsed, after, went, ends⟩ :=
        @parseBlock_ends limits (nesting + 1) terminators ctx running fits
      exact ⟨parsed, after, went, ends.toMoves⟩
    · rw [parseBlock, if_neg ready.going] at went
      rw [parseBlock, if_neg (ready.extend tail front).going]
      by_cases deep : ctx.blockDepth ≥ limits.maxBlockDepth
      · rw [if_pos deep] at went
        cases went
        exact absurd quiet (log_ne_nil _ _)
      rw [if_neg deep] at went
      have shallow : ¬ (ctx.extend tail front).blockDepth ≥ limits.maxBlockDepth := deep
      rw [if_neg shallow]
      obtain ⟨⟨parsed, final⟩, loop, shape⟩ := map_eq_some_iff.mp went
      cases shape
      have length : (ctx.extend tail front).rest.length = ctx.rest.length + tail.length :=
        length_append
      have enough : ctx.rest.length + tail.length < (ctx.extend tail front).rest.length + 1 := by
        omega
      rcases parseBlockLoop_carried apart inner ((ctx.extend tail front).rest.length + 1) []
        (ready.nest (ctx.blockDepth + 1)) (Nat.le_of_lt_succ fits) (Nat.lt_succ_self _) enough loop
        quiet with ⟨_, same⟩ | ⟨none, _⟩
      · refine map_eq_some_iff.mpr ⟨_, same, ?_⟩
        rfl
      · exact absurd none found

end Blocks

/-! ## The line of a malformed statement -/

section Recovery

variable {limits : Limits}

/-- The rounds of a block end when blocks may nest as deep as there are tokens. -/
theorem parseBlockLoop_parseStatement_ends (nesting : Nat) (terminators : List StringView)
    {list : List Node} {ctx : Context} (running : ctx.oom = false)
    (fits : ctx.rest.length ≤ nesting) (enough : ctx.rest.length < fuel) :
    ∃ parsed after, parseBlockLoop (parseStatement limits (parseBlock limits nesting)) terminators
      fuel list ctx = some (parsed, after) ∧ BlockEnds terminators ctx after := by
  have consumes : ∀ inner : Context, inner.oom = false → inner.rest.length < nesting + 1 →
      inner.rest ≠ [] → ∃ node after,
        parseStatement limits (parseBlock limits nesting) inner = some (node, after) ∧
          Consumes inner after := by
    intro inner still shorter
    refine parseStatement_consumes still fun terminators other room length => ?_
    obtain ⟨parsed, after, went, ends⟩ := @parseBlock_ends limits nesting terminators other room
      (by omega)
    exact ⟨parsed, after, went, ends.toMoves⟩
  exact parseBlockLoop_ends consumes running (Nat.lt_succ_of_le fits) enough

variable (parsed : parseTokens limits none tokens = some (nodes, []))

include parsed in
/-- What a run at top level without a message is: its rounds go through the tokens. -/
theorem parseTokens_quiet : 0 < limits.maxBlockDepth ∧ ∃ word,
      parseBlockLoop (parseStatement limits (parseBlock limits tokens.length)) []
        (tokens.length + 1) [] { rest := tokens, blockDepth := 1 } =
          some ((nodes, word), { rest := [], blockDepth := 1 }) := by
  have ready : Ready { rest := tokens, blockDepth := 1 } := ⟨rfl, rfl⟩
  obtain ⟨⟨⟨root, word⟩, final⟩, went, shape⟩ := map_eq_some_iff.mp parsed
  have quiet : final.diags = [] := (Prod.mk.inj shape).2
  rw [parseBlock, if_neg Bool.false_ne_true] at went
  by_cases deep : ({ rest := tokens } : Context).blockDepth ≥ limits.maxBlockDepth
  · rw [if_pos deep] at went
    cases went
    exact absurd quiet (log_ne_nil _ _)
  · rw [if_neg deep] at went
    obtain ⟨⟨inside, after⟩, loop, closed⟩ := map_eq_some_iff.mp went
    obtain ⟨other, ended, same, ends⟩ := @parseBlockLoop_parseStatement_ends (tokens.length + 1)
      limits tokens.length [] [] { rest := tokens, blockDepth := 1 } rfl (Nat.le_refl _)
      (Nat.lt_succ_self _)
    rw [loop] at same
    cases same
    cases closed
    have running := ends.ready ready
    have rest := ends.whole rfl running.running
    have depth := ends.depth
    have roots : root = nodes := by
      have first := (Prod.mk.inj shape).1
      rwa [if_neg running.going] at first
    refine ⟨Nat.lt_of_not_le deep, word, loop.trans ?_⟩
    obtain ⟨behind, blockDepth, budget, oom, diags⟩ := after
    cases rest
    cases depth
    cases running.unlimited
    cases running.running
    cases quiet
    rw [roots]

/-- A statement that is none: it begins with no parenthesis, and with no name of a command that a
parenthesis follows. -/
def Malformed : List Token → Prop
  | [] => False
  | first :: others => ¬ first.IsParen ∧
      (first.kind ≠ .identifier ∨ isValidCommandName first.text = false ∨
        others.head?.all (·.kind ≠ .lparen) = true)

instance : DecidablePred Malformed
  | [] => inferInstanceAs (Decidable False)
  | _ :: _ => inferInstanceAs (Decidable (_ ∧ _))

/-- A malformed statement is reported, and its line is dropped. -/
theorem parseStatement_malformed {block : BlockParser} {first : Token} {others behind : List Token}
    (malformed : Malformed (first :: others))
    (oneLine : ∀ token ∈ first :: others, token.line = first.line)
    (elsewhere : ∀ token ∈ behind, token.line ≠ first.line)
    (apart : behind.head?.all (·.kind ≠ .lparen) = true) {ctx : Context} (ready : Ready ctx)
    (tokens : ctx.rest = first :: (others ++ behind)) :
    ∃ diag, parseStatement limits block ctx = some (makeEmptyStatement first.line first.col,
      { ctx with rest := behind, diags := ctx.diags ++ [diag] }) := by
  have stays : behind.dropWhile (·.line = first.line) = behind := by
    cases behind with
    | nil => rfl
    | cons token rest =>
      have other : ¬ decide (token.line = first.line) = true := fun same =>
        elsewhere token mem_cons_self (of_decide_eq_true same)
      rw [dropWhile_cons, if_neg other]
  have drops : ∀ same : List Token, (∀ token ∈ same, token.line = first.line) →
      (same ++ behind).dropWhile (·.line = first.line) = behind := by
    intro same lines
    rw [dropWhile_append_of_pos fun token listed => decide_eq_true (lines token listed)]
    exact stays
  have whole := drops (first :: others) oneLine
  have behindFirst := drops others fun token listed => oneLine token (mem_cons_of_mem _ listed)
  have synced : ∀ (rest : List Token) (command cause hint : String),
      rest.dropWhile (·.line = first.line) = behind →
      ∃ diag, some (makeEmptyStatement first.line first.col,
        (({ ctx with rest } : Context).logToken first command cause hint).syncAfterStatementError
          first.line) = some (makeEmptyStatement first.line first.col,
            { ctx with rest := behind, diags := ctx.diags ++ [diag] }) := by
    intro rest command cause hint dropped
    refine ⟨⟨.error, first.line, first.col, sv command, sv cause ++ first.text, sv hint⟩, ?_⟩
    unfold Context.syncAfterStatementError Context.logToken
    dsimp only
    rw [dropped]
  unfold parseStatement
  rw [if_neg ready.going, tokens]
  dsimp only
  by_cases word : first.kind ≠ .identifier
  · rw [if_pos word]
    have dropped : ctx.rest.dropWhile (·.line = first.line) = behind := by
      rw [tokens]
      exact whole
    split
    · exact synced ctx.rest _ _ _ dropped
    · exact synced ctx.rest _ _ _ dropped
  rw [if_neg word]
  by_cases invalid : (!isValidCommandName first.text) = true
  · rw [if_pos invalid]
    exact synced (others ++ behind) _ _ _ behindFirst
  rw [if_neg invalid]
  have bare : (!({ ctx with rest := others ++ behind } : Context).atLparen) = true := by
    have bareOthers : others.head?.all (·.kind ≠ .lparen) = true := by
      rcases malformed.2 with other | invalidName | bare
      · exact absurd other word
      · rw [invalidName] at invalid
        exact absurd rfl invalid
      · exact bare
    unfold Context.atLparen
    cases others with
    | nil =>
      cases behind with
      | nil => rfl
      | cons token rest =>
        have other : token.kind ≠ .lparen := of_decide_eq_true apart
        exact Bool.not_eq_true' _ |>.mpr (decide_eq_false other)
    | cons token rest =>
      have other : token.kind ≠ .lparen := of_decide_eq_true bareOthers
      exact Bool.not_eq_true' _ |>.mpr (decide_eq_false other)
  rw [if_pos bare]
  exact synced (others ++ behind) _ _ _ behindFirst

include parsed

/-- A run without a message begins with no parenthesis. -/
theorem parseTokens_quiet_head : tokens.head?.all (·.kind ≠ .lparen) = true := by
  obtain ⟨_, word, loop⟩ := parseTokens_quiet parsed
  cases tokens with
  | nil => rfl
  | cons token rest =>
    refine decide_eq_true fun opens => ?_
    rw [parseBlockLoop] at loop
    dsimp only at loop
    rw [if_pos (Or.inl opens)] at loop
    obtain ⟨read, final, same, ends⟩ := @parseBlockLoop_parseStatement_ends (token :: rest).length
      limits (token :: rest).length [] []
      { (Context.logToken { rest := token :: rest, blockDepth := 1 } token "token"
          "token inesperado no nivel de bloco: "
          "parenteses no nivel de bloco exigem um comando valido") with rest } rfl
      (Nat.le_succ _) (Nat.lt_succ_self _)
    rw [loop] at same
    cases same
    exact absurd (ends.quiet rfl) (log_ne_nil _ _)

/-- At top level tokens that are parsed without a message are parsed as they are alone, whatever
stands behind them and was logged before. -/
theorem parseTokens_quiet_then {tail : List Token}
    (apart : tail.head?.all (·.kind ≠ .lparen) = true) (front : List Diag) (list : List Node)
    {nesting : Nat} (deep : tokens.length ≤ nesting) (enough : tokens.length + tail.length < fuel) :
    ∃ left, tail.length < left ∧
      parseBlockLoop (parseStatement limits (parseBlock limits nesting)) [] fuel list
          { rest := tokens ++ tail, blockDepth := 1, diags := front } =
        parseBlockLoop (parseStatement limits (parseBlock limits nesting)) [] left (list ++ nodes)
          { rest := tail, blockDepth := 1, diags := front } := by
  obtain ⟨_, word, loop⟩ := parseTokens_quiet parsed
  have carry : BlocksCarry tail front (parseBlock limits tokens.length) (parseBlock limits nesting)
      tokens.length := parseBlock_carried apart deep
  have ready : Ready { rest := tokens, blockDepth := 1 } := ⟨rfl, rfl⟩
  rcases parseBlockLoop_carried apart carry fuel list ready (Nat.le_refl _) (Nat.lt_succ_self _)
    enough loop rfl with ⟨named, _⟩ | ⟨_, _, left, more, same⟩
  · exact absurd rfl named
  · refine ⟨left, more, ?_⟩
    simp only [Context.extend, append_nil, nil_append] at same
    exact same

omit parsed

/-- Behind tokens that are parsed without a message others are parsed as they are alone. -/
theorem parseTokens_append {before behind : List Token} {nodes others : List Node}
    (parsed : parseTokens limits none before = some (nodes, []))
    (parsedBehind : parseTokens limits none behind = some (others, [])) :
    parseTokens limits none (before ++ behind) = some (nodes ++ others, []) := by
  have room := (parseTokens_quiet parsed).1
  have whole : (before ++ behind).length = before.length + behind.length := length_append
  rw [parseTokens, parseBlock, if_neg Bool.false_ne_true, if_neg (Nat.not_le_of_lt room)]
  generalize (before ++ behind).length = nesting at whole
  obtain ⟨left, more, front⟩ := parseTokens_quiet_then parsed (parseTokens_quiet_head parsedBehind)
    [] [] (show before.length ≤ nesting by omega) (show _ < nesting + 1 by omega)
  obtain ⟨last, some, back⟩ := parseTokens_quiet_then parsedBehind rfl [] nodes
    (show behind.length ≤ nesting by omega)
    (show behind.length + ([] : List Token).length < left from more)
  obtain ⟨last, rfl⟩ : ∃ fewer, last = fewer + 1 := ⟨last - 1, by omega⟩
  rw [append_nil] at back
  rw [front, nil_append, back]
  rfl

/-- Programs that are parsed without a message are, one behind the other, parsed as the tree in
which their trees follow one another. -/
theorem parseTokens_programs (room : 0 < limits.maxBlockDepth)
    {programs : List (List Token × List Node)}
    (parsed : ∀ program ∈ programs, parseTokens limits none program.1 = some (program.2, [])) :
    parseTokens limits none (programs.flatMap Prod.fst) = some (programs.flatMap Prod.snd, []) := by
  induction programs with
  | nil =>
    rw [flatMap_nil, parseTokens, parseBlock, if_neg Bool.false_ne_true,
      if_neg (Nat.not_le_of_lt room)]
    rfl
  | cons program programs ih =>
    exact parseTokens_append (parsed program mem_cons_self)
      (ih fun other listed => parsed other (mem_cons_of_mem _ listed))

/-- Between two lists of tokens that are parsed without a message, a malformed statement on a line
of its own costs one message, and the tree is that of the first list followed by that of the
second. -/
theorem parseTokens_malformed_line {before malformed behind : List Token} {nodes others : List Node}
    (parsed : parseTokens limits none before = some (nodes, []))
    (parsedBehind : parseTokens limits none behind = some (others, [])) {line : Nat}
    (oneLine : ∀ token ∈ malformed, token.line = line)
    (ownLine : ∀ token ∈ before ++ behind, token.line ≠ line) (bad : Malformed malformed) :
    ∃ diag, parseTokens limits none (before ++ malformed ++ behind) =
      some (nodes ++ others, [diag]) := by
  have room := (parseTokens_quiet parsed).1
  have apart := parseTokens_quiet_head parsedBehind
  cases malformed with
  | nil => exact absurd bad id
  | cons first rest =>
    have notParen : ¬ (first.kind = .lparen ∨ first.kind = .rparen) := bad.1
    have apartMalformed : (first :: (rest ++ behind)).head?.all (·.kind ≠ .lparen) = true :=
      decide_eq_true fun opens => bad.1 (Or.inl opens)
    have shape : before ++ first :: rest ++ behind = before ++ first :: (rest ++ behind) := by
      rw [append_assoc, cons_append]
    have whole : (before ++ first :: (rest ++ behind)).length =
        before.length + (first :: (rest ++ behind)).length := length_append
    have longer : behind.length < (first :: (rest ++ behind)).length := by
      rw [length_cons, length_append]
      omega
    rw [shape, parseTokens, parseBlock, if_neg Bool.false_ne_true, if_neg (Nat.not_le_of_lt room)]
    generalize (before ++ first :: (rest ++ behind)).length = nesting at whole
    -- what stands in front is parsed as it is alone
    obtain ⟨left, more, front⟩ := parseTokens_quiet_then parsed apartMalformed [] []
      (show before.length ≤ nesting by omega) (show _ < nesting + 1 by omega)
    -- the line of the malformed statement is dropped
    obtain ⟨left, rfl⟩ : ∃ fewer, left = fewer + 1 := ⟨left - 1, by omega⟩
    have sameLine : line = first.line := (oneLine first mem_cons_self).symm
    rw [sameLine] at oneLine ownLine
    obtain ⟨diag, statement⟩ := @parseStatement_malformed limits (parseBlock limits nesting) first
      rest behind bad oneLine (fun token listed => ownLine token (mem_append_right _ listed))
      apart { rest := first :: (rest ++ behind), blockDepth := 1 } ⟨rfl, rfl⟩ rfl
    have dropped : parseBlockLoop (parseStatement limits (parseBlock limits nesting)) [] (left + 1)
        nodes { rest := first :: (rest ++ behind), blockDepth := 1 } =
          parseBlockLoop (parseStatement limits (parseBlock limits nesting)) [] left nodes
            { rest := behind, blockDepth := 1, diags := [diag] } := by
      rw [parseBlockLoop]
      dsimp only
      rw [if_neg notParen, any_nil, if_neg Bool.false_ne_true, statement]
      rfl
    -- what stands behind is parsed as it is alone
    have enough : behind.length + ([] : List Token).length < left := by
      rw [length_nil]
      omega
    obtain ⟨last, some, back⟩ := parseTokens_quiet_then parsedBehind rfl [diag] nodes
      (show behind.length ≤ nesting by omega) enough
    obtain ⟨last, rfl⟩ : ∃ fewer, last = fewer + 1 := ⟨last - 1, by omega⟩
    rw [append_nil] at back
    refine ⟨diag, ?_⟩
    rw [front, nil_append, dropped, back]
    rfl

/-- A command without arguments. -/
def bareCall (line : Nat) (name : StringView) : List Token :=
  [wordToken line 1 name, lparenToken line 2, rparenToken line 3]

/-- Two commands are the tree of both. -/
theorem parseTokens_programs_two :
    parseTokens {} none (bareCall 1 (sv "a") ++ (bareCall 2 (sv "b") ++ [])) =
      some ([.command 1 1 (sv "a") [], .command 2 1 (sv "b") []], []) :=
  @parseTokens_programs {} (by decide) [(bareCall 1 (sv "a"), [.command 1 1 (sv "a") []]),
    (bareCall 2 (sv "b"), [.command 2 1 (sv "b") []])] fun program listed => by
    rcases mem_cons.mp listed with rfl | last
    · rfl
    · rw [mem_singleton.mp last]
      rfl

/-- The parenthesis that a malformed statement leaves open does not reach the next command. -/
theorem parseTokens_malformed_line_open : ∃ diag, parseTokens {} none (bareCall 1 (sv "a") ++
        [wordToken 2 1 (sv "1x"), lparenToken 2 3, wordToken 2 4 (sv "y")] ++
        bareCall 3 (sv "b")) =
      some ([.command 1 1 (sv "a") [], .command 3 1 (sv "b") []], [diag]) :=
  @parseTokens_malformed_line {} (bareCall 1 (sv "a"))
    [wordToken 2 1 (sv "1x"), lparenToken 2 3, wordToken 2 4 (sv "y")] (bareCall 3 (sv "b")) _ _ rfl
    rfl 2 (by decide) (by decide) (by decide)

end Recovery

end Nobify.Parser
