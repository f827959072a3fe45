import Nobify.Parser.Recovery

/-!
# Two runs of the parser side by side

What the parser makes of the tokens depends neither on what was logged before nor on how many blocks
are open, but through the parser for nested blocks. So where two parsers for blocks give the same
blocks up to a change of their nodes, statements and blocks made with them are the same up to that
change one level deeper.
-/

namespace Nobify.Parser

open Option (bind_eq_bind bind_eq_some_iff bind_some)
open List Option

/-! ## Contexts -/

/-- Two contexts before the same tokens in which appends cannot fail, so many blocks being open in
the second. -/
structure Alike (depth : Nat) (left right : Context) : Prop where
  first : Ready left
  second : Ready right
  rest : right.rest = left.rest
  opened : right.blockDepth = depth

namespace Alike

variable {depth : Nat} {left right : Context}

variable (alike : Alike depth left right)

include alike

theorem move (rest : List Token) : Alike depth { left with rest } { right with rest } :=
  ⟨alike.first.move rest, alike.second.move rest, rfl, alike.opened⟩

/-- What was logged does not matter. -/
theorem logging (diags diags' : List Diag) :
    Alike depth { left with diags } { right with diags := diags' } :=
  ⟨⟨alike.first.unlimited, alike.first.running⟩, ⟨alike.second.unlimited, alike.second.running⟩,
    alike.rest, alike.opened⟩

/-- More blocks may be open. -/
theorem nest (blockDepth depth' : Nat) :
    Alike depth' { left with blockDepth } { right with blockDepth := depth' } :=
  ⟨alike.first.nest blockDepth, alike.second.nest depth', alike.rest, rfl⟩

theorem sync (line : Nat) :
    Alike depth (left.syncAfterStatementError line) (right.syncAfterStatementError line) := by
  have same : right.rest.dropWhile (·.line = line) = left.rest.dropWhile (·.line = line) := by
    rw [alike.rest]
  exact ⟨alike.first.move _, alike.second.move _, same, alike.opened⟩

theorem atLparen : right.atLparen = left.atLparen := by
  unfold Context.atLparen
  rw [alike.rest]

end Alike

/-! ## Arguments -/

section Args

variable {limits limits' : Limits} (parens : limits'.maxParenDepth = limits.maxParenDepth)
  {mode : ParseArgsMode} {line col depth : Nat}

include parens

/-- The arguments are those of the tokens. -/
theorem parseArgsLoop_alike {tokens : List Token} {state : ArgsState} {left right : Context}
    (alike : Alike depth left right) :
    ∃ after, parseArgsLoop limits' mode line col tokens state right =
        ((parseArgsLoop limits mode line col tokens state left).1, after) ∧
      Alike depth (parseArgsLoop limits mode line col tokens state left).2 after := by
  induction tokens generalizing state left right with
  | nil => exact ⟨_, rfl, (alike.logging _ _).move []⟩
  | cons token rest ih =>
    obtain ⟨grownParen, paren⟩ := appendParen_grown mode state.args token
    obtain ⟨grownPlain, plain⟩ := appendPlain_grown mode state.args token
    rw [parseArgsLoop, parseArgsLoop, parens]
    rw [paren left alike.first, paren right alike.second, plain left alike.first,
      plain right alike.second]
    dsimp only
    by_cases beyond : state.overflowExtra > 0
    · rw [if_pos beyond, if_pos beyond]
      exact ih alike
    rw [if_neg beyond, if_neg beyond]
    by_cases lparen : token.kind = .lparen
    · rw [if_pos lparen, if_pos lparen]
      by_cases deep : state.depth ≥ limits.maxParenDepth
      · rw [if_pos deep, if_pos deep]
        by_cases reported : state.reportedParenDepth = true
        · rw [if_pos reported, if_pos reported]
          exact ih alike
        · rw [if_neg reported, if_neg reported]
          exact ih (alike.logging _ _)
      · rw [if_neg deep, if_neg deep]
        exact ih alike
    rw [if_neg lparen, if_neg lparen]
    by_cases rparen : token.kind = .rparen
    · rw [if_pos rparen, if_pos rparen]
      by_cases closes : state.depth = 1
      · rw [if_pos closes, if_pos closes]
        exact ⟨_, rfl, alike.move rest⟩
      · rw [if_neg closes, if_neg closes]
        exact ih alike
    rw [if_neg rparen, if_neg rparen]
    by_cases separator : token.kind = .semicolon ∧ state.depth = 1
    · rw [if_pos separator, if_pos separator]
      exact ih alike
    · rw [if_neg separator, if_neg separator]
      exact ih alike

theorem parseArgs_alike {left right next : Context} {args : Args} {ok : Bool}
    (alike : Alike depth left right)
    (parsed : parseArgs limits mode line col left = ((args, ok), next)) :
    ∃ after, parseArgs limits' mode line col right = ((args, ok), after) ∧
      Alike depth next after := by
  unfold parseArgs at parsed ⊢
  rw [if_neg alike.first.going] at parsed
  rw [if_neg alike.second.going, alike.rest]
  cases tokens : left.rest with
  | nil =>
    rw [tokens] at parsed
    cases parsed
    exact ⟨right, rfl, alike⟩
  | cons token rest =>
    rw [tokens] at parsed
    dsimp only at parsed ⊢
    by_cases opens : token.kind = .lparen
    · rw [if_pos opens] at parsed ⊢
      have same := @parseArgsLoop_alike limits limits' parens mode line col depth rest {} _ _
        (alike.move rest)
      rw [parsed] at same
      exact same
    · rw [if_neg opens] at parsed ⊢
      cases parsed
      exact ⟨right, rfl, alike⟩

end Args

/-! ## Nodes -/

/-- The node with other blocks in it. -/
def Node.mapBlocks (change : List Node → List Node) : Node → Node
  | .command line col name args => .command line col name args
  | .ifStmt line col condition thenBlock clauses elseBlock =>
    .ifStmt line col condition (change thenBlock)
      (clauses.map fun clause => (clause.1, change clause.2)) (change elseBlock)
  | .foreachStmt line col args body => .foreachStmt line col args (change body)
  | .whileStmt line col condition body => .whileStmt line col condition (change body)
  | .funcDef isMacro line col name params body =>
    .funcDef isMacro line col name params (change body)

theorem Node.isKept_mapBlocks (change : List Node → List Node) (node : Node) :
    (node.mapBlocks change).isKept = node.isKept := by
  cases node with
  | command | ifStmt | foreachStmt | whileStmt | funcDef => rfl

theorem Node.mapBlocks_id (node : Node) : node.mapBlocks id = node := by
  cases node with
  | ifStmt line col condition thenBlock clauses elseBlock =>
    exact congrArg (Node.ifStmt line col condition thenBlock · elseBlock) (List.map_id clauses)
  | command | foreachStmt | whileStmt | funcDef => rfl

/-- What the second of two parsers for blocks gives is what the first gives, but for a change of
the nodes. -/
def Carries (depth : Nat) (change : List Node → List Node) (block block' : BlockParser) : Prop :=
  ∀ terminators left right, Alike depth left right → [] ∉ terminators →
    ∀ nodes word next, block terminators left = some ((nodes, word), next) →
      ∃ after, block' terminators right = some ((change nodes, word), after) ∧
        Alike depth next after

/-! ## Statements -/

variable {terminators : List StringView} {fuel : Nat}

section Statements

variable {limits limits' : Limits} (parens : limits'.maxParenDepth = limits.maxParenDepth)
  {line col depth : Nat} {change : List Node → List Node} {block block' : BlockParser}

include parens

theorem parseEndSignature_alike {command : String} {expected : StringView} {node result : Node}
    {left right next : Context} (alike : Alike depth left right)
    (went : parseEndSignature limits line col command expected node left = (result, next)) :
    ∃ after, parseEndSignature limits' line col command expected (node.mapBlocks change) right =
        (result.mapBlocks change, after) ∧ Alike depth next after := by
  unfold parseEndSignature at went ⊢
  rw [alike.atLparen]
  by_cases opens : left.atLparen = true
  · rw [if_pos opens] at went ⊢
    rcases parsed : parseArgs limits .commandDefault line col left with ⟨⟨args, ok⟩, mid⟩
    obtain ⟨mid', parsed', still⟩ := parseArgs_alike parens alike parsed
    rw [parsed] at went
    rw [parsed']
    dsimp only at went ⊢
    rw [if_neg still.first.going] at went
    rw [if_neg still.second.going]
    cases ok with
    | false =>
      cases went
      exact ⟨mid', rfl, still⟩
    | true =>
      rw [Bool.not_true, if_neg Bool.false_ne_true] at went ⊢
      by_cases differs : expected ≠ [] ∧ firstArgText args ≠ [] ∧
          svEqCi expected (firstArgText args) = false
      · rw [if_pos differs] at went ⊢
        cases went
        exact ⟨_, rfl, still.logging _ _⟩
      · rw [if_neg differs] at went ⊢
        cases went
        exact ⟨mid', rfl, still⟩
  · rw [if_neg opens] at went ⊢
    cases went
    exact ⟨right, rfl, alike⟩

/-- The arguments of a statement are the same in both runs. -/
theorem afterArgs_alike {α β : Type} {mode : ParseArgsMode} {spent unread value : α}
    {spent' unread' value' : β} {next : Args → Context → Option (α × Context)}
    {next' : Args → Context → Option (β × Context)} {left right final : Context}
    (alike : Alike depth left right)
    (went : afterArgs limits mode line col spent unread next left = some (value, final))
    (empty : unread = value → unread' = value')
    (onward : ∀ args mid mid', Alike depth mid mid' → next args mid = some (value, final) →
      ∃ after, next' args mid' = some (value', after) ∧ Alike depth final after) :
    ∃ after, afterArgs limits' mode line col spent' unread' next' right = some (value', after) ∧
      Alike depth final after := by
  unfold afterArgs at went ⊢
  rcases parsed : parseArgs limits mode line col left with ⟨⟨args, ok⟩, mid⟩
  obtain ⟨mid', parsed', still⟩ := parseArgs_alike parens alike parsed
  rw [parsed] at went
  rw [parsed']
  dsimp only at went ⊢
  rw [if_neg still.first.going] at went
  rw [if_neg still.second.going]
  cases ok with
  | false =>
    cases went
    exact ⟨mid', by rw [empty rfl]; rfl, still⟩
  | true => exact onward args mid mid' still went

omit parens

variable (carries : Carries depth change block block')

include carries

/-- The nested blocks of a statement are the same in both runs, but for the change. -/
theorem afterBlock_alike {α β : Type} (named : [] ∉ terminators) {spent value : α}
    {spent' value' : β} {next : List Node → StringView → Context → Option (α × Context)}
    {next' : List Node → StringView → Context → Option (β × Context)} {left right final : Context}
    (alike : Alike depth left right)
    (went : afterBlock block terminators spent next left = some (value, final))
    (onward : ∀ nodes word mid mid', Alike depth mid mid' → next nodes word mid = some (value,
      final) → ∃ after, next' (change nodes) word mid' = some (value', after) ∧ Alike depth final
      after) :
    ∃ after, afterBlock block' terminators spent' next' right = some (value', after) ∧
      Alike depth final after := by
  unfold afterBlock at went ⊢
  obtain ⟨⟨⟨nodes, word⟩, mid⟩, read, went⟩ := bind_eq_some_iff.mp went
  obtain ⟨mid', read', still⟩ := carries terminators left right alike named nodes word mid read
  rw [read', bind_eq_bind, bind_some]
  dsimp only at went ⊢
  rw [if_neg still.first.going] at went
  rw [if_neg still.second.going]
  exact onward nodes word mid mid' still went

include parens

variable {clauses : List (Args × List Node)} {foundTerm : StringView}

theorem parseElseifs_alike {left right next : Context}
    {value : Node ⊕ List (Args × List Node) × StringView} (alike : Alike depth left right)
    (went : parseElseifs limits block line col fuel clauses foundTerm left = some (value, next)) :
    ∃ after, parseElseifs limits' block' line col fuel
        (clauses.map fun clause => (clause.1, change clause.2)) foundTerm right =
          some (value.map (Node.mapBlocks change)
            (Prod.map (List.map fun clause => (clause.1, change clause.2)) id), after) ∧
      Alike depth next after := by
  induction fuel generalizing clauses foundTerm left right with
  | zero => cases went
  | succ fuel ih =>
    by_cases again : svEqCi foundTerm (sv "elseif") = true
    · rw [parseElseifs_again again] at went ⊢
      refine afterArgs_alike parens alike went (fun | rfl => rfl) fun condition mid mid' still went => ?_
      refine afterBlock_alike carries (by decide) still went fun nodes word last last' closed went => ?_
      rw [closed.first.append_eq] at went
      rw [closed.second.append_eq]
      have later := ih closed went
      rw [map_append] at later
      exact later
    · rw [parseElseifs, if_neg again] at went ⊢
      cases went
      exact ⟨right, rfl, alike⟩

variable {node : Node}

theorem parseIfEnd_alike (empty : change [] = []) {condition : Args} {thenBlock : List Node}
    {left right next : Context} (alike : Alike depth left right)
    (went : parseIfEnd limits block line col condition thenBlock clauses foundTerm left = some
      (node, next)) :
    ∃ after, parseIfEnd limits' block' line col condition (change thenBlock)
        (clauses.map fun clause => (clause.1, change clause.2)) foundTerm right =
          some (node.mapBlocks change, after) ∧ Alike depth next after := by
  have finish : ∀ {elseBlock : List Node} {left right : Context}, Alike depth left right →
      some (parseEndSignature limits line col "endif" (firstArgText condition)
        (.ifStmt line col condition thenBlock clauses elseBlock) left) = some (node, next) →
      ∃ after, some (parseEndSignature limits' line col "endif" (firstArgText condition)
        (Node.mapBlocks change (.ifStmt line col condition thenBlock clauses elseBlock)) right) =
          some (node.mapBlocks change, after) ∧ Alike depth next after := by
    intro elseBlock left right alike went
    obtain ⟨after, same, still⟩ := @parseEndSignature_alike _ _ parens _ _ _ change _ _ _ _ _ _ _
      alike (some.inj went)
    exact ⟨after, congrArg some same, still⟩
  by_cases otherwise : svEqCi foundTerm (sv "else") = true
  · rw [parseIfEnd_else otherwise] at went ⊢
    refine afterArgs_alike parens alike went (fun | rfl => rfl) fun args mid mid' still went => ?_
    refine afterBlock_alike carries (by decide) still went fun nodes word last last' closed went => ?_
    by_cases ends : (!svEqCi word (sv "endif")) = true
    · rw [if_pos ends] at went ⊢
      cases went
      exact ⟨_, rfl, closed.logging _ _⟩
    · rw [if_neg ends] at went ⊢
      exact finish closed went
  · unfold parseIfEnd at went ⊢
    dsimp only at went ⊢
    rw [if_neg otherwise] at went ⊢
    by_cases ends : svEqCi foundTerm (sv "endif") = true
    · rw [if_pos ends] at went ⊢
      have same := finish alike went
      rw [Node.mapBlocks, empty] at same
      exact same
    · rw [if_neg ends] at went ⊢
      cases went
      exact ⟨_, rfl, alike.logging _ _⟩

theorem parseIf_alike (empty : change [] = []) {left right next : Context}
    (alike : Alike depth left right)
    (went : parseIf limits block line col left = some (node, next)) :
    ∃ after, parseIf limits' block' line col right = some (node.mapBlocks change, after) ∧
      Alike depth next after := by
  rw [parseIf_eq] at went ⊢
  refine afterArgs_alike parens alike went (fun | rfl => rfl) fun condition mid mid' still went => ?_
  refine afterBlock_alike carries (by decide) still went fun nodes word last last' closed went => ?_
  rw [closed.rest]
  obtain ⟨⟨found, final⟩, chained, went⟩ := bind_eq_some_iff.mp went
  obtain ⟨final', chained', ended⟩ := parseElseifs_alike parens carries closed chained
  rw [map_nil] at chained'
  rw [chained', bind_eq_bind, bind_some]
  cases found with
  | inl early =>
    cases went
    exact ⟨final', rfl, ended⟩
  | inr found => exact parseIfEnd_alike parens carries empty ended went

/-- The statements with one block, where the node is made without an append that fails. -/
theorem parseSimpleBlock_alike {mode : ParseArgsMode} {terminator command cause hint : String}
    {build : Args → Context → Option (List Node → Node) × Context} {expected : Args → StringView}
    (named : [] ∉ [sv terminator])
    (built : ∀ args, ∃ make, (∀ ctx : Context, Ready ctx → build args ctx = (some make, ctx)) ∧ ∀
      nodes, make (change nodes) = (make nodes).mapBlocks change) {left right next : Context}
    (alike : Alike depth left right)
    (went : parseSimpleBlock limits block line col mode terminator command cause hint build
      expected left = some (node, next)) :
    ∃ after, parseSimpleBlock limits' block' line col mode terminator command cause hint build
        expected right = some (node.mapBlocks change, after) ∧ Alike depth next after := by
  rw [parseSimpleBlock_eq] at went ⊢
  refine afterArgs_alike parens alike went (fun | rfl => rfl) fun args mid mid' still went => ?_
  obtain ⟨make, makes, changes⟩ := built args
  rw [makes mid still.first] at went
  rw [makes mid' still.second]
  refine afterBlock_alike carries named still went fun nodes word last last' closed went => ?_
  by_cases ends : (!svEqCi word (sv terminator)) = true
  · rw [if_pos ends] at went ⊢
    cases went
    exact ⟨_, rfl, closed.logging _ _⟩
  · rw [if_neg ends] at went ⊢
    obtain ⟨after, same, final⟩ := @parseEndSignature_alike _ _ parens _ _ _ change _ _ _ _ _ _ _
      closed (some.inj went)
    rw [changes]
    exact ⟨after, congrArg some same, final⟩

/-- Statements are the same where nested blocks are, but for the change. -/
theorem parseStatement_alike (empty : change [] = []) {left right next : Context}
    (alike : Alike depth left right) (went : parseStatement limits block left = some (node, next)) :
    ∃ after, parseStatement limits' block' right = some (node.mapBlocks change, after) ∧
      Alike depth next after := by
  unfold parseStatement at went ⊢
  rw [if_neg alike.first.going] at went
  rw [if_neg alike.second.going, alike.rest]
  cases tokens : left.rest with
  | nil =>
    rw [tokens] at went
    cases went
    exact ⟨right, rfl, alike⟩
  | cons token rest =>
    rw [tokens] at went
    have moved := alike.move rest
    dsimp only at went ⊢
    by_cases other : token.kind ≠ .identifier
    · rw [if_pos other] at went ⊢
      cases went
      by_cases unreadable : token.kind = .invalid
      · rw [if_pos unreadable, if_pos unreadable]
        exact ⟨_, rfl, (alike.logging _ _).sync token.line⟩
      · rw [if_neg unreadable, if_neg unreadable]
        exact ⟨_, rfl, (alike.logging _ _).sync token.line⟩
    rw [if_neg other] at went ⊢
    by_cases invalid : (!isValidCommandName token.text) = true
    · rw [if_pos invalid] at went ⊢
      cases went
      exact ⟨_, rfl, (moved.logging _ _).sync token.line⟩
    rw [if_neg invalid] at went ⊢
    rw [moved.atLparen]
    by_cases bare : (!({ left with rest } : Context).atLparen) = true
    · rw [if_pos bare] at went ⊢
      cases went
      exact ⟨_, rfl, (moved.logging _ _).sync token.line⟩
    rw [if_neg bare] at went ⊢
    have macros : ∀ isMacro, parseFunctionMacro limits block token.line token.col isMacro
        { left with rest } = some (node, next) →
        ∃ after, parseFunctionMacro limits' block' token.line token.col isMacro
          { right with rest } = some (node.mapBlocks change, after) ∧ Alike depth next after := by
      intro isMacro ended
      refine parseSimpleBlock_alike parens carries ?_ (fun args => ?_) moved ended
      · cases isMacro with
        | false => decide
        | true => decide
      · refine ⟨.funcDef isMacro token.line token.col (firstArgText args) args.tail,
          fun inner still => ?_, fun nodes => rfl⟩
        rw [copyParams_eq still]
        rfl
    by_cases isIf : matchTokenText token (sv "if") = true
    · rw [if_pos isIf] at went ⊢
      exact parseIf_alike parens carries empty moved went
    rw [if_neg isIf] at went ⊢
    by_cases isForeach : matchTokenText token (sv "foreach") = true
    · rw [if_pos isForeach] at went ⊢
      exact parseSimpleBlock_alike parens carries (by decide)
        (fun args => ⟨_, fun _ _ => rfl, fun _ => rfl⟩) moved went
    rw [if_neg isForeach] at went ⊢
    by_cases isWhile : matchTokenText token (sv "while") = true
    · rw [if_pos isWhile] at went ⊢
      exact parseSimpleBlock_alike parens carries (by decide)
        (fun args => ⟨_, fun _ _ => rfl, fun _ => rfl⟩) moved went
    rw [if_neg isWhile] at went ⊢
    by_cases isFunction : matchTokenText token (sv "function") = true
    · rw [if_pos isFunction] at went ⊢
      exact macros false went
    rw [if_neg isFunction] at went ⊢
    by_cases isMacro : matchTokenText token (sv "macro") = true
    · rw [if_pos isMacro] at went ⊢
      exact macros true went
    rw [if_neg isMacro] at went ⊢
    let command (limits : Limits) (ctx : Context) : NodeResult :=
      afterArgs limits .commandDefault token.line token.col zeroNode
        (makeEmptyStatement token.line token.col)
        (fun args ctx => some (.command token.line token.col token.text args, ctx)) ctx
    change command limits { left with rest } = some (node, next) at went
    change ∃ after, command limits' { right with rest } = _ ∧ _
    refine afterArgs_alike parens moved went (fun | rfl => rfl) fun args mid mid' still went => ?_
    cases went
    exact ⟨mid', rfl, still⟩

end Statements

/-! ## Blocks -/

/-- The rounds of a block are the same where statements are. -/
theorem parseBlockLoop_alike {statement statement' : Context → NodeResult} {depth : Nat}
    {change : List Node → List Node}
    (statements : ∀ left right, Alike depth left right → ∀ node next, statement left = some (node,
      next) → ∃ after, statement' right = some (node.mapBlocks change, after) ∧ Alike depth next
      after) {list nodes : List Node} {word : StringView} {left right next : Context}
    (alike : Alike depth left right)
    (went : parseBlockLoop statement terminators fuel list left = some ((nodes, word), next)) :
    ∃ after, parseBlockLoop statement' terminators fuel (list.map (Node.mapBlocks change)) right =
        some ((nodes.map (Node.mapBlocks change), word), after) ∧ Alike depth next after := by
  induction fuel generalizing list left right with
  | zero => cases went
  | succ fuel ih =>
    rw [parseBlockLoop] at went ⊢
    rw [alike.rest]
    cases tokens : left.rest with
    | nil =>
      rw [tokens] at went
      cases went
      exact ⟨right, rfl, alike⟩
    | cons token rest =>
      rw [tokens] at went
      dsimp only at went ⊢
      by_cases paren : token.kind = .lparen ∨ token.kind = .rparen
      · rw [if_pos paren] at went ⊢
        exact ih ((alike.logging _ _).move rest) went
      rw [if_neg paren] at went ⊢
      by_cases closes : terminators.any (matchTokenText token) = true
      · rw [if_pos closes] at went ⊢
        cases went
        exact ⟨_, rfl, alike.move rest⟩
      rw [if_neg closes] at went ⊢
      obtain ⟨⟨node, mid⟩, read, went⟩ := bind_eq_some_iff.mp went
      obtain ⟨mid', read', still⟩ := statements left right alike node mid read
      rw [read', bind_eq_bind, bind_some]
      dsimp only at went ⊢
      rw [if_neg still.first.going] at went
      rw [if_neg still.second.going, Node.isKept_mapBlocks]
      by_cases kept : node.isKept = true
      · rw [if_pos kept, still.first.append_eq] at went
        rw [if_pos kept, still.second.append_eq]
        have later := ih still went
        rw [map_append] at later
        exact later
      · rw [if_neg kept] at went ⊢
        exact ih still went

end Nobify.Parser
