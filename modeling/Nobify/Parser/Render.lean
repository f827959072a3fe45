import Mathlib.Data.List.ModifyLast
import Nobify.Parser.Parse

/-!
# Printing a tree and parsing it back

A tree is printed as the tokens it would be read from: every argument starts at a token with
space before it and goes on with tokens without, and every block is closed by its own end
command. Parsing the tokens of a well-formed tree gives the tree back and logs nothing.

The arguments of a command are groups of tokens with balanced parentheses. Those of a condition
are not: there a parenthesis is an argument of its own, and the parentheses balance over the whole
list.
-/

namespace Nobify.Parser

open List
open Option (bind_eq_bind bind_some)

variable (line col : Nat)

variable {mode : ParseArgsMode} {bound depth last : Nat} {args : Args}
  {terminators : List StringView} {node : Node}

/-! ## Printing -/

/-- A word at a place. -/
def wordToken (line col : Nat) (text : StringView) : Token :=
  { kind := .identifier, text, line, col }

/-- The opening parenthesis of a call. -/
def lparenToken (line col : Nat) : Token := { kind := .lparen, text := sv "(", line, col }

/-- The closing parenthesis of a call. -/
def rparenToken (line col : Nat) : Token := { kind := .rparen, text := sv ")", line, col }

/-- The tokens of arguments. -/
def renderArgs (args : Args) : List Token := args.flatMap Arg.items

/-- What follows the name of a call. -/
def renderSignature (line col : Nat) (args : Args) : List Token :=
  lparenToken line col :: (renderArgs args ++ [rparenToken line col])

/-- A call: the name and the arguments in parentheses. -/
def renderCall (line col : Nat) (name : StringView) (args : Args) : List Token :=
  wordToken line col name :: renderSignature line col args

/-- The argument that names a function or a macro. -/
def nameArg (line col : Nat) (name : StringView) : Arg where
  items := [{ wordToken line col name with hasSpaceLeft := true }]
  kind := inferArgKind { wordToken line col name with hasSpaceLeft := true }

/-- The words that open and close a function or a macro. -/
def funcWords (isMacro : Bool) : StringView × StringView :=
  if isMacro then (sv "macro", sv "endmacro") else (sv "function", sv "endfunction")

mutual

/-- The tokens of a node. -/
def renderNode : Node → List Token
  | .command line col name args => renderCall line col name args
  | .ifStmt line col condition thenBlock clauses elseBlock =>
    renderCall line col (sv "if") condition ++ (renderBlock thenBlock ++
      (renderClauses line col clauses ++ (renderElse line col elseBlock ++
        renderCall line col (sv "endif") [])))
  | .foreachStmt line col args body =>
    renderCall line col (sv "foreach") args ++ (renderBlock body ++
      renderCall line col (sv "endforeach") [])
  | .whileStmt line col condition body =>
    renderCall line col (sv "while") condition ++ (renderBlock body ++
      renderCall line col (sv "endwhile") [])
  | .funcDef isMacro line col name params body =>
    renderCall line col (funcWords isMacro).1 (nameArg line col name :: params) ++
      (renderBlock body ++ renderCall line col (funcWords isMacro).2 [])

/-- The tokens of a block. -/
def renderBlock : List Node → List Token
  | [] => []
  | node :: rest => renderNode node ++ renderBlock rest

/-- The tokens of `elseif` clauses. -/
def renderClauses (line col : Nat) : List (Args × List Node) → List Token
  | [] => []
  | (condition, block) :: rest =>
    renderCall line col (sv "elseif") condition ++ (renderBlock block ++ renderClauses line col rest)

/-- The tokens of an `else` block, if there is one. -/
def renderElse (line col : Nat) : List Node → List Token
  | [] => []
  | node :: rest =>
    renderCall line col (sv "else") [] ++ (renderNode node ++ renderBlock rest)

end

/-! ## Well-formed trees -/

/-- The parenthesis depth after tokens inside of an argument list, counted from 1 as the parser
does. There is none when the list would be closed, a separator would be dropped or the nesting
would be too deep. -/
def depthAfter (limits : Limits) : List Token → Nat → Option Nat
  | [], depth => some depth
  | token :: rest, depth =>
    if token.kind = .lparen then
      if depth < limits.maxParenDepth then depthAfter limits rest (depth + 1) else none
    else if token.kind = .rparen then
      if depth = 1 then none else depthAfter limits rest (depth - 1)
    else if token.kind = .semicolon ∧ depth = 1 then none
    else depthAfter limits rest depth

/-- A token that stands inside of an argument. -/
def Token.Glued (token : Token) : Prop := token.hasSpaceLeft = false

instance (token : Token) : Decidable token.Glued := inferInstanceAs (Decidable (_ = _))

/-- A parenthesis. -/
def Token.IsParen (token : Token) : Prop := token.kind = .lparen ∨ token.kind = .rparen

instance (token : Token) : Decidable token.IsParen := inferInstanceAs (Decidable (_ ∨ _))

/-- A group of tokens read as one argument: space before the first token and nowhere else. -/
inductive TokenGroup : Arg → Prop where
  | group {first : Token} {others : List Token} {kind : ArgKind}
      (spaced : first.hasSpaceLeft = true) (glued : ∀ token ∈ others, token.Glued)
      (inferred : kind = if first.IsParen then .unquoted else inferArgKind first) :
      TokenGroup { items := first :: others, kind }

/-- Arguments of a command: groups with balanced parentheses and no separator between them. -/
def CommandArgs (limits : Limits) (args : Args) : Prop :=
  ∀ arg ∈ args, TokenGroup arg ∧ depthAfter limits arg.items 1 = some 1

/-- Arguments of a condition: parentheses on their own and groups without any, balanced over the
whole list. -/
def ConditionArgs (limits : Limits) (args : Args) : Prop :=
  (∀ arg ∈ args, TokenGroup arg ∧
    ((∀ token ∈ arg.items, ¬ token.IsParen) ∨ ∃ token, arg.items = [token])) ∧
    depthAfter limits (renderArgs args) 1 = some 1

/-- The words that open blocks. -/
def blockKeywords : List StringView :=
  [sv "if", sv "foreach", sv "while", sv "function", sv "macro"]

/-- A node that can stand in a block with the given terminators, when `inside` says which blocks
can be nested in it. -/
def WellFormedNode (limits : Limits) (inside : List StringView → List Node → Prop)
    (terminators : List StringView) : Node → Prop
  | .command _ _ name args =>
    isValidCommandName name = true ∧ (∀ word ∈ blockKeywords, svEqCi name word = false) ∧
      (∀ word ∈ terminators, svEqCi name word = false) ∧ CommandArgs limits args
  | .ifStmt _ _ condition thenBlock clauses elseBlock =>
    ConditionArgs limits condition ∧ inside ifTerminators thenBlock ∧
      (∀ clause ∈ clauses, ConditionArgs limits clause.1 ∧ inside ifTerminators clause.2) ∧
      inside [sv "endif"] elseBlock
  | .foreachStmt _ _ args body => CommandArgs limits args ∧ inside [sv "endforeach"] body
  | .whileStmt _ _ condition body => ConditionArgs limits condition ∧ inside [sv "endwhile"] body
  | .funcDef isMacro _ _ _ params body =>
    CommandArgs limits params ∧ inside [(funcWords isMacro).2] body

/-- A block of well-formed nodes that nests at most so many blocks, itself included. -/
def WellFormedBlock (limits : Limits) : Nat → List StringView → List Node → Prop
  | 0, _, _ => False
  | depth + 1, terminators, nodes =>
    ∀ node ∈ nodes, WellFormedNode limits (WellFormedBlock limits depth) terminators node

/-! ## Arguments are read back -/

/-- No append fails and none has failed. -/
structure Ready (ctx : Context) : Prop where
  unlimited : ctx.failAfterAppends = none
  running : ctx.oom = false

/-- Moving the cursor keeps a context ready. -/
theorem Ready.move {ctx : Context} (ready : Ready ctx) (rest : List Token) :
    Ready { ctx with rest } := ⟨ready.unlimited, ready.running⟩

/-- Opening a block keeps a context ready. -/
theorem Ready.nest {ctx : Context} (ready : Ready ctx) (blockDepth : Nat) :
    Ready { ctx with blockDepth } := ⟨ready.unlimited, ready.running⟩

/-- A ready context is not out of memory. -/
theorem Ready.going {ctx : Context} (ready : Ready ctx) : ¬ ctx.oom = true := by
  rw [ready.running]
  exact Bool.false_ne_true

section Args

variable {limits : Limits} {ctx : Context}

variable (ready : Ready ctx)

include ready

/-- An append succeeds and changes nothing else. -/
theorem Ready.append_eq {α : Type} (grown : α) : ctx.append grown = (some grown, ctx) := by
  rw [Context.append, Context.consumeAppendBudget, ready.unlimited]

/-- A token with space before it starts an argument. -/
theorem Ready.appendNewArgWithToken_eq (args : Args) (token : Token) (kind : ArgKind) :
    appendNewArgWithToken ctx args token kind = (some (args ++ [⟨[token], kind⟩]), ctx) := by
  rw [appendNewArgWithToken, ready.append_eq]
  exact ready.append_eq _

/-- A token without space before it goes on with the last argument. -/
theorem Ready.appendToLast_eq (args : Args) (arg : Arg) (token : Token) :
    appendToLast ctx (args ++ [arg]) token =
      (some (args ++ [{ arg with items := arg.items ++ [token] }]), ctx) := by
  rw [appendToLast, ready.append_eq, modifyLast_concat]

/-- The first token of a group starts an argument, in both modes. -/
theorem appendFirst (mode : ParseArgsMode) (args : Args) {first : Token}
    (spaced : first.hasSpaceLeft = true) :
    appendParen mode ctx args first = (some (args ++ [⟨[first], .unquoted⟩]), ctx) ∧
      appendPlain mode ctx args first = (some (args ++ [⟨[first], inferArgKind first⟩]), ctx) := by
  cases mode with
  | commandDefault =>
    simp [appendParen, appendPlain, appendToLastOrNew, spaced, ready.appendNewArgWithToken_eq]
  | conditionExpr =>
    simp [appendParen, appendPlain, appendWithConditionMergeRules, spaced,
      ready.appendNewArgWithToken_eq]

omit ready

/-- Where a token inside of an argument list leads: nothing is dropped and the depth follows
`depthAfter`. -/
theorem parseArgsLoop_token {token : Token} {others : List Token} (rest : List Token) {grown : Args}
    (counted : depthAfter limits (token :: others) depth = some last)
    (appended : (if token.IsParen then appendParen mode ctx args token else appendPlain mode ctx args token) = (some grown, ctx)) :
    ∃ next, depthAfter limits others next = some last ∧
      parseArgsLoop limits mode line col (token :: rest) { args, depth } ctx =
        parseArgsLoop limits mode line col rest { args := grown, depth := next } ctx := by
  rw [depthAfter] at counted
  rw [parseArgsLoop]
  split_ifs at counted with lparen shallow rparen close separator
  · rw [if_pos (show token.IsParen from .inl lparen)] at appended
    refine ⟨depth + 1, counted, ?_⟩
    simp only [gt_iff_lt, Nat.lt_irrefl, ↓reduceIte, lparen, ge_iff_le, Nat.not_le.mpr shallow,
      appended]
  · rw [if_pos (show token.IsParen from .inr rparen)] at appended
    refine ⟨depth - 1, counted, ?_⟩
    simp only [gt_iff_lt, Nat.lt_irrefl, ↓reduceIte, rparen, reduceCtorEq, close, appended]
  · rw [if_neg (show ¬ token.IsParen from not_or_intro lparen rparen)] at appended
    refine ⟨depth, counted, ?_⟩
    simp only [gt_iff_lt, Nat.lt_irrefl, ↓reduceIte, lparen, rparen, separator, appended]

include ready

/-- Glued tokens join the last argument, provided they are merged in this mode. -/
theorem parseArgsLoop_glued {others : List Token} (glued : ∀ token ∈ others, token.Glued)
    (counted : depthAfter limits others depth = some last)
    (args : Args) {arg : Arg} (filled : arg.items ≠ [])
    (plain : mode = .conditionExpr → ∀ token ∈ arg.items ++ others, ¬ token.IsParen)
    (rest : List Token) :
    parseArgsLoop limits mode line col (others ++ rest) { args := args ++ [arg], depth } ctx =
      parseArgsLoop limits mode line col rest
        { args := args ++ [{ arg with items := arg.items ++ others }], depth := last } ctx := by
  induction others generalizing depth arg with
  | nil =>
    cases counted
    simp
  | cons token others ih =>
    have tokenGlued : token.hasSpaceLeft = false := glued token mem_cons_self
    have appended : (if token.IsParen then appendParen mode ctx (args ++ [arg]) token
        else appendPlain mode ctx (args ++ [arg]) token) =
          (some (args ++ [{ arg with items := arg.items ++ [token] }]), ctx) := by
      cases mode with
      | commandDefault =>
        simp [appendParen, appendPlain, appendToLastOrNew, tokenGlued, ready.appendToLast_eq]
      | conditionExpr =>
        have noParen : ¬ token.IsParen := plain rfl token (by simp)
        have lastPlain : ¬ (arg.items.getLast filled).IsParen :=
          plain rfl _ (mem_append_left _ (getLast_mem filled))
        have found : lastToken? (args ++ [arg]) = some (arg.items.getLast filled) := by
          simp [lastToken?, List.getLast?_eq_some_getLast filled]
        rw [if_neg noParen, appendPlain, appendWithConditionMergeRules, found]
        have merged : (Option.any (fun last : Token =>
            decide (last.kind = .lparen ∨ last.kind = .rparen))
              (some (arg.items.getLast filled))) = false := by
          simpa [Token.IsParen] using lastPlain
        rw [if_pos ⟨by simp, tokenGlued, merged⟩]
        exact ready.appendToLast_eq args arg token
    obtain ⟨next, counted, moved⟩ :=
      parseArgsLoop_token line col (others ++ rest) counted appended
    have othersGlued : ∀ other ∈ others, other.Glued := fun other member =>
      glued other (mem_cons_of_mem _ member)
    rw [cons_append, moved, ih othersGlued counted (by simp)
      (fun condition other member => plain condition other (by simpa using member))]
    simp

/-- A group is read as one argument. -/
theorem parseArgsLoop_group {arg : Arg} (grouped : TokenGroup arg)
    (plain : mode = .conditionExpr → (∀ token ∈ arg.items, ¬ token.IsParen) ∨ ∃ token, arg.items = [token])
    (counted : depthAfter limits arg.items depth = some last) (args : Args) (rest : List Token) :
    parseArgsLoop limits mode line col (arg.items ++ rest) { args, depth } ctx =
      parseArgsLoop limits mode line col rest { args := args ++ [arg], depth := last } ctx := by
  obtain ⟨spaced, glued, inferred⟩ := grouped
  rename_i first others kind
  have appended : (if first.IsParen then appendParen mode ctx args first
      else appendPlain mode ctx args first) = (some (args ++ [⟨[first], kind⟩]), ctx) := by
    have started := appendFirst ready mode args spaced
    split_ifs at inferred ⊢ with paren
    · rw [inferred, started.1]
    · rw [inferred, started.2]
  obtain ⟨next, counted, moved⟩ :=
    parseArgsLoop_token line col (others ++ rest) counted appended
  rw [cons_append, moved]
  cases others with
  | nil =>
    cases counted
    rfl
  | cons second others =>
    have noParens : mode = .conditionExpr →
        ∀ token ∈ [first] ++ second :: others, ¬ token.IsParen := by
      intro condition
      rcases plain condition with free | ⟨token, single⟩
      · exact free
      · cases single
    exact parseArgsLoop_glued line col ready glued counted args (by simp) noParens rest

omit ready

/-- Depths add up along lists of tokens. -/
theorem depthAfter_append {left right : List Token} :
    depthAfter limits (left ++ right) depth = some last ↔
      ∃ middle, depthAfter limits left depth = some middle ∧
        depthAfter limits right middle = some last := by
  induction left generalizing depth with
  | nil => simp [depthAfter]
  | cons token left ih =>
    rw [cons_append, depthAfter, depthAfter]
    split_ifs <;> simp [ih]

/-- The arguments that a mode reads back. -/
def ModeArgs (limits : Limits) : ParseArgsMode → Args → Prop
  | .commandDefault => CommandArgs limits
  | .conditionExpr => ConditionArgs limits

/-- Groups are read one after the other. -/
theorem parseArgsLoop_args (mode : ParseArgsMode) (ready : Ready ctx)
    (grouped : ∀ arg ∈ args, TokenGroup arg ∧ (mode = .conditionExpr → (∀ token ∈ arg.items, ¬ token.IsParen) ∨ ∃ token, arg.items = [token]))
    (counted : depthAfter limits (renderArgs args) depth = some last) (before : Args)
    (rest : List Token) :
    parseArgsLoop limits mode line col (renderArgs args ++ rest) { args := before, depth } ctx =
      parseArgsLoop limits mode line col rest { args := before ++ args, depth := last } ctx := by
  induction args generalizing depth before with
  | nil =>
    cases counted
    simp [renderArgs]
  | cons arg others ih =>
    have head := grouped arg mem_cons_self
    have tail := fun other member => grouped other (mem_cons_of_mem _ member)
    have split : renderArgs (arg :: others) = arg.items ++ renderArgs others := rfl
    rw [split] at counted ⊢
    obtain ⟨middle, first, second⟩ := (depthAfter_append).mp counted
    rw [append_assoc, parseArgsLoop_group line col ready head.1 head.2 first,
      ih tail second, append_assoc, singleton_append]

/-- Balanced groups are balanced together. -/
theorem CommandArgs.counted (wellFormed : CommandArgs limits args) :
    depthAfter limits (renderArgs args) 1 = some 1 := by
  induction args with
  | nil => rfl
  | cons arg others ih =>
    have head := (wellFormed arg mem_cons_self).2
    have tail := ih fun other member => wellFormed other (mem_cons_of_mem _ member)
    exact (depthAfter_append).mpr ⟨1, head, tail⟩

/-- The arguments between the parentheses of a call are read back. -/
theorem parseArgs_signature (wellFormed : ModeArgs limits mode args) (line col line' col' : Nat)
    (rest : List Token) (ready : Ready ctx) :
    parseArgs limits mode line col { ctx with rest := renderSignature line' col' args ++ rest } =
      ((args, true), { ctx with rest }) := by
  have loop : ∀ tail : List Token, Ready { ctx with rest := tail } →
      parseArgsLoop limits mode line col (renderArgs args ++ rparenToken line' col' :: rest) {}
        { ctx with rest := tail } = ((args, true), { ctx with rest }) := by
    intro tail moved
    have closed : parseArgsLoop limits mode line col (rparenToken line' col' :: rest)
        { args := [] ++ args, depth := 1 } { ctx with rest := tail } =
          ((args, true), { ctx with rest }) := rfl
    rw [← closed]
    cases mode with
    | commandDefault =>
      have groups : CommandArgs limits args := wellFormed
      exact parseArgsLoop_args line col .commandDefault moved
        (fun arg member => ⟨(groups arg member).1, fun condition => nomatch condition⟩)
        groups.counted [] _
    | conditionExpr =>
      have groups : ConditionArgs limits args := wellFormed
      exact parseArgsLoop_args line col .conditionExpr moved
        (fun arg member => ⟨(groups.1 arg member).1, fun _ => (groups.1 arg member).2⟩)
        groups.2 [] _
  have shape : renderSignature line' col' args ++ rest =
      lparenToken line' col' :: (renderArgs args ++ rparenToken line' col' :: rest) := by
    simp [renderSignature]
  rw [shape, parseArgs, if_neg (by simp [ready.running])]
  exact loop _ (ready.move _)

end Args

/-! ## Blocks are read back -/

/-- The words that close blocks. -/
def terminatorWords : List StringView :=
  [sv "else", sv "elseif", sv "endif", sv "endforeach", sv "endwhile", sv "endfunction",
    sv "endmacro"]

/-- How the tokens after a block close it: with a terminator, or at the end of the input. -/
inductive Closes (terminators : List StringView) : List Token → StringView → List Token → Prop where
  | word {token : Token} {rest : List Token}
      (matched : terminators.any (matchTokenText token) = true) :
      Closes terminators (token :: rest) token.text rest
  | end : Closes terminators [] [] []

/-- A word is matched as its text is. -/
theorem matchTokenText_wordToken (text word : StringView) :
    matchTokenText (wordToken line col text) word = svEqCi text word := by
  simp [matchTokenText, wordToken]

/-- A terminator closes a block. -/
theorem Closes.terminator {text : StringView} (listed : terminators.any (svEqCi text) = true)
    (line col : Nat) (rest : List Token) :
    Closes terminators (wordToken line col text :: rest) text rest := by
  have matched : terminators.any (matchTokenText (wordToken line col text)) = true := by
    rw [← listed]
    exact congrArg terminators.any (funext (matchTokenText_wordToken line col text))
  exact .word matched

section Blocks

variable {limits : Limits} {block : BlockParser} {ctx : Context}

/-- The loop of a block reads nodes one after the other, when each of them is read as a statement
and starts with a word that does not close the block. -/
theorem parseBlockLoop_nodes {statement : Context → NodeResult} (ready : Ready ctx)
    {nodes : List Node}
    (parsed : ∀ node ∈ nodes, ∀ rest, statement { ctx with rest := renderNode node ++ rest } =
      some (node, { ctx with rest }))
    (starts : ∀ node ∈ nodes, ∃ token others, renderNode node = token :: others ∧ token.kind =
      .identifier ∧ terminators.any (matchTokenText token) = false)
    (kept : ∀ node ∈ nodes, node.isKept = true) {tail after : List Token} {found : StringView}
    (closes : Closes terminators tail found after) (before : List Node) {fuel : Nat}
    (enough : nodes.length < fuel) :
    parseBlockLoop statement terminators fuel before
        { ctx with rest := renderBlock nodes ++ tail } =
      some ((before ++ nodes, found), { ctx with rest := after }) := by
  induction nodes generalizing before fuel with
  | nil =>
    obtain ⟨fuel, rfl⟩ : ∃ more, fuel = more + 1 := ⟨fuel - 1, by omega⟩
    rw [renderBlock, nil_append, append_nil]
    cases closes with
    | «end» => rfl
    | @word token rest matched =>
      have word : token.kind = .identifier := by
        obtain ⟨term, -, same⟩ := any_eq_true.mp matched
        exact beq_iff_eq.mp (Bool.and_eq_true_iff.mp same).1
      simp [parseBlockLoop, word, matched]
  | cons node others ih =>
    obtain ⟨fuel, rfl⟩ : ∃ more, fuel = more + 1 := ⟨fuel - 1, by omega⟩
    have head : node ∈ node :: others := mem_cons_self
    have rest : ∀ other ∈ others, other ∈ node :: others := fun _ => mem_cons_of_mem _
    have spec := parsed node head (renderBlock others ++ tail)
    obtain ⟨token, more, shape, word, apart⟩ := starts node head
    have next := ih (fun other member => parsed other (rest other member))
      (fun other member => starts other (rest other member))
      (fun other member => kept other (rest other member)) (before ++ [node])
      (Nat.lt_of_succ_lt_succ enough)
    have appended := (ready.move (renderBlock others ++ tail)).append_eq (before ++ [node])
    rw [shape] at spec
    rw [renderBlock, append_assoc, shape, cons_append, parseBlockLoop]
    rw [cons_append] at spec
    simp only [word, reduceCtorEq, or_self, ↓reduceIte, apart, Bool.false_eq_true, spec,
      bind_eq_bind, bind_some, kept node head, appended, next]
    rw [if_neg (by simp [ready.running]), append_assoc, singleton_append]

/-- What a parser for nested blocks must do: read back the blocks that `inside` allows, up to a
number of tokens. -/
def ReadsBlocks (block : BlockParser) (inside : List StringView → List Node → Prop)
    (bound : Nat) (ctx : Context) : Prop :=
  ∀ ⦃terminators : List StringView⦄ ⦃nodes : List Node⦄ ⦃tail after : List Token⦄
    ⦃found : StringView⦄, (∀ word ∈ terminators, word ∈ terminatorWords) →
    inside terminators nodes → (renderBlock nodes).length < bound →
    Closes terminators tail found after →
    block terminators { ctx with rest := renderBlock nodes ++ tail } =
      some ((nodes, found), { ctx with rest := after })

/-- The empty signature of an end command is read without a word. -/
theorem parseEndSignature_empty (limits : Limits) (ready : Ready ctx) (line col line' col' : Nat) (command : String)
    (expected : StringView) (node : Node) (rest : List Token) :
    parseEndSignature limits line col command expected node
        { ctx with rest := renderSignature line' col' [] ++ rest } = (node, { ctx with rest }) := by
  have empty : ModeArgs limits .commandDefault [] := fun arg member => nomatch member
  have opened : Context.atLparen { ctx with rest := renderSignature line' col' [] ++ rest } =
      true := rfl
  rw [parseEndSignature, if_pos opened, parseArgs_signature empty line col line' col' rest ready]
  simp [ready.running, firstArgText]

variable {inside : List StringView → List Node → Prop}

/-- Blocks with one terminator are read back. -/
theorem parseSimpleBlock_read (ready : Ready ctx) (reads : ReadsBlocks block inside bound ctx)
    (wellFormed : ModeArgs limits mode args) {terminator : String}
    (known : sv terminator ∈ terminatorWords) {body : List Node}
    (bodyInside : inside [sv terminator] body) (small : (renderBlock body).length < bound)
    {build : Args → Context → Option (List Node → Node) × Context} {node : List Node → Node}
    (built : ∀ rest, build args { ctx with rest } = (some node, { ctx with rest })) (line col : Nat)
    (command cause hint : String) (expected : Args → StringView) (rest : List Token) :
    parseSimpleBlock limits block line col mode terminator command cause hint build expected
        { ctx with rest := renderSignature line col args ++
          (renderBlock body ++ renderCall line col (sv terminator) [] ++ rest) } =
      some (node body, { ctx with rest }) := by
  have same : svEqCi (sv terminator) (sv terminator) = true := by simp [svEqCi]
  have closes : Closes [sv terminator] (renderCall line col (sv terminator) [] ++ rest)
      (sv terminator) (renderSignature line col [] ++ rest) :=
    .terminator (by simp [same]) line col _
  have read := reads (by simpa using known) bodyInside small closes
  have ended := parseEndSignature_empty limits ready line col line col terminator
    (expected args) (node body) rest
  rw [parseSimpleBlock, parseArgs_signature wellFormed line col line col _ ready]
  simp only [if_neg ready.going, Bool.not_true, Bool.false_eq_true, ↓reduceIte, built,
    append_assoc, bind_eq_bind, bind_some, same, ended, read]

/-! ### Conditionals -/

/-- The tokens of an `if` node after its first block. -/
def renderIfTail (line col : Nat) (clauses : List (Args × List Node)) (elseBlock : List Node)
    (rest : List Token) : List Token :=
  renderClauses line col clauses ++ (renderElse line col elseBlock ++
    (renderCall line col (sv "endif") [] ++ rest))

/-- The word that closes the first block of an `if` node. -/
def ifTailWord (clauses : List (Args × List Node)) (elseBlock : List Node) : StringView :=
  if clauses ≠ [] then sv "elseif" else if elseBlock ≠ [] then sv "else" else sv "endif"

/-- The tokens after that word. -/
def ifTailAfter (line col : Nat) (clauses : List (Args × List Node)) (elseBlock : List Node)
    (rest : List Token) : List Token :=
  match clauses with
  | (condition, nodes) :: others =>
    renderSignature line col condition ++
      (renderBlock nodes ++ renderIfTail line col others elseBlock rest)
  | [] =>
    if elseBlock = [] then renderSignature line col [] ++ rest
    else renderSignature line col [] ++
      (renderBlock elseBlock ++ (renderCall line col (sv "endif") [] ++ rest))

/-- The tail of an `if` node closes its block. -/
theorem renderIfTail_closes (clauses : List (Args × List Node)) (elseBlock : List Node)
    (rest : List Token) :
    Closes ifTerminators (renderIfTail line col clauses elseBlock rest)
      (ifTailWord clauses elseBlock) (ifTailAfter line col clauses elseBlock rest) := by
  have shape : renderIfTail line col clauses elseBlock rest =
      wordToken line col (ifTailWord clauses elseBlock) ::
        ifTailAfter line col clauses elseBlock rest := by
    cases clauses with
    | cons clause others =>
      simp [renderIfTail, renderClauses, renderCall, ifTailWord, ifTailAfter]
    | nil =>
      cases elseBlock with
      | nil => simp [renderIfTail, renderClauses, renderElse, renderCall, ifTailWord, ifTailAfter]
      | cons node others =>
        simp [renderIfTail, renderClauses, renderElse, renderBlock, renderCall, ifTailWord,
          ifTailAfter]
  rw [shape]
  refine .terminator ?_ line col _
  unfold ifTailWord
  split_ifs <;> decide

variable {clauses : List (Args × List Node)}

/-- The `elseif` clauses are read back. -/
theorem parseElseifs_read (ready : Ready ctx) (reads : ReadsBlocks block inside bound ctx)
    (line col : Nat)
    (wellFormed : ∀ clause ∈ clauses, ConditionArgs limits clause.1 ∧ inside ifTerminators clause.2)
    (small : ∀ clause ∈ clauses, (renderBlock clause.2).length < bound) (elseBlock : List Node)
    (rest : List Token) (before : List (Args × List Node)) {fuel : Nat}
    (enough : clauses.length < fuel) :
    parseElseifs limits block line col fuel before (ifTailWord clauses elseBlock)
        { ctx with rest := ifTailAfter line col clauses elseBlock rest } =
      some (.inr (before ++ clauses, ifTailWord [] elseBlock),
        { ctx with rest := ifTailAfter line col [] elseBlock rest }) := by
  induction clauses generalizing before fuel with
  | nil =>
    obtain ⟨fuel, rfl⟩ : ∃ more, fuel = more + 1 := ⟨fuel - 1, by omega⟩
    have other : svEqCi (ifTailWord [] elseBlock) (sv "elseif") = false := by
      unfold ifTailWord
      split_ifs
      · exact absurd rfl ‹_›
      · decide
      · decide
    rw [parseElseifs, if_neg (by simp [other]), append_nil]
  | cons clause others ih =>
    obtain ⟨fuel, rfl⟩ : ∃ more, fuel = more + 1 := ⟨fuel - 1, by omega⟩
    obtain ⟨condition, nodes⟩ := clause
    have head := wellFormed (condition, nodes) mem_cons_self
    have args : ModeArgs limits .conditionExpr condition := head.1
    have read := reads (by decide) head.2 (small _ mem_cons_self)
      (renderIfTail_closes line col others elseBlock rest)
    have next := ih (fun other member => wellFormed other (mem_cons_of_mem _ member))
      (fun other member => small other (mem_cons_of_mem _ member))
      (before ++ [(condition, nodes)]) (Nat.lt_of_succ_lt_succ enough)
    have appended := (ready.move (ifTailAfter line col others elseBlock rest)).append_eq
      (before ++ [(condition, nodes)])
    have word : svEqCi (ifTailWord ((condition, nodes) :: others) elseBlock) (sv "elseif") =
        true := by
      rw [ifTailWord, if_pos (cons_ne_nil _ _)]
      decide
    rw [parseElseifs, if_pos word, ifTailAfter, parseArgs_signature args line col line col _ ready]
    simp only [if_neg ready.going, Bool.not_true, Bool.false_eq_true, ↓reduceIte, read,
      bind_eq_bind, bind_some, appended, next]
    rw [append_assoc, singleton_append]

/-- The part after the clauses is read back. -/
theorem parseIfEnd_read (limits : Limits) (ready : Ready ctx)
    (reads : ReadsBlocks block inside bound ctx) (line col : Nat) (condition : Args)
    (thenBlock : List Node) (clauses : List (Args × List Node)) {elseBlock : List Node}
    (wellFormed : inside [sv "endif"] elseBlock) (small : (renderBlock elseBlock).length < bound)
    (rest : List Token) :
    parseIfEnd limits block line col condition thenBlock clauses (ifTailWord [] elseBlock)
        { ctx with rest := ifTailAfter line col [] elseBlock rest } =
      some (.ifStmt line col condition thenBlock clauses elseBlock, { ctx with rest }) := by
  have ended := fun elseBlock => parseEndSignature_empty limits ready line col line col "endif"
    (firstArgText condition) (.ifStmt line col condition thenBlock clauses elseBlock) rest
  by_cases none : elseBlock = []
  · subst none
    have notElse : svEqCi (ifTailWord [] []) (sv "else") = false := by decide
    have isEnd : svEqCi (ifTailWord [] []) (sv "endif") = true := by decide
    rw [parseIfEnd, if_neg (by simp [notElse]), if_pos isEnd, ifTailAfter, if_pos rfl]
    exact congrArg some (ended [])
  · have empty : ModeArgs limits .commandDefault [] := fun arg member => nomatch member
    have word : ifTailWord [] elseBlock = sv "else" := by
      simp [ifTailWord, none]
    have isElse : svEqCi (sv "else") (sv "else") = true := by decide
    have isEnd : svEqCi (sv "endif") (sv "endif") = true := by decide
    have closes : Closes [sv "endif"] (renderCall line col (sv "endif") [] ++ rest) (sv "endif")
        (renderSignature line col [] ++ rest) := .terminator (by decide) line col _
    have read := reads (by decide) wellFormed small closes
    rw [parseIfEnd, word, if_pos isElse, ifTailAfter, if_neg none,
      parseArgs_signature empty line col line col _ ready]
    simp only [if_neg ready.going, Bool.not_true, Bool.false_eq_true, ↓reduceIte, read,
      bind_eq_bind, bind_some, isEnd, ended]

/-- Every clause takes up tokens. -/
theorem length_le_renderClauses (clauses : List (Args × List Node)) :
    clauses.length ≤ (renderClauses line col clauses).length ∧ ∀ clause ∈ clauses,
        (renderBlock clause.2).length < (renderClauses line col clauses).length := by
  induction clauses with
  | nil => exact ⟨Nat.le_refl _, fun clause member => nomatch member⟩
  | cons clause others ih =>
    obtain ⟨condition, nodes⟩ := clause
    rw [renderClauses]
    simp only [renderCall, length_append, length_cons, mem_cons, forall_eq_or_imp]
    refine ⟨by omega, by omega, fun other member => ?_⟩
    have inner := ih.2 other member
    omega

/-- The tokens of an `else` block hold those of its nodes. -/
theorem length_le_renderElse (elseBlock : List Node) :
    (renderBlock elseBlock).length ≤ (renderElse line col elseBlock).length := by
  cases elseBlock with
  | nil => exact Nat.le_refl _
  | cons node others =>
    simp only [renderBlock, renderElse, length_append]
    omega

/-- An `if` node is read back. -/
theorem parseIf_read (ready : Ready ctx) (reads : ReadsBlocks block inside bound ctx)
    {line col : Nat} {condition : Args} {thenBlock : List Node} {elseBlock : List Node}
    (wellFormed : WellFormedNode limits inside terminators (.ifStmt line col condition thenBlock
      clauses elseBlock))
    (small : (renderNode (.ifStmt line col condition thenBlock clauses elseBlock)).length ≤ bound)
    (rest : List Token) :
    parseIf limits block line col { ctx with rest := renderSignature line col condition ++
        (renderBlock thenBlock ++ renderIfTail line col clauses elseBlock rest) } =
      some (.ifStmt line col condition thenBlock clauses elseBlock, { ctx with rest }) := by
  obtain ⟨args, thenInside, clausesInside, elseInside⟩ := wellFormed
  have argsRead : ModeArgs limits .conditionExpr condition := args
  obtain ⟨count, clauseSizes⟩ := length_le_renderClauses line col clauses
  have elseSize := length_le_renderElse line col elseBlock
  rw [renderNode] at small
  simp only [renderCall, length_append, length_cons] at small
  have thenRead := reads (by decide) thenInside (by omega)
    (renderIfTail_closes line col clauses elseBlock rest)
  -- The loop over the clauses may run as often as there are tokens left.
  have enough : clauses.length < (ifTailAfter line col clauses elseBlock rest).length + 1 := by
    cases clauses with
    | nil => exact Nat.succ_pos _
    | cons clause others =>
      have others := (length_le_renderClauses line col others).1
      simp only [ifTailAfter, renderIfTail, renderSignature, length_append, length_cons]
      omega
  have clausesRead := parseElseifs_read ready reads line col clausesInside
    (fun clause member => Nat.lt_of_lt_of_le (clauseSizes clause member) (by omega)) elseBlock rest
    [] enough
  have endRead := parseIfEnd_read limits ready reads line col condition thenBlock clauses
    elseInside (by omega) rest
  rw [parseIf, parseArgs_signature argsRead line col line col _ ready]
  simp only [if_neg ready.going, Bool.not_true, Bool.false_eq_true, ↓reduceIte, thenRead,
    bind_eq_bind, bind_some, clausesRead, nil_append, endRead]

/-! ### Statements -/

/-- The parameters of a function are copied as they are. -/
theorem copyParams_eq (ready : Ready ctx) (args params : Args) :
    copyParams args params ctx = (some (params ++ args), ctx) := by
  induction args generalizing params with
  | nil => rw [copyParams, append_nil]
  | cons arg others ih =>
    rw [copyParams, ready.append_eq]
    simp only [ih, append_assoc, singleton_append]

/-- The name and the parameters of a function are arguments of a command. -/
theorem nameArg_cons (line col : Nat) (name : StringView) {params : Args}
    (wellFormed : CommandArgs limits params) :
    ModeArgs limits .commandDefault (nameArg line col name :: params) := by
  intro arg member
  rcases mem_cons.mp member with rfl | param
  · refine ⟨.group rfl (fun token member => nomatch member) ?_, rfl⟩
    rw [if_neg]
    rintro (paren | paren) <;> cases paren
  · exact wellFormed arg param

/-- A valid name with a signature after it is dispatched on the name. -/
theorem parseStatement_call (ready : Ready ctx) {name : StringView}
    (valid : isValidCommandName name = true) (line col : Nat) (args : Args) (rest : List Token) :
    parseStatement limits block { ctx with rest := renderCall line col name args ++ rest } =
      (let after : Context := { ctx with rest := renderSignature line col args ++ rest }
      if svEqCi name (sv "if") then parseIf limits block line col after
      else if svEqCi name (sv "foreach") then parseForeach limits block line col after
      else if svEqCi name (sv "while") then parseWhile limits block line col after
      else if svEqCi name (sv "function") then
        parseFunctionMacro limits block line col false after
      else if svEqCi name (sv "macro") then parseFunctionMacro limits block line col true after
      else
        let ((args, ok), ctx) := parseArgs limits .commandDefault line col after
        if ctx.oom then some (zeroNode, ctx)
        else if !ok then some (makeEmptyStatement line col, ctx)
        else some (.command line col name args, ctx)) := by
  have opened : Context.atLparen { ctx with rest := renderSignature line col args ++ rest } =
      true := rfl
  rw [parseStatement, if_neg ready.going]
  simp only [renderCall, cons_append, wordToken, ne_eq, not_true_eq_false, ↓reduceIte, valid,
    Bool.not_true, Bool.false_eq_true, opened, matchTokenText, BEq.rfl, Bool.true_and]

/-- A well-formed node is read back as a statement. -/
theorem parseStatement_node (ready : Ready ctx) (reads : ReadsBlocks block inside bound ctx)
    (wellFormed : WellFormedNode limits inside terminators node)
    (small : (renderNode node).length ≤ bound) (rest : List Token) :
    parseStatement limits block { ctx with rest := renderNode node ++ rest } =
      some (node, { ctx with rest }) := by
  cases node with
  | command line col name args =>
    obtain ⟨valid, keywords, -, groups⟩ := wellFormed
    have argsRead : ModeArgs limits .commandDefault args := groups
    rw [renderNode, parseStatement_call ready valid]
    simp only [blockKeywords, mem_cons, not_mem_nil, or_false, forall_eq_or_imp,
      forall_eq] at keywords
    obtain ⟨notIf, notForeach, notWhile, notFunction, notMacro⟩ := keywords
    simp only [notIf, notForeach, notWhile, notFunction, notMacro, Bool.false_eq_true, ↓reduceIte,
      parseArgs_signature argsRead line col line col rest ready, if_neg ready.going, Bool.not_true]
  | ifStmt line col condition thenBlock clauses elseBlock =>
    have read := parseIf_read ready reads wellFormed small rest
    rw [renderNode, append_assoc, parseStatement_call ready (by decide)]
    rw [renderIfTail] at read
    simpa [show svEqCi (sv "if") (sv "if") = true by decide] using read
  | foreachStmt line col args body =>
    obtain ⟨groups, bodyInside⟩ := wellFormed
    have argsRead : ModeArgs limits .commandDefault args := groups
    rw [renderNode, renderCall, length_append, length_append, length_cons] at small
    rw [renderNode, append_assoc, parseStatement_call ready (by decide)]
    change parseForeach limits block line col _ = _
    refine parseSimpleBlock_read ready reads argsRead (by decide) bodyInside (by omega) ?_ line col
      _ _ _ _ rest
    exact fun _ => rfl
  | whileStmt line col condition body =>
    obtain ⟨groups, bodyInside⟩ := wellFormed
    have argsRead : ModeArgs limits .conditionExpr condition := groups
    rw [renderNode, renderCall, length_append, length_append, length_cons] at small
    rw [renderNode, append_assoc, parseStatement_call ready (by decide)]
    change parseWhile limits block line col _ = _
    refine parseSimpleBlock_read ready reads argsRead (by decide) bodyInside (by omega) ?_ line col
      _ _ _ _ rest
    exact fun _ => rfl
  | funcDef isMacro line col name params body =>
    obtain ⟨groups, bodyInside⟩ := wellFormed
    have argsRead := nameArg_cons line col name groups
    rw [renderNode, renderCall, length_append, length_append, length_cons] at small
    have copied := fun after => copyParams_eq (ready.move after) params []
    cases isMacro with
    | false =>
      rw [renderNode, append_assoc, parseStatement_call ready (by decide)]
      change parseFunctionMacro limits block line col false _ = _
      refine parseSimpleBlock_read ready reads argsRead (by decide) bodyInside (by omega) ?_ line
        col _ _ _ _ rest
      intro after
      rw [tail_cons, copied after]
      rfl
    | true =>
      rw [renderNode, append_assoc, parseStatement_call ready (by decide)]
      change parseFunctionMacro limits block line col true _ = _
      refine parseSimpleBlock_read ready reads argsRead (by decide) bodyInside (by omega) ?_ line
        col _ _ _ _ rest
      intro after
      rw [tail_cons, copied after]
      rfl

/-! ### Nesting -/

/-- A node starts with a word that does not close the block it stands in. -/
theorem renderNode_starts (known : ∀ word ∈ terminators, word ∈ terminatorWords)
    (wellFormed : WellFormedNode limits inside terminators node) :
    ∃ token others, renderNode node = token :: others ∧ token.kind = .identifier ∧
      terminators.any (matchTokenText token) = false := by
  have apart : ∀ (line col : Nat) (name : StringView),
      (∀ word ∈ terminators, svEqCi name word = false) →
      terminators.any (matchTokenText (wordToken line col name)) = false := by
    intro line col name differs
    rw [any_eq_false]
    intro word member
    rw [matchTokenText_wordToken, differs word member]
    exact Bool.false_ne_true
  have keyword : ∀ name ∈ blockKeywords, ∀ word ∈ terminators, svEqCi name word = false := by
    have all : ∀ name ∈ blockKeywords, ∀ word ∈ terminatorWords, svEqCi name word = false := by
      decide
    exact fun name listed word member => all name listed word (known word member)
  cases node with
  | command line col name args => exact ⟨_, _, rfl, rfl, apart line col name wellFormed.2.2.1⟩
  | ifStmt line col => exact ⟨_, _, rfl, rfl, apart line col _ (keyword _ (by decide))⟩
  | foreachStmt line col => exact ⟨_, _, rfl, rfl, apart line col _ (keyword _ (by decide))⟩
  | whileStmt line col => exact ⟨_, _, rfl, rfl, apart line col _ (keyword _ (by decide))⟩
  | funcDef isMacro line col =>
    cases isMacro with
    | false => exact ⟨_, _, rfl, rfl, apart line col _ (keyword _ (by decide))⟩
    | true => exact ⟨_, _, rfl, rfl, apart line col _ (keyword _ (by decide))⟩

/-- Well-formed nodes are kept in the list of their block. -/
theorem WellFormedNode.kept (wellFormed : WellFormedNode limits inside terminators node) :
    node.isKept = true := by
  cases node with
  | command line col name args =>
    cases name with
    | nil => exact wellFormed.1
    | cons => rfl
  | ifStmt | foreachStmt | whileStmt | funcDef => rfl

/-- The nodes of a block take up at least one token each, and no node more than the block. -/
theorem length_le_renderBlock (nodes : List Node)
    (starts : ∀ node ∈ nodes, ∃ token others, renderNode node = token :: others) :
    nodes.length ≤ (renderBlock nodes).length ∧
      ∀ node ∈ nodes, (renderNode node).length ≤ (renderBlock nodes).length := by
  induction nodes with
  | nil => exact ⟨Nat.le_refl _, fun node member => nomatch member⟩
  | cons node others ih =>
    obtain ⟨token, more, shape⟩ := starts node mem_cons_self
    have inner := ih fun other member => starts other (mem_cons_of_mem _ member)
    rw [renderBlock, length_append]
    refine ⟨?_, fun other member => ?_⟩
    · rw [shape, length_cons, length_cons]
      omega
    · rcases mem_cons.mp member with rfl | later
      · exact Nat.le_add_right _ _
      · exact Nat.le_trans (inner.2 other later) (Nat.le_add_left _ _)

/-- Blocks are read back at every depth that the limits leave. -/
theorem parseBlock_reads (limits : Limits) (depth : Nat) : ∀ (nesting : Nat) {ctx : Context},
    Ready ctx → ctx.blockDepth + depth ≤ limits.maxBlockDepth →
    ReadsBlocks (parseBlock limits nesting) (WellFormedBlock limits depth) nesting ctx := by
  induction depth with
  | zero =>
    intro nesting ctx ready room terminators nodes tail after found known wellFormed
    exact wellFormed.elim
  | succ depth ih =>
    intro nesting ctx ready room terminators nodes tail after found known wellFormed small closes
    obtain ⟨nesting, rfl⟩ : ∃ more, nesting = more + 1 := ⟨nesting - 1, by omega⟩
    have deeper : Ready { ctx with blockDepth := ctx.blockDepth + 1 } := ready.nest _
    have reads := ih nesting deeper (by simp only; omega)
    have starts := fun node member => renderNode_starts known (wellFormed node member)
    have sizes := length_le_renderBlock nodes fun node member =>
      (starts node member).imp fun token others => others.imp fun more shape => shape.1
    have parsed : ∀ node ∈ nodes, ∀ rest, parseStatement limits (parseBlock limits nesting)
        { ctx with blockDepth := ctx.blockDepth + 1, rest := renderNode node ++ rest } =
          some (node, { ctx with blockDepth := ctx.blockDepth + 1, rest }) := by
      intro node member rest
      have fits := sizes.2 node member
      exact parseStatement_node deeper reads (wellFormed node member) (by omega) rest
    have loop := parseBlockLoop_nodes deeper parsed starts
      (fun node member => (wellFormed node member).kept) closes []
      (show nodes.length < (renderBlock nodes ++ tail).length + 1 by
        have count := sizes.1
        rw [length_append]
        omega)
    rw [parseBlock, if_neg ready.going, if_neg (by simp only; omega)]
    simp only [loop, Option.map_some, nil_append, Nat.add_sub_cancel]

end Blocks

/-- For all limits and every tree that is well formed within them, parsing the printed tree gives
the tree back and logs nothing. -/
theorem parseTokens_render {limits : Limits} {tree : List Node}
    (wellFormed : WellFormedBlock limits limits.maxBlockDepth [] tree) :
    parseTokens limits none (renderBlock tree) = some (tree, []) := by
  have ready : Ready { rest := [] } := ⟨rfl, rfl⟩
  have reads := parseBlock_reads limits limits.maxBlockDepth ((renderBlock tree).length + 1) ready
    (Nat.le_of_eq (Nat.zero_add _))
  have none : ∀ word ∈ ([] : List StringView), word ∈ terminatorWords := by simp
  have read := reads none wellFormed (Nat.lt_succ_self _) .end
  rw [append_nil] at read
  rw [parseTokens, read]
  rfl

/-- A word with space before it, read as one argument. -/
def plainArg (text : String) : Arg where
  items := [{ kind := .identifier, text := sv text, hasSpaceLeft := true }]
  kind := .unquoted

/-- `if(a) f(b) endif()`. -/
def guardedCall : List Node :=
  [.ifStmt 1 1 [plainArg "a"] [.command 2 1 (sv "f") [plainArg "b"]] [] []]

/-- A conditional with a command in it is well formed and read back. -/
theorem parseTokens_render_guardedCall : WellFormedBlock ⟨2, 1⟩ 2 [] guardedCall ∧
      parseTokens ⟨2, 1⟩ none (renderBlock guardedCall) = some (guardedCall, []) := by
  have group : ∀ text, text = "a" ∨ text = "b" → TokenGroup (plainArg text) := by
    intro text known
    refine .group rfl (fun token member => nomatch member) ?_
    rcases known with rfl | rfl <;> decide
  have condition : ConditionArgs ⟨2, 1⟩ [plainArg "a"] := by
    refine ⟨fun arg member => ?_, by decide⟩
    obtain rfl := mem_singleton.mp member
    exact ⟨group "a" (.inl rfl), .inr ⟨_, rfl⟩⟩
  have args : CommandArgs ⟨2, 1⟩ [plainArg "b"] := by
    intro arg member
    obtain rfl := mem_singleton.mp member
    exact ⟨group "b" (.inr rfl), by decide⟩
  have inner : WellFormedBlock ⟨2, 1⟩ 1 ifTerminators [.command 2 1 (sv "f") [plainArg "b"]] := by
    intro node member
    obtain rfl := mem_singleton.mp member
    exact ⟨by decide, by decide, by decide, args⟩
  have wellFormed : WellFormedBlock ⟨2, 1⟩ 2 [] guardedCall := by
    intro node member
    obtain rfl := mem_singleton.mp member
    exact ⟨condition, inner, fun clause member => (nomatch member),
      fun node member => (nomatch member)⟩
  exact ⟨wellFormed, parseTokens_render wellFormed⟩

/-- The group `(a)`. -/
def groupedArg : Arg where
  items := [{ kind := .lparen, text := sv "(", hasSpaceLeft := true },
    { kind := .identifier, text := sv "a" }, { kind := .rparen, text := sv ")" }]
  kind := .unquoted

/-- In a condition the balanced group `(a)` is read as three arguments. -/
theorem grouped_condition_split :
    TokenGroup groupedArg ∧ depthAfter {} groupedArg.items 1 = some 1 ∧
      parseTokens {} none (renderBlock [.ifStmt 1 1 [groupedArg] [] [] []]) =
        some ([.ifStmt 1 1 (groupedArg.items.map fun token => ⟨[token], .unquoted⟩) [] [] []], []) ∧
      parseTokens {} none (renderBlock [.ifStmt 1 1 [groupedArg] [] [] []]) ≠
        some ([.ifStmt 1 1 [groupedArg] [] [] []], []) := by
  have parsed : parseTokens {} none (renderBlock [.ifStmt 1 1 [groupedArg] [] [] []]) =
      some ([.ifStmt 1 1 (groupedArg.items.map fun token => ⟨[token], .unquoted⟩) [] [] []], []) :=
    rfl
  refine ⟨.group rfl (by decide) (by decide), by decide, parsed, ?_⟩
  rw [parsed]
  simp [groupedArg]

end Nobify.Parser
