import Nobify.Parser.Syntax

/-!
# The parser

A recursive descent over the token list with recovery at every level. The context counts the
open blocks and holds the budget of appends that the fault injection of the source leaves; a
cursor into the tokens is the list of tokens from the cursor on. What `diag_log` receives is
collected in order.

Blocks nest, so `parse_block` takes a bound on the nesting; `parse_tokens` starts with the number
of tokens, and every nested block has consumed one.
-/

namespace Nobify.Parser

/-! ## Context -/

/-- The two severities the parser logs. -/
inductive Severity where
  | warning
  | error

/-- One call of `diag_log` for the component `parser`. -/
structure Diag where
  severity : Severity
  line : Nat
  col : Nat
  command : StringView
  cause : StringView
  hint : StringView

/-- What the environment fixes for a run. -/
structure Limits where
  maxBlockDepth : Nat := 512
  maxParenDepth : Nat := 2048

/-- `Parser_Context` with the cursor and the diagnostics logged so far. -/
structure Context where
  rest : List Token
  blockDepth : Nat := 0
  /-- `fail_after_appends`; `none` is `SIZE_MAX`, which is never used up. -/
  failAfterAppends : Option Nat := none
  oom : Bool := false
  diags : List Diag := []

/-- `Parse_Args_Mode`. -/
inductive ParseArgsMode where
  | commandDefault
  | conditionExpr
deriving DecidableEq

/-- `diag_log`. -/
def Context.log (ctx : Context) (severity : Severity) (line col : Nat) (command cause hint : String) :
    Context :=
  { ctx with diags := ctx.diags ++
      [{ severity, line, col, command := sv command, cause := sv cause, hint := sv hint }] }

/-- `diag_log` with a cause that ends in the text of a token. -/
def Context.logToken (ctx : Context) (token : Token) (command cause hint : String) : Context :=
  { ctx with diags := ctx.diags ++
      [{ severity := .error, line := token.line, col := token.col, command := sv command,
         cause := sv cause ++ token.text, hint := sv hint }] }

/-- `parser_report_oom`. -/
def Context.reportOom (ctx : Context) : Context :=
  let logged :=
    if ctx.oom then ctx
    else ctx.log .error 0 0 "internal" "falha de alocacao ao expandir array"
      "reduza o arquivo de entrada ou aumente memoria"
  { logged with oom := true }

/-- `parser_consume_append_budget`. -/
def Context.consumeAppendBudget (ctx : Context) : Option Context :=
  match ctx.failAfterAppends with
  | none => some ctx
  | some 0 => none
  | some (left + 1) => some { ctx with failAfterAppends := some left }

/-- One append to an array: `none` when the budget is used up. The arrays of tokens, arguments,
nodes and clauses all grow this way. -/
def Context.append {α : Type} (ctx : Context) (grown : α) : Option α × Context :=
  match ctx.consumeAppendBudget with
  | none => (none, ctx.reportOom)
  | some ctx => (some grown, ctx)

/-! ## Arguments -/

/-- `parser_append_new_arg_with_token`. -/
def appendNewArgWithToken (ctx : Context) (args : Args) (token : Token) (kind : ArgKind) :
    Option Args × Context :=
  match ctx.append { items := [token], kind : Arg } with
  | (none, ctx) => (none, ctx)
  | (some arg, ctx) => ctx.append (args ++ [arg])

/-- `parser_append_token` on the last argument. -/
def appendToLast (ctx : Context) (args : Args) (token : Token) : Option Args × Context :=
  ctx.append (args.modifyLast fun arg => { arg with items := arg.items ++ [token] })

/-- `parser_append_to_last_or_new`. -/
def appendToLastOrNew (ctx : Context) (args : Args) (token : Token) (kind : ArgKind) :
    Option Args × Context :=
  if args ≠ [] ∧ token.hasSpaceLeft = false then appendToLast ctx args token
  else appendNewArgWithToken ctx args token kind

/-- The last token of the last argument. -/
def lastToken? (args : Args) : Option Token := args.getLast?.bind fun arg => arg.items.getLast?

/-- `parser_append_with_condition_merge_rules`. -/
def appendWithConditionMergeRules (ctx : Context) (args : Args) (token : Token) :
    Option Args × Context :=
  let afterParen := (lastToken? args).any fun last => last.kind = .lparen ∨ last.kind = .rparen
  if args ≠ [] ∧ token.hasSpaceLeft = false ∧ afterParen = false then appendToLast ctx args token
  else appendNewArgWithToken ctx args token (inferArgKind token)

/-- The append of a parenthesis inside of an argument list. -/
def appendParen (mode : ParseArgsMode) (ctx : Context) (args : Args) (token : Token) :
    Option Args × Context :=
  match mode with
  | .conditionExpr => appendNewArgWithToken ctx args token .unquoted
  | .commandDefault => appendToLastOrNew ctx args token .unquoted

/-- The append of any other token. -/
def appendPlain (mode : ParseArgsMode) (ctx : Context) (args : Args) (token : Token) :
    Option Args × Context :=
  match mode with
  | .conditionExpr => appendWithConditionMergeRules ctx args token
  | .commandDefault => appendToLastOrNew ctx args token (inferArgKind token)

/-- The locals of `parse_args`. -/
structure ArgsState where
  args : Args := []
  ok : Bool := true
  depth : Nat := 1
  overflowExtra : Nat := 0
  reportedParenDepth : Bool := false

/-- The loop of `parse_args` over the tokens after the opening parenthesis. A failed append
returns no arguments and leaves `out_ok` set. -/
def parseArgsLoop (limits : Limits) (mode : ParseArgsMode) (line col : Nat) :
    List Token → ArgsState → Context → (Args × Bool) × Context
  | [], state, ctx =>
    ((state.args, false), { ctx.log .error line col "args" "argumento nao fechado, esperado ')'"
      "feche parenteses no comando atual" with rest := [] })
  | token :: rest, state, ctx =>
    let continueWith (state : ArgsState) (appended : Option Args × Context) :
        (Args × Bool) × Context :=
      match appended with
      | (none, ctx) => (([], true), { ctx with rest := token :: rest })
      | (some args, ctx) => parseArgsLoop limits mode line col rest { state with args } ctx
    if state.overflowExtra > 0 then
      let overflowExtra :=
        if token.kind = .lparen then state.overflowExtra + 1
        else if token.kind = .rparen then state.overflowExtra - 1
        else state.overflowExtra
      parseArgsLoop limits mode line col rest { state with overflowExtra } ctx
    else if token.kind = .lparen then
      if state.depth ≥ limits.maxParenDepth then
        let logged :=
          if state.reportedParenDepth then ctx
          else ctx.log .error token.line token.col "args"
            "profundidade maxima de parenteses excedida"
            "reduza aninhamento ou ajuste CMK2NOB_PARSER_MAX_PAREN_DEPTH"
        parseArgsLoop limits mode line col rest
          { state with ok := false, overflowExtra := 1, reportedParenDepth := true } logged
      else
        continueWith { state with depth := state.depth + 1 } (appendParen mode ctx state.args token)
    else if token.kind = .rparen then
      if state.depth = 1 then ((state.args, state.ok), { ctx with rest })
      else
        continueWith { state with depth := state.depth - 1 } (appendParen mode ctx state.args token)
    else if token.kind = .semicolon ∧ state.depth = 1 then
      parseArgsLoop limits mode line col rest state ctx
    else continueWith state (appendPlain mode ctx state.args token)

/-- Whether the cursor stands at an opening parenthesis. -/
def Context.atLparen (ctx : Context) : Bool := ctx.rest.head?.any (·.kind = .lparen)

/-- `parse_args`. -/
def parseArgs (limits : Limits) (mode : ParseArgsMode) (line col : Nat) (ctx : Context) :
    (Args × Bool) × Context :=
  if ctx.oom then (([], true), ctx)
  else
    match ctx.rest with
    | [] => (([], false), ctx)
    | token :: rest =>
      if token.kind = .lparen then
        parseArgsLoop limits mode line col rest {} { ctx with rest }
      else (([], false), ctx)

/-! ## Block parsers -/

/-- `parse_block` for nested blocks: the nodes and the terminator found. -/
abbrev BlockParser := List StringView → Context → Option ((List Node × StringView) × Context)

/-- The result of a statement: its node. -/
abbrev NodeResult := Option (Node × Context)

/-- `(Node){0}`. -/
def zeroNode : Node := makeEmptyStatement 0 0

section Blocks

variable (limits : Limits) (block : BlockParser) (line col : Nat)

/-- The optional signature of an end command. A signature that differs from the expected text is
a warning. -/
def parseEndSignature (command : String) (expected : StringView) (node : Node) (ctx : Context) :
    Node × Context :=
  if ctx.atLparen then
    let ((endArgs, ok), ctx) := parseArgs limits .commandDefault line col ctx
    if ctx.oom then (zeroNode, ctx)
    else if !ok then (makeEmptyStatement line col, ctx)
    else
      let got := firstArgText endArgs
      if expected ≠ [] ∧ got ≠ [] ∧ svEqCi expected got = false then
        (node, { ctx with diags := ctx.diags ++
          [{ severity := .warning, line, col, command := sv command,
             cause := sv command ++ sv "() assinatura de fechamento divergente",
             hint := sv "esperado: " ++ expected ++ sv " ; recebido: " ++ got }] })
      else (node, ctx)
  else (node, ctx)

/-- The terminators of an `if` block and of an `elseif` block. -/
def ifTerminators : List StringView := [sv "else", sv "elseif", sv "endif"]

/-- The loop of `parse_if` over `elseif` clauses: the clauses and the terminator of the last
block, or the node to return at once. -/
def parseElseifs : Nat → List (Args × List Node) → StringView → Context →
    Option ((Node ⊕ List (Args × List Node) × StringView) × Context)
  | 0, _, _, _ => none
  | fuel + 1, clauses, foundTerm, ctx =>
    if svEqCi foundTerm (sv "elseif") then
      let ((condition, ok), ctx) := parseArgs limits .conditionExpr line col ctx
      if ctx.oom then some (.inl zeroNode, ctx)
      else if !ok then some (.inl (makeEmptyStatement line col), ctx)
      else do
        let ((nodes, elseifTerm), ctx) ← block ifTerminators ctx
        if ctx.oom then some (.inl zeroNode, ctx)
        else
          match ctx.append (clauses ++ [(condition, nodes)]) with
          | (none, ctx) => some (.inl zeroNode, ctx)
          | (some clauses, ctx) => parseElseifs fuel clauses elseifTerm ctx
    else some (.inr (clauses, foundTerm), ctx)

/-- The part of `parse_if` after the `elseif` clauses. -/
def parseIfEnd (condition : Args) (thenBlock : List Node) (clauses : List (Args × List Node))
    (foundTerm : StringView) (ctx : Context) : NodeResult :=
  let missing (ctx : Context) : Node × Context :=
    (makeEmptyStatement line col,
      ctx.log .error line col "if" "if sem terminador endif()" "adicione endif() ao bloco")
  let finish (elseBlock : List Node) (ctx : Context) : Node × Context :=
    parseEndSignature limits line col "endif" (firstArgText condition)
      (.ifStmt line col condition thenBlock clauses elseBlock) ctx
  if svEqCi foundTerm (sv "else") then
    let ((_, ok), ctx) := parseArgs limits .commandDefault line col ctx
    if ctx.oom then some (zeroNode, ctx)
    else if !ok then some (makeEmptyStatement line col, ctx)
    else do
      let ((elseBlock, endTerm), ctx) ← block [sv "endif"] ctx
      if ctx.oom then some (zeroNode, ctx)
      else if !svEqCi endTerm (sv "endif") then some (missing ctx)
      else some (finish elseBlock ctx)
  else if svEqCi foundTerm (sv "endif") then some (finish [] ctx)
  else some (missing ctx)

/-- `parse_if`. -/
def parseIf (ctx : Context) : NodeResult :=
  let ((condition, ok), ctx) := parseArgs limits .conditionExpr line col ctx
  if ctx.oom then some (zeroNode, ctx)
  else if !ok then some (makeEmptyStatement line col, ctx)
  else do
    let ((thenBlock, foundTerm), ctx) ← block ifTerminators ctx
    if ctx.oom then some (zeroNode, ctx)
    else
      match ← parseElseifs limits block line col (ctx.rest.length + 1) [] foundTerm ctx with
      | (.inl node, ctx) => some (node, ctx)
      | (.inr (clauses, foundTerm), ctx) =>
        parseIfEnd limits block line col condition thenBlock clauses foundTerm ctx

/-- The common shape of `parse_foreach`, `parse_while` and `parse_function_macro`: arguments, a
block with one terminator, and the optional signature of the end command. The node is built from
the arguments and the block by `build`, which may run out of appends. -/
def parseSimpleBlock (mode : ParseArgsMode) (terminator command cause hint : String)
    (build : Args → Context → Option (List Node → Node) × Context) (expected : Args → StringView)
    (ctx : Context) : NodeResult :=
  let ((args, ok), ctx) := parseArgs limits mode line col ctx
  if ctx.oom then some (zeroNode, ctx)
  else if !ok then some (makeEmptyStatement line col, ctx)
  else
    match build args ctx with
    | (none, ctx) => some (zeroNode, ctx)
    | (some node, ctx) => do
      let ((body, foundTerm), ctx) ← block [sv terminator] ctx
      if ctx.oom then some (zeroNode, ctx)
      else if !svEqCi foundTerm (sv terminator) then
        some (makeEmptyStatement line col, ctx.log .error line col command cause hint)
      else some (parseEndSignature limits line col terminator (expected args) (node body) ctx)

/-- `parse_foreach`. -/
def parseForeach (ctx : Context) : NodeResult :=
  parseSimpleBlock limits block line col .commandDefault "endforeach" "foreach"
    "foreach sem terminador endforeach()" "adicione endforeach() ao bloco"
    (fun args ctx => (some (.foreachStmt line col args), ctx)) firstArgText ctx

/-- `parse_while`. -/
def parseWhile (ctx : Context) : NodeResult :=
  parseSimpleBlock limits block line col .conditionExpr "endwhile" "while"
    "while sem terminador endwhile()" "adicione endwhile() ao bloco"
    (fun args ctx => (some (.whileStmt line col args), ctx)) firstArgText ctx

/-- The loop of `parse_function_macro` that copies the parameters. -/
def copyParams : Args → Args → Context → Option Args × Context
  | [], params, ctx => (some params, ctx)
  | arg :: rest, params, ctx =>
    match ctx.append (params ++ [arg]) with
    | (none, ctx) => (none, ctx)
    | (some params, ctx) => copyParams rest params ctx

/-- `parse_function_macro`. -/
def parseFunctionMacro (isMacro : Bool) (ctx : Context) : NodeResult :=
  parseSimpleBlock limits block line col .commandDefault
    (if isMacro then "endmacro" else "endfunction") (if isMacro then "macro" else "function")
    "bloco sem terminador" (if isMacro then "adicione endmacro()" else "adicione endfunction()")
    (fun args ctx =>
      match copyParams args.tail [] ctx with
      | (none, ctx) => (none, ctx)
      | (some params, ctx) =>
        (some (.funcDef isMacro line col (firstArgText args) params), ctx))
    firstArgText ctx

end Blocks

/-! ## Statements and blocks -/

/-- `parser_sync_after_statement_error`. -/
def Context.syncAfterStatementError (ctx : Context) (startLine : Nat) : Context :=
  { ctx with rest := ctx.rest.dropWhile (·.line = startLine) }

/-- `parse_statement`, given the parser for nested blocks. -/
def parseStatement (limits : Limits) (block : BlockParser) (ctx : Context) : NodeResult :=
  if ctx.oom then some (zeroNode, ctx)
  else
    match ctx.rest with
    | [] => some (makeEmptyStatement 0 0, ctx)
    | token :: rest =>
      let empty := makeEmptyStatement token.line token.col
      if token.kind ≠ .identifier then
        let logged :=
          if token.kind = .invalid then
            ctx.logToken token "token" "token invalido: "
              "revise caractere/token na posicao informada"
          else
            ctx.logToken token "token" "token inesperado no inicio de statement: "
              "inicie statement com nome_de_comando(...)"
        some (empty, logged.syncAfterStatementError token.line)
      else
        let ctx := { ctx with rest }
        if !isValidCommandName token.text then
          let logged := ctx.logToken token "command" "nome de comando invalido: "
            "use [A-Za-z_][A-Za-z0-9_]* para nome de comando"
          some (empty, logged.syncAfterStatementError token.line)
        else if !ctx.atLparen then
          let logged := ctx.logToken token "command" "comando sem parenteses: "
            "use sintaxe nome_do_comando(...)"
          some (empty, logged.syncAfterStatementError token.line)
        else if matchTokenText token (sv "if") then
          parseIf limits block token.line token.col ctx
        else if matchTokenText token (sv "foreach") then
          parseForeach limits block token.line token.col ctx
        else if matchTokenText token (sv "while") then
          parseWhile limits block token.line token.col ctx
        else if matchTokenText token (sv "function") then
          parseFunctionMacro limits block token.line token.col false ctx
        else if matchTokenText token (sv "macro") then
          parseFunctionMacro limits block token.line token.col true ctx
        else
          let ((args, ok), ctx) := parseArgs limits .commandDefault token.line token.col ctx
          if ctx.oom then some (zeroNode, ctx)
          else if !ok then some (empty, ctx)
          else some (.command token.line token.col token.text args, ctx)

/-- The scan of `parse_block` for a terminator when blocks nest too deep. -/
def skipToTerminator (terminators : List StringView) : List Token → StringView × List Token
  | [] => ([], [])
  | token :: rest =>
    if terminators.any (matchTokenText token) then (token.text, rest)
    else skipToTerminator terminators rest

/-- The loop of `parse_block`, given the parser for statements. Every round consumes a token. -/
def parseBlockLoop (statement : Context → NodeResult) (terminators : List StringView) :
    Nat → List Node → Context → Option ((List Node × StringView) × Context)
  | 0, _, _ => none
  | fuel + 1, list, ctx =>
    match ctx.rest with
    | [] => some ((list, []), ctx)
    | token :: rest =>
      if token.kind = .lparen ∨ token.kind = .rparen then
        let logged := ctx.logToken token "token" "token inesperado no nivel de bloco: "
          "parenteses no nivel de bloco exigem um comando valido"
        parseBlockLoop statement terminators fuel list { logged with rest }
      else if terminators.any (matchTokenText token) then
        some ((list, token.text), { ctx with rest })
      else do
        let (node, ctx) ← statement ctx
        if ctx.oom then some (([], []), ctx)
        else if node.isKept then
          match ctx.append (list ++ [node]) with
          | (none, ctx) => some (([], []), ctx)
          | (some list, ctx) => parseBlockLoop statement terminators fuel list ctx
        else parseBlockLoop statement terminators fuel list ctx

/-- `parse_block`, with a bound on how many blocks are nested in it. -/
def parseBlock (limits : Limits) : Nat → BlockParser
  | 0, _, _ => none
  | nesting + 1, terminators, ctx =>
    if ctx.oom then some (([], []), ctx)
    else if ctx.blockDepth ≥ limits.maxBlockDepth then
      let line := (ctx.rest.head?.map Token.line).getD 0
      let col := (ctx.rest.head?.map Token.col).getD 0
      let logged := ctx.log .error line col "depth" "profundidade maxima de blocos excedida"
        "reduza aninhamento ou ajuste CMK2NOB_PARSER_MAX_BLOCK_DEPTH"
      let (foundTerm, rest) := skipToTerminator terminators ctx.rest
      some (([], foundTerm), { logged with rest })
    else
      (parseBlockLoop (parseStatement limits (parseBlock limits nesting)) terminators
        (ctx.rest.length + 1) [] { ctx with blockDepth := ctx.blockDepth + 1 }).map
          fun (parsed, ctx) => (parsed, { ctx with blockDepth := ctx.blockDepth - 1 })

/-- `parse_tokens`: the tree and what was logged. -/
def parseTokens (limits : Limits) (failAfterAppends : Option Nat) (tokens : List Token) :
    Option (List Node × List Diag) :=
  (parseBlock limits (tokens.length + 1) [] { rest := tokens, failAfterAppends }).map
    fun ((root, _), ctx) => (if ctx.oom then [] else root, ctx.diags)

end Nobify.Parser
