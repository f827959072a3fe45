import Nobify.Evaluator.Expand

/-!
# Conditions

`eval_condition` evaluates the tokens of an `if()` or `while()` while it parses them: a recursive
descent with one function for each level, in which both sides of `AND` and `OR` are always
evaluated. A `MATCHES` writes the variables of its groups, so a later test can see them.

The cursor into the tokens is the list of tokens from there on. The functions call each other with
fewer tokens or at a tighter level; `conditionFuel` covers that, whatever the tokens are.
-/

namespace Nobify.Evaluator

open Prog

variable {cmp expr operand : List StringView → Prog Parsed} {fuel : Nat} {tokens : List StringView}

/-! ## Directories and targets -/

/-- The front of a path for `eval_sv_path_normalize_temp`: what it writes first, whether `..` stops
at it, whether it starts with two separators, and the rest. -/
def normalizeRoot (input : StringView) : StringView × Bool × Bool × StringView :=
  match input with
  | first :: second :: rest =>
    if isPathSep first && isPathSep second then (sv "//", false, true, rest)
    else if isLetter first && second == ':' then
      if rest.head?.any isPathSep then (first :: sv ":/", true, false, rest)
      else (first :: sv ":", false, false, rest)
    else if isPathSep first then (sv "/", true, false, second :: rest)
    else ([], false, false, input)
  | [char] => if isPathSep char then (sv "/", true, false, []) else ([], false, false, input)
  | [] => ([], false, false, [])

/-- One segment of `eval_sv_path_normalize_temp`. Behind two separators the first two segments are
never taken back; the count says how many of them have been seen. -/
def normalizeStep (absolute isUnc : Bool) (state : List StringView × Nat) (segment : StringView) :
    List StringView × Nat :=
  let (segments, uncRoot) := state
  if segment = sv ".." then
    if segments ≠ [] ∧ segments.head? ≠ some (sv "..") ∧
        (isUnc = false ∨ uncRoot < segments.length) then (segments.tail, uncRoot)
    else if absolute then state
    else (segment :: segments, uncRoot)
  else (segment :: segments, if isUnc ∧ uncRoot < 2 then uncRoot + 1 else uncRoot)

/-- The segments that `eval_sv_path_normalize_temp` keeps. -/
def normalizeSegments (input : StringView) : List StringView :=
  let (_, absolute, isUnc, rest) := normalizeRoot input
  ((pathSegments rest).foldl (normalizeStep absolute isUnc) ([], 0)).1.reverse

/-- What `eval_sv_path_normalize_temp` writes into its buffer. -/
def normalizeWritten (input : StringView) : StringView :=
  let joined := (normalizeSegments input).foldl (fun text segment =>
    if text ≠ [] ∧ text.getLast? ≠ some '/' then text ++ '/' :: segment else text ++ segment)
    (normalizeRoot input).1
  if joined = [] then sv "." else joined

/-- `eval_sv_path_normalize_temp`. -/
def evalPathNormalize (input : StringView) : StringView :=
  if input = [] then sv "." else svToCstr (normalizeWritten input)

/-- `svu_eq_ci_sv`. -/
def svuEqCi (left right : StringView) : Bool :=
  left.map Char.toLower == right.map Char.toLower

/-- `eval_current_source_dir`. -/
def currentSourceDir (host : Host) (ctx : EvalExecContext) : StringView :=
  let value := ctx.state.varGetVisible (sv "CMAKE_CURRENT_SOURCE_DIR")
  let framed := if value = [] then (ctx.state.execCurrent.map ExecContext.sourceDir).getD []
    else value
  if framed = [] then host.sourceDir else framed

/-- `eval_directory_parent` of a directory that is not empty: an unknown one has no parent. -/
def directoryParent (state : EvalState) (sourceDir : StringView) : StringView :=
  ((state.semantic.directories.find? fun node =>
    svuEqCi node.sourceDir (evalPathNormalize sourceDir)).map DirectoryNode.parentSourceDir).getD []

/-- The loop of `eval_directory_is_same_or_descendant`. A chain of parents without a repetition is
no longer than the list of directories; on one with a repetition the source would not return. -/
def isDescendantGo (state : EvalState) (ancestor : StringView) : Nat → StringView → Bool
  | 0, _ => false
  | fuel + 1, candidate =>
    if candidate = [] then false
    else if svuEqCi candidate ancestor then true
    else
      let parent := directoryParent state candidate
      if parent = [] ∨ svuEqCi parent candidate = true then false
      else isDescendantGo state ancestor fuel parent

/-- `eval_directory_is_same_or_descendant`. -/
def directoryIsSameOrDescendant (ctx : EvalExecContext) (candidate ancestor : StringView) : Bool :=
  if candidate = [] ∨ ancestor = [] ∨ ctx.shouldStop = true then false
  else isDescendantGo ctx.state (evalPathNormalize ancestor)
    (ctx.state.semantic.directories.length + 2) (evalPathNormalize candidate)

/-- `eval_target_visible`. -/
def targetVisible (host : Host) (ctx : EvalExecContext) (name : StringView) : Bool :=
  match ctx.state.semantic.targets.find? fun record => record.name == name with
  | none => false
  | some record =>
    if !record.imported && !(record.isAlias && !record.aliasGlobal) then true
    else if record.imported && record.importedGlobal then true
    else if record.isAlias && record.aliasGlobal then true
    else directoryIsSameOrDescendant ctx (currentSourceDir host ctx) record.declaredDir

/-- `eval_test_known`. -/
def testKnown (state : EvalState) (name : StringView) : Bool :=
  state.semantic.tests.any fun record => record.name == name

/-- `POLICY_KNOWN_MAX_ID`. -/
def policyKnownMaxId : Nat := 155

/-- `eval_policy_is_known`: the ranges leave out no number up to the largest. -/
def policyIsKnown (id : StringView) : Bool :=
  id.length == 7 && svEqCi (id.take 3) (sv "CMP") && (id.drop 3).all isDigit &&
    digitsValue (id.drop 3) ≤ policyKnownMaxId

/-! ## Operands -/

/-- `sv_lookup_if_var`. -/
def svLookupIfVar (state : EvalState) (token : StringView) : StringView :=
  if token = [] then token
  else
    match macroBindGet state token with
    | some value => value
    | none => if state.varDefinedVisible token then state.varGetVisible token else token

/-- `eval_truthy`. -/
def evalTruthy (state : EvalState) (token : StringView) : Bool :=
  match truthyConstantOnly token with
  | some holds => holds
  | none =>
    match macroBindGet state token with
    | some value => (truthyConstantOnly value).getD false
    | none =>
      if state.varDefinedVisible token then
        (truthyConstantOnly (state.varGetVisible token)).getD false
      else true

/-! ## Tests of one operand -/

/-- The tests of `parse_unary` that take a name or a path. -/
inductive UnaryTest where
  | defined
  | target
  | command
  | policy
  | exists
  | isDirectory
  | isSymlink
  | isAbsolute
  | isReadable
  | isWritable
  | isExecutable
  | test
  deriving DecidableEq

/-- The words that `parse_unary` compares with, in its order. -/
def unaryWords : List (String × UnaryTest) :=
  [("DEFINED", .defined), ("TARGET", .target), ("COMMAND", .command), ("POLICY", .policy),
    ("EXISTS", .exists), ("IS_DIRECTORY", .isDirectory), ("IS_SYMLINK", .isSymlink),
    ("IS_ABSOLUTE", .isAbsolute), ("IS_READABLE", .isReadable), ("IS_WRITABLE", .isWritable),
    ("IS_EXECUTABLE", .isExecutable), ("TEST", .test)]

/-- The test of a word. -/
def findUnary (token : StringView) : Option UnaryTest :=
  (unaryWords.find? fun entry => svEqCi token (sv entry.1)).map Prod.snd

/-- `DEFINED`: a variable, or a variable of the environment. -/
def definedTest (host : Host) (ctx : EvalExecContext) (name : StringView) : Bool :=
  if 4 < name.length ∧ (sv "ENV\x7b").isPrefixOf name = true ∧ name.getLast? = some '}' then
    (getenvTemp host ctx ((name.drop 4).dropLast)).isSome
  else ctx.state.varDefinedVisible name

/-- A file test: no file has an empty path. -/
def pathTest (test : StringView → Bool) (path : StringView) : Bool := path ≠ [] && test path

/-- The outcome of a test. -/
def UnaryTest.holds (host : Host) (ctx : EvalExecContext) (name : StringView) : UnaryTest → Bool
  | .defined => definedTest host ctx name
  | .target => targetVisible host ctx name
  | .command =>
    host.nativeCommands.any (fun known => svEqCi known name) || (userCmdFind ctx name).isSome
  | .policy => policyIsKnown name
  | .exists => pathTest host.pathExists name
  | .isDirectory => pathTest host.pathIsDir name
  | .isSymlink => pathTest host.pathIsSymlink name
  | .isAbsolute => svIsAbsPath name
  | .isReadable => pathTest host.pathIsReadable name
  | .isWritable => pathTest host.pathIsWritable name
  | .isExecutable => pathTest host.pathIsExecutable name
  | .test => testKnown ctx.state name

/-! ## Comparisons -/

/-- The ways in which an order is asked about. -/
inductive OrderTest where
  | less
  | greater
  | lessEqual
  | greaterEqual
  deriving DecidableEq

/-- Whether an order is as asked. -/
def OrderTest.holds : OrderTest → Ordering → Bool
  | .less, order => order == .lt
  | .greater, order => order == .gt
  | .lessEqual, order => order != .gt
  | .greaterEqual, order => order != .lt

/-- The comparisons of `parse_cmp`; those of an order are of numbers, texts or versions. -/
inductive Comparison where
  | strequal
  | equal
  | number (test : OrderTest)
  | text (test : OrderTest)
  | version (test : OrderTest)
  | versionEqual
  | regex
  | inList
  | pathEqual
  | isNewerThan
  deriving DecidableEq

/-- The words that `parse_cmp` compares an operator with, in its order. -/
def comparisonWords : List (String × Comparison) :=
  [("STREQUAL", .strequal), ("EQUAL", .equal), ("LESS", .number .less),
    ("GREATER", .number .greater), ("LESS_EQUAL", .number .lessEqual),
    ("GREATER_EQUAL", .number .greaterEqual), ("STRLESS", .text .less),
    ("STRGREATER", .text .greater), ("STRLESS_EQUAL", .text .lessEqual),
    ("STRGREATER_EQUAL", .text .greaterEqual), ("VERSION_LESS", .version .less),
    ("VERSION_GREATER", .version .greater), ("VERSION_EQUAL", .versionEqual),
    ("VERSION_LESS_EQUAL", .version .lessEqual),
    ("VERSION_GREATER_EQUAL", .version .greaterEqual), ("MATCHES", .regex),
    ("IN_LIST", .inList), ("PATH_EQUAL", .pathEqual), ("IS_NEWER_THAN", .isNewerThan)]

/-- The comparison of a word. -/
def findComparison (token : StringView) : Option Comparison :=
  (comparisonWords.find? fun entry => svEqCi token (sv entry.1)).map Prod.snd

/-- The text of a group that took part in a match. -/
def groupText (subject : StringView) : Option (Nat × Nat) → StringView
  | some (start, stop) => if start ≤ stop then (subject.drop start).take (stop - start) else []
  | none => []

/-- A group that `eval_set_regex_match_vars` counts. -/
def groupTakesPart : Option (Nat × Nat) → Bool
  | some (start, stop) => start ≤ stop
  | none => false

/-- The highest group that took part, and zero for the match as a whole. -/
def highestGroup (groups : List (Option (Nat × Nat))) : Nat :=
  ((List.range groups.length).filter fun index =>
    0 < index && groupTakesPart (groups[index]?.getD none)).getLastD 0

/-- `eval_set_regex_match_vars` from a group on: every write must succeed. -/
def setMatchVars : List (StringView × StringView) → Prog Bool
  | [] => pure true
  | (name, value) :: rest => do
    if !(← varSetCurrent name value) then return false
    setMatchVars rest

/-- `MAX_REGEX_MATCHES`. -/
def maxRegexMatches : Nat := 10

/-- The variables that a match writes, in the order of the writes. -/
def matchVars (subject : StringView) (found : Option (List (Option (Nat × Nat)))) :
    List (StringView × StringView) :=
  let groups := (List.range maxRegexMatches).map fun index =>
    (found.getD [])[index]?.getD none
  ((List.range maxRegexMatches).zip groups).map (fun (index, group) =>
      (sv "CMAKE_MATCH_" ++ Nat.toDigits 10 index, groupText subject group)) ++
    [(sv "CMAKE_MATCH_COUNT", Nat.toDigits 10 (highestGroup groups))]

/-- `MATCHES`: the groups are written whether or not the text matches, unless the expression does
not compile. -/
def matchesTest (host : Host) (subject pattern : StringView) : Prog Bool :=
  match host.compileRegex pattern with
  | none => pure false
  | some search => do
    if !(← setMatchVars (matchVars subject (search subject))) then return false
    return (search subject).isSome

/-- A comparison of two operands after their lookup. -/
def Comparison.run (host : Host) (lhs rhs : StringView) : Comparison → Prog Bool
  | .strequal => pure (lhs == rhs)
  | .equal => pure <|
    match svIsNumber lhs, svIsNumber rhs with
    | some left, some right => left == right
    | _, _ => false
  | .number test => pure <|
    match svIsNumber lhs, svIsNumber rhs with
    | some left, some right => test.holds (compare left right)
    | _, _ => false
  | .text test => pure (test.holds (svLexCmp lhs rhs))
  | .version test => pure (test.holds (svVersionCmp lhs rhs))
  | .versionEqual => pure (svVersionCmp lhs rhs == .eq)
  | .regex => matchesTest host lhs rhs
  | .inList => pure (svListContainsItem rhs lhs)
  | .pathEqual => do
    if ← Prog.shouldStop then return false
    return svPathNormalize lhs == svPathNormalize rhs
  | .isNewerThan => pure <|
    match host.modifiedAt lhs, host.modifiedAt rhs with
    | some left, some right => lhs ≠ [] && rhs ≠ [] && decide (right < left)
    | _, _ => false

/-! ## The parser -/

/-- The words at which `parse_cmp` leaves the operand to `parse_unary`. -/
def cmpHeadWords : List String :=
  ["(", "NOT", "DEFINED", "TARGET", "COMMAND", "POLICY", "EXISTS", "IS_DIRECTORY", "IS_SYMLINK",
    "IS_ABSOLUTE", "IS_READABLE", "IS_WRITABLE", "IS_EXECUTABLE", "TEST"]

/-- Whether `parse_cmp` leaves a token to `parse_unary`. -/
def isCmpHead (token : StringView) : Bool :=
  cmpHeadWords.any fun word => svEqCi token (sv word)

/-- A syntax diagnostic of a condition. -/
def syntaxDiag (code : DiagCode) (cause hint : String) : DiagRequest :=
  { severity := .error, code, component := sv "eval_expr", command := sv "if"
    origin := ⟨[], 0, 0⟩, cause := sv cause, hint := sv hint }

/-- The diagnostic of a parenthesis that is not closed. -/
def missingParen : DiagRequest :=
  syntaxDiag .missingRequired "Missing ')' in expression" "Close parentheses"

/-- The diagnostic of tokens that are left over. -/
def invalidSyntax : DiagRequest :=
  syntaxDiag .invalidValue "Invalid if() syntax" "Check operators and parentheses"

/-- A value, and the tokens after it. -/
abbrev Parsed := Bool × List StringView

/-- The end of `parse_primary` on parentheses. -/
def closeParen (parsed : Parsed) : Prog Parsed :=
  match parsed.2 with
  | closer :: after =>
    if svEqCi closer (sv ")") then pure (parsed.1, after)
    else do
      let _ ← emitDiag missingParen
      pure parsed
  | [] => do
    let _ ← emitDiag missingParen
    pure parsed

section Levels

variable (host : Host) (parseCmp parseExpr : List StringView → Prog Parsed)

/-- `parse_primary`. -/
def parsePrimary : List StringView → Prog Parsed
  | [] => pure (false, [])
  | token :: rest =>
    if svEqCi token (sv "(") then do
      let parsed ← parseExpr rest
      closeParen parsed
    else do
      let ctx ← context
      pure (evalTruthy ctx.state token, rest)

/-- `parse_unary`. -/
def parseUnary : List StringView → Prog Parsed
  | [] => pure (false, [])
  | token :: rest =>
    if svEqCi token (sv "NOT") then do
      let (value, rest) ← parseCmp rest
      pure (!value, rest)
    else
      match findUnary token with
      | some unary =>
        match rest with
        | [] => pure (false, [])
        | name :: rest => do
          let ctx ← context
          pure (unary.holds host ctx name, rest)
      | none => parsePrimary parseExpr (token :: rest)

/-- `parse_cmp`. -/
def parseCmpWith : List StringView → Prog Parsed
  | [] => pure (false, [])
  | first :: rest =>
    if isCmpHead first then parseUnary host parseCmp parseExpr (first :: rest)
    else
      match rest with
      | [] => do
        let ctx ← context
        pure (evalTruthy ctx.state first, [])
      | op :: operands =>
        match findComparison op with
        | some comparison =>
          match operands with
          | [] => pure (false, [])
          | rhs :: rest => do
            let ctx ← context
            let value ← comparison.run host (svLookupIfVar ctx.state first)
              (svLookupIfVar ctx.state rhs)
            pure (value, rest)
        | none => do
          let ctx ← context
          pure (evalTruthy ctx.state first, op :: operands)

end Levels

/-- The loops of `parse_and` and `parse_expr`: while the word follows, one more operand is
evaluated, whatever the value is so far. -/
def parseChain (word : String) (combine : Bool → Bool → Bool)
    (operand : List StringView → Prog Parsed) : Nat → Parsed → Prog Parsed
  | 0, parsed => pure parsed
  | fuel + 1, (value, rest) =>
    match rest with
    | token :: after =>
      if svEqCi token (sv word) then do
        let (next, rest) ← operand after
        parseChain word combine operand fuel (combine value next, rest)
      else pure (value, token :: after)
    | [] => pure (value, [])

/-- `parse_and`. -/
def parseAnd (parseCmp : List StringView → Prog Parsed) (fuel : Nat) (tokens : List StringView) :
    Prog Parsed := do
  let first ← parseCmp tokens
  parseChain "AND" Bool.and parseCmp fuel first

/-- `parse_expr`. -/
def parseExprWith (parseAnd : List StringView → Prog Parsed) (fuel : Nat)
    (tokens : List StringView) : Prog Parsed := do
  let first ← parseAnd tokens
  parseChain "OR" Bool.or parseAnd fuel first

/-- `parse_cmp` with fuel for the nesting. -/
def parseCmp (host : Host) : Nat → List StringView → Prog Parsed
  | 0, tokens => pure (false, tokens)
  | fuel + 1, tokens =>
    parseCmpWith host (parseCmp host fuel)
      (parseExprWith (parseAnd (parseCmp host fuel) fuel) fuel) tokens

/-- `parse_expr` with fuel for the nesting. -/
def parseExpr (host : Host) (fuel : Nat) : List StringView → Prog Parsed :=
  parseExprWith (parseAnd (parseCmp host fuel) fuel) fuel

/-! ## Evaluating -/

/-- `eval_condition` after its arguments are resolved. Every nested call has one token less. -/
def evalTokens (host : Host) (tokens : List StringView) : Prog Bool := do
  let (value, rest) ← parseExpr host (tokens.length + 1) tokens
  if rest ≠ [] then
    let _ ← emitDiag invalidSyntax
    return false
  return value

/-- `eval_condition`. -/
def evalCondition (host : Host) (condition : List Arg) : Prog Bool := do
  let tokens ← resolveArgs host condition
  if (← Prog.shouldStop) || tokens.isEmpty then return false
  evalTokens host tokens

end Nobify.Evaluator
