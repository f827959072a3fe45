import Nobify.Evaluator.Compare
import Nobify.Evaluator.ProgRules
import Nobify.Evaluator.TargetUsage

/-!
# Expanding and resolving arguments

`eval_expand_vars` replaces the references of a text by values, and `eval_resolve_args` makes the
texts of a call from the arguments as they were written: a quoted argument is unescaped and
expanded, a bracket argument is expanded and then loses its brackets, and an unquoted one is
expanded and split.

A dollar sign that was escaped travels through the expansion as a control character, and so does a
backslash that stands before one; both are put back at the end.
-/

namespace Nobify.Evaluator

open Prog
open List

/-! ## The host -/

/-- What the evaluator asks of the process it runs in: `EvalServices`, the registry of native
commands, the file system and the regular expressions. -/
structure Host where
  /-- `env_get`, or the environment of the process. -/
  envGet : StringView → Option StringView
  /-- `source_dir` of the context. -/
  sourceDir : StringView
  /-- The names in the registry of native commands. -/
  nativeCommands : List StringView
  pathExists : StringView → Bool
  pathIsDir : StringView → Bool
  pathIsSymlink : StringView → Bool
  pathIsReadable : StringView → Bool
  pathIsWritable : StringView → Bool
  pathIsExecutable : StringView → Bool
  /-- `st_mtime` of a path that `stat` finds. -/
  modifiedAt : StringView → Option Int
  /-- `regcomp`, then `regexec` with the offsets of each group that took part. -/
  compileRegex : StringView → Option (StringView → Option (List (Option (Nat × Nat))))

/-! ## Looking up -/

/-- `eval_macro_bind_get`. -/
def macroBindGet (state : EvalState) (key : StringView) : Option StringView :=
  state.scope.macroFrames.reverse.findSome? fun frame =>
    (frame.bindings.reverse.find? fun binding => binding.1 == key).map Prod.snd

/-- `eval_getenv_temp` of a name that was made a C string. -/
def getenvTemp (host : Host) (ctx : EvalExecContext) (text : StringView) : Option StringView :=
  let name := svToCstr text
  if name = [] then none
  else
    match ctx.state.envOverrides.get? name with
    | some value => if value.isSet then some value.text else none
    | none => if ctx.shouldStop then none else host.envGet name

/-- `sv_parse_positive_int`. -/
def svParsePositiveInt (text : StringView) : Option Nat :=
  if text = [] ∨ 64 ≤ text.length then none
  else
    match strtol text with
    | some value => if 0 < value ∧ value ≤ 10000 then some value.toNat else none
    | none => none

/-- `eval_expand_limit`. -/
def expandLimit (host : Host) (ctx : EvalExecContext) : Nat :=
  let configured :=
    svParsePositiveInt (ctx.state.varGetVisible (sv "CMAKE_NOBIFY_EXPAND_MAX_RECURSION"))
  let override := (getenvTemp host ctx (sv "NOBIFY_EVAL_EXPAND_MAX_RECURSION")).bind
    svParsePositiveInt
  (override.or configured).getD 100

/-! ## References -/

/-- `EVAL_ESCAPED_DOLLAR_SENTINEL`. -/
def escapedDollarSentinel : Char := '\x1f'

/-- `EVAL_LITERAL_BS_BEFORE_DOLLAR_SENTINEL`. -/
def literalBsSentinel : Char := '\x1e'

/-- What the loop of `expand_once` finds at a position. -/
inductive ExpandPiece where
  | plain (char : Char)
  | escapedDollar
  | env (name : StringView)
  | reference (inner : StringView)
  deriving DecidableEq

/-- The text up to the brace that closes a reference. -/
def scanBraces : Nat → StringView → StringView → Option StringView
  | _, _, [] => none
  | depth, inner, char :: rest =>
    if char = '{' then scanBraces (depth + 1) (inner ++ [char]) rest
    else if char = '}' then
      if depth = 1 then some inner else scanBraces (depth - 1) (inner ++ [char]) rest
    else scanBraces depth (inner ++ [char]) rest

/-- The piece at a character, and how many of the characters behind it belong to it. -/
def pieceAt (char : Char) (rest : StringView) : ExpandPiece × Nat :=
  if char = '\\' ∧ rest.head? = some '$' then (.escapedDollar, 1)
  else if char = '$' ∧ (sv "ENV\x7b").isPrefixOf rest = true ∧ '}' ∈ rest.drop 4 then
    let name := (rest.drop 4).takeWhile (· != '}')
    (.env name, name.length + 5)
  else if char = '$' ∧ rest.head? = some '{' then
    match scanBraces 1 [] rest.tail with
    | some inner => (.reference inner, inner.length + 2)
    | none => (.plain char, 0)
  else (.plain char, 0)

/-- The pieces of a text. The count says how many characters belong to the piece before. -/
def expandPieces : Nat → StringView → List ExpandPiece
  | _, [] => []
  | skip + 1, _ :: rest => expandPieces skip rest
  | 0, char :: rest => (pieceAt char rest).1 :: expandPieces (pieceAt char rest).2 rest

/-- `expand_restore_escaped_dollar_temp`. -/
def restoreEscapedDollar (text : StringView) : StringView :=
  text.map fun char => if char = escapedDollarSentinel then '$' else char

/-- The end of `expand_once`: a text without a dollar sign is handed back as it is, and what was
built for any other one is read back as a C string. -/
def sbBuild (input text : StringView) : StringView := if '$' ∈ input then svToCstr text else text

section Expand

variable (host : Host) (expandInner : StringView → Prog StringView)

/-- The loop of `expand_once`. A stop that an inner expansion asked for ends it before the next
environment variable. -/
def expandOnce : List ExpandPiece → StringView → Prog StringView
  | [], text => pure text
  | .plain char :: rest, text => expandOnce rest (text ++ [char])
  | .escapedDollar :: rest, text => expandOnce rest (text ++ [escapedDollarSentinel])
  | .env name :: rest, text => do
    let ctx ← context
    if ctx.shouldStop then return []
    expandOnce rest (text ++ (getenvTemp host ctx name).getD [])
  | .reference inner :: rest, text => do
    let name ← expandInner inner
    let ctx ← context
    expandOnce rest (text ++ (macroBindGet ctx.state name).getD (ctx.state.varGetVisible name))

end Expand

/-- `eval_expand_vars_depth`. What is between braces is shorter, so the length bounds the calls. -/
def expandVarsDepth (host : Host) : Nat → Nat → StringView → Prog StringView
  | 0, _, _ => pure []
  | fuel + 1, depth, input => do
    let ctx ← context
    if ctx.shouldStop then return []
    if expandLimit host ctx < depth then
      let _ ← emitDiag
        { severity := .warning, code := .invalidState, component := sv "eval_expr"
          command := sv "expand_vars", origin := ⟨[], 0, 0⟩
          cause := sv "Recursion limit exceeded"
          hint := sv ("Tune CMAKE_NOBIFY_EXPAND_MAX_RECURSION or " ++
            "NOBIFY_EVAL_EXPAND_MAX_RECURSION") }
      return restoreEscapedDollar input
    let text ← expandOnce host (expandVarsDepth host fuel (depth + 1)) (expandPieces 0 input) []
    return restoreEscapedDollar (sbBuild input text)

/-- `eval_expand_vars`. -/
def expandVars (host : Host) (input : StringView) : Prog StringView :=
  expandVarsDepth host (input.length + 1) 0 input

/-! ## The fuel of an expansion -/

/-- A reference is closed by a brace of the text after its opening. -/
theorem scanBraces_length {depth : Nat} {inner text found : StringView}
    (closed : scanBraces depth inner text = some found) :
    found.length < inner.length + text.length := by
  induction text generalizing depth inner with
  | nil => cases closed
  | cons char rest ih =>
    have longer : (inner ++ [char]).length = inner.length + 1 := length_append
    unfold scanBraces at closed
    rw [length_cons]
    by_cases opens : char = '{'
    · rw [if_pos opens] at closed
      have bound := ih closed
      omega
    rw [if_neg opens] at closed
    by_cases closes : char = '}'
    · rw [if_pos closes] at closed
      by_cases last : depth = 1
      · rw [if_pos last] at closed
        cases closed
        omega
      · rw [if_neg last] at closed
        have bound := ih closed
        omega
    · rw [if_neg closes] at closed
      have bound := ih closed
      omega

/-- What is between the braces of a reference is shorter than the text. -/
theorem reference_length {char : Char} {rest inner : StringView}
    (here : (pieceAt char rest).1 = .reference inner) : inner.length < rest.length := by
  unfold pieceAt at here
  split at here
  · cases here
  split at here
  · cases here
  split at here
  · cases rest with
    | nil =>
      rename_i opens
      exact absurd opens.2 (by simp)
    | cons brace after =>
      revert here
      cases found : scanBraces 1 [] (List.tail (brace :: after)) with
      | none =>
        intro here
        cases here
      | some content =>
        intro here
        cases here
        have bound := scanBraces_length found
        rw [tail_cons, length_nil] at bound
        rw [length_cons]
        omega
  · cases here

theorem reference_mem_length {skip : Nat} {text inner : StringView}
    (mem : .reference inner ∈ expandPieces skip text) : inner.length < text.length := by
  induction text generalizing skip with
  | nil => cases mem
  | cons char rest ih =>
    rw [length_cons]
    cases skip with
    | succ skip =>
      have bound := @ih skip mem
      omega
    | zero =>
      rcases mem_cons.mp mem with here | later
      · have bound := reference_length here.symm
        omega
      · have bound := ih later
        omega

/-- The loop only expands the references it finds. -/
theorem expandOnce_congr (host : Host) {expandInner other : StringView → Prog StringView}
    {pieces : List ExpandPiece}
    (same : ∀ inner, .reference inner ∈ pieces → expandInner inner = other inner)
    (text : StringView) :
    expandOnce host expandInner pieces text = expandOnce host other pieces text := by
  induction pieces generalizing text with
  | nil => rfl
  | cons piece rest ih =>
    have tail := ih fun inner mem => same inner (mem_cons_of_mem piece mem)
    cases piece with
    | plain char => exact tail _
    | escapedDollar => exact tail _
    | env name =>
      unfold expandOnce
      simp only [tail]
    | reference inner =>
      unfold expandOnce
      simp only [tail, same inner mem_cons_self]

/-- With more fuel than the text is long an expansion is the same: the fuel is never used up. -/
theorem expandVarsDepth_fuel (host : Host) {fuel : Nat} (depth : Nat) {input : StringView}
    (enough : input.length < fuel) :
    expandVarsDepth host fuel depth input =
      expandVarsDepth host (input.length + 1) depth input := by
  have step : ∀ fuel depth (input : StringView), input.length < fuel →
      expandVarsDepth host (fuel + 1) depth input = expandVarsDepth host fuel depth input := by
    intro fuel
    induction fuel with
    | zero =>
      intro depth input enough
      omega
    | succ fuel ih =>
      intro depth input enough
      have shorter : ∀ inner, .reference inner ∈ expandPieces 0 input → _ := fun inner mem =>
        ih (depth + 1) inner (by have bound := reference_mem_length mem; omega)
      have same := expandOnce_congr host shorter []
      unfold expandVarsDepth
      rw [same]
  obtain ⟨more, rfl⟩ : ∃ more, fuel = input.length + 1 + more :=
    ⟨fuel - (input.length + 1), by omega⟩
  clear enough
  induction more with
  | zero => rfl
  | succ more ih =>
    rw [← ih]
    exact step (input.length + 1 + more) depth input (by omega)

/-! ## Quoted arguments -/

/-- `arg_process_quoted_literal_temp` without the quotes at the ends: the escapes of a text. A run
of backslashes before a dollar sign keeps its pairs and an odd last one apart for the expansion;
any other escape is read by itself. -/
def unescapeGo : Nat → StringView → StringView
  | _, [] => []
  | skip + 1, _ :: rest => unescapeGo skip rest
  | 0, '\\' :: rest =>
    let run := (rest.takeWhile (· == '\\')).length + 1
    if (rest.drop (run - 1)).head? = some '$' then
      List.replicate (run / 2) literalBsSentinel ++
        (if run % 2 = 1 then ['\\', '$'] ++ unescapeGo run rest else unescapeGo (run - 1) rest)
    else
      match rest.head? with
      | none => '\\' :: unescapeGo 0 rest
      | some 't' => '\t' :: unescapeGo 1 rest
      | some 'r' => '\r' :: unescapeGo 1 rest
      | some 'n' => '\n' :: unescapeGo 1 rest
      | some ';' => ';' :: unescapeGo 1 rest
      | some '"' => '"' :: unescapeGo 1 rest
      | some '\\' => '\\' :: unescapeGo 1 rest
      | some '\n' => unescapeGo 1 rest
      | some '\r' => if (rest.drop 1).head? = some '\n' then unescapeGo 2 rest else unescapeGo 1 rest
      | some char => '\\' :: char :: unescapeGo 1 rest
  | 0, char :: rest => char :: unescapeGo 0 rest

/-- The text between quotes at both ends. -/
def stripQuotes (text : StringView) : StringView :=
  if 2 ≤ text.length ∧ text.head? = some '"' ∧ text.getLast? = some '"' then
    (text.drop 1).dropLast
  else text

/-- `arg_process_quoted_literal_temp`. -/
def processQuotedLiteral (text : StringView) : StringView := unescapeGo 0 (stripQuotes text)

/-- `arg_restore_literal_bs_sentinel_temp`. -/
def restoreLiteralBs (text : StringView) : StringView :=
  text.map fun char => if char = literalBsSentinel then '\\' else char

/-! ## Bracket arguments -/

/-- `sv_strip_cmake_bracket_arg`. -/
def stripCmakeBracketArg (text : StringView) : StringView :=
  match text with
  | '[' :: rest =>
    let eqCount := (rest.takeWhile (· == '=')).length
    let closer := ']' :: (List.replicate eqCount '=' ++ [']'])
    if (rest.drop eqCount).head? = some '[' ∧ eqCount + 2 + (eqCount + 2) ≤ text.length ∧
        closer.isSuffixOf text = true then
      (text.drop (eqCount + 2)).take (text.length - (eqCount + 2 + (eqCount + 2)))
    else text
  | _ => text

/-! ## Arguments -/

/-- One round of `eval_resolve_args_impl`: what an argument adds. -/
def resolveArg (host : Host) (expand splitUnquotedLists : Bool) (arg : Arg) :
    Prog (List StringView) := do
  let expandText := fun text => if expand then expandVars host text else pure text
  -- `arg_to_sv_flat`
  let flat := arg.items.flatten
  match arg.kind with
  | .quoted => do
    let expanded ← expandText (processQuotedLiteral flat)
    return [restoreLiteralBs expanded]
  | .bracket => do
    let expanded ← expandText flat
    return [stripCmakeBracketArg expanded]
  | .unquoted => do
    let expanded ← expandText flat
    return if splitUnquotedLists then splitSemicolonGenexAware expanded else [expanded]

/-- The loop of `eval_resolve_args_impl`. -/
def resolveArgsGo (host : Host) (expand splitUnquotedLists : Bool) :
    List Arg → List StringView → Prog (List StringView)
  | [], resolved => pure resolved
  | arg :: rest, resolved => do
    let texts ← resolveArg host expand splitUnquotedLists arg
    if ← Prog.shouldStop then return []
    resolveArgsGo host expand splitUnquotedLists rest (resolved ++ texts)

/-- `eval_resolve_args`. -/
def resolveArgs (host : Host) (args : List Arg) : Prog (List StringView) := do
  if ← Prog.shouldStop then return []
  resolveArgsGo host true true args []

/-- `eval_resolve_args_literal`. -/
def resolveArgsLiteral (host : Host) (args : List Arg) : Prog (List StringView) := do
  if ← Prog.shouldStop then return []
  resolveArgsGo host false false args []

/-! ## What resolving performs -/

section Performs

variable {allowed : Op → Prop}
  (fine : ∀ request : DiagRequest, request.command = sv "expand_vars" → allowed (.emitDiag request))

theorem expandOnce_performs (host : Host) {expandInner : StringView → Prog StringView}
    (each : ∀ inner, (expandInner inner).Performs allowed) (pieces : List ExpandPiece)
    (text : StringView) : (expandOnce host expandInner pieces text).Performs allowed := by
  induction pieces generalizing text with
  | nil => exact Performs.pure _
  | cons piece rest ih =>
    cases piece with
    | plain char => exact ih _
    | escapedDollar => exact ih _
    | env name =>
      apply Performs.context.bind
      intro ctx
      exact Performs.ite (Performs.pure _) (ih _)
    | reference inner =>
      apply (each inner).bind
      intro name
      exact Performs.context.bind fun ctx => ih _

include fine

theorem expandVarsDepth_performs (host : Host) (fuel depth : Nat) (input : StringView) :
    (expandVarsDepth host fuel depth input).Performs allowed := by
  induction fuel generalizing depth input with
  | zero => exact Performs.pure _
  | succ fuel ih =>
    apply Performs.context.bind
    intro ctx
    apply Performs.ite (Performs.pure _)
    apply Performs.ite
    · apply (emitDiag_performs (fine _ rfl)).bind
      intro _
      exact Performs.pure _
    · apply (expandOnce_performs host (fun inner => ih (depth + 1) inner) _ _).bind
      intro text
      exact Performs.pure _

/-- Resolving arguments performs only the reports of expansions. -/
theorem resolveArgs_performs (host : Host) (args : List Arg) :
    (resolveArgs host args).Performs allowed := by
  have stop : Prog.shouldStop.Performs allowed :=
    Performs.context.bind fun _ => Performs.pure _
  have each : ∀ arg, (resolveArg host true true arg).Performs allowed := by
    intro arg
    have expands : ∀ text, (expandVars host text).Performs allowed :=
      fun text => expandVarsDepth_performs fine host _ 0 text
    unfold resolveArg
    cases arg.kind with
    | quoted | bracket | unquoted => exact (expands _).bind fun _ => Performs.pure _
  have loop : ∀ resolved, (resolveArgsGo host true true args resolved).Performs allowed := by
    induction args with
    | nil => exact fun resolved => Performs.pure _
    | cons arg rest ih =>
      intro resolved
      apply (each arg).bind
      intro texts
      exact stop.bind fun stopped => Performs.ite (Performs.pure _) (ih _)
  exact stop.bind fun stopped => Performs.ite (Performs.pure _) (loop [])

end Performs

end Nobify.Evaluator
