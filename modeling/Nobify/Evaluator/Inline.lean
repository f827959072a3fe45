import Nobify.Evaluator.Expand
import Nobify.Parser.Parse
import Nobify.Parser.Lexer

/-!
# Inline scripts

A script that the evaluator wrote itself is lexed and parsed like any list file, and the arguments
of its command are resolved like any others. The rules below say what an argument resolves to when
its expansion looks nothing up.
-/

namespace Nobify.Evaluator

open Prog
open List

/-! ## From a script to arguments -/

/-- `flow_parse_inline_script`. -/
def flowParseInlineScript (limits : Parser.Limits) (script : StringView) :
    Option (List Parser.Node × List Parser.Diag) :=
  Parser.parseTokens limits none (Parser.lexTokens script)

/-- The kind of an argument of the parser. -/
def argKindOf : Parser.ArgKind → ArgKind
  | .unquoted => .unquoted
  | .quoted => .quoted
  | .bracket => .bracket

/-- An argument of the parser as the evaluator reads it: its kind and the texts of its tokens. -/
def argOf (arg : Parser.Arg) : Arg := ⟨argKindOf arg.kind, arg.items.map Parser.Token.text⟩

/-- What the arguments resolve to in this context, when the script is parsed into one call of the
command without a diagnostic. -/
def resolveInline (limits : Parser.Limits) (host : Host)
    (dispatch : Nat → Nat → StringView → List Arg → EvalExecContext → Option (Run EvalResult))
    (ctx : EvalExecContext) (script name : StringView) : Option (List StringView) :=
  match flowParseInlineScript limits script with
  | some ([.command _ _ found args], []) =>
    if found = name then
      ((resolveArgs host (args.map argOf)).exec dispatch ctx).map Run.value
    else none
  | _ => none

/-! ## Expansions that look nothing up -/

/-- What a piece without a reference stands for. -/
def ExpandPiece.char? : ExpandPiece → Option Char
  | .plain char => some char
  | .escapedDollar => some escapedDollarSentinel
  | _ => none

section Local

variable (host : Host)

/-- Pieces without references are copied. -/
theorem expandOnce_local {expandInner : StringView → Prog StringView}
    {pieces : List ExpandPiece} {chars : StringView}
    (isLocal : pieces.map ExpandPiece.char? = chars.map some) (text : StringView) :
    expandOnce host expandInner pieces text = pure (text ++ chars) := by
  induction pieces generalizing chars text with
  | nil =>
    have none : chars = [] := map_eq_nil_iff.mp isLocal.symm
    rw [none, append_nil]
    rfl
  | cons piece rest ih =>
    obtain ⟨char, others, shape, same, later⟩ := map_eq_cons_iff.mp isLocal.symm
    have tail := ih later.symm
    rw [shape]
    cases piece with
    | plain found =>
      cases same
      rw [expandOnce, tail, append_assoc]
      rfl
    | escapedDollar =>
      cases same
      rw [expandOnce, tail, append_assoc]
      rfl
    | env name => cases same
    | reference inner => cases same

variable (dispatch : Nat → Nat → StringView → List Arg → EvalExecContext → Option (Run EvalResult))

/-- A text without references expands to its characters in every running context. -/
theorem exec_expandVars_local {ctx : EvalExecContext} (running : ctx.shouldStop = false)
    {text chars : StringView}
    (isLocal : (expandPieces 0 text).map ExpandPiece.char? = chars.map some) :
    (expandVars host text).exec dispatch ctx =
      some ⟨restoreEscapedDollar (sbBuild text chars), ctx, []⟩ := by
  show (if ctx.shouldStop = true then _ else _ : Prog StringView).exec dispatch ctx = _
  rw [if_neg (by rw [running]; exact Bool.false_ne_true), if_neg (Nat.not_lt_zero _),
    expandOnce_local host isLocal]
  rfl

/-- Arguments that each resolve in place resolve one after the other. -/
theorem exec_resolveArgs_local {ctx : EvalExecContext} (running : ctx.shouldStop = false)
    {args : List Arg} {texts : List StringView}
    (each : List.Forall₂ (fun arg text => (resolveArg host true true arg).exec dispatch ctx =
      some ⟨[text], ctx, []⟩) args texts) :
    (resolveArgs host args).exec dispatch ctx = some ⟨texts, ctx, []⟩ := by
  have loop : ∀ resolved, (resolveArgsGo host true true args resolved).exec dispatch ctx =
      some ⟨resolved ++ texts, ctx, []⟩ := by
    induction each with
    | nil =>
      intro resolved
      rw [append_nil]
      rfl
    | @cons arg text args texts first rest ih =>
      intro resolved
      have goesOn : (do
          if ← Prog.shouldStop then return []
          resolveArgsGo host true true args (resolved ++ [text]) : Prog (List StringView)).exec
            dispatch ctx = some ⟨resolved ++ [text] ++ texts, ctx, []⟩ := by
        show (if ctx.shouldStop = true then _ else _ : Prog (List StringView)).exec dispatch ctx = _
        rw [if_neg (by rw [running]; exact Bool.false_ne_true)]
        exact ih _
      rw [append_assoc] at goesOn
      exact exec_bind_quiet dispatch first goesOn
  show (if ctx.shouldStop = true then _ else _ : Prog (List StringView)).exec dispatch ctx = _
  rw [if_neg (by rw [running]; exact Bool.false_ne_true)]
  exact loop []

end Local

end Nobify.Evaluator
