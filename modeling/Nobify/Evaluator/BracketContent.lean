import Nobify.Evaluator.CallScript
import Nobify.Evaluator.Quoting

/-!
# The content of a bracket argument

The resolver expands the text of a bracket argument, brackets included, and takes the brackets
away afterwards. The brackets survive every expansion, so a bracket argument resolves to its
content, expanded: it is kept as it stands exactly when there is nothing in it to expand.
-/

namespace Nobify.Evaluator

open Nobify.Parser Prog
open List

/-! ## Losing one character -/

/-- A closed reference has at least three characters. -/
theorem pieceAt_reference_length {char : Char} {rest : StringView}
    (closed : (pieceAt char rest).1.char? = none) : 2 ≤ (pieceAt char rest).2 := by
  unfold pieceAt at closed ⊢
  by_cases escape : char = '\\' ∧ rest.head? = some '$'
  · rw [if_pos escape] at closed
    cases closed
  rw [if_neg escape] at closed ⊢
  by_cases env : char = '$' ∧ (sv "ENV\x7b").isPrefixOf rest = true ∧ '}' ∈ rest.drop 4
  · rw [if_pos env]
    show 2 ≤ ((rest.drop 4).takeWhile (· != '}')).length + 5
    omega
  rw [if_neg env] at closed ⊢
  by_cases reference : char = '$' ∧ rest.head? = some '{'
  · rw [if_pos reference] at closed ⊢
    cases found : scanBraces 1 [] rest.tail with
    | none =>
      rw [found] at closed
      cases closed
    | some inner =>
      show 2 ≤ inner.length + 2
      omega
  · rw [if_neg reference] at closed
    cases closed

variable {skip : Nat} {text : StringView}

/-- A text of which at most one character is lost holds no reference. -/
theorem local_of_gathered (fits : skip ≤ text.length)
    (short : text.length ≤ (gathered (expandPieces skip text)).length + skip + 1) :
    ∀ piece ∈ expandPieces skip text, piece.char? ≠ none := by
  induction text generalizing skip with
  | nil => exact fun piece listed => absurd listed (by cases skip <;> exact not_mem_nil)
  | cons char rest ih =>
    rw [length_cons] at fits short
    cases skip with
    | succ skip =>
      rw [expandPieces] at short ⊢
      exact ih (by omega) (by omega)
    | zero =>
      have inside := pieceAt_length char rest
      have bound := (gathered_length inside).1
      rw [expandPieces] at short ⊢
      cases here : (pieceAt char rest).1.char? with
      | none =>
        have long := pieceAt_reference_length here
        have size : gathered ((pieceAt char rest).1 :: expandPieces (pieceAt char rest).2 rest) =
            gathered (expandPieces (pieceAt char rest).2 rest) := filterMap_cons_none here
        rw [size] at short
        omega
      | some kept =>
        have size : gathered ((pieceAt char rest).1 :: expandPieces (pieceAt char rest).2 rest) =
            kept :: gathered (expandPieces (pieceAt char rest).2 rest) :=
          filterMap_cons_some here
        rw [size, length_cons] at short
        intro piece listed
        rcases mem_cons.mp listed with same | later
        · rw [same, here]
          exact Option.some_ne_none kept
        · exact ih inside (by omega) piece later

/-- Where no reference is lost, no newline is. -/
theorem gathered_count (isLocal : ∀ piece ∈ expandPieces skip text, piece.char? ≠ none) :
    (gathered (expandPieces skip text)).count '\n' = (text.drop skip).count '\n' := by
  induction text generalizing skip with
  | nil =>
    rw [drop_nil]
    cases skip <;> rfl
  | cons char rest ih =>
    cases skip with
    | succ skip => exact ih isLocal
    | zero =>
      rw [expandPieces] at isLocal ⊢
      have tail := ih fun piece listed => isLocal piece (mem_cons_of_mem _ listed)
      cases shape : (pieceAt char rest).1 with
      | plain other =>
        have plain := pieceAt_plain shape
        have same : other = char := by
          unfold pieceAt at shape
          grind
        rw [plain] at tail ⊢
        show (other :: gathered (expandPieces 0 rest)).count '\n' = (char :: rest).count '\n'
        rw [same, count_cons, count_cons, tail, drop_zero]
      | escapedDollar =>
        have one := pieceAt_escapedDollar shape
        have escape : char = '\\' ∧ rest.head? = some '$' := by
          unfold pieceAt at shape
          grind
        obtain ⟨after, behind⟩ : ∃ after, rest = '$' :: after :=
          List.head?_eq_some_iff.mp escape.2
        rw [one] at tail ⊢
        show (escapedDollarSentinel :: gathered (expandPieces 1 rest)).count '\n' =
          (char :: rest).count '\n'
        rw [count_cons_of_ne (by decide), tail, escape.1, behind,
          count_cons_of_ne (by decide), count_cons_of_ne (by decide)]
        rfl
      | env name =>
        have here := isLocal _ mem_cons_self
        rw [shape] at here
        exact absurd rfl here
      | reference inner =>
        have here := isLocal _ mem_cons_self
        rw [shape] at here
        exact absurd rfl here

/-- Putting the dollar signs back changes no newline. -/
theorem restoreEscapedDollar_count (text : StringView) :
    (restoreEscapedDollar text).count '\n' = text.count '\n' := by
  induction text with
  | nil => rfl
  | cons char rest ih =>
    have apart : ¬ ('\n' : Char) = escapedDollarSentinel := by decide
    unfold restoreEscapedDollar at ih ⊢
    rw [map_cons, count_cons, count_cons, ih]
    by_cases escaped : char = escapedDollarSentinel
    · have dollar : (('$' : Char) == '\n') = (escapedDollarSentinel == '\n') := by decide
      rw [if_pos escaped, escaped, dollar]
    · rw [if_neg escaped]

/-- Losing the references of a text is never losing just its first newline. -/
theorem literal_of_erased (uncut : '$' ∈ text → '\x00' ∉ gathered (expandPieces 0 text))
    (back : restoreEscapedDollar (gathered (expandPieces 0 text)) = text.erase '\n') :
    Literal text := by
  by_cases newline : '\n' ∈ text
  · have lengths := congrArg List.length back
    rw [restoreEscapedDollar, length_map, length_erase_of_mem newline] at lengths
    have isLocal := local_of_gathered (Nat.zero_le text.length) (by omega)
    have counts := congrArg (List.count '\n') back
    rw [restoreEscapedDollar_count, gathered_count isLocal, drop_zero, count_erase_self] at counts
    have some : 0 < text.count '\n' := count_pos_iff.mpr newline
    omega
  · rw [erase_of_not_mem newline] at back
    exact literal_of_gathered uncut back

/-! ## Bracket arguments of a call -/

/-- The argument of the call resolves to its content, or to its content without the first
newline. -/
def KeepsContent (limits : Limits) (host : Host)
    (dispatch : Nat → Nat → StringView → List Arg → EvalExecContext → Option (Run EvalResult))
    (ctx : EvalExecContext) (name : StringView) (arg : BracketArg) : Prop :=
  resolveInline limits host dispatch ctx (bracketCall name [arg]) name = some [arg.text] ∨
    resolveInline limits host dispatch ctx (bracketCall name [arg]) name =
      some [arg.text.erase '\n']

instance (limits : Limits) (host : Host)
    (dispatch : Nat → Nat → StringView → List Arg → EvalExecContext → Option (Run EvalResult))
    (ctx : EvalExecContext) (name : StringView) (arg : BracketArg) :
    Decidable (KeepsContent limits host dispatch ctx name arg) :=
  inferInstanceAs (Decidable (_ ∨ _))

section Call

variable (dispatch : Nat → Nat → StringView → List Arg → EvalExecContext → Option (Run EvalResult))

/-- One argument resolves to what its round adds, unless that asked for a stop. -/
theorem exec_resolveArgs_one (host : Host) {ctx : EvalExecContext}
    (running : ctx.shouldStop = false) {arg : Arg} {first : Run (List StringView)}
    (went : (resolveArg host true true arg).exec dispatch ctx = some first) :
    ((resolveArgs host [arg]).exec dispatch ctx).map Run.value =
      some (if first.ctx.shouldStop then [] else first.value) := by
  have wentOn : (do
      if ← Prog.shouldStop then return []
      resolveArgsGo host true true [] ([] ++ first.value) : Prog (List StringView)).exec dispatch
        first.ctx = some ⟨if first.ctx.shouldStop then [] else first.value, first.ctx, []⟩ := by
    show (if first.ctx.shouldStop = true then _ else _ : Prog (List StringView)).exec dispatch
      first.ctx = _
    by_cases stopped : first.ctx.shouldStop = true
    · rw [if_pos stopped, if_pos stopped]
      rfl
    · rw [if_neg stopped, if_neg stopped]
      rfl
  show ((if ctx.shouldStop = true then _ else _ : Prog (List StringView)).exec dispatch ctx).map
    Run.value = _
  rw [if_neg (by rw [running]; exact Bool.false_ne_true)]
  show ((resolveArg host true true arg >>= _).exec dispatch ctx).map Run.value = _
  rw [exec_bind dispatch went wentOn]
  rfl

variable {limits : Limits} {name : StringView} {arg : BracketArg}

/-- A bracket argument is read as one argument with the content between brackets. -/
theorem bracketCall_parsed (blocks : 0 < limits.maxBlockDepth)
    (named : isValidCommandName name = true)
    (free : ∀ word ∈ blockKeywords, svEqCi name word = false) (valid : arg.Valid) :
    ∃ parsed, WrittenBracket parsed arg.text ∧
      ∀ host dispatch ctx, resolveInline limits host dispatch ctx (bracketCall name [arg]) name =
        ((resolveArgs host [parsed]).exec dispatch ctx).map Run.value := by
  obtain ⟨line, col, parsed, script, shape⟩ := parseTokens_bracketCall blocks named free
    fun other listed => mem_singleton.mp listed ▸ valid
  obtain ⟨read, rfl, pair⟩ := map_eq_singleton_iff.mp shape
  obtain ⟨kind, items⟩ := Prod.mk.inj pair
  have kept : argOf read = ⟨.bracket, read.items.map Token.text⟩ := by
    rw [argOf, kind]
    rfl
  refine ⟨argOf read, ?_, fun host dispatch ctx => ?_⟩
  · rw [kept]
    refine ⟨_, valid.long, rfl, ?_⟩
    rw [← flatMap_def, items]
    rfl
  · rw [resolveInline, flowParseInlineScript, script]
    exact if_pos rfl

end Call

end Nobify.Evaluator
