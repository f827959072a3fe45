import Nobify.Evaluator.Effect
import Nobify.Evaluator.Formula
import Nobify.Evaluator.Inline
import Nobify.Parser.BracketArgs

/-!
# Scripts of calls

`flow_build_call_script` writes a call with every argument in brackets that the argument does not
close. Read back, each argument comes out as `eval_expand_vars` leaves it: a bracket argument is
expanded like any other before it loses its brackets. So the script keeps the arguments that hold
nothing to expand.
-/

namespace Nobify.Evaluator

open Prog Nobify.Parser
open List

variable (openLen : Nat) (host : Host)

variable {back rest text : StringView} {char other : Char} {skip : Nat} {arg : Arg}
  {ctx : EvalExecContext}

/-! ## Building the script -/

/-- `flow_is_valid_command_name`. -/
def flowIsValidCommandName : StringView → Bool
  | [] => false
  | first :: rest =>
    (isAlpha first || first == '_') && rest.all fun char => isAlnum char || char == '_'

/-- The names that `flow_is_call_disallowed` refuses. -/
def disallowedCalls : List String :=
  ["if", "elseif", "else", "endif", "foreach", "endforeach", "while", "endwhile", "function",
    "endfunction", "macro", "endmacro", "block", "endblock"]

/-- `flow_is_call_disallowed`. -/
def flowIsCallDisallowed (name : StringView) : Bool :=
  disallowedCalls.any fun word => svEqCi name (sv word)

/-- Whether the closer with so many `=` stands in a text. -/
def bracketConflict (eqs : Nat) : StringView → Bool
  | [] => false
  | char :: rest => (bracketCloser (eqs + 2)).isPrefixOf (char :: rest) || bracketConflict eqs rest

/-- `flow_bracket_eq_count`: the least number of `=` below eight that the text does not close, else
eight. -/
def flowBracketEqCount (text : StringView) : Nat :=
  ((List.range 8).find? fun eqs => !bracketConflict eqs text).getD 8

/-- An argument in its brackets. -/
def callArg (text : StringView) : BracketArg := ⟨flowBracketEqCount text + 2, text⟩

/-- `flow_build_call_script`. -/
def flowBuildCallScript (name : StringView) (args : List StringView) : StringView :=
  bracketCall name (args.map callArg)

/-! ## Brackets that the text does not close -/

/-- Some bracket of at most eight `=` is not closed by the text. -/
def Bracketable (text : StringView) : Prop := ∃ eqs ≤ 8, bracketConflict eqs text = false

theorem bracketConflict_iff (eqs : Nat) (text : StringView) :
    bracketConflict eqs text = true ↔ bracketCloser (eqs + 2) <:+: text := by
  induction text with
  | nil =>
    refine iff_of_false Bool.false_ne_true fun found => ?_
    exact absurd (List.infix_nil.mp found) (cons_ne_nil _ _)
  | cons char rest ih =>
    rw [bracketConflict, Bool.or_eq_true, ih, List.isPrefixOf_iff_prefix, List.infix_cons_iff]

/-- The chosen bracket is not closed by the text, when some bracket is not. -/
theorem bracketConflict_flowBracketEqCount (bracketable : Bracketable text) :
    bracketConflict (flowBracketEqCount text) text = false := by
  unfold flowBracketEqCount
  cases found : (List.range 8).find? fun eqs => !bracketConflict eqs text with
  | some eqs =>
    have free := List.find?_some found
    exact Bool.not_eq_true' _ ▸ free
  | none =>
    obtain ⟨eqs, bound, free⟩ := bracketable
    have taken := List.find?_eq_none.mp found
    by_cases last : eqs = 8
    · rw [last] at free
      exact free
    · have conflict := taken eqs (mem_range.mpr (by omega))
      rw [free] at conflict
      exact absurd rfl conflict

theorem callArg_valid (bracketable : Bracketable text) : (callArg text).Valid where
  long := Nat.le_add_left 2 _
  free := by
    have free := bracketConflict_flowBracketEqCount bracketable
    intro found
    have conflict : bracketConflict (flowBracketEqCount text) text = true :=
      (bracketConflict_iff _ _).mpr found
    rw [free] at conflict
    exact Bool.false_ne_true conflict

/-! ## Pieces of a bracket argument -/

/-- A character at which no reference and no escape starts, and that takes no part in one. -/
def IsInert (char : Char) : Prop := char ≠ '$' ∧ char ≠ '{' ∧ char ≠ '}' ∧ char ≠ '\\'

theorem bracketOpener_chars : ∀ char ∈ bracketOpener openLen, char = '[' ∨ char = '=' := by
  intro char listed
  cases mem_cons.mp listed with
  | inl same => exact Or.inl same
  | inr later =>
    cases mem_append.mp later with
    | inl equals => exact Or.inr (eq_of_mem_replicate equals)
    | inr bracket => exact Or.inl (mem_singleton.mp bracket)

theorem bracketCloser_chars : ∀ char ∈ bracketCloser openLen, char = ']' ∨ char = '=' := by
  intro char listed
  cases mem_cons.mp listed with
  | inl same => exact Or.inl same
  | inr later =>
    cases mem_append.mp later with
    | inl equals => exact Or.inr (eq_of_mem_replicate equals)
    | inr bracket => exact Or.inl (mem_singleton.mp bracket)

/-- What the characters of brackets are not. -/
theorem not_mem_brackets (other : char ≠ '[' ∧ char ≠ ']' ∧ char ≠ '=') (openLen : Nat) :
    char ∉ bracketOpener openLen ∧ char ∉ bracketCloser openLen := by
  constructor
  · intro listed
    cases bracketOpener_chars openLen char listed with
    | inl same => exact other.1 same
    | inr same => exact other.2.2 same
  · intro listed
    cases bracketCloser_chars openLen char listed with
    | inl same => exact other.2.1 same
    | inr same => exact other.2.2 same

theorem isInert_bracketOpener : ∀ char ∈ bracketOpener openLen, IsInert char := by
  intro char listed
  cases bracketOpener_chars openLen char listed with
  | inl same => rw [same]; exact ⟨by decide, by decide, by decide, by decide⟩
  | inr same => rw [same]; exact ⟨by decide, by decide, by decide, by decide⟩

theorem isInert_bracketCloser : ∀ char ∈ bracketCloser openLen, IsInert char := by
  intro char listed
  cases bracketCloser_chars openLen char listed with
  | inl same => rw [same]; exact ⟨by decide, by decide, by decide, by decide⟩
  | inr same => rw [same]; exact ⟨by decide, by decide, by decide, by decide⟩

/-- Inert characters in front are plain pieces. -/
theorem expandPieces_inert {front : StringView} (inert : ∀ char ∈ front, IsInert char)
    (rest : StringView) :
    expandPieces 0 (front ++ rest) = front.map ExpandPiece.plain ++ expandPieces 0 rest := by
  induction front with
  | nil => rfl
  | cons char front ih =>
    have here := inert char mem_cons_self
    have piece : pieceAt char (front ++ rest) = (.plain char, 0) := by
      unfold pieceAt
      rw [if_neg (fun escape => here.2.2.2 escape.1), if_neg (fun env => here.1 env.1),
        if_neg (fun reference => here.1 reference.1)]
    rw [cons_append, expandPieces, piece, map_cons, cons_append,
      ih fun char listed => inert char (mem_cons_of_mem _ listed)]

variable (inert : ∀ char ∈ back, IsInert char)

include inert

/-- Braces are matched before inert characters as before the end. -/
theorem scanBraces_append (depth : Nat) (inner text : StringView) :
    scanBraces depth inner (text ++ back) = scanBraces depth inner text := by
  induction text generalizing depth inner with
  | nil =>
    rw [nil_append]
    induction back generalizing inner with
    | nil => rfl
    | cons char back ih =>
      have here := inert char mem_cons_self
      have step : scanBraces depth inner (char :: back) =
          scanBraces depth (inner ++ [char]) back := by
        rw [scanBraces, if_neg here.2.1, if_neg here.2.2.1]
      rw [step, ih fun char listed => inert char (mem_cons_of_mem _ listed)]
      rfl
  | cons char text ih =>
    simp only [cons_append, scanBraces, ih]

/-- The front of a text before inert characters is seen as before the end. -/
theorem head?_append_inert (rest : StringView) (apart : ¬ IsInert other) :
    (rest ++ back).head? = some other ↔ rest.head? = some other := by
  cases rest with
  | cons first rest => exact Iff.rfl
  | nil =>
    refine iff_of_false (fun found => ?_) (by simp)
    exact apart (inert other (mem_of_mem_head? found))

/-- An environment reference opens before inert characters where it opens before the end. -/
theorem isPrefixOf_env_append (rest : StringView) :
    (sv "ENV\x7b").isPrefixOf (rest ++ back) = (sv "ENV\x7b").isPrefixOf rest := by
  rw [Bool.eq_iff_iff, List.isPrefixOf_iff_prefix, List.isPrefixOf_iff_prefix]
  constructor
  · intro found
    by_cases long : 4 ≤ rest.length
    · exact List.prefix_of_prefix_length_le found (List.prefix_append _ _) long
    · obtain ⟨tail, shape⟩ := found
      have brace : (rest ++ back)[3]? = some '{' := by
        rw [← shape]
        rfl
      rw [List.getElem?_append_right (by omega)] at brace
      exact absurd rfl (inert '{' (mem_of_getElem? brace)).2.1
  · intro found
    exact found.trans (List.prefix_append _ _)

theorem mem_append_inert (rest : StringView) (apart : ¬ IsInert other) :
    other ∈ rest ++ back ↔ other ∈ rest := by
  rw [mem_append]
  exact or_iff_left fun listed => apart (inert other listed)

/-- The piece at a character is the same before inert characters as before the end. -/
theorem pieceAt_append (char : Char) (rest : StringView) :
    pieceAt char (rest ++ back) = pieceAt char rest := by
  have dollar : ¬ IsInert '$' := fun known => known.1 rfl
  have opens : ¬ IsInert '{' := fun known => known.2.1 rfl
  have closes : ¬ IsInert '}' := fun known => known.2.2.1 rfl
  unfold pieceAt
  simp only [head?_append_inert inert rest dollar, head?_append_inert inert rest opens,
    isPrefixOf_env_append inert rest]
  by_cases escape : char = '\\' ∧ rest.head? = some '$'
  · rw [if_pos escape, if_pos escape]
  rw [if_neg escape, if_neg escape]
  by_cases prefixed : (sv "ENV\x7b").isPrefixOf rest = true
  · have long : 4 ≤ rest.length := (List.isPrefixOf_iff_prefix.mp prefixed).length_le
    have dropped : (rest ++ back).drop 4 = rest.drop 4 ++ back :=
      drop_append_of_le_length long
    have noBrace : ¬ rest.head? = some '{' := by
      obtain ⟨tail, shape⟩ := List.isPrefixOf_iff_prefix.mp prefixed
      rw [← shape]
      simp [sv]
    simp only [dropped, mem_append_inert inert (rest.drop 4) closes, noBrace, and_false]
    by_cases closed : '}' ∈ rest.drop 4
    · have partial' : ¬ ((rest.drop 4).takeWhile (· != '}')).length = (rest.drop 4).length := by
        intro whole
        have all := (List.takeWhile_prefix (· != '}')).eq_of_length whole
        rw [← all] at closed
        have kept := mem_takeWhile_imp closed
        exact absurd kept (by decide)
      simp only [takeWhile_append, if_neg partial', if_false]
    · simp only [closed, and_false, if_false]
  · simp only [prefixed, Bool.false_eq_true, false_and, and_false, if_false]
    by_cases opened : char = '$' ∧ rest.head? = some '{'
    · have tail : (rest ++ back).tail = rest.tail ++ back := by
        cases rest with
        | nil => exact absurd opened.2 (by simp)
        | cons first rest => rfl
      rw [if_pos opened, if_pos opened, tail, scanBraces_append inert]
    · rw [if_neg opened, if_neg opened]

omit inert

/-- A piece lies in its text. -/
theorem pieceAt_length (char : Char) (rest : StringView) : (pieceAt char rest).2 ≤ rest.length := by
  unfold pieceAt
  split
  · rename_i escape
    cases rest with
    | nil => exact absurd escape.2 (by simp)
    | cons first rest => exact Nat.succ_le_succ (Nat.zero_le _)
  split
  · rename_i env
    have shorter : ((rest.drop 4).takeWhile (· != '}')).length < (rest.drop 4).length := by
      refine Nat.lt_of_le_of_ne (List.takeWhile_prefix _).length_le fun whole => ?_
      have all := (List.takeWhile_prefix (· != '}')).eq_of_length whole
      have closed := env.2.2
      rw [← all] at closed
      have kept := mem_takeWhile_imp closed
      exact absurd kept (by decide)
    rw [length_drop] at shorter
    dsimp only
    omega
  split
  · split
    · rename_i inner found
      have shorter := scanBraces_length found
      rw [length_tail, length_nil] at shorter
      dsimp only
      omega
    · exact Nat.zero_le _
  · exact Nat.zero_le _

include inert in
/-- Inert characters at the back are plain pieces. -/
theorem expandPieces_append (fits : skip ≤ text.length) :
    expandPieces skip (text ++ back) = expandPieces skip text ++ back.map ExpandPiece.plain := by
  induction text generalizing skip with
  | nil =>
    have none : skip = 0 := Nat.le_zero.mp fits
    have pieces := expandPieces_inert inert []
    rw [append_nil] at pieces
    rw [none, nil_append, pieces]
    exact append_nil _
  | cons char text ih =>
    cases skip with
    | succ skip => exact ih (Nat.le_of_succ_le_succ fits)
    | zero =>
      rw [cons_append, expandPieces, expandPieces, pieceAt_append inert,
        ih (pieceAt_length char text)]
      rfl

/-! ## Resolving a bracket argument -/

theorem stripCmakeBracketArg_cons {eqCount : Nat}
    (known : (rest.takeWhile (· == '=')).length = eqCount) :
    stripCmakeBracketArg ('[' :: rest) =
      if (rest.drop eqCount).head? = some '[' ∧ eqCount + 2 + (eqCount + 2) ≤ ('[' :: rest).length ∧
          (bracketCloser (eqCount + 2)).isSuffixOf ('[' :: rest) = true then
        (('[' :: rest).drop (eqCount + 2)).take
          (('[' :: rest).length - (eqCount + 2 + (eqCount + 2)))
      else '[' :: rest := by
  subst known
  rfl

/-- The brackets are stripped whatever is between them. -/
theorem stripCmakeBracketArg_written {openLen : Nat} (long : 2 ≤ openLen) (text : StringView) :
    stripCmakeBracketArg (bracketOpener openLen ++ (text ++ bracketCloser openLen)) = text := by
  have opened := length_bracketOpener long
  have closed := length_bracketCloser long
  have shape : bracketOpener openLen ++ (text ++ bracketCloser openLen) =
      '[' :: (List.replicate (openLen - 2) '=' ++ '[' :: (text ++ bracketCloser openLen)) := by
    simp [bracketOpener]
  have equals : (List.replicate (openLen - 2) '=' ++ '[' ::
      (text ++ bracketCloser openLen)).takeWhile (· == '=') = List.replicate (openLen - 2) '=' := by
    rw [takeWhile_append_of_pos (by simp), takeWhile_cons]
    simp
  have after : (List.replicate (openLen - 2) '=' ++ '[' ::
      (text ++ bracketCloser openLen)).drop (openLen - 2) =
        '[' :: (text ++ bracketCloser openLen) := drop_left' length_replicate
  have suffix : (bracketCloser openLen).isSuffixOf
      (bracketOpener openLen ++ (text ++ bracketCloser openLen)) = true := by
    rw [isSuffixOf_iff_suffix]
    exact (suffix_append text _).trans (suffix_append _ _)
  have size : (bracketOpener openLen ++ (text ++ bracketCloser openLen)).length =
      openLen + text.length + openLen := by
    rw [length_append, length_append, opened, closed]
    omega
  have eqs : openLen - 2 + 2 = openLen := by omega
  have inside : (bracketOpener openLen ++ (text ++ bracketCloser openLen)).drop openLen =
      text ++ bracketCloser openLen := drop_left' opened
  have count : openLen + text.length + openLen - (openLen + openLen) = text.length := by omega
  rw [shape] at suffix size inside ⊢
  rw [stripCmakeBracketArg_cons ((congrArg List.length equals).trans length_replicate),
    after, eqs, inside, size, count, if_pos ⟨rfl, by omega, suffix⟩, take_left]

/-- Brackets around a text are kept by the end of an expansion. -/
theorem restoreEscapedDollar_written {openLen : Nat} (text : StringView) :
    restoreEscapedDollar (bracketOpener openLen ++ text ++ bracketCloser openLen) =
      bracketOpener openLen ++ (restoreEscapedDollar text ++ bracketCloser openLen) := by
  have outside := @not_mem_brackets escapedDollarSentinel (by decide) openLen
  have kept : ∀ part : StringView, escapedDollarSentinel ∉ part →
      restoreEscapedDollar part = part := by
    intro part clean
    rw [restoreEscapedDollar]
    refine (map_congr_left fun char listed => ?_).trans (List.map_id _)
    refine if_neg fun same => ?_
    rw [same] at listed
    exact clean listed
  have opener := kept (bracketOpener openLen) outside.1
  have closer := kept (bracketCloser openLen) outside.2
  rw [restoreEscapedDollar, map_append, map_append, append_assoc]
  exact congrArg₂ _ opener (congrArg₂ _ rfl closer)

/-- A reference inside of a text, expanded. -/
def expandInner (host : Host) (inner : StringView) : Prog StringView :=
  expandVarsDepth host (inner.length + 1) 1 inner

/-- An expansion expands its pieces. -/
theorem expandVars_eq (input : StringView) : expandVars host input = (do
      let ctx ← context
      if ctx.shouldStop then return []
      let text ← expandOnce host (expandInner host) (expandPieces 0 input) []
      return restoreEscapedDollar (sbBuild input text)) := by
  have same : expandOnce host (expandVarsDepth host input.length 1) (expandPieces 0 input) [] =
      expandOnce host (expandInner host) (expandPieces 0 input) [] :=
    expandOnce_congr host
      (fun inner listed => expandVarsDepth_fuel host 1 (reference_mem_length listed)) []
  unfold expandVars
  rw [expandVarsDepth, ← same]
  rfl

/-- The argument is the text, written between brackets. -/
def WrittenBracket (arg : Arg) (text : StringView) : Prop :=
  ∃ openLen, 2 ≤ openLen ∧ arg.kind = .bracket ∧
    arg.items.flatten = bracketOpener openLen ++ (text ++ bracketCloser openLen)

/-- A bracket argument is expanded as it is written, and loses its brackets then. -/
theorem resolveArg_bracket (bracket : arg.kind = .bracket) : resolveArg host true true arg = (do
      return [stripCmakeBracketArg (← expandVars host arg.items.flatten)]) := by
  unfold resolveArg
  rw [bracket]
  rfl

/-- The pieces of a text between brackets are those of the text, between the brackets. -/
theorem expandPieces_written (text : StringView) :
    expandPieces 0 (bracketOpener openLen ++ (text ++ bracketCloser openLen)) =
      (bracketOpener openLen).map ExpandPiece.plain ++
        (expandPieces 0 text ++ (bracketCloser openLen).map ExpandPiece.plain) := by
  rw [expandPieces_inert (isInert_bracketOpener openLen),
    expandPieces_append (isInert_bracketCloser openLen) (Nat.zero_le _)]

/-- Brackets put no other character into a text. -/
theorem mem_written (other : char ≠ '[' ∧ char ≠ ']' ∧ char ≠ '=') (openLen : Nat)
    (text : StringView) :
    char ∈ bracketOpener openLen ++ (text ++ bracketCloser openLen) ↔ char ∈ text := by
  have outside := not_mem_brackets other openLen
  simp only [mem_append, outside.1, outside.2, false_or, or_false]

/-! ## Texts that come back -/

/-- A text that expands to itself in every state: it holds no escaped dollar sign, no closed
reference, not the byte that stands for an escaped dollar sign, and no NUL when it holds a dollar
sign. -/
def Literal (text : StringView) : Prop :=
  escapedDollarSentinel ∉ text ∧ (∀ piece ∈ expandPieces 0 text, ∃ char, piece = .plain char) ∧
    ('$' ∈ text → '\x00' ∉ text)

/-- What the pieces without a reference put into the result. -/
def gathered (pieces : List ExpandPiece) : StringView := pieces.filterMap ExpandPiece.char?

theorem pieceAt_plain (plain : (pieceAt char rest).1 = .plain other) :
    pieceAt char rest = (.plain char, 0) := by
  unfold pieceAt at plain ⊢
  by_cases escape : char = '\\' ∧ rest.head? = some '$'
  · rw [if_pos escape] at plain
    cases plain
  rw [if_neg escape] at plain ⊢
  by_cases env : char = '$' ∧ (sv "ENV\x7b").isPrefixOf rest = true ∧ '}' ∈ rest.drop 4
  · rw [if_pos env] at plain
    cases plain
  rw [if_neg env] at plain ⊢
  by_cases reference : char = '$' ∧ rest.head? = some '{'
  · rw [if_pos reference] at plain ⊢
    cases closed : scanBraces 1 [] rest.tail with
    | none => rfl
    | some inner =>
      rw [closed] at plain
      cases plain
  · rw [if_neg reference]

theorem pieceAt_escapedDollar (escape : (pieceAt char rest).1 = .escapedDollar) :
    (pieceAt char rest).2 = 1 := by
  unfold pieceAt at escape ⊢
  split at escape
  · rename_i here
    rw [if_pos here]
  split at escape
  · cases escape
  split at escape
  · split at escape <;> cases escape
  · cases escape

/-- A text of plain pieces has one piece for each of its characters. -/
theorem expandPieces_plain (plain : ∀ piece ∈ expandPieces 0 text, ∃ char, piece = .plain char) :
    expandPieces 0 text = text.map ExpandPiece.plain := by
  induction text with
  | nil => rfl
  | cons char rest ih =>
    have first : (pieceAt char rest).1 ∈ expandPieces 0 (char :: rest) := mem_cons_self
    obtain ⟨other, here⟩ := plain _ first
    rw [expandPieces, pieceAt_plain here] at plain ⊢
    rw [map_cons, ih fun piece listed => plain piece (mem_cons_of_mem _ listed)]

theorem Literal.chars (isLiteral : Literal text) :
    (expandPieces 0 text).map ExpandPiece.char? = text.map some := by
  rw [expandPieces_plain isLiteral.2.1, List.map_map]
  rfl

theorem sbBuild_eq_self {input : StringView} (nulFree : '$' ∈ input → '\x00' ∉ text) :
    sbBuild input text = text := by
  unfold sbBuild
  by_cases dollar : '$' ∈ input
  · rw [if_pos dollar]
    exact svToCstr_eq_self (nulFree dollar)
  · rw [if_neg dollar]

theorem restoreEscapedDollar_eq_self_iff :
    restoreEscapedDollar text = text ↔ escapedDollarSentinel ∉ text := by
  induction text with
  | nil => simp [restoreEscapedDollar]
  | cons char rest ih =>
    have apart : ('$' : Char) ≠ escapedDollarSentinel := by decide
    unfold restoreEscapedDollar at ih ⊢
    rw [map_cons, List.cons.injEq, ih, mem_cons, not_or]
    by_cases same : char = escapedDollarSentinel
    · rw [if_pos same, same]
      simp [apart]
    · rw [if_neg same]
      simp [Ne.symm same]

/-- Every piece but a plain one is longer than what it puts into the result by itself. -/
theorem gathered_length (fits : skip ≤ text.length) :
    (gathered (expandPieces skip text)).length + skip ≤ text.length ∧
      ((gathered (expandPieces skip text)).length + skip = text.length →
        ∀ piece ∈ expandPieces skip text, ∃ char, piece = .plain char) := by
  induction text generalizing skip with
  | nil =>
    have none : skip = 0 := Nat.le_zero.mp fits
    rw [none]
    exact ⟨Nat.le_refl _, fun _ piece listed => nomatch listed⟩
  | cons char rest ih =>
    cases skip with
    | succ skip =>
      have bound := ih (Nat.le_of_succ_le_succ fits)
      rw [expandPieces, length_cons]
      refine ⟨by omega, fun full => bound.2 (by omega)⟩
    | zero =>
      have bound := ih (pieceAt_length char rest)
      rw [expandPieces, length_cons]
      cases shape : (pieceAt char rest).1 with
      | plain other =>
        have size : (gathered (.plain other :: expandPieces (pieceAt char rest).2 rest)).length =
            (gathered (expandPieces (pieceAt char rest).2 rest)).length + 1 := rfl
        have taken : (pieceAt char rest).2 = 0 := by rw [pieceAt_plain shape]
        rw [size]
        refine ⟨by omega, fun full piece listed => ?_⟩
        rcases mem_cons.mp listed with here | later
        · exact ⟨other, here⟩
        · exact bound.2 (by omega) piece later
      | escapedDollar =>
        have size : (gathered (.escapedDollar :: expandPieces (pieceAt char rest).2 rest)).length =
            (gathered (expandPieces (pieceAt char rest).2 rest)).length + 1 := rfl
        have taken : (pieceAt char rest).2 = 1 := pieceAt_escapedDollar shape
        rw [size]
        exact ⟨by omega, fun full => by omega⟩
      | env name =>
        have size : gathered (.env name :: expandPieces (pieceAt char rest).2 rest) =
            gathered (expandPieces (pieceAt char rest).2 rest) := rfl
        rw [size]
        exact ⟨by omega, fun full => by omega⟩
      | reference inner =>
        have size : gathered (.reference inner :: expandPieces (pieceAt char rest).2 rest) =
            gathered (expandPieces (pieceAt char rest).2 rest) := rfl
        rw [size]
        exact ⟨by omega, fun full => by omega⟩

/-- A text without references puts its own characters into the result, and the marks of escaped
dollar signs. -/
theorem gathered_mem (listed : char ∈ gathered (expandPieces skip text)) :
    char ∈ text ∨ char = escapedDollarSentinel := by
  induction text generalizing skip with
  | nil =>
    cases skip <;> exact nomatch listed
  | cons first rest ih =>
    cases skip with
    | succ skip => exact (ih listed).imp_left (mem_cons_of_mem _)
    | zero =>
      rw [expandPieces, gathered, filterMap_cons] at listed
      cases shape : (pieceAt first rest).1 with
      | plain other =>
        have plain := pieceAt_plain shape
        have same : other = first := by
          rw [plain] at shape
          exact (ExpandPiece.plain.inj shape).symm
        rw [shape, same] at listed
        rcases mem_cons.mp listed with here | later
        · rw [here]
          exact Or.inl mem_cons_self
        · exact (ih later).imp_left (mem_cons_of_mem _)
      | escapedDollar =>
        rw [shape] at listed
        rcases mem_cons.mp listed with here | later
        · exact Or.inr here
        · exact (ih later).imp_left (mem_cons_of_mem _)
      | env name =>
        rw [shape] at listed
        exact (ih listed).imp_left (mem_cons_of_mem _)
      | reference inner =>
        rw [shape] at listed
        exact (ih listed).imp_left (mem_cons_of_mem _)

/-- What a text between brackets may come to where nothing is bound: nothing after a stop, the text
without its references, or, cut off at a NUL, a text without one. -/
def Expanded (value text : StringView) : Prop :=
  value = [] ∨ (('$' ∈ text → '\x00' ∉ gathered (expandPieces 0 text)) ∧
      value = restoreEscapedDollar (gathered (expandPieces 0 text))) ∨
    '\x00' ∈ gathered (expandPieces 0 text) ∧ '\x00' ∉ value

/-- A NUL that is left of a text is one of the text. -/
theorem nul_mem_of_gathered (listed : '\x00' ∈ gathered (expandPieces 0 text)) : '\x00' ∈ text :=
  (gathered_mem listed).resolve_right (by decide)

/-- A text is literal when nothing but its own characters gives the text back. -/
theorem literal_of_gathered (uncut : '$' ∈ text → '\x00' ∉ gathered (expandPieces 0 text))
    (back : restoreEscapedDollar (gathered (expandPieces 0 text)) = text) : Literal text := by
  have same : (gathered (expandPieces 0 text)).length = text.length := by
    have lengths := congrArg List.length back
    rw [restoreEscapedDollar, length_map] at lengths
    exact lengths
  have plain := (gathered_length (Nat.zero_le _)).2 same
  have all : gathered (expandPieces 0 text) = text := by
    rw [expandPieces_plain plain, gathered, filterMap_map]
    exact filterMap_some
  rw [all] at back uncut
  exact ⟨(restoreEscapedDollar_eq_self_iff).mp back, plain, uncut⟩

/-! ## Resolving the script -/

variable {limits : Limits} {name : StringView} {args : List StringView}

/-- The script of a call is parsed into one call with the texts between brackets. -/
theorem callScript_parsed (blocks : 0 < limits.maxBlockDepth)
    (named : flowIsValidCommandName name = true) (allowed : flowIsCallDisallowed name = false)
    (bracketable : ∀ arg ∈ args, Bracketable arg) :
    ∃ line col parsed, flowParseInlineScript limits (flowBuildCallScript name args) =
          some ([.command line col name parsed], []) ∧
        List.Forall₂ WrittenBracket (parsed.map argOf) args := by
  have free : ∀ word ∈ blockKeywords, svEqCi name word = false := by
    intro word listed
    have all := any_eq_false.mp allowed
    simp only [blockKeywords, mem_cons, not_mem_nil, or_false] at listed
    rcases listed with here | here | here | here | here
    · rw [here]
      exact Bool.eq_false_iff.mpr (all "if" (by decide))
    · rw [here]
      exact Bool.eq_false_iff.mpr (all "foreach" (by decide))
    · rw [here]
      exact Bool.eq_false_iff.mpr (all "while" (by decide))
    · rw [here]
      exact Bool.eq_false_iff.mpr (all "function" (by decide))
    · rw [here]
      exact Bool.eq_false_iff.mpr (all "macro" (by decide))
  have valid : ∀ arg ∈ args.map callArg, arg.Valid := by
    intro arg listed
    obtain ⟨text, here, same⟩ := mem_map.mp listed
    rw [← same]
    exact callArg_valid (bracketable text here)
  obtain ⟨line, col, parsed, script, shape⟩ := parseTokens_bracketCall blocks named free valid
  refine ⟨line, col, parsed, script, ?_⟩
  rw [List.forall₂_map_left_iff]
  rw [List.map_map] at shape
  have pairs := List.forall₂_map_right_iff.mp (List.forall₂_map_left_iff.mp
    (List.forall₂_eq_eq_eq.symm ▸ shape))
  refine pairs.imp fun arg text same => ?_
  obtain ⟨kind, items⟩ := Prod.mk.inj same
  have kept : argOf arg = ⟨.bracket, arg.items.map Token.text⟩ := by
    rw [argOf, kind]
    rfl
  rw [kept]
  refine ⟨_, Nat.le_add_left 2 (flowBracketEqCount text), rfl, ?_⟩
  rw [← flatMap_def, items]
  rfl

section Runs

variable (dispatch : Nat → Nat → StringView → List Arg → EvalExecContext → Option (Run EvalResult))

/-- A literal text between brackets resolves to itself. -/
theorem exec_literal (running : ctx.shouldStop = false) (written : WrittenBracket arg text)
    (isLiteral : Literal text) :
    (resolveArg host true true arg).exec dispatch ctx = some ⟨[text], ctx, []⟩ := by
  obtain ⟨openLen, long, bracket, items⟩ := written
  let flat := bracketOpener openLen ++ (text ++ bracketCloser openLen)
  have clean : escapedDollarSentinel ∉ flat := fun listed =>
    isLiteral.1 ((mem_written (by decide) openLen text).mp listed)
  have nulFree : '$' ∈ flat → '\x00' ∉ flat := fun dollar listed =>
    isLiteral.2.2 ((mem_written (by decide) openLen text).mp dollar)
      ((mem_written (by decide) openLen text).mp listed)
  have pieces : (expandPieces 0 flat).map ExpandPiece.char? = flat.map some := by
    show (expandPieces 0 (bracketOpener openLen ++ (text ++ bracketCloser openLen))).map _ =
      (bracketOpener openLen ++ (text ++ bracketCloser openLen)).map some
    simp only [expandPieces_written, map_append, List.map_map, isLiteral.chars]
    rfl
  have expanded := exec_expandVars_local host dispatch running pieces
  rw [sbBuild_eq_self nulFree, (restoreEscapedDollar_eq_self_iff).mpr clean] at expanded
  have stripped : (pure [stripCmakeBracketArg flat] : Prog (List StringView)).exec dispatch ctx =
      some ⟨[text], ctx, []⟩ := by
    rw [stripCmakeBracketArg_written long text]
    rfl
  rw [resolveArg_bracket host bracket, items]
  exact exec_bind_quiet dispatch expanded stripped

/-- Resolving a call of such a script comes down to resolving texts between brackets. -/
theorem resolveInline_callScript (blocks : 0 < limits.maxBlockDepth)
    (named : flowIsValidCommandName name = true) (allowed : flowIsCallDisallowed name = false)
    (bracketable : ∀ arg ∈ args, Bracketable arg) (host : Host) (ctx : EvalExecContext) :
    ∃ parsed, List.Forall₂ WrittenBracket parsed args ∧
      resolveInline limits host dispatch ctx (flowBuildCallScript name args) name =
        ((resolveArgs host parsed).exec dispatch ctx).map Run.value := by
  obtain ⟨line, col, parsed, script, each⟩ := callScript_parsed blocks named allowed bracketable
  refine ⟨parsed.map argOf, each, ?_⟩
  rw [resolveInline, script]
  exact if_pos rfl

/-! ### Runs from the fresh state -/

/-- Only a report of a diagnostic. -/
abbrev OnlyReports (op : Op) : Prop := ∃ request, op = .emitDiag request

theorem onlyReports_state {op : Op} (reports : OnlyReports op) (ctx : EvalExecContext) :
    (op.apply ctx).state = ctx.state := by
  obtain ⟨request, same⟩ := reports
  rw [same]
  exact emitDiag_state ctx request

theorem lookups_fresh (fresh : ctx.state = freshState) (name : StringView) :
    (getenvTemp bareHost ctx name).getD [] = [] ∧
      (macroBindGet ctx.state name).getD (ctx.state.varGetVisible name) = [] := by
  constructor
  · unfold getenvTemp
    dsimp only
    by_cases unnamed : svToCstr name = []
    · rw [if_pos unnamed]
      rfl
    · rw [if_neg unnamed, fresh]
      show (if ctx.shouldStop = true then none else none : Option StringView).getD [] = []
      rw [ite_self]
      rfl
  · rw [fresh]
    rfl

/-- In the fresh state references are replaced by nothing. -/
theorem exec_expandOnce_fresh {expandInner : StringView → Prog StringView}
    (each : ∀ inner, (expandInner inner).Performs OnlyReports) (pieces : List ExpandPiece)
    (text : StringView) (fresh : ctx.state = freshState) :
    ∃ run, (expandOnce bareHost expandInner pieces text).exec dispatch ctx = some run ∧
      run.ctx.state = freshState ∧ (run.value = [] ∨ run.value = text ++ gathered pieces) := by
  induction pieces generalizing text ctx with
  | nil => exact ⟨⟨text, ctx, []⟩, rfl, fresh, Or.inr (append_nil text).symm⟩
  | cons piece rest ih =>
    cases piece with
    | plain char =>
      obtain ⟨run, went, still, value⟩ := ih (text ++ [char]) fresh
      refine ⟨run, went, still, value.imp_right fun same => ?_⟩
      rw [same, append_assoc]
      rfl
    | escapedDollar =>
      obtain ⟨run, went, still, value⟩ := ih (text ++ [escapedDollarSentinel]) fresh
      refine ⟨run, went, still, value.imp_right fun same => ?_⟩
      rw [same, append_assoc]
      rfl
    | env name =>
      by_cases stopped : ctx.shouldStop = true
      · refine ⟨⟨[], ctx, []⟩, ?_, fresh, Or.inl rfl⟩
        show (if ctx.shouldStop = true then _ else _ : Prog StringView).exec dispatch ctx = _
        rw [if_pos stopped]
        rfl
      · obtain ⟨run, went, still, value⟩ := ih text fresh
        refine ⟨run, ?_, still, value⟩
        show (if ctx.shouldStop = true then _ else _ : Prog StringView).exec dispatch ctx = _
        rw [if_neg stopped, (lookups_fresh fresh name).1, append_nil]
        exact went
    | reference inner =>
      obtain ⟨first, expanded, _⟩ := (each inner).exec dispatch ctx
      have between : first.ctx.state = freshState :=
        ((each inner).keeps dispatch (fun op reports => onlyReports_state reports) expanded).trans
          fresh
      obtain ⟨run, went, still, value⟩ := ih text between
      have wentOn : (expandOnce bareHost expandInner rest
          (text ++ (macroBindGet first.ctx.state first.value).getD
            (first.ctx.state.varGetVisible first.value))).exec dispatch first.ctx = some run := by
        rw [(lookups_fresh between first.value).2, append_nil]
        exact went
      exact ⟨_, exec_bind dispatch expanded wentOn, still, value⟩

/-- In the fresh state a text expands to its characters without its references, unless a stop is
pending. -/
theorem exec_expandVars_fresh (text : StringView) (fresh : ctx.state = freshState) :
    ∃ run, (expandVars bareHost text).exec dispatch ctx = some run ∧ run.ctx.state = freshState ∧
      (run.value = [] ∨
        run.value = restoreEscapedDollar (sbBuild text (gathered (expandPieces 0 text)))) := by
  have inner : ∀ part, (expandInner bareHost part).Performs OnlyReports := fun part =>
    expandVarsDepth_performs (fun request _ => ⟨request, rfl⟩) bareHost _ 1 part
  rw [expandVars_eq]
  by_cases stopped : ctx.shouldStop = true
  · refine ⟨⟨[], ctx, []⟩, ?_, fresh, Or.inl rfl⟩
    show (if ctx.shouldStop = true then _ else _ : Prog StringView).exec dispatch ctx = _
    rw [if_pos stopped]
    rfl
  · obtain ⟨run, went, still, value⟩ :=
      exec_expandOnce_fresh dispatch inner (expandPieces 0 text) [] fresh
    refine ⟨⟨restoreEscapedDollar (sbBuild text run.value), run.ctx, run.trace⟩, ?_, still, ?_⟩
    · show (if ctx.shouldStop = true then _ else _ : Prog StringView).exec dispatch ctx = _
      rw [if_neg stopped]
      exact exec_bind_pure dispatch (fun value => restoreEscapedDollar (sbBuild text value)) went
    · rcases value with none | all
      · rw [none]
        refine Or.inl ?_
        unfold sbBuild
        rw [show svToCstr [] = [] from rfl, ite_self]
        rfl
      · rw [all, nil_append]
        exact Or.inr rfl

/-- Losing brackets adds no character. -/
theorem stripCmakeBracketArg_subset (text : StringView) : stripCmakeBracketArg text ⊆ text := by
  unfold stripCmakeBracketArg
  cases text with
  | nil => exact List.Subset.refl _
  | cons char rest =>
    split
    · dsimp only
      split
      · exact ((take_sublist _ _).trans (drop_sublist _ _)).subset
      · exact List.Subset.refl _
    · exact List.Subset.refl _

/-- In the fresh state a text between brackets comes to what `Expanded` says. -/
theorem exec_resolveArg_fresh (written : WrittenBracket arg text) (fresh : ctx.state = freshState) :
    ∃ run, (resolveArg bareHost true true arg).exec dispatch ctx = some run ∧
      run.ctx.state = freshState ∧ ∃ value, run.value = [value] ∧ Expanded value text := by
  obtain ⟨openLen, long, bracket, items⟩ := written
  obtain ⟨run, went, still, value⟩ := exec_expandVars_fresh dispatch arg.items.flatten fresh
  refine ⟨⟨[stripCmakeBracketArg run.value], run.ctx, run.trace⟩, ?_, still, _, rfl, ?_⟩
  · rw [resolveArg_bracket bareHost bracket]
    exact exec_bind_pure dispatch (fun value => [stripCmakeBracketArg value]) went
  have pieces : gathered (expandPieces 0 arg.items.flatten) =
      bracketOpener openLen ++ (gathered (expandPieces 0 text) ++ bracketCloser openLen) := by
    have plain : ∀ part : StringView, gathered (part.map ExpandPiece.plain) = part := by
      intro part
      rw [gathered, filterMap_map]
      exact filterMap_some
    rw [items, expandPieces_written]
    unfold gathered at plain ⊢
    rw [filterMap_append, filterMap_append, plain, plain]
  rcases value with none | all
  · rw [none]
    exact Or.inl rfl
  by_cases uncut : '$' ∈ text → '\x00' ∉ gathered (expandPieces 0 text)
  · refine Or.inr (Or.inl ⟨uncut, ?_⟩)
    have whole : sbBuild arg.items.flatten (gathered (expandPieces 0 arg.items.flatten)) =
        gathered (expandPieces 0 arg.items.flatten) := by
      refine sbBuild_eq_self fun dollar nul => ?_
      rw [items] at dollar
      rw [pieces] at nul
      exact uncut ((mem_written (by decide) openLen text).mp dollar)
        ((mem_written (by decide) openLen _).mp nul)
    rw [all, whole, pieces, ← append_assoc, restoreEscapedDollar_written,
      stripCmakeBracketArg_written long]
  · obtain ⟨dollar, nul⟩ := Classical.not_imp.mp uncut
    refine Or.inr (Or.inr ⟨Classical.not_not.mp nul, fun listed => ?_⟩)
    have inside := stripCmakeBracketArg_subset _ listed
    have dollarFlat : '$' ∈ arg.items.flatten := by
      rw [items]
      exact (mem_written (by decide) openLen text).mpr dollar
    rw [all, sbBuild, if_pos dollarFlat] at inside
    obtain ⟨char, here, same⟩ := mem_map.mp inside
    by_cases mark : char = escapedDollarSentinel
    · rw [if_pos mark] at same
      exact absurd same (by decide)
    · rw [if_neg mark] at same
      rw [same] at here
      exact nul_not_mem_svToCstr _ here

/-- From the fresh state arguments that come back are literal. -/
theorem literal_of_resolved {args : List Arg} {texts values : List StringView}
    (each : List.Forall₂ WrittenBracket args texts) (fresh : ctx.state = freshState)
    (resolved : ((resolveArgs bareHost args).exec dispatch ctx).map Run.value = some values)
    (same : values = texts) : ∀ text ∈ texts, Literal text := by
  have loop : ∀ {args : List Arg} {texts : List StringView},
      List.Forall₂ WrittenBracket args texts →
      ∀ (front : List StringView) (ctx : EvalExecContext), ctx.state = freshState →
      ∃ run, (resolveArgsGo bareHost true true args front).exec dispatch ctx = some run ∧
        (run.value = [] ∨ ∃ more, run.value = front ++ more ∧
          List.Forall₂ Expanded more texts) := by
    intro args texts each
    induction each with
    | nil =>
      intro front ctx fresh
      exact ⟨⟨front, ctx, []⟩, rfl, Or.inr ⟨[], (append_nil front).symm, .nil⟩⟩
    | @cons arg text args texts here rest ih =>
      intro front ctx fresh
      obtain ⟨first, resolvedFirst, still, value, isValue, expanded⟩ :=
        exec_resolveArg_fresh dispatch here fresh
      obtain ⟨run, went, values⟩ := ih (front ++ first.value) first.ctx still
      by_cases stopped : first.ctx.shouldStop = true
      · have ended : (do
            if ← Prog.shouldStop then return []
            resolveArgsGo bareHost true true args (front ++ first.value) :
              Prog (List StringView)).exec dispatch first.ctx = some ⟨[], first.ctx, []⟩ := by
          show (if first.ctx.shouldStop = true then _ else _ : Prog (List StringView)).exec
            dispatch first.ctx = _
          rw [if_pos stopped]
          rfl
        exact ⟨_, exec_bind dispatch resolvedFirst ended, Or.inl rfl⟩
      · have goesOn : (do
            if ← Prog.shouldStop then return []
            resolveArgsGo bareHost true true args (front ++ first.value) :
              Prog (List StringView)).exec dispatch first.ctx = some run := by
          show (if first.ctx.shouldStop = true then _ else _ : Prog (List StringView)).exec
            dispatch first.ctx = _
          rw [if_neg stopped]
          exact went
        refine ⟨_, exec_bind dispatch resolvedFirst goesOn, values.imp_right ?_⟩
        intro ⟨more, shape, tail⟩
        refine ⟨value :: more, ?_, .cons expanded tail⟩
        rw [shape, append_assoc, isValue]
        rfl
  have known : texts = [] ∨ List.Forall₂ Expanded texts texts := by
    by_cases stopped : ctx.shouldStop = true
    · have ended : (resolveArgs bareHost args).exec dispatch ctx = some ⟨[], ctx, []⟩ := by
        show (if ctx.shouldStop = true then _ else _ : Prog (List StringView)).exec dispatch ctx = _
        rw [if_pos stopped]
        rfl
      rw [ended] at resolved
      cases resolved
      exact Or.inl same.symm
    · obtain ⟨run, went, values⟩ := loop each [] ctx fresh
      have whole : (resolveArgs bareHost args).exec dispatch ctx = some run := by
        show (if ctx.shouldStop = true then _ else _ : Prog (List StringView)).exec dispatch ctx = _
        rw [if_neg stopped]
        exact went
      rw [whole] at resolved
      cases resolved
      rcases values with none | ⟨more, shape, tail⟩
      · exact Or.inl (same.symm.trans none)
      · rw [nil_append] at shape
        rw [← shape, same] at tail
        exact Or.inr tail
  intro text listed
  rcases known with none | pairs
  · rw [none] at listed
    cases listed
  · have both := List.forall₂_same.mp pairs text listed
    rcases both with empty | ⟨uncut, back⟩ | ⟨nul, nulFree⟩
    · rw [empty]
      exact ⟨not_mem_nil, fun piece found => absurd found not_mem_nil, fun dollar => nomatch dollar⟩
    · exact literal_of_gathered uncut back.symm
    · exact absurd (nul_mem_of_gathered nul) nulFree

end Runs

/-- The script of a call gives back its arguments in every state exactly when all of them are
literal, provided that each leaves a bracket open to be used. -/
theorem callScript_roundTrip_iff {limits : Limits} {name : StringView} {args : List StringView}
    (blocks : 0 < limits.maxBlockDepth) (named : flowIsValidCommandName name = true)
    (allowed : flowIsCallDisallowed name = false) (bracketable : ∀ arg ∈ args, Bracketable arg) :
    (∀ host dispatch (ctx : EvalExecContext), ctx.shouldStop = false →
      resolveInline limits host dispatch ctx (flowBuildCallScript name args) name = some args) ↔
      ∀ arg ∈ args, Literal arg := by
  constructor
  · intro back
    obtain ⟨parsed, each, resolves⟩ := resolveInline_callScript noCommands blocks named allowed
      bracketable bareHost freshContext
    have resolved := back bareHost noCommands freshContext rfl
    rw [resolves] at resolved
    exact literal_of_resolved noCommands each rfl resolved rfl
  · intro literals host dispatch ctx running
    obtain ⟨parsed, each, resolves⟩ := resolveInline_callScript dispatch blocks named allowed
      bracketable host ctx
    have values : List.Forall₂ (fun arg text => (resolveArg host true true arg).exec dispatch ctx =
        some ⟨[text], ctx, []⟩) parsed args := by
      refine List.forall₂_iff_get.mpr ⟨each.length_eq, fun position left right => ?_⟩
      exact exec_literal host dispatch running (each.get left right)
        (literals _ (get_mem args ⟨position, right⟩))
    rw [resolves, exec_resolveArgs_local host dispatch running values]
    rfl

theorem callScript_roundTrip_iff_brackets : resolveInline {} bareHost noCommands freshContext
      (flowBuildCallScript (sv "message") [sv "a;b]", sv "]]"]) (sv "message") =
        some [sv "a;b]", sv "]]"] := by
  have literal : ∀ text ∈ [sv "a;b]", sv "]]"], escapedDollarSentinel ∉ text ∧
      expandPieces 0 text = text.map ExpandPiece.plain ∧ '$' ∉ text := by decide
  have open' : ∀ text ∈ [sv "a;b]", sv "]]"], bracketConflict 1 text = false := by decide
  refine (callScript_roundTrip_iff (by decide) (by decide) (by decide)
    fun text listed => ⟨1, by decide, open' text listed⟩).mpr (fun text listed => ?_)
    bareHost noCommands freshContext rfl
  refine ⟨(literal text listed).1, fun piece found => ?_,
    fun dollar => absurd dollar (literal text listed).2.2⟩
  rw [(literal text listed).2.1] at found
  obtain ⟨char, _, same⟩ := mem_map.mp found
  exact ⟨char, same.symm⟩

/-- A text that closes the brackets of all nine lengths. -/
def everyCloser : StringView := (List.range 9).flatMap fun eqs => bracketCloser (eqs + 2)

/-- A reference does not come back, and neither does a text that closes every bracket and goes on
after a blank. -/
theorem callScript_loses_arguments :
    flowIsValidCommandName (sv "message") = true ∧ flowIsCallDisallowed (sv "message") = false ∧
      resolveInline {} bareHost noCommands freshContext
        (flowBuildCallScript (sv "message") [sv "$\x7bX\x7d"]) (sv "message") = some [[]] ∧
      (resolveInline {} bareHost noCommands freshContext
        (flowBuildCallScript (sv "message") [everyCloser ++ sv " x"]) (sv "message")).map
          List.length = some 2 := by
  decide +kernel

end Nobify.Evaluator
