import Nobify.Evaluator.CallScript
import Nobify.Parser.QuotedArgs

/-!
# The text of a quoted argument

A quoted argument is read in three passes. The first takes the backslashes away that were written
for the quotes, keeps those of the dollar signs and marks the backslashes that stand right before
one; the expansion turns the escaped dollar signs into marks and these into dollar signs; and the
last puts the marked backslashes back. A text that holds none of the marks comes out as it was.
-/

namespace Nobify.Evaluator

open Nobify.Parser Prog
open List Option

variable (count : Nat) (text rest : StringView)

/-! ## The first pass -/

/-- A dollar sign stands behind the backslashes at the front. -/
def beforeDollar (text : StringView) : Bool := (text.dropWhile (· == '\\')).head? == some '$'

/-- What the first pass leaves of a text as it was written. -/
def markedText : StringView → StringView
  | [] => []
  | char :: rest =>
    if char = '$' then '\\' :: '$' :: markedText rest
    else if char = '\\' ∧ beforeDollar rest = true then literalBsSentinel :: markedText rest
    else char :: markedText rest

theorem unescapeGo_skip (skip : Nat) (text : StringView) :
    unescapeGo skip text = unescapeGo 0 (text.drop skip) := by
  induction skip generalizing text with
  | zero => rfl
  | succ skip ih =>
    cases text with
    | nil => rfl
    | cons char rest =>
      rw [unescapeGo, drop_succ_cons]
      exact ih rest

/-- Behind the backslashes at the front stands the same as in the text that was written. -/
theorem head?_escapeQuoted :
    ((escapeQuoted text).dropWhile (· == '\\')).head? = (text.dropWhile (· == '\\')).head? := by
  induction text with
  | nil => rfl
  | cons char rest ih =>
    by_cases backslash : char = '\\'
    · rw [backslash, escapeQuoted_special (by decide)]
      exact ih
    · have stops : ¬ (char == '\\') = true := fun same => backslash (beq_iff_eq.mp same)
      rw [dropWhile_cons, if_neg stops]
      by_cases special : needsBackslash char = true
      · rw [escapeQuoted_special special, dropWhile_cons, if_pos (by decide),
          dropWhile_cons, if_neg stops]
        rfl
      · rw [escapeQuoted_plain special, dropWhile_cons, if_neg stops]
        rfl

theorem beforeDollar_escapeQuoted : beforeDollar (escapeQuoted text) = beforeDollar text := by
  unfold beforeDollar
  rw [head?_escapeQuoted]

/-- What stands behind the backslashes at the front. -/
theorem drop_backslashes :
    text.drop ((text.takeWhile (· == '\\')).length + 1 - 1) = text.dropWhile (· == '\\') := by
  have whole : text.takeWhile (· == '\\') ++ text.dropWhile (· == '\\') = text :=
    takeWhile_append_dropWhile
  rw [Nat.add_sub_cancel]
  conv_lhs => rw [← whole]
  exact drop_left' (by rw [whole])

/-- A backslash and the byte that was written for it. -/
theorem unescapeGo_pair {char : Char} (special : needsBackslash char = true) (dollar : char ≠ '$')
    {rest : StringView} (other : beforeDollar (char :: rest) = false) :
    unescapeGo 0 ('\\' :: char :: rest) = char :: unescapeGo 0 rest := by
  have behind : ¬ ((char :: rest).drop
      (((char :: rest).takeWhile (· == '\\')).length + 1 - 1)).head? = some '$' := by
    rw [drop_backslashes]
    exact fun same => Bool.false_ne_true (other.symm.trans (beq_iff_eq.mpr same))
  rw [unescapeGo, if_neg behind]
  unfold needsBackslash at special
  simp only [Bool.or_eq_true, beq_iff_eq] at special
  rcases special with (same | same) | same
  · rw [same]
    rfl
  · rw [same]
    rfl
  · exact absurd same dollar

/-- Backslashes before a dollar sign. -/
theorem unescapeGo_dollar : unescapeGo 0 (List.replicate (2 * count + 1) '\\' ++ '$' :: rest) =
      List.replicate count literalBsSentinel ++ '\\' :: '$' :: unescapeGo 0 rest := by
  have front : (List.replicate (2 * count) '\\' ++ '$' :: rest).takeWhile (· == '\\') =
      List.replicate (2 * count) '\\' := by
    rw [takeWhile_append_of_pos fun char listed => ?_]
    · rw [takeWhile_cons, if_neg (by decide), append_nil]
    · rw [eq_of_mem_replicate listed]
      rfl
  have size : (List.replicate (2 * count) '\\').length = 2 * count := length_replicate
  have behind : (List.replicate (2 * count) '\\' ++ '$' :: rest).drop (2 * count) = '$' :: rest :=
    drop_left' size
  have half : (2 * count + 1) / 2 = count := by omega
  have odd : (2 * count + 1) % 2 = 1 := by omega
  have all : (List.replicate (2 * count) '\\' ++ '$' :: rest).drop (2 * count + 1) = rest := by
    rw [← drop_drop, behind]
    rfl
  rw [replicate_succ, cons_append, unescapeGo]
  rw [front, size, Nat.add_sub_cancel, behind, if_pos List.head?_cons, half, if_pos odd, unescapeGo_skip, all]
  rfl

/-- Where a dollar sign stands behind the backslashes at the front, how many there are. -/
theorem beforeDollar_shape {text : StringView} (dollar : beforeDollar text = true) :
    ∃ count rest, text = List.replicate count '\\' ++ '$' :: rest := by
  have front : (text.dropWhile (· == '\\')).head? = some '$' := beq_iff_eq.mp dollar
  obtain ⟨rest, behind⟩ := List.head?_eq_some_iff.mp front
  have only : ∀ char ∈ text.takeWhile (· == '\\'), char = '\\' := by
    intro char listed
    have same := mem_takeWhile_imp listed
    exact beq_iff_eq.mp same
  refine ⟨(text.takeWhile (· == '\\')).length, rest, ?_⟩
  rw [← eq_replicate_of_mem only, ← behind]
  exact takeWhile_append_dropWhile.symm

theorem escapeQuoted_dollar : escapeQuoted (List.replicate count '\\' ++ '$' :: rest) =
      List.replicate (2 * count + 1) '\\' ++ '$' :: escapeQuoted rest := by
  induction count with
  | zero => exact escapeQuoted_special (by decide) rest
  | succ count ih =>
    have more : 2 * (count + 1) + 1 = 2 * count + 1 + 1 + 1 := by omega
    rw [replicate_succ, cons_append, escapeQuoted_special (by decide), ih, more]
    rfl

theorem markedText_dollar : markedText (List.replicate count '\\' ++ '$' :: rest) =
      List.replicate count literalBsSentinel ++ '\\' :: '$' :: markedText rest := by
  induction count with
  | zero => rfl
  | succ count ih =>
    have dollar : beforeDollar (List.replicate count '\\' ++ '$' :: rest) = true := by
      unfold beforeDollar
      rw [dropWhile_append_of_pos fun char listed => ?_]
      · rfl
      · rw [eq_of_mem_replicate listed]
        rfl
    rw [replicate_succ, cons_append, markedText, if_neg (by decide), if_pos ⟨rfl, dollar⟩, ih]
    rfl

/-- The first pass keeps a text, with the backslashes before dollar signs marked. -/
theorem unescapeGo_escapeQuoted : unescapeGo 0 (escapeQuoted text) = markedText text := by
  induction size : text.length using Nat.strong_induction_on generalizing text with
  | h length ih =>
    by_cases dollar : beforeDollar text = true
    · obtain ⟨count, rest, shape⟩ := beforeDollar_shape dollar
      have shorter : rest.length < length := by
        rw [← size, shape, length_append, length_cons]
        omega
      rw [shape, escapeQuoted_dollar, unescapeGo_dollar, markedText_dollar,
        ih rest.length shorter rest rfl]
    · cases text with
      | nil => rfl
      | cons char rest =>
        have shorter : rest.length < length := by
          rw [← size, length_cons]
          omega
        have later := ih rest.length shorter rest rfl
        have plain : char ≠ '$' := by
          intro same
          rw [same] at dollar
          exact dollar rfl
        have apart : ¬ (char = '\\' ∧ beforeDollar rest = true) := by
          rintro ⟨same, found⟩
          rw [same] at dollar
          exact dollar found
        rw [markedText, if_neg plain, if_neg apart]
        by_cases special : needsBackslash char = true
        · have other : beforeDollar (char :: escapeQuoted rest) = false := by
            by_cases backslash : char = '\\'
            · rw [backslash]
              show beforeDollar (escapeQuoted rest) = false
              rw [beforeDollar_escapeQuoted]
              exact Bool.eq_false_iff.mpr fun found => apart ⟨backslash, found⟩
            · unfold beforeDollar
              rw [dropWhile_cons, if_neg fun same => backslash (beq_iff_eq.mp same)]
              exact beq_eq_false_iff_ne.mpr fun same => plain (some.inj same)
          rw [escapeQuoted_special special, unescapeGo_pair special plain other, later]
        · have shown : char ≠ '\\' := ne_of_plain special (by decide)
          rw [escapeQuoted_plain special, ← later]
          exact unescapeGo.eq_4 _ _ shown

/-- The quotes at the ends are taken away. -/
theorem processQuotedLiteral_quotedText :
    processQuotedLiteral (quotedText text) = markedText text := by
  have size : 2 ≤ (quotedText text).length := by
    rw [quotedText, length_cons, length_append, length_singleton]
    omega
  have last : (quotedText text).getLast? = some '"' := by
    rw [quotedText, ← cons_append]
    exact List.getLast?_concat
  have inside : ((quotedText text).drop 1).dropLast = escapeQuoted text := by
    rw [quotedText, drop_one, tail_cons]
    exact dropLast_concat
  rw [processQuotedLiteral, stripQuotes, if_pos ⟨size, rfl, last⟩, inside, unescapeGo_escapeQuoted]

/-! ## The other passes -/

/-- What the expansion makes of the marked text, before the marks are taken back. -/
def shownText : StringView → StringView
  | [] => []
  | char :: rest =>
    if char = '$' then escapedDollarSentinel :: shownText rest
    else if char = '\\' ∧ beforeDollar rest = true then literalBsSentinel :: shownText rest
    else char :: shownText rest

/-- The marked text does not start with a dollar sign. -/
theorem head?_markedText : (markedText text).head? ≠ some '$' := by
  cases text with
  | nil =>
    intro same
    cases same
  | cons char rest =>
    have other : ∀ {first : Char} {after : StringView}, first ≠ '$' →
        (first :: after).head? ≠ some '$' := fun plain same => plain (some.inj same)
    rw [markedText]
    by_cases dollar : char = '$'
    · rw [if_pos dollar]
      exact other (by decide)
    · rw [if_neg dollar]
      by_cases marked : char = '\\' ∧ beforeDollar rest = true
      · rw [if_pos marked]
        exact other (by decide)
      · rw [if_neg marked]
        exact other dollar

/-- The marked text holds no reference. -/
theorem expandPieces_markedText :
    (expandPieces 0 (markedText text)).map ExpandPiece.char? = (shownText text).map some := by
  induction text with
  | nil => rfl
  | cons char rest ih =>
    have single : ∀ other : Char, other ≠ '$' →
        (expandPieces 0 (other :: markedText rest)).map ExpandPiece.char? =
          some other :: (shownText rest).map some := by
      intro other plain
      have here : pieceAt other (markedText rest) = (.plain other, 0) := by
        unfold pieceAt
        rw [if_neg fun found => head?_markedText rest found.2, if_neg fun found => plain found.1,
          if_neg fun found => plain found.1]
      rw [expandPieces, here, map_cons, ih]
      rfl
    rw [markedText, shownText]
    by_cases dollar : char = '$'
    · rw [if_pos dollar, if_pos dollar]
      show some escapedDollarSentinel :: (expandPieces 0 (markedText rest)).map _ = _
      rw [ih]
      rfl
    · rw [if_neg dollar, if_neg dollar]
      by_cases marked : char = '\\' ∧ beforeDollar rest = true
      · rw [if_pos marked, if_pos marked]
        exact single literalBsSentinel (by decide)
      · rw [if_neg marked, if_neg marked]
        exact single char dollar

/-- A text that holds no NUL and none of the marks. -/
structure Markless (text : StringView) : Prop where
  nul : '\x00' ∉ text
  literalBs : literalBsSentinel ∉ text
  escapedDollar : escapedDollarSentinel ∉ text

theorem Markless.tail {char : Char} {rest : StringView} (markless : Markless (char :: rest)) :
    Markless rest :=
  ⟨fun listed => markless.nul (mem_cons_of_mem char listed),
    fun listed => markless.literalBs (mem_cons_of_mem char listed),
    fun listed => markless.escapedDollar (mem_cons_of_mem char listed)⟩

theorem nul_not_mem_shownText {text : StringView} (markless : Markless text) :
    '\x00' ∉ shownText text := by
  induction text with
  | nil => exact not_mem_nil
  | cons char rest ih =>
    have later := ih markless.tail
    rw [shownText]
    by_cases dollar : char = '$'
    · rw [if_pos dollar, mem_cons, not_or]
      exact ⟨by decide, later⟩
    · rw [if_neg dollar]
      by_cases marked : char = '\\' ∧ beforeDollar rest = true
      · rw [if_pos marked, mem_cons, not_or]
        exact ⟨by decide, later⟩
      · rw [if_neg marked, mem_cons, not_or]
        exact ⟨fun same => markless.nul (by rw [same]; exact mem_cons_self), later⟩

/-- Taking the marks back gives the text. -/
theorem restore_shownText {text : StringView} (markless : Markless text) :
    restoreLiteralBs (restoreEscapedDollar (shownText text)) = text := by
  induction text with
  | nil => rfl
  | cons char rest ih =>
    have later := ih markless.tail
    have step : ∀ other : Char, restoreLiteralBs (restoreEscapedDollar (other :: shownText rest)) =
          restoreLiteralBs (restoreEscapedDollar [other]) ++ rest := by
      intro other
      conv_rhs => rw [← later]
      rfl
    rw [shownText]
    by_cases dollar : char = '$'
    · rw [if_pos dollar, step, dollar]
      rfl
    · rw [if_neg dollar]
      by_cases marked : char = '\\' ∧ beforeDollar rest = true
      · rw [if_pos marked, step, marked.1]
        rfl
      · have plain : restoreLiteralBs (restoreEscapedDollar [char]) = [char] := by
          have first : char ≠ escapedDollarSentinel := fun same =>
            markless.escapedDollar (by rw [same]; exact mem_cons_self)
          have second : char ≠ literalBsSentinel := fun same =>
            markless.literalBs (by rw [same]; exact mem_cons_self)
          rw [restoreEscapedDollar, map_singleton, if_neg first, restoreLiteralBs,
            map_singleton, if_neg second]
        rw [if_neg marked, step, plain]
        rfl

/-! ## Quoted arguments of a call -/

/-- A quoted argument resolves to the text that was written, in every running context. -/
theorem exec_quotedText (host : Host)
    (dispatch : Nat → Nat → StringView → List Arg → EvalExecContext → Option (Run EvalResult))
    {ctx : EvalExecContext} (running : ctx.shouldStop = false) {text : StringView}
    (markless : Markless text) :
    (resolveArg host true true ⟨.quoted, [quotedText text]⟩).exec dispatch ctx =
      some ⟨[text], ctx, []⟩ := by
  have flat : [quotedText text].flatten = quotedText text := flatten_singleton
  have shown : sbBuild (markedText text) (shownText text) = shownText text :=
    sbBuild_eq_self fun _ => nul_not_mem_shownText markless
  have expanded := exec_expandVars_local host dispatch running (expandPieces_markedText text)
  rw [shown] at expanded
  have resolved := exec_bind_pure dispatch (fun text => [restoreLiteralBs text]) expanded
  dsimp only at resolved
  rw [restore_shownText markless] at resolved
  show ((expandVars host (processQuotedLiteral [quotedText text].flatten)) >>= _).exec dispatch ctx
    = _
  rw [flat, processQuotedLiteral_quotedText]
  exact resolved

/-- Texts that hold no NUL and none of the marks come back as they were when they are written as
quoted arguments of a call, lexed, parsed and resolved. -/
theorem quotedText_roundTrip {limits : Limits} {name : StringView}
    (blocks : 0 < limits.maxBlockDepth) (named : isValidCommandName name = true)
    (free : ∀ word ∈ blockKeywords, svEqCi name word = false) {texts : List StringView}
    (markless : ∀ text ∈ texts, Markless text) (host : Host)
    (dispatch : Nat → Nat → StringView → List Arg → EvalExecContext → Option (Run EvalResult))
    {ctx : EvalExecContext} (running : ctx.shouldStop = false) :
    resolveInline limits host dispatch ctx (quotedCall name texts) name = some texts := by
  obtain ⟨line, col, parsed, script, shape⟩ := parseTokens_quotedCall blocks named free texts
  have args : parsed.map argOf = texts.map fun text => ⟨.quoted, [quotedText text]⟩ := by
    have each := congrArg (List.map fun pair : Parser.ArgKind × List StringView =>
      (⟨argKindOf pair.1, pair.2⟩ : Arg)) shape
    rw [List.map_map, List.map_map] at each
    exact each
  have resolves : List.Forall₂ (fun arg text =>
      (resolveArg host true true arg).exec dispatch ctx = some ⟨[text], ctx, []⟩)
      (texts.map fun text => ⟨.quoted, [quotedText text]⟩) texts := by
    rw [List.forall₂_map_left_iff, List.forall₂_same]
    exact fun text listed => exec_quotedText host dispatch running (markless text listed)
  rw [resolveInline, flowParseInlineScript, script]
  dsimp only
  rw [if_pos rfl, args, exec_resolveArgs_local host dispatch running resolves]
  rfl

/-- Backslashes before a dollar sign and before a quote. -/
theorem quotedText_roundTrip_backslashes : resolveInline {} bareHost noCommands freshContext
        (quotedCall (sv "message") [sv "a\\\\$\x7bX\x7d\\\"\\$", []]) (sv "message") =
      some [sv "a\\\\$\x7bX\x7d\\\"\\$", []] := by
  refine quotedText_roundTrip (by decide) (by decide) (by decide) (fun text listed => ?_) bareHost
    noCommands (by decide)
  rcases mem_cons.mp listed with same | later
  · rw [same]
    exact ⟨by decide, by decide, by decide⟩
  · rw [mem_singleton.mp later]
    exact ⟨not_mem_nil, not_mem_nil, not_mem_nil⟩

end Nobify.Evaluator
