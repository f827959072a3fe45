import Nobify.Parser.BracketArgs

/-!
# Raw strings

A raw string ends at the first closer of its level behind its opener, and is invalid when there is
none. The lexer looks for the closer in one loop and tests the end of the input again when the
loop ran to it. Both agree: no byte of an opener begins a closer, so what the test finds at the end
of the input lies behind the opener.
-/

namespace Nobify.Parser

open Spans
open List

/-! ## The closer behind the opener -/

variable {openLen : Nat}

theorem mem_bracketOpener {char : Char} (listed : char ∈ bracketOpener openLen) :
    char ≠ ']' := by
  intro bracket
  simp [bracket, bracketOpener, mem_replicate] at listed

/-- A closer at the end of an opener with a text lies in the text. -/
theorem bracketCloser_suffix (long : 2 ≤ openLen) (body : StringView) :
    bracketCloser openLen <:+ bracketOpener openLen ++ body ↔ bracketCloser openLen <:+ body := by
  constructor
  · intro found
    have opened := length_bracketOpener long
    have closed := length_bracketCloser long
    by_cases room : openLen ≤ body.length
    · exact suffix_of_suffix_length_le found (suffix_append _ _) (by omega)
    · have cut := suffix_iff_eq_drop.mp found
      rw [closed, length_append, opened] at cut
      have inside : openLen + body.length - openLen < (bracketOpener openLen).length := by omega
      have front : (bracketOpener openLen)[openLen + body.length - openLen]? = some ']' := by
        rw [← List.getElem?_append_left inside, ← List.head?_drop, ← cut]
        rfl
      exact absurd rfl (mem_bracketOpener (mem_of_getElem? front))
  · exact fun found => found.trans (suffix_append _ _)

/-- What the loop reaches the end of the input with is closed exactly when a closer was found. -/
theorem bracketCloser_suffix_iff {body : StringView}
    (ended : body.length ≤ untilCloser (bracketCloser openLen) body) :
    bracketCloser openLen <:+ body ↔ bracketCloser openLen <:+: body := by
  constructor
  · exact List.IsSuffix.isInfix
  · intro inside
    have proper : bracketCloser openLen ≠ [] := cons_ne_nil _ _
    rcases untilCloser_spec proper body with none | ⟨front, cut, _⟩
    · exact absurd inside none.1
    · rw [take_of_length_le ended] at cut
      rw [cut]
      exact suffix_append _ _

/-- The kind and the length of a raw string. -/
theorem scanRaw_opener (long : 2 ≤ openLen) (body : StringView) :
    scanRaw openLen (bracketOpener openLen ++ body) =
      (if bracketCloser openLen <:+: body then .rawString else .invalid,
        openLen + untilCloser (bracketCloser openLen) body) := by
  have opened := length_bracketOpener long
  have proper : bracketCloser openLen ≠ [] := cons_ne_nil _ _
  have dropped : (bracketOpener openLen ++ body).drop openLen = body := drop_left' opened
  have size : (bracketOpener openLen ++ body).length = openLen + body.length := by
    rw [length_append, opened]
  have bound := untilCloser_le (bracketCloser openLen) body
  have kind : (openLen + body.length ≤ openLen + untilCloser (bracketCloser openLen) body ∧
      ¬ (bracketCloser openLen).isSuffixOf (bracketOpener openLen ++ body) = true) ↔
        ¬ bracketCloser openLen <:+: body := by
    rw [isSuffixOf_iff_suffix, bracketCloser_suffix long]
    constructor
    · intro ⟨ended, open'⟩ inside
      exact open' ((bracketCloser_suffix_iff (by omega)).mpr inside)
    · intro none
      exact ⟨by rw [untilCloser_none none], fun closed => none closed.isInfix⟩
  unfold scanRaw
  dsimp only
  rw [dropped, size]
  by_cases inside : bracketCloser openLen <:+: body
  · rw [if_neg (fun invalid => kind.mp invalid inside), if_pos inside]
  · rw [if_pos (kind.mpr inside), if_neg inside]

/-! ## The token of a raw string -/

/-- A bracket opener is scanned as a raw string. -/
theorem scan_opener (long : 2 ≤ openLen) (body : StringView) :
    scan (bracketOpener openLen ++ body) = scanRaw openLen (bracketOpener openLen ++ body) := by
  have front : peek (bracketOpener openLen ++ body) 0 = '[' := rfl
  unfold scan
  simp only [front, getBracketOpenLen_opener long]
  rw [if_neg (by decide), if_neg (by decide), if_neg (by decide), if_neg (by decide),
    if_pos (by omega)]

/-- Where a bracket opens, the token is a raw string that ends with the first closer of the same
level behind the opener, and without one it is invalid and ends with the input. At the end of the
input the test for a closer holds exactly when the loop found one. -/
theorem lexerNext_bracket {lexer : Lexer} {eqs : Nat} {body : StringView}
    (opens : lexer.skipTrivia.rest = bracketOpener (eqs + 2) ++ body) :
    (∀ position, bracketCloser (eqs + 2) <+: body.drop position →
      (∀ before < position, ¬ bracketCloser (eqs + 2) <+: body.drop before) →
      lexerNext lexer =
        ({ kind := .rawString
           text := bracketOpener (eqs + 2) ++ (body.take position ++ bracketCloser (eqs + 2))
           line := lexer.skipTrivia.line
           col := lexer.skipTrivia.cursor - lexer.skipTrivia.bol + 1
           hasSpaceLeft := decide (lexer.cursor < lexer.skipTrivia.cursor) },
          lexer.skipTrivia.advanceN (eqs + 2 + (position + (eqs + 2))))) ∧
    (¬ bracketCloser (eqs + 2) <:+: body → lexerNext lexer =
        ({ kind := .invalid
           text := bracketOpener (eqs + 2) ++ body
           line := lexer.skipTrivia.line
           col := lexer.skipTrivia.cursor - lexer.skipTrivia.bol + 1
           hasSpaceLeft := decide (lexer.cursor < lexer.skipTrivia.cursor) },
          lexer.skipTrivia.advanceN (eqs + 2 + body.length))) ∧
    (lexer.content.length ≤
        ((lexer.skipTrivia.advanceN (eqs + 2)).skipBracketContent (eqs + 2)).cursor →
      (hasCloser lexer.content (eqs + 2) = true ↔ bracketCloser (eqs + 2) <:+: body)) := by
  have long : 2 ≤ eqs + 2 := Nat.le_add_left 2 eqs
  have opened := length_bracketOpener long
  have closed := length_bracketCloser long
  have more : lexer.skipTrivia.rest ≠ [] := by
    rw [opens]
    exact cons_ne_nil _ _
  have size : lexer.skipTrivia.rest.length = eqs + 2 + body.length := by
    rw [opens, length_append, opened]
  have scanned := scan_opener long body
  rw [scanRaw_opener long] at scanned
  have token := lexerNext_visible more
  rw [opens, scanned] at token
  refine ⟨fun position found first => ?_, fun none => ?_, fun ended => ?_⟩
  · have inside : bracketCloser (eqs + 2) <:+: body :=
      found.isInfix.trans (drop_suffix _ _).isInfix
    have span := untilCloser_first found (cons_ne_nil _ _) first
    rw [closed] at span
    have text : (bracketOpener (eqs + 2) ++ body).take (eqs + 2 + (position + (eqs + 2))) =
        bracketOpener (eqs + 2) ++ (body.take position ++ bracketCloser (eqs + 2)) := by
      have cut := List.prefix_iff_eq_take.mp found
      rw [closed] at cut
      have part : body.take (position + (eqs + 2)) =
          body.take position ++ bracketCloser (eqs + 2) := by
        rw [take_add, ← cut]
      have behind := @take_length_add_append _ (bracketOpener (eqs + 2)) body (position + (eqs + 2))
      rw [opened, part] at behind
      exact behind
    rw [if_pos inside, span] at token
    rw [token, Lexer.token, opens, text]
  · have span := untilCloser_none none
    have text : (bracketOpener (eqs + 2) ++ body).take (eqs + 2 + body.length) =
        bracketOpener (eqs + 2) ++ body := take_of_length_le (by
          rw [length_append, opened])
    rw [if_neg none, span] at token
    rw [token, Lexer.token, opens, text]
  · have same : lexer.skipTrivia.content = lexer.content := by
      rw [skipTrivia_eq, content_advanceN]
    have left := length_rest lexer.skipTrivia
    have moved := untilCloser_le (bracketCloser (eqs + 2)) body
    have inside : (lexer.skipTrivia.advanceN (eqs + 2)).rest = body := by
      rw [rest_advanceN, opens]
      exact drop_left' opened
    rw [Lexer.skipBracketContent, skipBracketLoop_eq long, inside, ← advanceN_add,
      cursor_advanceN (by omega)] at ended
    rw [← same] at ended ⊢
    rw [hasCloser_iff long (by omega), isSuffixOf_iff_suffix, opens,
      bracketCloser_suffix long, bracketCloser_suffix_iff (by omega)]

/-- In `[=[]]=]]=]` the closer is the first one behind the opener, and `[=[=]` has none. -/
theorem lexerNext_bracket_overlap : ((lexerNext (lexerInit (sv "[=[]]=]]=]"))).1.kind,
        (lexerNext (lexerInit (sv "[=[]]=]]=]"))).1.text) = (.rawString, sv "[=[]]=]") ∧
      ((lexerNext (lexerInit (sv "[=[=]"))).1.kind,
        (lexerNext (lexerInit (sv "[=[=]"))).1.text) = (.invalid, sv "[=[=]") := by
  constructor
  · rw [(@lexerNext_bracket (lexerInit (sv "[=[]]=]]=]")) 1 (sv "]]=]]=]") (by decide +kernel)).1
      1 (by decide) (by decide)]
    decide +kernel
  · rw [(@lexerNext_bracket (lexerInit (sv "[=[=]")) 1 (sv "=]") (by decide +kernel)).2.1
      (by decide)]
    decide +kernel

end Nobify.Parser
