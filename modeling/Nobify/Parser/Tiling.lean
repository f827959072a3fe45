import Nobify.Parser.LexerSpans
import Mathlib.Data.Nat.Find

/-!
# The tokens tile their text

Calling the lexer again and again reaches the end, and every byte on the way is in exactly one
token or in trivia: whitespace, a comment or a line continuation. `Tile` says this of one call,
and `tokens_tile` of every call up to the end.
-/

namespace Nobify.Parser

open Spans
open List

variable {after gap : StringView} {lexer : Lexer}

/-! ## Trivia -/

/-- The opener of a bracket of the given length. -/
def bracketOpener (openLen : Nat) : StringView :=
  '[' :: (List.replicate (openLen - 2) '=' ++ ['['])

/-- Trivia in front of a given text: whitespace, continuations and comments. Only a comment can
depend on the text after it, since a comment may be open at the end of the input. -/
inductive Trivia (after : StringView) : StringView → Prop
  | nil : Trivia after []
  | space {char : Char} {gap : StringView} : isSpace char = true → Trivia after gap →
      Trivia after (char :: gap)
  | continuation {gap : StringView} : Trivia after gap → Trivia after ('\\' :: '\n' :: gap)
  | continuationCrLf {gap : StringView} : Trivia after gap →
      Trivia after ('\\' :: '\r' :: '\n' :: gap)
  | lineComment {body gap : StringView} : '\n' ∉ body →
      getBracketOpenLen (body ++ (gap ++ after)) = 0 →
      gap.head? = some '\n' ∨ gap = [] ∧ after = [] → Trivia after gap →
      Trivia after ('#' :: (body ++ gap))
  | blockComment {openLen : Nat} {body gap : StringView} : 2 ≤ openLen →
      ¬ bracketCloser openLen <:+: body ++ (bracketCloser openLen).dropLast → Trivia after gap →
      Trivia after ('#' :: (bracketOpener openLen ++ (body ++ bracketCloser openLen) ++ gap))
  | openComment {openLen : Nat} {body : StringView} : 2 ≤ openLen →
      ¬ bracketCloser openLen <:+: body → after = [] →
      Trivia after ('#' :: (bracketOpener openLen ++ body))

theorem drop_takeWhile (keep : Char → Bool) (text : StringView) :
    text.drop (text.takeWhile keep).length = text.dropWhile keep := by
  have whole : text.takeWhile keep ++ text.dropWhile keep = text :=
    takeWhile_append_dropWhile
  have cut : (text.takeWhile keep ++ text.dropWhile keep).drop (text.takeWhile keep).length =
      text.dropWhile keep := drop_left
  rwa [whole] at cut

/-- What is found as an opener is one. -/
theorem eq_append_of_opened {rest : StringView} (opened : 0 < getBracketOpenLen rest) :
    rest = bracketOpener (getBracketOpenLen rest) ++ rest.drop (getBracketOpenLen rest) := by
  unfold getBracketOpenLen at opened ⊢
  split at opened
  · rename_i others
    dsimp only at opened ⊢
    rw [drop_takeWhile] at opened ⊢
    by_cases bracket : (others.dropWhile (· == '=')).head? = some '['
    · rw [if_pos bracket]
      have equals : others.takeWhile (· == '=') =
          List.replicate (others.takeWhile (· == '=')).length '=' := by
        rw [eq_replicate_iff]
        refine ⟨rfl, fun char listed => ?_⟩
        have kept := mem_takeWhile_imp listed
        exact beq_iff_eq.mp kept
      obtain ⟨tail, cut⟩ := List.head?_eq_some_iff.mp bracket
      have split : others = others.takeWhile (· == '=') ++ '[' :: tail := by
        rw [← cut, takeWhile_append_dropWhile]
      generalize others.takeWhile (· == '=') = front at equals split
      rw [split, bracketOpener, Nat.add_sub_cancel, ← equals]
      simp
    · rw [if_neg bracket] at opened
      exact absurd opened (Nat.lt_irrefl 0)
  · exact absurd opened (Nat.lt_irrefl 0)

/-! ## The span of the trivia is trivia -/

/-- A line comment, when what comes after the trivia starts no trivia. -/
theorem Trivia.ofLine {others : StringView} (open' : getBracketOpenLen others = 0)
    (split : others.drop (lineSpan others) = gap ++ after) (stops : triviaStep after = 0)
    (trivia : Trivia after gap) : Trivia after ('#' :: (others.take (lineSpan others) ++ gap)) := by
  have body : others.take (lineSpan others) = others.takeWhile (· != '\n') :=
    (List.prefix_iff_eq_take.mp (List.takeWhile_prefix _)).symm
  have later : gap ++ after = others.dropWhile (· != '\n') := by
    rw [← split, lineSpan, drop_takeWhile]
  have whole : others.take (lineSpan others) ++ (gap ++ after) = others := by
    rw [← split, take_append_drop]
  apply Trivia.lineComment
  · intro listed
    rw [body] at listed
    have kept := mem_takeWhile_imp listed
    exact absurd kept (by decide)
  · rw [whole]
    exact open'
  · cases gap with
    | cons char gap =>
      refine Or.inl ?_
      have front := List.head?_dropWhile_not (· != '\n') others
      rw [← later] at front
      have same : char = '\n' := by simpa using front
      rw [same]
      rfl
    | nil =>
      refine Or.inr ⟨rfl, ?_⟩
      cases after with
      | nil => rfl
      | cons char after =>
        have front := List.head?_dropWhile_not (· != '\n') others
        rw [← later] at front
        have same : char = '\n' := by simpa using front
        rw [same, triviaStep_space after (by decide)] at stops
        exact absurd stops Nat.one_ne_zero
  · exact trivia

/-- A block comment, closed or open at the end of the input. -/
theorem Trivia.ofBlock {others : StringView} (opened : 0 < getBracketOpenLen others)
    (split : others.drop (commentSpan others) = gap ++ after) (trivia : Trivia after gap) :
    Trivia after ('#' :: (others.take (commentSpan others) ++ gap)) := by
  have long := two_le_getBracketOpenLen opened
  have whole := eq_append_of_opened opened
  have span : commentSpan others = getBracketOpenLen others +
      untilCloser (bracketCloser (getBracketOpenLen others))
        (others.drop (getBracketOpenLen others)) := by
    rw [commentSpan, if_pos opened]
  have taken : others.take (commentSpan others) = bracketOpener (getBracketOpenLen others) ++
      (others.drop (getBracketOpenLen others)).take
        (untilCloser (bracketCloser (getBracketOpenLen others))
          (others.drop (getBracketOpenLen others))) := by
    have opener : others.take (getBracketOpenLen others) =
        bracketOpener (getBracketOpenLen others) := by
      have both := (take_append_drop (getBracketOpenLen others) others).trans whole
      exact append_cancel_right both
    rw [span, take_add, opener]
  have proper : bracketCloser (getBracketOpenLen others) ≠ [] := cons_ne_nil _ _
  cases untilCloser_spec proper (others.drop (getBracketOpenLen others)) with
  | inl none =>
    have rest : gap ++ after = [] := by
      rw [← split, span, none.2, length_drop]
      exact drop_eq_nil_of_le (by omega)
    obtain ⟨noGap, noAfter⟩ := append_eq_nil_iff.mp rest
    rw [noGap, append_nil, taken, none.2, take_length]
    exact Trivia.openComment long none.1 noAfter
  | inr some =>
    obtain ⟨body, cut, first⟩ := some
    rw [taken, cut]
    exact Trivia.blockComment long first trivia

/-- One turn of the loop over trivia skips trivia. -/
theorem Trivia.step {rest : StringView} (more : triviaStep rest ≠ 0)
    (split : rest.drop (triviaStep rest) = gap ++ after) (stops : triviaStep after = 0)
    (trivia : Trivia after gap) : Trivia after (rest.take (triviaStep rest) ++ gap) := by
  cases rest with
  | nil => exact absurd rfl more
  | cons char others =>
    by_cases space : isSpace char = true
    · rw [triviaStep_space others space]
      exact Trivia.space space trivia
    by_cases comment : char = '#'
    · subst comment
      rw [triviaStep_comment, Nat.add_comm] at split ⊢
      by_cases opened : 0 < getBracketOpenLen others
      · exact Trivia.ofBlock opened split trivia
      · have span : commentSpan others = lineSpan others := by rw [commentSpan, if_neg opened]
        rw [span] at split ⊢
        exact Trivia.ofLine (Nat.eq_zero_of_not_pos opened) split stops trivia
    · rw [triviaStep_other others space comment] at more ⊢
      cases eq_of_continuationLen more with
      | inl feed =>
        obtain ⟨later, front, count⟩ := feed
        rw [count, front]
        exact Trivia.continuation trivia
      | inr feeds =>
        obtain ⟨later, front, count⟩ := feeds
        rw [count, front]
        exact Trivia.continuationCrLf trivia

/-- What the loop over trivia skips is trivia in front of the rest. -/
theorem trivia_triviaSpan (rest : StringView) :
    Trivia (rest.drop (triviaSpan rest)) (rest.take (triviaSpan rest)) := by
  generalize size : rest.length = count
  induction count using Nat.strong_induction_on generalizing rest with
  | _ count ih =>
    have last := triviaStep_drop_triviaSpan rest
    rw [triviaSpan_eq] at last ⊢
    by_cases stops : triviaStep rest = 0
    · rw [if_pos stops]
      exact Trivia.nil
    · rw [if_neg stops] at last ⊢
      rw [← drop_drop] at last ⊢
      rw [take_add]
      have shorter : (rest.drop (triviaStep rest)).length < count := by
        have step := triviaStep_le rest
        rw [length_drop]
        omega
      have later := ih _ shorter _ rfl
      exact Trivia.step stops (take_append_drop _ _).symm last later

/-! ## One call -/

/-- The token of a call is a slice that starts after the trivia and ends where the next call
starts, with the line and the column of its first byte. -/
structure Tile (content : StringView) (before after : Lexer) (token : Token) : Prop where
  nonempty : token.text ≠ []
  slice : token.text = (content.drop before.skipTrivia.cursor).take token.text.length
  ends : before.skipTrivia.cursor + token.text.length = after.cursor
  inside : after.cursor ≤ content.length
  ordered : before.cursor ≤ before.skipTrivia.cursor
  gap : Trivia (content.drop before.skipTrivia.cursor)
    ((content.take before.skipTrivia.cursor).drop before.cursor)
  spaced : token.hasSpaceLeft = true ↔ before.cursor < before.skipTrivia.cursor
  line : token.line = 1 + (content.take before.skipTrivia.cursor).count '\n'
  col : token.col = lineTail (content.take before.skipTrivia.cursor) + 1

variable (placed : Placed lexer)

include placed

theorem cursor_skipTrivia : lexer.skipTrivia.cursor = lexer.cursor + triviaSpan lexer.rest := by
  have span := triviaSpan_le lexer.rest
  have bound := placed.bound
  rw [length_rest] at span
  rw [skipTrivia_eq, cursor_advanceN (by omega)]

/-- What lies between two tokens is trivia. -/
theorem trivia_gap : Trivia (lexer.content.drop lexer.skipTrivia.cursor)
      ((lexer.content.take lexer.skipTrivia.cursor).drop lexer.cursor) := by
  have trivia := trivia_triviaSpan lexer.rest
  rw [cursor_skipTrivia placed, drop_take, Nat.add_sub_cancel_left, ← drop_drop]
  exact trivia

theorem Placed.skipTrivia : Placed lexer.skipTrivia := by
  rw [skipTrivia_eq]
  exact placed.advanceN _

/-- Every call keeps the place of the cursor. -/
theorem Placed.lexerNext : Placed (lexerNext lexer).2 := by
  by_cases done : lexer.skipTrivia.rest = []
  · rw [lexerNext_end done]
    exact placed.skipTrivia
  · rw [lexerNext_visible done]
    exact placed.skipTrivia.advanceN _

omit placed

@[simp] theorem content_skipTrivia (lexer : Lexer) : lexer.skipTrivia.content = lexer.content := by
  rw [skipTrivia_eq, content_advanceN]

@[simp] theorem content_lexerNext (lexer : Lexer) :
    (Parser.lexerNext lexer).2.content = lexer.content := by
  by_cases done : lexer.skipTrivia.rest = []
  · rw [lexerNext_end done, content_skipTrivia]
  · rw [lexerNext_visible done, content_advanceN, content_skipTrivia]

include placed in
/-- Every call that does not return the end returns a tile. -/
theorem tile_lexerNext (visible : (lexerNext lexer).1.kind ≠ .end) :
    Tile lexer.content lexer (lexerNext lexer).2 (lexerNext lexer).1 := by
  have more : lexer.skipTrivia.rest ≠ [] :=
    fun done => visible ((kind_lexerNext_eq_end lexer).mpr done)
  have positive := scan_pos more (triviaStep_skipTrivia lexer)
  have fits := scan_le more
  have start := placed.skipTrivia
  have size := length_rest lexer.skipTrivia
  have cursor := cursor_skipTrivia placed
  have next : (lexer.skipTrivia.advanceN (scan lexer.skipTrivia.rest).2).cursor =
      lexer.skipTrivia.cursor + (scan lexer.skipTrivia.rest).2 := cursor_advanceN (by omega)
  have bound := start.bound
  have lines := start.lines
  have column := start.column
  rw [content_skipTrivia] at size bound lines column
  rw [lexerNext_visible more]
  constructor
  · apply ne_nil_of_length_pos
    rw [length_token _ more]
    exact positive
  · rw [length_token _ more, Lexer.token, Lexer.rest, content_skipTrivia]
  · rw [length_token _ more]
    exact next.symm
  · change (lexer.skipTrivia.advanceN (scan lexer.skipTrivia.rest).2).cursor ≤ _
    omega
  · omega
  · exact trivia_gap placed
  · exact decide_eq_true_iff
  · exact lines
  · change lexer.skipTrivia.cursor - lexer.skipTrivia.bol + 1 = _
    omega

/-! ## Every call up to the end -/

theorem placed_lexerAt (content : StringView) (count : Nat) :
    Placed (lexerAt content count) ∧ (lexerAt content count).content = content := by
  induction count with
  | zero => exact ⟨placed_lexerInit content, rfl⟩
  | succ count ih =>
    refine ⟨ih.1.lexerNext, ?_⟩
    rw [lexerAt, content_lexerNext]
    exact ih.2

/-- Each call before the end reads a byte at least. -/
theorem le_cursor_lexerAt {content : StringView} {count : Nat}
    (visible : ∀ index < count, (tokenAt content index).kind ≠ .end) :
    count ≤ (lexerAt content count).cursor := by
  induction count with
  | zero => exact Nat.zero_le _
  | succ count ih =>
    have before := ih fun index early => visible index (by omega)
    have tile := tile_lexerNext (placed_lexerAt content count).1 (visible count (by omega))
    have some : 0 < (lexerNext (lexerAt content count)).1.text.length :=
      length_pos_of_ne_nil tile.nonempty
    have ends := tile.ends
    have ordered := tile.ordered
    rw [lexerAt]
    omega

/-- Some call returns the end, after no more tokens than there are bytes. -/
theorem exists_end (content : StringView) :
    ∃ count ≤ content.length, (tokenAt content count).kind = .end ∧
      ∀ index < count, (tokenAt content index).kind ≠ .end := by
  have reached : ∃ count, (tokenAt content count).kind = .end := by
    by_contra never
    have visible : ∀ index < content.length + 1, (tokenAt content index).kind ≠ .end :=
      fun index _ ended => never ⟨index, ended⟩
    have far := le_cursor_lexerAt visible
    have bound := (placed_lexerAt content (content.length + 1)).1.bound
    rw [(placed_lexerAt content (content.length + 1)).2] at bound
    omega
  have first : ∀ index < Nat.find reached, (tokenAt content index).kind ≠ .end :=
    fun index early => Nat.find_min reached early
  refine ⟨Nat.find reached, ?_, Nat.find_spec reached, first⟩
  have far := le_cursor_lexerAt first
  have bound := (placed_lexerAt content (Nat.find reached)).1.bound
  rw [(placed_lexerAt content (Nat.find reached)).2] at bound
  omega

/-- Calling the lexer reaches the end, and up to there the tokens are non-empty slices in order
with trivia between them; only trivia is left at the end. -/
theorem tokens_tile (content : StringView) : ∃ count ≤ content.length,
      (∀ index < count, (tokenAt content index).kind ≠ .end ∧
        Tile content (lexerAt content index) (lexerAt content (index + 1))
          (tokenAt content index)) ∧
      (tokenAt content count).kind = .end ∧
      Trivia [] (content.drop (lexerAt content count).cursor) := by
  obtain ⟨count, bound, ended, visible⟩ := exists_end content
  refine ⟨count, bound, fun index early => ⟨visible index early, ?_⟩, ended, ?_⟩
  · have place := placed_lexerAt content index
    have tile := tile_lexerNext place.1 (visible index early)
    rw [place.2] at tile
    exact tile
  · have place := placed_lexerAt content count
    have gap := trivia_gap place.1
    have done : (lexerAt content count).skipTrivia.rest = [] :=
      (kind_lexerNext_eq_end _).mp ended
    rw [Lexer.rest, content_skipTrivia, place.2] at done
    rw [place.2, done, take_of_length_le (drop_eq_nil_iff.mp done)] at gap
    exact gap

end Nobify.Parser
