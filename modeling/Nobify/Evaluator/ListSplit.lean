import Nobify.Lib.Cuts
import Nobify.Genex.Spans
import Nobify.Evaluator.TargetUsage

/-!
# List items and expressions

`eval_sv_split_semicolon_genex_aware` keeps an expression in one piece by counting brackets: it is
inside when more have been opened than closed. It looks at backslashes only before a semicolon, so
an escaped bracket counts as well, and it does not look ahead, so an opening counts that is never
closed. The evaluator of expressions goes by `gx_find_matching_genex_end`, which does both.
-/

namespace Nobify.Evaluator

open Nobify.Lib Nobify.Genex
open List

variable {char : Char} {before rest : StringView}

/-! ## Counting brackets -/

/-- The number of `$<` in a text, escaped or not. -/
def openings : StringView → Nat
  | [] => 0
  | '$' :: '<' :: rest => openings rest + 1
  | _ :: rest => openings rest

/-- The depth that the splitter has reached behind a text: a closing bracket at depth zero is not
counted. -/
def bracketDepth : Nat → StringView → Nat
  | depth, [] => depth
  | depth, '$' :: '<' :: rest => bracketDepth (depth + 1) rest
  | depth, char :: rest =>
    if char = '>' ∧ 0 < depth then bracketDepth (depth - 1) rest else bracketDepth depth rest

/-- Some stretch that ends right before a position opens more brackets than it closes, whether
escaped or not. -/
def OpenBefore (text : StringView) (position : Nat) : Prop :=
  ∃ stretch, stretch <:+ text.take position ∧ stretch.count '>' < openings stretch

theorem exists_suffix_cons {p : StringView → Prop} {text : StringView} :
    (∃ stretch, stretch <:+ char :: text ∧ p stretch) ↔
      p (char :: text) ∨ ∃ stretch, stretch <:+ text ∧ p stretch := by
  simp only [suffix_cons_iff, or_and_right, exists_or, exists_eq_left]

theorem openings_cons (shape : ∀ after, char = '$' → rest = '<' :: after → False) :
    openings (char :: rest) = openings rest := by
  rw [openings]
  exact shape

/-- The depth is positive when the brackets opened up to here outnumber those closed, over all of
the text with the depth before it or over some stretch at its end. -/
theorem bracketDepth_pos (depth : Nat) (text : StringView) :
    0 < bracketDepth depth text ↔ text.count '>' < depth + openings text ∨
      ∃ stretch, stretch <:+ text ∧ stretch.count '>' < openings stretch := by
  fun_induction bracketDepth depth text with
  | case1 depth => simp [openings]
  | case2 depth rest ih =>
    have whole : openings ('$' :: '<' :: rest) = openings rest + 1 := rfl
    have inner : openings ('<' :: rest) = openings rest := rfl
    have closes : ('<' :: rest).count '>' = rest.count '>' := rfl
    have closesWhole : ('$' :: '<' :: rest).count '>' = rest.count '>' := rfl
    rw [ih, exists_suffix_cons, exists_suffix_cons, whole, inner, closes, closesWhole]
    constructor
    · rintro (above | stretch)
      · exact .inl (by omega)
      · exact .inr (.inr (.inr stretch))
    · rintro (above | above | above | stretch)
      · exact .inl (by omega)
      · exact .inl (by omega)
      · exact .inl (by omega)
      · exact .inr stretch
  | case3 depth char rest shape closing ih =>
    obtain ⟨rfl, deep⟩ := closing
    have opens : openings ('>' :: rest) = openings rest := openings_cons shape
    have closes : ('>' :: rest).count '>' = rest.count '>' + 1 := count_cons_self
    rw [ih, exists_suffix_cons, opens, closes]
    constructor
    · rintro (above | stretch)
      · exact .inl (by omega)
      · exact .inr (.inr stretch)
    · rintro (above | above | stretch)
      · exact .inl (by omega)
      · exact .inl (by omega)
      · exact .inr stretch
  | case4 depth char rest shape closing ih =>
    have opens : openings (char :: rest) = openings rest := openings_cons shape
    rw [ih, exists_suffix_cons, opens]
    by_cases bracket : char = '>'
    · have ground : depth = 0 := by
        have shallow : ¬0 < depth := fun deep => closing ⟨bracket, deep⟩
        omega
      have closes : (char :: rest).count '>' = rest.count '>' + 1 := by
        rw [bracket]
        exact count_cons_self
      rw [closes, ground]
      constructor
      · rintro (above | stretch)
        · -- At depth zero the text behind the bracket is a stretch of its own.
          exact .inr (.inr ⟨rest, suffix_refl rest, by omega⟩)
        · exact .inr (.inr stretch)
      · rintro (above | above | stretch)
        · exact .inl (by omega)
        · exact .inl (by omega)
        · exact .inr stretch
    · have closes : (char :: rest).count '>' = rest.count '>' :=
        count_cons_of_ne bracket
      rw [closes]
      constructor
      · rintro (above | stretch)
        · exact .inl above
        · exact .inr (.inr stretch)
      · rintro (above | above | stretch)
        · exact .inl above
        · exact .inl (by omega)
        · exact .inr stretch

theorem openBefore_iff {text : StringView} {position : Nat} :
    OpenBefore text position ↔ bracketDepth 0 (text.take position) ≠ 0 := by
  have depth := bracketDepth_pos 0 (text.take position)
  unfold OpenBefore
  constructor
  · intro stretch
    exact Nat.pos_iff_ne_zero.mp (depth.mpr (.inr stretch))
  · intro deep
    rcases depth.mp (Nat.pos_of_ne_zero deep) with above | stretch
    · exact ⟨text.take position, suffix_refl _, by omega⟩
    · exact stretch

/-! ## The splitter -/

/-- The semicolons at which the splitter cuts: unescaped, and at depth zero. -/
def splitsAt (text : StringView) (position : Nat) : Bool :=
  isUnescapedCharAt text position ';' && bracketDepth 0 (text.take position) == 0

/-- Nothing but a semicolon is cut out. -/
theorem splitsAt_of_ne (other : char ≠ ';') :
    splitsAt (before ++ char :: rest) before.length = false := by
  have here : (before ++ char :: rest)[before.length]? = some char := by simp
  have none : isUnescapedCharAt (before ++ char :: rest) before.length ';' = false := by
    rw [Bool.eq_false_iff]
    intro found
    have same := (isUnescapedCharAt_iff.mp found).1
    exact other (Option.some.inj (here.symm.trans same))
  rw [splitsAt, none, Bool.false_and]

theorem splitsAt_semicolon :
    splitsAt (before ++ ';' :: rest) before.length = true ↔
      bracketDepth 0 before = 0 ∧ oddBackslashes before = false := by
  have here : (before ++ ';' :: rest)[before.length]? = some ';' := by simp
  rw [splitsAt, Bool.and_eq_true, isUnescapedCharAt_iff, take_left', beq_iff_eq]
  · exact ⟨fun found => ⟨found.2, found.1.2⟩, fun found => ⟨⟨here, found.2⟩, found.1⟩⟩
  · rfl

/-- The splitter behind a part of a text cuts where `splitsAt` says. -/
theorem splitSemicolonGo_eq {depth : Nat} {escaped : Bool} {piece : StringView}
    (escapes : oddBackslashes before = escaped)
    (depths : ∀ count, bracketDepth 0 (before ++ rest.take count) = bracketDepth depth (rest.take count)) :
    splitSemicolonGo depth escaped piece rest =
      piecesFrom (splitsAt (before ++ rest)) before.length piece rest := by
  -- What one character that is kept does to the text before and to the positions.
  have kept : ∀ {before rest : StringView} {char : Char} {piece : StringView},
      splitsAt (before ++ char :: rest) before.length = false →
      piecesFrom (splitsAt (before ++ char :: rest)) before.length piece (char :: rest) =
        piecesFrom (splitsAt (before ++ [char] ++ rest)) (before ++ [char]).length
          (piece ++ [char]) rest := by
    intro before rest char piece none
    rw [piecesFrom, none, if_neg (by decide), append_assoc, singleton_append,
      length_append, length_singleton]
  fun_induction splitSemicolonGo depth escaped piece rest generalizing before with
  | case1 => rw [piecesFrom, if_pos rfl]
  | case2 depth escaped piece filled => rw [piecesFrom, if_neg filled]
  | case3 depth escaped piece rest ih =>
    rw [kept (splitsAt_of_ne (by decide)), kept (splitsAt_of_ne (by decide)),
      @ih (before ++ ['$'] ++ ['<'])]
    · rw [append_assoc, append_assoc piece]
      rfl
    · rw [oddBackslashes_append]
      rfl
    · intro count
      have shifted := depths (count + 2)
      simpa [bracketDepth] using shifted
  | case4 depth escaped piece char rest shape closing ih =>
    obtain ⟨rfl, deep⟩ := closing
    rw [kept (splitsAt_of_ne (by decide)), ih]
    · rw [oddBackslashes_append]
      rfl
    · intro count
      have shifted := depths (count + 1)
      rw [take_succ_cons, bracketDepth, if_pos ⟨rfl, deep⟩] at shifted
      · rw [← shifted]
        simp
      · intro after same
        cases same
  | case5 depth escaped piece char rest shape closing separator ih =>
    obtain ⟨rfl, ground, unescaped⟩ := separator
    have here := depths 0
    have cut : splitsAt (before ++ ';' :: rest) before.length = true :=
      (splitsAt_semicolon).mpr
        ⟨by simpa [bracketDepth, ground] using here, by rw [escapes, unescaped]⟩
    rw [piecesFrom, cut, if_pos rfl, @ih (before ++ [';'])]
    · simp
    · rw [oddBackslashes_append]
      rfl
    · intro count
      have shifted := depths (count + 1)
      rw [take_succ_cons, bracketDepth, if_neg closing] at shifted
      · rw [← shifted]
        simp
      · intro after same
        cases same
  | case6 depth escaped piece char rest shape closing separator ih =>
    have here := depths 0
    have none : splitsAt (before ++ char :: rest) before.length = false := by
      by_cases semicolon : char = ';'
      · subst semicolon
        rw [Bool.eq_false_iff]
        intro found
        obtain ⟨ground, unescaped⟩ := (splitsAt_semicolon).mp found
        have flat : depth = 0 := by simpa [bracketDepth, ground] using here.symm
        exact separator ⟨rfl, flat, by rw [← escapes, unescaped]⟩
      · exact splitsAt_of_ne semicolon
    rw [kept none, ih]
    · rw [oddBackslashes_append, escapes]
    · intro count
      have shifted := depths (count + 1)
      rw [take_succ_cons, bracketDepth, if_neg closing] at shifted
      · rw [← shifted]
        simp
      · intro after same cut
        have next : ∃ rest', rest = '<' :: rest' := by
          cases rest with
          | nil => simp at cut
          | cons first rest =>
            cases count with
            | zero => cases cut
            | succ count =>
              rw [take_succ_cons, List.cons.injEq] at cut
              exact ⟨rest, by rw [cut.1]⟩
        obtain ⟨rest', same'⟩ := next
        exact shape rest' same same'

/-- The splitter cuts at unescaped semicolons at which it has counted no open bracket. -/
theorem splitSemicolonGenexAware_eq (text : StringView) :
    splitSemicolonGenexAware text = piecesAt (splitsAt text) text :=
  @splitSemicolonGo_eq [] text 0 false [] rfl fun _ => rfl

/-- The items that a splitter makes that goes by the spans. -/
def splitOutsideSpans (text : StringView) : List StringView :=
  piecesAt (fun position => isUnescapedCharAt text position ';' && !inSpan text position) text

/-- The splitter makes the items that the evaluator of expressions would see when at each
unescaped semicolon the count of brackets says the same as the spans. -/
theorem splitSemicolonGenexAware_spans_iff (text : StringView) :
    splitSemicolonGenexAware text = splitOutsideSpans text ↔
      ∀ position, isUnescapedCharAt text position ';' = true →
        (inSpan text position = true ↔ OpenBefore text position) := by
  rw [splitSemicolonGenexAware_eq, splitOutsideSpans, piecesAt_inj]
  constructor
  · intro same position semicolon
    have inside := (List.getElem?_eq_some_iff.mp (isUnescapedCharAt_iff.mp semicolon).1).1
    have here := same position inside
    rw [splitsAt, semicolon, Bool.true_and, Bool.true_and] at here
    rw [openBefore_iff]
    cases span : inSpan text position with
    | true => simpa [span] using here
    | false => simpa [span] using here
  · intro agree position inside
    cases semicolon : isUnescapedCharAt text position ';' with
    | false => rw [splitsAt, semicolon, Bool.false_and, Bool.false_and]
    | true =>
      have here := agree position semicolon
      rw [openBefore_iff] at here
      rw [splitsAt, semicolon, Bool.true_and, Bool.true_and]
      cases span : inSpan text position with
      | true => simpa [span] using here
      | false => simpa [span] using here

/-- The semicolon behind an escaped opening is outside of all spans, and is not cut out. -/
theorem splitSemicolonGenexAware_escapedOpening :
    ¬∀ text, splitSemicolonGenexAware text = splitOutsideSpans text := by
  intro agree
  have here := agree (sv "\\$<a;b>")
  exact absurd here (by decide)

end Nobify.Evaluator
