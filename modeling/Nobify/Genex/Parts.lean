import Mathlib.Data.List.Infix
import Nobify.Genex.Parse

/-!
# Parts of a text

What the scanners of `genex_parse.c` cut out of a text stands in the text in one piece: an argument,
the operator of a body and what follows its colon, and an expression from its opening to the bracket
that closes it.
-/

namespace Nobify.Genex

open BuildModel (splitTopLevel splitTopLevelGo)
open List

variable {escaped : Bool} {depth : Nat} {piece text : StringView}

/-- A text lies between the blanks that are trimmed off. -/
theorem svTrim_between (text : StringView) : ∃ before after, text = before ++ svTrim text ++ after ∧
      (∀ char ∈ before, isSpace char = true) ∧ ∀ char ∈ after, isSpace char = true := by
  let front := text.dropWhile isSpace
  let back := front.reverse.dropWhile isSpace
  have left : text.takeWhile isSpace ++ front = text := takeWhile_append_dropWhile
  have right : front.reverse.takeWhile isSpace ++ back = front.reverse :=
    takeWhile_append_dropWhile
  have whole : front = back.reverse ++ (front.reverse.takeWhile isSpace).reverse := by
    rw [← reverse_append, right, reverse_reverse]
  refine ⟨text.takeWhile isSpace, (front.reverse.takeWhile isSpace).reverse, ?_, ?_, ?_⟩
  · rw [append_assoc]
    change text = _ ++ (back.reverse ++ _)
    rw [← whole, left]
  · exact fun char listed => mem_takeWhile_imp listed
  · exact fun char listed => mem_takeWhile_imp (mem_reverse.mp listed)

theorem infix_svTrim (text : StringView) : svTrim text <:+: text := by
  obtain ⟨before, after, whole, -, -⟩ := svTrim_between text
  exact ⟨before, after, whole.symm⟩

/-! ## Arguments -/

variable {delimiter : Char} {part : StringView}

theorem infix_of_mem_splitTopLevelGo
    (split : part ∈ splitTopLevelGo delimiter escaped depth piece text) :
    part <:+: piece ++ text := by
  fun_induction splitTopLevelGo delimiter escaped depth piece text with
  | case1 escaped depth piece =>
    rw [mem_singleton.mp split, append_nil]
    exact infix_svTrim piece
  | case2 depth piece rest ih =>
    have inner := ih split
    rwa [append_assoc] at inner
  | case3 escaped depth piece rest unescaped ih =>
    have inner := ih split
    rwa [append_assoc] at inner
  | case4 escaped depth piece char rest shape closing ih =>
    have inner := ih split
    rwa [append_assoc] at inner
  | case5 escaped depth piece char rest shape closing ends ih =>
    rcases mem_cons.mp split with rfl | later
    · exact (infix_svTrim piece).trans (List.prefix_append piece _).isInfix
    · have behind : part <:+: rest := ih later
      exact behind.trans ((suffix_cons char rest).trans (suffix_append piece _)).isInfix
  | case6 escaped depth piece char rest shape closing ends ih =>
    have inner := ih split
    rwa [append_assoc] at inner

theorem infix_of_mem_splitTopLevel (split : part ∈ splitTopLevel delimiter text) : part <:+: text :=
  infix_of_mem_splitTopLevelGo split

/-! ## Operators -/

theorem topLevelColonGo_eq {op args : StringView}
    (colon : topLevelColonGo escaped depth piece text = some (op, args)) :
    piece ++ text = op ++ ':' :: args := by
  fun_induction topLevelColonGo escaped depth piece text with
  | case1 => cases colon
  | case2 escaped depth piece rest ih =>
    have inner := ih colon
    rwa [append_assoc] at inner
  | case3 escaped depth piece char rest shape closing ih =>
    have inner := ih colon
    rwa [append_assoc] at inner
  | case4 escaped depth piece char rest shape closing ends =>
    cases colon
    rw [ends.1]
  | case5 escaped depth piece char rest shape closing ends ih =>
    have inner := ih colon
    rwa [append_assoc] at inner

/-- A body is an operator, or an operator and its arguments with a colon between them. -/
theorem splitOperator_cases (body : StringView) :
    (∃ op args, body = op ++ ':' :: args ∧ splitOperator body = (svTrim op, args)) ∨
      splitOperator body = (svTrim body, []) := by
  unfold splitOperator
  cases colon : topLevelColonGo false 0 [] body with
  | none => exact .inr rfl
  | some parts => exact .inl ⟨parts.1, parts.2, topLevelColonGo_eq colon, rfl⟩

theorem splitOperator_parts (body : StringView) :
    (splitOperator body).1 <:+: body ∧ (splitOperator body).2 <:+: body := by
  rcases splitOperator_cases body with ⟨op, args, whole, parts⟩ | parts
  · rw [parts, whole]
    refine ⟨(infix_svTrim op).trans (List.prefix_append op _).isInfix, ?_⟩
    exact ((suffix_cons ':' args).trans (suffix_append op _)).isInfix
  · rw [parts]
    exact ⟨infix_svTrim body, List.nil_infix⟩

/-! ## Expressions -/

/-- A text that contains an expression contains an opening. -/
theorem opening_of_containsGenexGo (contains : containsGenexGo escaped text = true) :
    ['$', '<'] <:+: text := by
  fun_induction containsGenexGo escaped text with
  | case1 => cases contains
  | case2 escaped rest => exact ⟨[], rest, rfl⟩
  | case3 escaped char rest shape ih => exact (ih contains).trans (suffix_cons char rest).isInfix

/-- From inside of an expression, a scan reads on to the bracket that closes it, if there is one. -/
theorem segmentsGo_inside {opened : StringView} (deep : 0 < depth) :
    segmentsGo escaped depth piece opened text = [.unclosed opened] ∨ ∃ body rest,
      text = body ++ '>' :: rest ∧ segmentsGo escaped depth piece opened text =
        .expression (piece ++ body) :: segmentsGo false 0 [] [] rest := by
  fun_induction segmentsGo escaped depth piece opened text with
  | case1 => omega
  | case2 => exact .inl rfl
  | case3 depth piece opened rest ih =>
    refine (ih deep).imp_right fun ⟨body, after, same, found⟩ => ?_
    exact ⟨'$' :: '<' :: body, after, by rw [same]; rfl, by rw [found, append_assoc]; rfl⟩
  | case4 => omega
  | case5 escaped depth piece opened rest unescaped outer ih =>
    refine (ih (by omega)).imp_right fun ⟨body, after, same, found⟩ => ?_
    exact ⟨'$' :: '<' :: body, after, by rw [same]; rfl, by rw [found, append_assoc]; rfl⟩
  | case6 escaped piece opened char rest shape closing ih =>
    exact .inr ⟨[], rest, by rw [closing.1]; rfl, by rw [append_nil]⟩
  | case7 escaped depth piece opened char rest shape closing outer ih =>
    refine (ih (by omega)).imp_right fun ⟨body, after, same, found⟩ => ?_
    exact ⟨char :: body, after, by rw [same]; rfl, by rw [found, append_assoc]; rfl⟩
  | case8 escaped depth piece opened char rest shape closing ih =>
    refine (ih deep).imp_right fun ⟨body, after, same, found⟩ => ?_
    exact ⟨char :: body, after, by rw [same]; rfl, by rw [found, append_assoc]; rfl⟩

/-- The scan of what stands behind the opening of an expression ends at its closing bracket. -/
def ClosesAt (body rest : StringView) : Prop :=
  segmentsGo false 1 [] (body ++ '>' :: rest) (body ++ '>' :: rest) =
    .expression body :: segmentsGo false 0 [] [] rest

/-- An expression that a scan finds stands in the text, between its opening and the bracket that
closes it. -/
theorem mem_segmentsGo_expression {opened body : StringView}
    (listed : .expression body ∈ segmentsGo escaped 0 piece opened text) : ∃ before rest,
      text = before ++ '$' :: '<' :: (body ++ '>' :: rest) ∧ ClosesAt body rest := by
  obtain ⟨size, bound⟩ : ∃ size, text.length ≤ size := ⟨_, le_rfl⟩
  -- an expression may be followed by others, and the text behind it is shorter
  induction size generalizing escaped piece opened text with
  | zero =>
    rw [length_eq_zero_iff.mp (Nat.le_zero.mp bound), segmentsGo] at listed
    exact absurd (mem_singleton.mp listed) Segment.noConfusion
  | succ size ih =>
    have further : ∀ (moved : StringView) {rest piece opened : StringView} {escaped : Bool},
        text = moved ++ rest → 0 < moved.length →
        .expression body ∈ segmentsGo escaped 0 piece opened rest → ∃ before rest,
          text = before ++ '$' :: '<' :: (body ++ '>' :: rest) ∧ ClosesAt body rest := by
      intro moved rest piece opened escaped whole some later
      have shorter : rest.length ≤ size := by
        rw [whole, length_append] at bound
        omega
      obtain ⟨before, after, same, closes⟩ := ih later shorter
      exact ⟨moved ++ before, after, by rw [whole, same, append_assoc], closes⟩
    unfold segmentsGo at listed
    split at listed
    · exact absurd (mem_singleton.mp listed) Segment.noConfusion
    · next rest =>
      split at listed
      · exact further ['$', '<'] rfl (by decide) listed
      · next unescaped =>
        rw [if_pos rfl] at listed
        rcases mem_cons.mp listed with same | inside
        · cases same
        · have read : segmentsGo false 1 [] rest rest = [.unclosed rest] ∨ ∃ body after,
              rest = body ++ '>' :: after ∧ segmentsGo false 1 [] rest rest =
                .expression ([] ++ body) :: segmentsGo false 0 [] [] after :=
            segmentsGo_inside Nat.one_pos
          rcases read with endless | ⟨first, after, same, found⟩
          · rw [endless] at inside
            exact absurd (mem_singleton.mp inside) Segment.noConfusion
          · rw [nil_append] at found
            rw [found] at inside
            rcases mem_cons.mp inside with here | later
            · cases here
              refine ⟨[], after, by rw [same]; rfl, ?_⟩
              rw [ClosesAt, ← same, found]
            · refine further ('$' :: '<' :: (first ++ ['>'])) ?_ (by simp) later
              rw [same]
              simp
    · next char rest shape =>
      split at listed
      · next closing => exact absurd closing.2.2 (Nat.lt_irrefl 0)
      · exact further [char] rfl Nat.one_pos listed

end Nobify.Genex
