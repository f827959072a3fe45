import Nobify.Genex.Tree

/-!
# Texts that the scanners pass over

The three scanners of `genex_parse.c` look for the end of an expression, for a colon and for
commas. In a neutral text all of these are escaped, or within expressions that are closed: whatever
stands behind it, a scanner goes over a neutral text without stopping. What a literal escapes, and
the text of an expression whose body is neutral, is neutral.
-/

namespace Nobify.Genex

open BuildModel (splitTopLevel splitTopLevelGo)
open List Option

variable {behind text : StringView} {inside : Bool}

/-- No opening starts with this character. -/
abbrev NoOpening (char : Char) (rest : StringView) : Prop :=
  ∀ after, char = '$' → rest = '<' :: after → False

/-- A text that the scanners pass over. Inside of an expression commas and colons are nothing that
they look for. -/
inductive Neutral : Bool → StringView → Prop
  | nil {inside : Bool} : Neutral inside []
  | char {inside : Bool} {char : Char} {rest : StringView} (plain : char ≠ '\\' ∧ char ≠ '>')
      (outside : inside = false → char ≠ ',' ∧ char ≠ ':') (closed : NoOpening char rest)
      (later : Neutral inside rest) : Neutral inside (char :: rest)
  | escape {inside : Bool} {char : Char} {rest : StringView} (closed : NoOpening char rest)
      (later : Neutral inside rest) : Neutral inside ('\\' :: char :: rest)
  | escapedOpening {inside : Bool} {rest : StringView} (later : Neutral inside rest) :
      Neutral inside ('\\' :: '$' :: '<' :: rest)
  | expression {inside : Bool} {body rest : StringView} (within : Neutral true body)
      (later : Neutral inside rest) : Neutral inside ('$' :: '<' :: (body ++ '>' :: rest))

/-! ## A character -/

section Char

variable {char : Char} {rest : StringView} (closed : NoOpening char rest) (escaped : Bool)
  (depth : Nat) (piece opened : StringView)

include closed

theorem escapeAfter_char : escapeAfter escaped (char :: rest) =
      if escaped then escapeAfter false rest
      else if char = ',' ∨ char = ':' ∨ char = '>' then none
      else escapeAfter (char = '\\') rest := by
  rw [escapeAfter]
  exact closed

theorem splitTopLevelGo_char (delimiter : Char) :
    splitTopLevelGo delimiter escaped depth piece (char :: rest) =
      if char = '>' ∧ escaped = false ∧ 0 < depth then
        splitTopLevelGo delimiter false (depth - 1) (piece ++ [char]) rest
      else if char = delimiter ∧ escaped = false ∧ depth = 0 then
        svTrim piece :: splitTopLevelGo delimiter false depth [] rest
      else splitTopLevelGo delimiter (char = '\\' && !escaped) depth (piece ++ [char]) rest := by
  rw [splitTopLevelGo]
  exact closed

theorem topLevelColonGo_char : topLevelColonGo escaped depth piece (char :: rest) =
      if char = '>' ∧ escaped = false ∧ 0 < depth then
        topLevelColonGo false (depth - 1) (piece ++ [char]) rest
      else if char = ':' ∧ escaped = false ∧ depth = 0 then some (piece, rest)
      else topLevelColonGo (char = '\\' && !escaped) depth (piece ++ [char]) rest := by
  rw [topLevelColonGo]
  exact closed

theorem segmentsGo_char : segmentsGo escaped depth piece opened (char :: rest) =
      if char = '>' ∧ escaped = false ∧ 0 < depth then
        if depth = 1 then .expression piece :: segmentsGo false 0 [] [] rest
        else segmentsGo false (depth - 1) (piece ++ [char]) opened rest
      else segmentsGo (char = '\\' && !escaped) depth (piece ++ [char]) opened rest := by
  rw [segmentsGo]
  exact closed

theorem containsGenexGo_char : containsGenexGo escaped (char :: rest) =
      containsGenexGo (char = '\\' && !escaped) rest := by
  rw [containsGenexGo]
  exact closed

end Char

/-! ## What is neutral -/

/-- No opening reaches into a text that does not start with a bracket. -/
theorem NoOpening.append {char : Char} {rest : StringView} (closed : NoOpening char rest)
    (apart : behind.head? ≠ some '<') : NoOpening char (rest ++ behind) := by
  intro after dollar same
  cases rest with
  | nil =>
    rw [nil_append] at same
    rw [same] at apart
    exact apart rfl
  | cons next rest =>
    rw [cons_append, List.cons.injEq] at same
    exact closed rest dollar (by rw [same.1])

/-- Only a dollar sign starts an opening. -/
theorem noOpening_of_ne {char : Char} (other : char ≠ '$') (rest : StringView) :
    NoOpening char rest := fun _ dollar _ => other dollar

theorem Neutral.append (neutral : Neutral inside text) (later : Neutral inside behind)
    (apart : behind.head? ≠ some '<') : Neutral inside (text ++ behind) := by
  induction neutral with
  | nil => exact later
  | char plain outside closed _ ih => exact .char plain outside (closed.append apart) (ih later)
  | escape closed _ ih => exact .escape (closed.append apart) (ih later)
  | escapedOpening _ ih => exact .escapedOpening (ih later)
  | @expression inside body rest within _ _ ih =>
    rw [cons_append, cons_append, append_assoc]
    exact .expression within (ih later)

/-- What is neutral outside of expressions is so inside. -/
theorem Neutral.within (neutral : Neutral inside text) : Neutral true text := by
  induction neutral with
  | nil => exact .nil
  | char plain _ closed _ ih => exact .char plain nofun closed ih
  | escape closed _ ih => exact .escape closed ih
  | escapedOpening _ ih => exact .escapedOpening ih
  | expression body _ _ ih => exact .expression body ih

/-- What a literal may hold is neutral. -/
theorem neutral_of_escapeAfter (fits : escapeAfter false text = some false) :
    Neutral false text := by
  have both : ∀ escaped text, escapeAfter escaped text = some false →
      Neutral false (if escaped then '\\' :: text else text) := by
    intro escaped text
    induction escaped, text using escapeAfter.induct with
    | case1 escaped =>
      intro fits
      rw [escapeAfter, some.injEq] at fits
      rw [fits]
      exact .nil
    | case2 rest ih =>
      intro fits
      rw [escapeAfter, if_pos rfl] at fits
      exact .escapedOpening (ih fits)
    | case3 escaped rest unescaped =>
      intro fits
      rw [escapeAfter, if_neg unescaped] at fits
      cases fits
    | case4 char rest closed ih =>
      intro fits
      rw [escapeAfter_char closed, if_pos rfl] at fits
      exact .escape closed (ih fits)
    | case5 escaped char rest closed plain special =>
      intro fits
      rw [escapeAfter_char closed, if_neg plain, if_pos special] at fits
      cases fits
    | case6 escaped char rest closed plain special ih =>
      intro fits
      rw [escapeAfter_char closed, if_neg plain, if_neg special] at fits
      have later := ih fits
      rw [if_neg plain]
      by_cases backslash : char = '\\'
      · rw [if_pos (decide_eq_true backslash)] at later
        rw [backslash]
        exact later
      · rw [decide_eq_false backslash] at later
        exact .char ⟨backslash, fun same => special (.inr (.inr same))⟩
          (fun _ => ⟨fun same => special (.inl same), fun same => special (.inr (.inl same))⟩)
          closed later
  exact both false text fits

/-! ## The scanners -/

/-- The backslash of an escape starts no opening. -/
theorem noOpening_backslash (rest : StringView) : NoOpening '\\' rest :=
  noOpening_of_ne (by decide) rest

/-- The bracket that closes an expression starts no opening. -/
theorem noOpening_bracket (rest : StringView) : NoOpening '>' rest :=
  noOpening_of_ne (by decide) rest

/-- A scanner that reads into a piece, and of which only a bracket at its lowest depth, a comma or a
colon outside of all expressions is more than a character. -/
structure PassesOver {γ : Type} (lowest : Nat) (scan : Bool → Nat → StringView → StringView → γ) :
    Prop where
  char : ∀ {char rest}, NoOpening char rest → ∀ {escaped depth} piece,
    (escaped = false → char ≠ '>') →
    (escaped = false → depth = 0 → char ≠ ',' ∧ char ≠ ':') →
      scan escaped depth piece (char :: rest) =
        scan (char = '\\' && !escaped) depth (piece ++ [char]) rest
  opening : ∀ {escaped depth} piece rest, (escaped = true ∨ lowest ≤ depth) →
    scan escaped depth piece ('$' :: '<' :: rest) =
      scan false (if escaped then depth else depth + 1) (piece ++ ['$', '<']) rest
  closing : ∀ {depth} piece rest, lowest ≤ depth →
    scan false (depth + 1) piece ('>' :: rest) = scan false depth (piece ++ ['>']) rest

/-- Such a scanner adds a neutral text to the piece that it reads. -/
theorem PassesOver.neutral {γ : Type} {lowest depth : Nat}
    {scan : Bool → Nat → StringView → StringView → γ} (passes : PassesOver lowest scan)
    (neutral : Neutral inside text) (deep : inside = true → 0 < depth) (low : lowest ≤ depth)
    (piece : StringView) (apart : behind.head? ≠ some '<') :
    scan false depth piece (text ++ behind) = scan false depth (piece ++ text) behind := by
  induction neutral generalizing depth piece behind with
  | nil => rw [nil_append, append_nil]
  | @char inside char rest plain outside closed _ ih =>
    have outer : false = false → depth = 0 → char ≠ ',' ∧ char ≠ ':' := by
      rintro _ rfl
      cases inside with
      | false => exact outside rfl
      | true => cases deep rfl
    rw [cons_append, passes.char (closed.append apart) piece (fun _ => plain.2) outer,
      decide_eq_false plain.1, Bool.false_and, ih deep low _ apart, append_assoc]
    rfl
  | @escape inside char rest closed _ ih =>
    rw [cons_append, cons_append, passes.char (noOpening_backslash _) piece (fun _ => by decide)
      (fun _ _ => by decide)]
    show scan true depth (piece ++ ['\\']) (char :: (rest ++ behind)) = _
    rw [passes.char (closed.append apart) _ (by simp) (by simp),
      Bool.not_true, Bool.and_false, ih deep low _ apart, append_assoc, append_assoc]
    rfl
  | @escapedOpening inside rest _ ih =>
    rw [cons_append, passes.char (noOpening_backslash _) piece (fun _ => by decide)
      (fun _ _ => by decide)]
    show scan true depth (piece ++ ['\\']) ('$' :: '<' :: (rest ++ behind)) = _
    rw [passes.opening _ _ (.inl rfl), if_pos rfl, ih deep low _ apart, append_assoc, append_assoc]
    rfl
  | @expression inside body rest within later bodyIh ih =>
    have bracket : ('>' :: (rest ++ behind) : StringView).head? ≠ some '<' := by simp
    show scan false depth piece ('$' :: '<' :: ((body ++ '>' :: rest) ++ behind)) = _
    rw [passes.opening _ _ (.inr low), if_neg Bool.false_ne_true, append_assoc, cons_append,
      bodyIh (fun _ => Nat.succ_pos depth) (Nat.le_succ_of_le low) _ bracket,
      passes.closing _ _ low, ih deep low _ apart]
    simp only [append_assoc, cons_append, nil_append]

/-- `gx_split_top_level_alloc`. -/
theorem splitTopLevelGo_passes : PassesOver 0 (splitTopLevelGo ',') where
  char closed _ _ _ bracket stops := by
    rw [splitTopLevelGo_char closed, if_neg (fun ends => bracket ends.2.1 ends.1),
      if_neg (fun ends => (stops ends.2.1 ends.2.2).1 ends.1)]
  opening {escaped} _ _ _ _ := by
    rw [splitTopLevelGo]
    cases escaped <;> rfl
  closing {depth} _ _ _ := by
    rw [splitTopLevelGo_char (noOpening_bracket _), if_pos ⟨rfl, rfl, Nat.succ_pos depth⟩]
    rfl

/-- `gx_find_top_level_colon`. -/
theorem topLevelColonGo_passes : PassesOver 0 topLevelColonGo where
  char closed _ _ _ bracket stops := by
    rw [topLevelColonGo_char closed, if_neg (fun ends => bracket ends.2.1 ends.1),
      if_neg (fun ends => (stops ends.2.1 ends.2.2).2 ends.1)]
  opening _ _ _ := by rw [topLevelColonGo]
  closing {depth} _ _ _ := by
    rw [topLevelColonGo_char (noOpening_bracket _), if_pos ⟨rfl, rfl, Nat.succ_pos depth⟩]
    rfl

/-- `gx_find_matching_genex_end`, within an expression. -/
theorem segmentsGo_passes (opened : StringView) :
    PassesOver 1 fun escaped depth piece => segmentsGo escaped depth piece opened where
  char closed _ _ _ bracket _ := by
    rw [segmentsGo_char closed, if_neg (fun ends => bracket ends.2.1 ends.1)]
  opening {escaped depth} _ _ within := by
    rw [segmentsGo]
    cases escaped with
    | true => rfl
    | false =>
      have below : ¬ depth = 0 := by
        rintro rfl
        rcases within with escaped | none <;> contradiction
      rw [if_neg Bool.false_ne_true, if_neg below]
      rfl
  closing {depth} _ _ within := by
    have still : ¬ depth + 1 = 1 := by omega
    rw [segmentsGo_char (noOpening_bracket _), if_pos ⟨rfl, rfl, Nat.succ_pos depth⟩,
      if_neg still]
    rfl

/-! ## Literals -/

/-- No expression is found in a literal, which leaves the characters behind it as they are. -/
theorem segmentsGo_literal {escaped after : Bool} (fits : escapeAfter escaped text = some after)
    (piece opened : StringView) (apart : behind.head? ≠ some '<') :
    segmentsGo escaped 0 piece opened (text ++ behind) =
      segmentsGo after 0 (piece ++ text) opened behind := by
  induction escaped, text using escapeAfter.induct generalizing piece with
  | case1 escaped =>
    rw [escapeAfter, some.injEq] at fits
    rw [fits, nil_append, append_nil]
  | case2 rest ih =>
    rw [escapeAfter, if_pos rfl] at fits
    rw [cons_append, cons_append, segmentsGo, if_pos rfl, ih fits, append_assoc]
    rfl
  | case3 escaped rest unescaped =>
    rw [escapeAfter, if_neg unescaped] at fits
    cases fits
  | case4 char rest closed ih =>
    rw [escapeAfter_char closed, if_pos rfl] at fits
    rw [cons_append, segmentsGo_char (NoOpening.append closed apart),
      if_neg (fun ends => absurd ends.2.1 (by decide)), Bool.not_true, Bool.and_false, ih fits,
      append_assoc]
    rfl
  | case5 escaped char rest closed plain special =>
    rw [escapeAfter_char closed, if_neg plain, if_pos special] at fits
    cases fits
  | case6 escaped char rest closed plain special ih =>
    rw [escapeAfter_char closed, if_neg plain, if_neg special] at fits
    rw [cons_append, segmentsGo_char (NoOpening.append closed apart),
      if_neg (fun ends => special (.inr (.inr ends.1))), Bool.eq_false_iff.mpr plain,
      Bool.not_false, Bool.and_true, ih fits, append_assoc]
    rfl

/-- A literal opens no expression. -/
theorem containsGenexGo_literal {escaped after : Bool}
    (fits : escapeAfter escaped text = some after) (apart : behind.head? ≠ some '<') :
    containsGenexGo escaped (text ++ behind) = containsGenexGo after behind := by
  induction escaped, text using escapeAfter.induct with
  | case1 escaped =>
    rw [escapeAfter, some.injEq] at fits
    rw [fits, nil_append]
  | case2 rest ih =>
    rw [escapeAfter, if_pos rfl] at fits
    rw [cons_append, cons_append, containsGenexGo, ih fits]
    rfl
  | case3 escaped rest unescaped =>
    rw [escapeAfter, if_neg unescaped] at fits
    cases fits
  | case4 char rest closed ih =>
    rw [escapeAfter_char closed, if_pos rfl] at fits
    rw [cons_append, containsGenexGo_char (NoOpening.append closed apart), Bool.not_true,
      Bool.and_false, ih fits]
  | case5 escaped char rest closed plain special =>
    rw [escapeAfter_char closed, if_neg plain, if_pos special] at fits
    cases fits
  | case6 escaped char rest closed plain special ih =>
    rw [escapeAfter_char closed, if_neg plain, if_neg special] at fits
    rw [cons_append, containsGenexGo_char (NoOpening.append closed apart),
      Bool.eq_false_iff.mpr plain, Bool.not_false, Bool.and_true, ih fits]

end Nobify.Genex
