import Nobify.Parser.Tiling

/-!
# Trivia can be replaced by spaces

Writing the texts of the tokens one after the other, with a single space wherever the lexer saw
something between them, gives a text with the same tokens. The lexer looks past the end of a
token in a few places: a `$` may open a variable further on, a `[` a bracket, and a backslash a
continuation. `Aligned` relates what followed a token to what follows it now, and every such
look-ahead sees the same on both.
-/

namespace Nobify.Parser

open Spans
open List

variable (others : StringView)

variable {other rest tail text : StringView} {openLen : Nat} {char : Char}

/-! ## Aligned texts -/

/-- Two texts that agree up to the first trivia, where the second ends or has a space. -/
inductive Aligned : StringView → StringView → Prop
  | nil : Aligned [] []
  | gapEnd {tail : StringView} : triviaStep tail ≠ 0 → Aligned tail []
  | gap {tail other : StringView} : triviaStep tail ≠ 0 → Aligned tail (' ' :: other)
  | cons {tail other : StringView} (char : Char) : Aligned tail other →
      Aligned (char :: tail) (char :: other)

theorem Aligned.append (text : StringView) (aligned : Aligned tail other) :
    Aligned (text ++ tail) (text ++ other) := by
  induction text with
  | nil => exact aligned
  | cons char text ih => exact Aligned.cons char ih

/-- Nothing follows where nothing followed. -/
theorem Aligned.eq_nil (aligned : Aligned tail other) (ended : tail = []) : other = [] := by
  cases aligned with
  | nil => rfl
  | gapEnd starts => rfl
  | gap starts => exact absurd (by rw [ended]; rfl) starts
  | cons char later => exact absurd ended (cons_ne_nil _ _)

/-- The bytes that trivia starts with. -/
def startsTrivia (char : Char) : Bool := isSpace char || char == '#' || char == '\\'

theorem exists_of_triviaStep (starts : triviaStep tail ≠ 0) :
    ∃ char others, tail = char :: others ∧ startsTrivia char = true := by
  cases tail with
  | nil => exact absurd rfl starts
  | cons char others =>
    refine ⟨char, others, rfl, ?_⟩
    by_cases space : isSpace char = true
    · rw [startsTrivia, space]
      rfl
    by_cases comment : char = '#'
    · rw [comment]
      decide
    · rw [triviaStep_other others space comment] at starts
      cases eq_of_continuationLen starts with
      | inl feed =>
        obtain ⟨_, front, -⟩ := feed
        rw [(List.cons.inj front).1]
        decide
      | inr feeds =>
        obtain ⟨_, front, -⟩ := feeds
        rw [(List.cons.inj front).1]
        decide

/-- A look-ahead over some bytes to one byte finds the same in aligned texts, when trivia starts
with neither. -/
theorem Aligned.lookahead {keep : Char → Bool} {stop : Char}
    (kept : ∀ char, startsTrivia char = true → keep char = false)
    (stopped : startsTrivia stop = false) (aligned : Aligned tail other) :
    (tail.dropWhile keep).head? = some stop ↔ (other.dropWhile keep).head? = some stop := by
  have noTrivia : ∀ {tail : StringView}, triviaStep tail ≠ 0 →
      (tail.dropWhile keep).head? ≠ some stop := by
    intro tail starts found
    obtain ⟨char, others, front, trivial⟩ := exists_of_triviaStep starts
    rw [front, dropWhile_cons, kept char trivial] at found
    have same : char = stop := Option.some.inj found
    rw [same, stopped] at trivial
    exact Bool.false_ne_true trivial
  have noSpace : ∀ other : StringView, ((' ' :: other).dropWhile keep).head? ≠ some stop := by
    intro other
    refine noTrivia ?_
    rw [triviaStep_space other (by decide)]
    exact Nat.one_ne_zero
  induction aligned with
  | nil => exact Iff.rfl
  | gapEnd starts => exact iff_of_false (noTrivia starts) (by simp)
  | @gap tail other starts => exact iff_of_false (noTrivia starts) (noSpace other)
  | cons char later ih =>
    rw [dropWhile_cons, dropWhile_cons]
    by_cases keeps : keep char = true
    · rw [if_pos keeps, if_pos keeps]
      exact ih
    · rw [if_neg keeps, if_neg keeps]
      rfl

/-- A line end stands in front only where it stood before. -/
theorem Aligned.head_feed (aligned : Aligned tail other) (feed : peek other 0 = '\n') :
    peek tail 0 = '\n' := by
  cases aligned with
  | nil => exact feed
  | gapEnd starts => exact absurd feed (by decide)
  | gap starts => exact absurd feed (by simp [peek])
  | cons char later => exact feed

/-! ## Look-ahead of the lexer -/

theorem getBracketOpenLen_cons : getBracketOpenLen ('[' :: others) =
      if (others.dropWhile (· == '=')).head? = some '[' then
        (others.takeWhile (· == '=')).length + 2 else 0 := by
  rw [← drop_takeWhile]
  rfl

/-- A bracket opens at `[` exactly when another one comes after the `=`. -/
theorem getBracketOpenLen_pos : 0 < getBracketOpenLen ('[' :: others) ↔
      (others.dropWhile (· == '=')).head? = some '[' := by
  rw [getBracketOpenLen_cons]
  split
  · rename_i bracket
    exact iff_of_true (by omega) bracket
  · rename_i none
    exact iff_of_false (Nat.lt_irrefl 0) none

theorem getBracketOpenLen_other {char : Char} (others : StringView) (other : char ≠ '[') :
    getBracketOpenLen (char :: others) = 0 := by
  unfold getBracketOpenLen
  split
  · rename_i same
    exact absurd (List.cons.inj same).1 other
  · rfl

/-- The length of an opener is found whatever follows it. -/
theorem getBracketOpenLen_opener (long : 2 ≤ openLen) (rest : StringView) :
    getBracketOpenLen (bracketOpener openLen ++ rest) = openLen := by
  have equals : ((List.replicate (openLen - 2) '=' ++ '[' :: rest).takeWhile (· == '=')) =
      List.replicate (openLen - 2) '=' := by
    rw [takeWhile_append_of_pos (by simp), takeWhile_cons]
    simp
  have after : ((List.replicate (openLen - 2) '=' ++ '[' :: rest).dropWhile (· == '=')) =
      '[' :: rest := by
    rw [dropWhile_append_of_pos (by simp), dropWhile_cons]
    rfl
  have shape : bracketOpener openLen ++ rest =
      '[' :: (List.replicate (openLen - 2) '=' ++ '[' :: rest) := by
    simp [bracketOpener]
  rw [shape, getBracketOpenLen_cons, equals, after, length_replicate, List.head?_cons, if_pos rfl]
  omega

theorem length_bracketOpener (long : 2 ≤ openLen) : (bracketOpener openLen).length = openLen := by
  simp only [bracketOpener, length_cons, length_append, length_replicate, length_nil]
  omega

/-- A bracket that opens inside a text opens there whatever follows the text. -/
theorem getBracketOpenLen_append (other : StringView)
    (opened : 0 < getBracketOpenLen (text ++ tail))
    (inside : getBracketOpenLen (text ++ tail) ≤ text.length) :
    getBracketOpenLen (text ++ other) = getBracketOpenLen (text ++ tail) := by
  have long := two_le_getBracketOpenLen opened
  have front := eq_append_of_opened opened
  generalize getBracketOpenLen (text ++ tail) = openLen at *
  have starts : bracketOpener openLen <+: text := by
    refine List.prefix_of_prefix_length_le ⟨_, front.symm⟩ (List.prefix_append _ _) ?_
    rw [length_bracketOpener long]
    exact inside
  obtain ⟨rest, whole⟩ := starts
  rw [← whole, append_assoc, getBracketOpenLen_opener long]

/-- No bracket opens before aligned texts when none opened. -/
theorem getBracketOpenLen_aligned (aligned : Aligned tail other)
    (closed : ¬ 0 < getBracketOpenLen (char :: tail)) :
    ¬ 0 < getBracketOpenLen (char :: other) := by
  by_cases bracket : char = '['
  · subst bracket
    rw [getBracketOpenLen_pos] at closed ⊢
    rw [← aligned.lookahead ?_ (by decide)]
    · exact closed
    · intro char trivial
      cases same : char == '=' with
      | false => rfl
      | true =>
        rw [beq_iff_eq.mp same] at trivial
        exact absurd trivial (by decide)
  · rw [getBracketOpenLen_other other bracket]
    exact Nat.lt_irrefl 0

/-- What is read at an offset is what is left in front after it. -/
theorem peek_eq_iff {offset : Nat} (proper : char ≠ '\x00') :
    peek rest offset = char ↔ (rest.drop offset).head? = some char := by
  rw [peek, getD_eq_getElem?_getD, List.head?_drop]
  cases here : rest[offset]? with
  | none => exact iff_of_false (fun same => proper same.symm) (by simp)
  | some found => simp

theorem checkVarStart_cons : checkVarStart ('$' :: others) =
      if (others.dropWhile isWordChar).head? = some '{' then
        (others.takeWhile isWordChar).length + 2 else 0 := by
  have shape : checkVarStart ('$' :: others) =
      if peek others 0 = '{' then 2 else if peek others 0 = '<' then 0
      else if peek others (others.takeWhile isWordChar).length = '{' then
        (others.takeWhile isWordChar).length + 2 else 0 := rfl
  have word : peek others (others.takeWhile isWordChar).length = '{' ↔
      (others.dropWhile isWordChar).head? = some '{' := by
    rw [peek_eq_iff (by decide), drop_takeWhile]
  rw [shape]
  cases others with
  | nil => rfl
  | cons first rest =>
    change (if first = '{' then 2 else if first = '<' then 0 else _) = _
    by_cases brace : first = '{'
    · rw [if_pos brace, brace]
      rfl
    rw [if_neg brace]
    by_cases angle : first = '<'
    · rw [if_pos angle, angle]
      rfl
    · rw [if_neg angle]
      simp only [word]

/-- A variable opens at `$` exactly when a brace comes after the word. -/
theorem checkVarStart_pos : 0 < checkVarStart ('$' :: others) ↔
      (others.dropWhile isWordChar).head? = some '{' := by
  rw [checkVarStart_cons]
  split
  · rename_i brace
    exact iff_of_true (by omega) brace
  · rename_i none
    exact iff_of_false (Nat.lt_irrefl 0) none

theorem checkVarStart_other (other : char ≠ '$') : checkVarStart (char :: others) = 0 := by
  unfold checkVarStart
  split
  · rename_i same
    exact absurd (List.cons.inj same).1 other
  · rfl

theorem isWordChar_of_startsTrivia (trivial : startsTrivia char = true) :
    isWordChar char = false := by
  cases word : isWordChar char with
  | false => rfl
  | true =>
    simp only [startsTrivia, isSpace, Bool.or_eq_true, Bool.and_eq_true, decide_eq_true_eq,
      beq_iff_eq, Char.le_def, UInt32.le_iff_toNat_le] at trivial
    simp only [isWordChar, isAlnum, isAlpha, Bool.or_eq_true, Bool.and_eq_true,
      decide_eq_true_eq, beq_iff_eq, Char.le_def, UInt32.le_iff_toNat_le] at word
    have codes : ('\r'.val.toNat = 13 ∧ 'a'.val.toNat = 97) ∧
        ('A'.val.toNat = 65 ∧ '0'.val.toNat = 48) := by decide
    have low : char.val.toNat = 32 ∨ char.val.toNat ≤ 13 ∨ char.val.toNat = 35 ∨
        char.val.toNat = 92 := by
      rcases trivial with ((space | range) | hash) | slash
      · exact Or.inl (by rw [space]; rfl)
      · exact Or.inr (Or.inl (by omega))
      · exact Or.inr (Or.inr (Or.inl (by rw [hash]; rfl)))
      · exact Or.inr (Or.inr (Or.inr (by rw [slash]; rfl)))
    have ends : ('z'.val.toNat = 122 ∧ 'Z'.val.toNat = 90) ∧ '9'.val.toNat = 57 := by decide
    rcases word with ((lower | upper) | digit) | under
    · omega
    · omega
    · omega
    · rw [under] at low
      exact absurd low (by decide)

/-- A `$` opens a variable before both of two aligned texts or before none. -/
theorem checkVarStart_aligned (aligned : Aligned tail other) :
    0 < checkVarStart (char :: tail) ↔ 0 < checkVarStart (char :: other) := by
  by_cases dollar : char = '$'
  · rw [dollar, checkVarStart_pos, checkVarStart_pos]
    exact aligned.lookahead (fun _ => isWordChar_of_startsTrivia) (by decide)
  · rw [checkVarStart_other tail dollar, checkVarStart_other other dollar]

/-- A generator expression opens before both of two aligned texts or before none. -/
theorem peek_aligned (aligned : Aligned tail other) : peek tail 0 = '<' ↔ peek other 0 = '<' := by
  have whole : ∀ text : StringView, text.dropWhile (fun _ => false) = text := by
    intro text
    cases text <;> rfl
  have same := @Aligned.lookahead _ _ (fun _ => false) '<' (fun _ _ => rfl) (by decide) aligned
  rw [whole, whole] at same
  rw [peek_eq_iff (by decide), peek_eq_iff (by decide)]
  exact same

/-- A variable that opens inside a text opens there whatever follows the text. -/
theorem checkVarStart_append (other : StringView) (opened : 0 < checkVarStart (text ++ tail))
    (inside : checkVarStart (text ++ tail) ≤ text.length) :
    checkVarStart (text ++ other) = checkVarStart (text ++ tail) := by
  cases text with
  | nil => exact absurd inside (by rw [length_nil]; omega)
  | cons first text =>
    by_cases dollar : first = '$'
    · subst dollar
      simp only [cons_append] at opened inside ⊢
      have brace := (checkVarStart_pos _).mp opened
      rw [checkVarStart_cons, if_pos brace] at inside
      have short : ¬ (text.takeWhile isWordChar).length = text.length := by
        intro whole
        rw [takeWhile_append, if_pos whole] at inside
        simp only [length_append, length_cons] at inside
        omega
      have more : ¬ (text.dropWhile isWordChar).isEmpty = true := by
        intro none
        have split := takeWhile_append_dropWhile (p := isWordChar) (l := text)
        rw [List.isEmpty_iff.mp none, append_nil] at split
        exact short (congrArg List.length split)
      have front : ∀ after : StringView, ((text ++ after).dropWhile isWordChar).head? =
          (text.dropWhile isWordChar).head? := by
        intro after
        rw [dropWhile_append, if_neg more, List.head?_append]
        cases left : text.dropWhile isWordChar with
        | nil => exact absurd (by rw [left]; rfl) more
        | cons char rest => rfl
      rw [checkVarStart_cons, checkVarStart_cons, front, front, takeWhile_append,
        takeWhile_append, if_neg short, if_neg short]
    · rw [cons_append, checkVarStart_other _ dollar] at opened
      exact absurd opened (Nat.lt_irrefl 0)

/-! ## Identifiers -/

theorem identifierSpan_ends (ends : endsIdentifier rest = true) : identifierSpan rest = 0 := by
  cases rest with
  | nil => rfl
  | cons char rest =>
    rw [identifierSpan.eq_def]
    simp only [if_pos ends]

theorem identifierSpan_plain (goes : ¬ endsIdentifier (char :: rest) = true) (plain : char ≠ '\\') :
    identifierSpan (char :: rest) = identifierSpan rest + 1 := by
  have other : ¬ (char == '\\') = true := fun same => plain (beq_iff_eq.mp same)
  rw [identifierSpan.eq_def]
  simp only [if_neg goes, if_neg other]

theorem identifierSpan_hidden {next : Char} (goes : ¬ endsIdentifier ('\\' :: next :: rest) = true)
    : identifierSpan ('\\' :: next :: rest) = identifierSpan rest + 2 := by
  rw [identifierSpan.eq_def]
  simp only [if_neg goes]
  rfl

theorem endsIdentifier_space (rest : StringView) : endsIdentifier (' ' :: rest) = true := by
  have front : peek (' ' :: rest) 0 = ' ' := rfl
  have space : isSpace ' ' = true := by decide
  unfold endsIdentifier
  simp only [front, space, Bool.true_or]

/-- An identifier goes on at a backslash unless a line end comes after it. -/
theorem endsIdentifier_slash (rest : StringView) :
    endsIdentifier ('\\' :: rest) = decide (0 < continuationLen ('\\' :: rest)) := by
  have front : peek ('\\' :: rest) 0 = '\\' := rfl
  simp [endsIdentifier, front, show isSpace '\\' = false by decide]

/-- Only a backslash lets a byte depend on more than whether a `$` opens something. -/
theorem endsIdentifier_aligned (plain : char ≠ '\\') (aligned : Aligned tail other) :
    endsIdentifier (char :: tail) = endsIdentifier (char :: other) := by
  have var := @checkVarStart_aligned _ _ char aligned
  have genex := peek_aligned aligned
  have front : ∀ rest : StringView, peek (char :: rest) 0 = char := fun _ => rfl
  have second : ∀ rest : StringView, peek (char :: rest) 1 = peek rest 0 := fun _ => rfl
  have slash : (char == '\\') = false := beq_eq_false_iff_ne.mpr plain
  have angle : (peek tail 0 == '<') = (peek other 0 == '<') := by
    rw [Bool.eq_iff_iff, beq_iff_eq, beq_iff_eq]
    exact genex
  unfold endsIdentifier
  simp only [front, second, slash, Bool.false_and, angle, var]

/-- A backslash that hid a byte still hides it. -/
theorem continuationLen_aligned (aligned : Aligned tail other)
    (hides : continuationLen ('\\' :: tail) = 0) : continuationLen ('\\' :: other) = 0 := by
  by_contra more
  cases eq_of_continuationLen more with
  | inl feed =>
    obtain ⟨others, front, -⟩ := feed
    have first : peek other 0 = '\n' := by
      rw [(List.cons.inj front).2]
      rfl
    have before := aligned.head_feed first
    have whole : continuationLen ('\\' :: tail) = 2 := if_pos before
    omega
  | inr feeds =>
    obtain ⟨others, front, -⟩ := feeds
    have shape := (List.cons.inj front).2
    cases aligned with
    | nil => exact absurd shape (cons_ne_nil _ _).symm
    | gapEnd starts => exact absurd shape (cons_ne_nil _ _).symm
    | gap starts => exact absurd (List.cons.inj shape).1 (by decide)
    | @cons tail other char later =>
      obtain ⟨same, after⟩ := List.cons.inj shape
      have first : peek other 0 = '\n' := by
        rw [after]
        rfl
      have before := later.head_feed first
      have whole : continuationLen ('\\' :: char :: tail) = 3 := by
        have pair : peek ('\\' :: '\r' :: tail) 1 = '\r' ∧
            peek ('\\' :: '\r' :: tail) 2 = '\n' := ⟨rfl, before⟩
        have slash : peek ('\\' :: '\r' :: tail) 0 = '\\' := rfl
        rw [same, continuationLen, if_pos slash, if_neg (by rw [pair.1]; decide), if_pos pair]
      omega

/-- An identifier reaches as far in aligned texts, when it still ends there. -/
theorem identifierSpan_aligned (aligned : Aligned tail other)
    (stops : identifierSpan tail = 0 → identifierSpan other = 0) (text : StringView)
    (span : identifierSpan (text ++ tail) = text.length) :
    identifierSpan (text ++ other) = text.length := by
  match text with
  | [] => exact stops span
  | char :: text =>
    have goes : ¬ endsIdentifier (char :: (text ++ tail)) = true := by
      intro ends
      rw [cons_append, identifierSpan_ends ends] at span
      exact absurd span (by simp)
    by_cases plain : char = '\\'
    · subst plain
      have hides : continuationLen ('\\' :: (text ++ tail)) = 0 := by
        rw [endsIdentifier_slash, decide_eq_true_eq] at goes
        omega
      have still : ¬ endsIdentifier ('\\' :: (text ++ other)) = true := by
        rw [endsIdentifier_slash, decide_eq_true_eq,
          continuationLen_aligned (aligned.append text) hides]
        exact Nat.lt_irrefl 0
      match text with
      | [] =>
        cases tail with
        | nil =>
          rw [aligned.eq_nil rfl]
          exact span
        | cons next tail =>
          rw [cons_append, nil_append, identifierSpan_hidden goes] at span
          exact absurd span (by simp)
      | next :: text =>
        simp only [cons_append] at span goes still ⊢
        rw [identifierSpan_hidden goes] at span
        have shorter : identifierSpan (text ++ tail) = text.length := by
          simp only [length_cons] at span
          omega
        rw [identifierSpan_hidden still, identifierSpan_aligned aligned stops text shorter]
        rfl
    · have still : ¬ endsIdentifier (char :: (text ++ other)) = true := by
        rw [← endsIdentifier_aligned plain (aligned.append text)]
        exact goes
      simp only [cons_append] at span ⊢
      rw [identifierSpan_plain goes plain] at span
      have shorter : identifierSpan (text ++ tail) = text.length := by
        simp only [length_cons] at span
        omega
      rw [identifierSpan_plain still plain, identifierSpan_aligned aligned stops text shorter]
      rfl

/-! ## Tokens -/

/-- A delimited token is the same whatever follows it, if it was closed or nothing follows. -/
theorem scanDelimited_aligned {delims : Delims Char} {kind : TokenKind}
    (aligned : Aligned tail other)
    (span : (scanDelimited delims openLen kind (text ++ tail)).2 = text.length) :
    scanDelimited delims openLen kind (text ++ other) =
      scanDelimited delims openLen kind (text ++ tail) := by
  by_cases ended : tail = []
  · rw [ended, aligned.eq_nil ended]
  · have fits : openLen ≤ text.length := by
      simp only [scanDelimited] at span
      omega
    have dropped : ∀ after : StringView,
        (text ++ after).drop openLen = text.drop openLen ++ after :=
      fun after => drop_append_of_le_length fits
    simp only [scanDelimited, dropped] at span ⊢
    have size : (nested delims (text.drop openLen ++ tail) 1).1 = (text.drop openLen).length := by
      rw [length_drop]
      omega
    have closed : (nested delims (text.drop openLen ++ tail) 1).2 = 0 := by
      by_contra unclosed
      have all := nested_unclosed unclosed
      rw [size, length_append] at all
      exact ended (length_eq_zero_iff.mp (by omega))
    have same := nested_append other (Prod.ext size closed)
    rw [same, closed, size]

/-- A raw string is the same whatever follows it, if it was closed or nothing follows. -/
theorem scanRaw_aligned (aligned : Aligned tail other)
    (span : (scanRaw openLen (text ++ tail)).2 = text.length) :
    scanRaw openLen (text ++ other) = scanRaw openLen (text ++ tail) := by
  by_cases ended : tail = []
  · rw [ended, aligned.eq_nil ended]
  · have fits : openLen ≤ text.length := by
      simp only [scanRaw] at span
      omega
    have dropped : ∀ after : StringView,
        (text ++ after).drop openLen = text.drop openLen ++ after :=
      fun after => drop_append_of_le_length fits
    have size : untilCloser (bracketCloser openLen) (text.drop openLen ++ tail) =
        (text.drop openLen).length := by
      simp only [scanRaw, dropped] at span
      rw [length_drop]
      omega
    have closed : bracketCloser openLen <:+ text.drop openLen := by
      cases untilCloser_closed (bracketCloser openLen) (text.drop openLen ++ tail) with
      | inl all =>
        rw [size, length_append] at all
        exact absurd (length_eq_zero_iff.mp (by omega)) ended
      | inr found =>
        rw [size, take_left] at found
        exact found
    have same := untilCloser_append other closed size
    have atEnd : ∀ after : StringView, ¬ ((text ++ after).length ≤ text.length ∧
        ¬ (bracketCloser openLen).isSuffixOf (text ++ after) = true) := by
      intro after past
      have none : after = [] := by
        rw [length_append] at past
        exact length_eq_zero_iff.mp (by omega)
      apply past.2
      rw [none, append_nil, isSuffixOf_iff_suffix]
      exact closed.trans (drop_suffix _ _)
    have total : openLen + (text.drop openLen).length = text.length := by
      rw [length_drop]
      omega
    simp only [scanRaw, dropped, size, same, total, atEnd, if_false]

/-- What followed a token and what follows it now: they are aligned, and an identifier that
ended there still does. -/
structure Follows (tail other : StringView) : Prop where
  aligned : Aligned tail other
  stops : identifierSpan tail = 0 → identifierSpan other = 0

/-- The same token is scanned before what follows it now. -/
theorem scan_follows (some : text ≠ []) (follows : Follows tail other)
    (span : (scan (text ++ tail)).2 = text.length) :
    scan (text ++ other) = scan (text ++ tail) := by
  have aligned := follows.aligned
  cases text with
  | nil => exact absurd rfl some
  | cons char text =>
    have front : ∀ after, peek (char :: text ++ after) 0 = char := fun _ => rfl
    unfold scan at span ⊢
    simp only [front] at span ⊢
    by_cases lparen : char = '('
    · rw [if_pos lparen, if_pos lparen]
    rw [if_neg lparen] at span ⊢
    rw [if_neg lparen]
    by_cases rparen : char = ')'
    · rw [if_pos rparen, if_pos rparen]
    rw [if_neg rparen] at span ⊢
    rw [if_neg rparen]
    by_cases semicolon : char = ';'
    · rw [if_pos semicolon, if_pos semicolon]
    rw [if_neg semicolon] at span ⊢
    rw [if_neg semicolon]
    by_cases quote : char = '"'
    · rw [if_pos quote] at span ⊢
      rw [if_pos quote]
      exact scanDelimited_aligned aligned span
    rw [if_neg quote] at span ⊢
    rw [if_neg quote]
    by_cases bracket : 0 < getBracketOpenLen (char :: text ++ tail)
    · rw [if_pos bracket] at span ⊢
      have inside : getBracketOpenLen (char :: text ++ tail) ≤ (char :: text).length := by
        simp only [scanRaw] at span
        omega
      rw [getBracketOpenLen_append other bracket inside, if_pos bracket]
      exact scanRaw_aligned aligned span
    have noBracket : ¬ 0 < getBracketOpenLen (char :: text ++ other) :=
      getBracketOpenLen_aligned (aligned.append text) bracket
    rw [if_neg bracket] at span ⊢
    rw [if_neg noBracket]
    by_cases dollar : char = '$'
    · rw [if_pos dollar] at span ⊢
      rw [if_pos dollar]
      have second : ∀ after, peek (char :: text ++ after) 1 = peek (text ++ after) 0 :=
        fun _ => rfl
      have genex := peek_aligned (aligned.append text)
      simp only [second] at span ⊢
      by_cases angle : peek (text ++ tail) 0 = '<'
      · rw [if_pos angle] at span ⊢
        rw [if_pos (genex.mp angle)]
        exact scanDelimited_aligned aligned span
      rw [if_neg angle] at span ⊢
      rw [if_neg (fun now => angle (genex.mpr now))]
      have var := @checkVarStart_aligned _ _ char (aligned.append text)
      by_cases opened : 0 < checkVarStart (char :: text ++ tail)
      · rw [if_pos opened] at span ⊢
        have inside : checkVarStart (char :: text ++ tail) ≤ (char :: text).length := by
          simp only [scanDelimited] at span
          omega
        rw [checkVarStart_append other opened inside, if_pos opened]
        exact scanDelimited_aligned aligned span
      · have closed : ¬ 0 < checkVarStart (char :: text ++ other) :=
          fun now => opened (var.mpr now)
        rw [if_neg opened, if_neg closed]
    · rw [if_neg dollar] at span ⊢
      rw [if_neg dollar]
      have same := identifierSpan_aligned aligned follows.stops (char :: text) span
      exact Prod.ext rfl (same.trans span.symm)

/-- A token that started no trivia starts none before what follows it now. -/
theorem triviaStep_follows (some : text ≠ []) (aligned : Aligned tail other)
    (plain : triviaStep (text ++ tail) = 0) : triviaStep (text ++ other) = 0 := by
  cases text with
  | nil => exact absurd rfl some
  | cons char text =>
    simp only [cons_append] at plain ⊢
    have space : ¬ isSpace char = true := by
      intro space
      rw [triviaStep_space _ space] at plain
      exact absurd plain Nat.one_ne_zero
    have comment : char ≠ '#' := by
      intro comment
      rw [comment, triviaStep_comment] at plain
      omega
    rw [triviaStep_other _ space comment] at plain ⊢
    by_cases slash : char = '\\'
    · subst slash
      exact continuationLen_aligned (aligned.append text) plain
    · exact if_neg slash

/-! ## Token lists -/

/-- A token without its place. -/
structure Piece where
  kind : TokenKind
  text : StringView
  hasSpaceLeft : Bool

/-- What a token is besides its place. -/
def Token.piece (token : Token) : Piece := ⟨token.kind, token.text, token.hasSpaceLeft⟩

/-- The pieces that a text is lexed into, up to its end. -/
inductive Lexed : StringView → List Piece → Prop
  | nil {rest : StringView} : rest.drop (triviaSpan rest) = [] → Lexed rest []
  | cons {rest text tail : StringView} {pieces : List Piece} :
      rest.drop (triviaSpan rest) = text ++ tail → text ≠ [] →
      (scan (text ++ tail)).2 = text.length → Lexed tail pieces →
      Lexed rest (⟨(scan (text ++ tail)).1, text, decide (0 < triviaSpan rest)⟩ :: pieces)

/-- A text is lexed in one way. -/
theorem Lexed.unique {pieces others : List Piece} (lexed : Lexed rest pieces)
    (again : Lexed rest others) : pieces = others := by
  induction lexed generalizing others with
  | nil done =>
    cases again with
    | nil _ => rfl
    | cons split some span later =>
      rw [done] at split
      exact absurd (append_eq_nil_iff.mp split.symm).1 some
  | @cons rest text tail pieces split some span later ih =>
    cases again with
    | nil done =>
      rw [done] at split
      exact absurd (append_eq_nil_iff.mp split.symm).1 some
    | @cons _ text' tail' pieces' split' some' span' later' =>
      have whole : text ++ tail = text' ++ tail' := split.symm.trans split'
      have size : text.length = text'.length := by rw [← span, ← span', whole]
      obtain ⟨sameText, sameTail⟩ := append_inj whole size
      subst sameText sameTail
      rw [ih later']

/-- The calls of the lexer lex the bytes from the cursor on. -/
theorem lexed_lexTokensFrom {lexer : Lexer} {calls : Nat} (placed : Placed lexer)
    (enough : lexer.rest.length < calls) :
    Lexed lexer.rest ((lexTokensFrom calls lexer).map Token.piece) := by
  induction calls generalizing lexer with
  | zero => exact absurd enough (Nat.not_lt_zero _)
  | succ calls ih =>
    have start : lexer.skipTrivia.rest = lexer.rest.drop (triviaSpan lexer.rest) := by
      rw [skipTrivia_eq, rest_advanceN]
    rw [lexTokensFrom]
    dsimp only
    by_cases done : lexer.skipTrivia.rest = []
    · rw [if_pos ((kind_lexerNext_eq_end lexer).mpr done)]
      exact Lexed.nil (start.symm.trans done)
    · have goes : ¬ (lexerNext lexer).1.kind = .end :=
        fun ended => done ((kind_lexerNext_eq_end lexer).mp ended)
      have positive := scan_pos done (triviaStep_skipTrivia lexer)
      have fits := scan_le done
      have cut := take_append_drop (scan lexer.skipTrivia.rest).2 lexer.skipTrivia.rest
      have size : (lexer.skipTrivia.rest.take (scan lexer.skipTrivia.rest).2).length =
          (scan lexer.skipTrivia.rest).2 := by
        rw [length_take]
        omega
      have next : (lexerNext lexer).2.rest =
          lexer.skipTrivia.rest.drop (scan lexer.skipTrivia.rest).2 := by
        rw [lexerNext_visible done, rest_advanceN]
      have shorter : (lexerNext lexer).2.rest.length < calls := by
        have bound : lexer.skipTrivia.rest.length ≤ lexer.rest.length := by
          rw [start, length_drop]
          omega
        rw [next, length_drop]
        omega
      have later := ih placed.lexerNext shorter
      have spaced : (lexer.cursor < lexer.skipTrivia.cursor) = (0 < triviaSpan lexer.rest) := by
        rw [cursor_skipTrivia placed]
        exact propext ⟨fun _ => by omega, fun _ => by omega⟩
      rw [next] at later
      have lexed := Lexed.cons (start.symm.trans cut.symm)
        (ne_nil_of_length_pos (by omega)) (by rw [cut, size]) later
      rw [cut] at lexed
      rw [if_neg goes, map_cons]
      have head : (lexerNext lexer).1.piece = ⟨(scan lexer.skipTrivia.rest).1,
          lexer.skipTrivia.rest.take (scan lexer.skipTrivia.rest).2,
          decide (0 < triviaSpan lexer.rest)⟩ := by
        rw [lexerNext_visible done]
        simp only [Token.piece, Lexer.token, spaced]
      rw [head]
      exact lexed

/-- The tokens of a text are its pieces. -/
theorem lexed_lexTokens (content : StringView) :
    Lexed content ((lexTokens content).map Token.piece) := by
  have lexed := lexed_lexTokensFrom (placed_lexerInit content) (Nat.lt_succ_self _)
  exact lexed

/-! ## Respacing -/

/-- A single space where there was something to the left of a token. -/
def Piece.space (piece : Piece) : StringView := if piece.hasSpaceLeft then [' '] else []

/-- The texts of the pieces, with their spaces. -/
def respaced (pieces : List Piece) : StringView :=
  pieces.flatMap fun piece => piece.space ++ piece.text

theorem triviaSpan_zero (plain : triviaStep rest = 0) : triviaSpan rest = 0 := by
  rw [triviaSpan_eq, if_pos plain]

/-- A single space in front of a token is the trivia in front of it. -/
theorem triviaSpan_space (plain : triviaStep rest = 0) : triviaSpan (' ' :: rest) = 1 := by
  have one : triviaStep (' ' :: rest) = 1 := triviaStep_space rest (by decide)
  have after : triviaSpan (List.drop 1 (' ' :: rest)) = 0 := triviaSpan_zero plain
  rw [triviaSpan_eq, one, if_neg Nat.one_ne_zero, after]

/-- At the end of the tokens, nothing is left. -/
theorem Follows.ofEnd (done : rest.drop (triviaSpan rest) = []) : Follows rest [] := by
  refine ⟨?_, fun _ => rfl⟩
  by_cases plain : triviaStep rest = 0
  · rw [triviaSpan_zero plain, drop_zero] at done
    rw [done]
    exact Aligned.nil
  · exact Aligned.gapEnd plain

/-- Trivia becomes a space. -/
theorem Follows.ofGap (other : StringView) (gap : 0 < triviaSpan rest) :
    Follows rest (' ' :: other) := by
  constructor
  · apply Aligned.gap
    intro plain
    rw [triviaSpan_zero plain] at gap
    exact Nat.lt_irrefl 0 gap
  · intro _
    exact identifierSpan_ends (endsIdentifier_space other)

/-- A token that was glued to the one before it still is. -/
theorem Follows.ofToken (some : text ≠ []) (plain : triviaStep (text ++ tail) = 0)
    (follows : Follows tail other) : Follows (text ++ tail) (text ++ other) := by
  refine ⟨follows.aligned.append text, fun stops => ?_⟩
  cases text with
  | nil => exact absurd rfl some
  | cons char text =>
    simp only [cons_append] at plain stops ⊢
    have ends : endsIdentifier (char :: (text ++ tail)) = true := by
      by_contra goes
      have positive := identifierSpan_pos (eq_false_of_ne_true goes)
      omega
    have slash : char ≠ '\\' := by
      intro slash
      subst slash
      rw [endsIdentifier_slash, decide_eq_true_eq] at ends
      rw [triviaStep_other _ (by decide) (by decide)] at plain
      omega
    apply identifierSpan_ends
    rw [← endsIdentifier_aligned slash (follows.aligned.append text)]
    exact ends

/-- The pieces of a text, written with single spaces, are lexed into themselves. -/
theorem Lexed.respaced {pieces : List Piece} (lexed : Lexed rest pieces) :
    Lexed (Parser.respaced pieces) pieces ∧ Follows rest (Parser.respaced pieces) := by
  induction lexed with
  | nil done => exact ⟨Lexed.nil rfl, Follows.ofEnd done⟩
  | @cons rest text tail pieces split some span later ih =>
    obtain ⟨again, follows⟩ := ih
    have plain : triviaStep (text ++ tail) = 0 := by
      rw [← split]
      exact triviaStep_drop_triviaSpan rest
    have stillPlain : triviaStep (text ++ Parser.respaced pieces) = 0 :=
      triviaStep_follows some follows.aligned plain
    have same : scan (text ++ Parser.respaced pieces) = scan (text ++ tail) :=
      scan_follows some follows span
    have stillSpan : (scan (text ++ Parser.respaced pieces)).2 = text.length := by
      rw [same]
      exact span
    by_cases gap : 0 < triviaSpan rest
    · have shape : Parser.respaced
          (⟨(scan (text ++ tail)).1, text, decide (0 < triviaSpan rest)⟩ :: pieces) =
            ' ' :: (text ++ Parser.respaced pieces) := by
        simp [Parser.respaced, Piece.space, gap]
      have one := triviaSpan_space stillPlain
      have front : (' ' :: (text ++ Parser.respaced pieces)).drop
          (triviaSpan (' ' :: (text ++ Parser.respaced pieces))) =
            text ++ Parser.respaced pieces := by
        rw [one]
        rfl
      have token := Lexed.cons front some stillSpan again
      rw [one, same, decide_eq_true Nat.one_pos] at token
      rw [shape, decide_eq_true gap]
      exact ⟨token, Follows.ofGap _ gap⟩
    · have shape : Parser.respaced
          (⟨(scan (text ++ tail)).1, text, decide (0 < triviaSpan rest)⟩ :: pieces) =
            text ++ Parser.respaced pieces := by
        simp [Parser.respaced, Piece.space, gap]
      have none := triviaSpan_zero stillPlain
      have front : (text ++ Parser.respaced pieces).drop
          (triviaSpan (text ++ Parser.respaced pieces)) = text ++ Parser.respaced pieces := by
        rw [none]
        rfl
      have whole : rest = text ++ tail := by
        rw [← split, Nat.eq_zero_of_not_pos gap]
        rfl
      have token := Lexed.cons front some stillSpan again
      rw [none, same, decide_eq_false (Nat.lt_irrefl 0)] at token
      rw [shape, decide_eq_false gap]
      refine ⟨token, ?_⟩
      rw [whole]
      exact Follows.ofToken some plain follows

/-- Every text has the tokens of the text in which a single space stands for the trivia in front
of a token. -/
theorem lexTokens_respaced (content : StringView) :
    (lexTokens (respaced ((lexTokens content).map Token.piece))).map Token.piece =
      (lexTokens content).map Token.piece :=
  (lexed_lexTokens _).unique (lexed_lexTokens content).respaced.1

end Nobify.Parser
