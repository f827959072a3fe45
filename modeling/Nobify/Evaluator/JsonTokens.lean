import Nobify.Evaluator.JsonGrammar

/-!
# Numbers and strings

The scanners take exactly the numbers and the strings of the grammar, and the decoder makes one
character of each written one.
-/

namespace Nobify.Evaluator.Json

open Lib
open List
open Option (isSome_iff_exists)

variable {fuel i : Nat} {rest : StringView} {chars : List JsonChar}

variable {json : StringView}

/-! ## Numbers -/

/-- A result that is no fault: a text of a kind from a place on, or nothing. -/
def Takes (json : StringView) (kind : StringView → Prop) (i : Nat) : JsonResult (Option Nat) → Prop
  | .ok (some j) => ∃ text, kind text ∧ json.drop i = text ++ json.drop j ∧ j = i + text.length
  | .ok none => True
  | .error _ => False

/-- A reading behind a front part is a reading of both. -/
theorem Takes.behind {kind whole : StringView → Prop} {result : JsonResult (Option Nat)}
    (front : StringView) (takes : Takes json kind (i + front.length) result)
    (here : json.drop i = front ++ json.drop (i + front.length))
    (joins : ∀ text, kind text → whole (front ++ text)) : Takes json whole i result := by
  cases result with
  | error fault => exact takes
  | ok found =>
    cases found with
    | none => trivial
    | some j =>
      obtain ⟨text, inner, split, place⟩ := takes
      refine ⟨front ++ text, joins text inner, ?_, ?_⟩
      · rw [here, split, append_assoc]
      · rw [place, length_append]
        omega

theorem jsonParseDigits_eq {digits : StringView} (number : IsDigits digits)
    (here : json.drop i = digits ++ rest) (stops : ∀ char ∈ rest.head?, isDigit char = false) :
    jsonParseDigits json i = .ok (some (i + digits.length)) := by
  obtain ⟨nonempty, all⟩ := number
  obtain ⟨first, more, rfl⟩ := exists_cons_of_ne_nil nonempty
  have inside := lt_length_of_drop here
  have digit : isDigit first = true := all_eq_true.mp all first mem_cons_self
  have whole : skipWhile isDigit json i = i + (first :: more).length := skipWhile_eq here all stops
  unfold jsonParseDigits
  rw [if_neg (by omega), charAt_of_drop here]
  simp [bind, Except.bind, digit, whole, pure, Except.pure]

theorem jsonParseDigits_takes (json : StringView) (i : Nat) :
    Takes json IsDigits i (jsonParseDigits json i) := by
  unfold jsonParseDigits
  by_cases beyond : json.length ≤ i
  · rw [if_pos beyond]
    trivial
  · obtain ⟨first, here⟩ := exists_char beyond
    rw [if_neg beyond, charAt_of_drop here]
    by_cases digit : isDigit first = true
    · obtain ⟨run, all, split, place, stops⟩ := drop_skipWhile isDigit json i
      have nonempty : run ≠ [] := by
        rintro rfl
        have stays : json.drop i = json.drop (skipWhile isDigit json i) := split
        have other := stops first (by rw [← stays, here]; rfl)
        rw [digit] at other
        contradiction
      simp only [bind, Except.bind, digit, pure, Except.pure]
      exact ⟨run, ⟨nonempty, all⟩, split, place⟩
    · simp [bind, Except.bind, Bool.not_eq_true _ ▸ digit, pure, Except.pure, Takes]

/-- The first digit of a number that does not start with a zero. -/
theorem isDigit_of_first {first : Char} (range : '1' ≤ first ∧ first ≤ '9') :
    isDigit first = true := by
  have zero : '0' ≤ '1' := by decide
  have low : '0' ≤ first := Char.le_trans zero range.1
  simp [isDigit, low, range.2]

theorem jsonParseInteger_eq {integer : StringView} (number : IsInteger integer)
    (here : json.drop i = integer ++ rest) (stops : ∀ char ∈ rest.head?, isDigit char = false) :
    jsonParseInteger json i = .ok (some (i + integer.length)) := by
  rcases number with rfl | ⟨first, more, range, digits, rfl⟩
  · have inside := lt_length_of_drop here
    unfold jsonParseInteger
    rw [if_neg (by omega), charAt_of_drop here]
    simp [bind, Except.bind, pure, Except.pure]
  · have inside := lt_length_of_drop here
    have behind : json.drop (i + 1) = more ++ rest := drop_succ_of_drop here
    have whole : skipWhile isDigit json (i + 1) = i + 1 + more.length :=
      skipWhile_eq behind digits stops
    have nonzero : first ≠ '0' := by
      rintro rfl
      exact absurd range.1 (by decide)
    unfold jsonParseInteger
    rw [if_neg (by omega), charAt_of_drop here]
    simp only [bind, Except.bind, pure, Except.pure, if_neg nonzero, if_pos range, whole,
      length_cons]
    congr 2
    omega

theorem jsonParseInteger_takes (json : StringView) (i : Nat) :
    Takes json IsInteger i (jsonParseInteger json i) := by
  unfold jsonParseInteger
  by_cases beyond : json.length ≤ i
  · rw [if_pos beyond]
    trivial
  · obtain ⟨first, here⟩ := exists_char beyond
    rw [if_neg beyond, charAt_of_drop here]
    simp only [bind, Except.bind, pure, Except.pure]
    by_cases zero : first = '0'
    · rw [if_pos zero]
      exact ⟨['0'], .inl rfl, by rw [here, zero]; rfl, rfl⟩
    · rw [if_neg zero]
      by_cases range : '1' ≤ first ∧ first ≤ '9'
      · obtain ⟨run, all, split, place, -⟩ := drop_skipWhile isDigit json (i + 1)
        rw [if_pos range]
        refine ⟨first :: run, .inr ⟨first, run, range, all, rfl⟩, ?_, ?_⟩
        · rw [here, cons_append]
          exact congrArg _ split
        · rw [place, length_cons]
          omega
      · rw [if_neg range]
        trivial

theorem jsonParseFraction_eq {fraction : StringView} (part : IsFraction fraction)
    (here : json.drop i = fraction ++ rest)
    (stops : ∀ char ∈ rest.head?, isDigit char = false ∧ char ≠ '.') :
    jsonParseFraction json i = .ok (some (i + fraction.length)) := by
  unfold jsonParseFraction
  rcases part with rfl | ⟨digits, number, rfl⟩
  · have other : ¬ json[i]? = some '.' := by
      intro point
      have first : rest.head? = some '.' := by
        rw [← List.head?_drop, here] at point
        exact point
      exact (stops '.' first).2 rfl
    rw [if_neg other]
    rfl
  · have behind : json.drop (i + 1) = digits ++ rest := drop_succ_of_drop here
    rw [if_pos (getElem?_of_drop here),
      jsonParseDigits_eq number behind fun char first => (stops char first).1]
    simp only [length_cons]
    congr 2
    omega

theorem jsonParseFraction_takes (json : StringView) (i : Nat) :
    Takes json IsFraction i (jsonParseFraction json i) := by
  unfold jsonParseFraction
  by_cases point : json[i]? = some '.'
  · have split : json.drop i = '.' :: json.drop (i + 1) := drop_of_getElem? point
    rw [if_pos point]
    refine (jsonParseDigits_takes json (i + 1)).behind ['.'] split ?_
    intro digits number
    exact .inr ⟨digits, number, rfl⟩
  · rw [if_neg point]
    exact ⟨[], .inl rfl, rfl, rfl⟩

theorem jsonParseExponent_eq {exponent : StringView} (part : IsExponent exponent)
    (here : json.drop i = exponent ++ rest)
    (stops : ∀ char ∈ rest.head?, isDigit char = false ∧ char ≠ 'e' ∧ char ≠ 'E') :
    jsonParseExponent json i = .ok (some (i + exponent.length)) := by
  unfold jsonParseExponent
  rcases part with rfl | ⟨letter, sign, digits, isLetter, signs, number, rfl⟩
  · have other : ¬ (json[i]? = some 'e' ∨ json[i]? = some 'E') := by
      have first : json[i]? = rest.head? := by
        rw [← List.head?_drop, here]
        rfl
      rw [first]
      rintro (small | large)
      · exact (stops 'e' small).2.1 rfl
      · exact (stops 'E' large).2.2 rfl
    rw [if_neg other]
    rfl
  · have ends : ∀ char ∈ rest.head?, isDigit char = false := fun char first => (stops char first).1
    have behind : json.drop (i + 1) = sign ++ (digits ++ rest) := by
      rw [← append_assoc]
      exact drop_succ_of_drop here
    have first : json[i]? = some letter := getElem?_of_drop here
    have atLetter : json[i]? = some 'e' ∨ json[i]? = some 'E' := by
      rcases isLetter with rfl | rfl
      · exact .inl first
      · exact .inr first
    obtain ⟨nonempty, all⟩ := number
    rw [if_pos atLetter]
    rcases signs with rfl | rfl | rfl
    · obtain ⟨digit, more, rfl⟩ := exists_cons_of_ne_nil nonempty
      have isDigit : isDigit digit = true := all_eq_true.mp all digit mem_cons_self
      have unsigned : ¬ (json[i + 1]? = some '+' ∨ json[i + 1]? = some '-') := by
        rw [getElem?_of_drop behind]
        rintro (plus | minus)
        · cases Option.some.inj plus
          exact absurd isDigit (by decide)
        · cases Option.some.inj minus
          exact absurd isDigit (by decide)
      rw [if_neg unsigned, jsonParseDigits_eq ⟨nonempty, all⟩ behind ends]
      simp only [nil_append, length_cons]
      congr 2
      omega
    · have last : json.drop (i + 2) = digits ++ rest := drop_succ_of_drop behind
      rw [if_pos (.inl (getElem?_of_drop behind)), jsonParseDigits_eq ⟨nonempty, all⟩ last ends]
      simp only [singleton_append, length_cons]
      congr 2
      omega
    · have last : json.drop (i + 2) = digits ++ rest := drop_succ_of_drop behind
      rw [if_pos (.inr (getElem?_of_drop behind)), jsonParseDigits_eq ⟨nonempty, all⟩ last ends]
      simp only [singleton_append, length_cons]
      congr 2
      omega

theorem jsonParseExponent_takes (json : StringView) (i : Nat) :
    Takes json IsExponent i (jsonParseExponent json i) := by
  unfold jsonParseExponent
  by_cases atLetter : json[i]? = some 'e' ∨ json[i]? = some 'E'
  · obtain ⟨letter, isLetter, first⟩ :
        ∃ letter, (letter = 'e' ∨ letter = 'E') ∧ json[i]? = some letter := by
      rcases atLetter with small | large
      · exact ⟨'e', .inl rfl, small⟩
      · exact ⟨'E', .inr rfl, large⟩
    have split : json.drop i = letter :: json.drop (i + 1) := drop_of_getElem? first
    rw [if_pos atLetter]
    by_cases signed : json[i + 1]? = some '+' ∨ json[i + 1]? = some '-'
    · obtain ⟨sign, isSign, second⟩ :
          ∃ sign, (sign = '+' ∨ sign = '-') ∧ json[i + 1]? = some sign := by
        rcases signed with plus | minus
        · exact ⟨'+', .inl rfl, plus⟩
        · exact ⟨'-', .inr rfl, minus⟩
      have next : json.drop (i + 1) = sign :: json.drop (i + 2) := drop_of_getElem? second
      rw [if_pos signed]
      refine (jsonParseDigits_takes json (i + 2)).behind [letter, sign] ?_ ?_
      · rw [split, next]
        rfl
      · intro digits number
        refine .inr ⟨letter, [sign], digits, isLetter, ?_, number, rfl⟩
        rcases isSign with rfl | rfl
        · exact .inr (.inl rfl)
        · exact .inr (.inr rfl)
    · rw [if_neg signed]
      refine (jsonParseDigits_takes json (i + 1)).behind [letter] split ?_
      intro digits number
      exact .inr ⟨letter, [], digits, isLetter, .inl rfl, number, rfl⟩
  · rw [if_neg atLetter]
    exact ⟨[], .inl rfl, rfl, rfl⟩

/-- What may stand behind a value. -/
def EndsValue (rest : StringView) : Prop :=
  ∀ char ∈ rest.head?, isSpace char = true ∨ char = ',' ∨ char = ']' ∨ char = '}'

/-- No number goes on behind a value. -/
theorem EndsValue.stops (ends : EndsValue rest) :
    ∀ char ∈ rest.head?, isDigit char = false ∧ char ≠ '.' ∧ char ≠ 'e' ∧ char ≠ 'E' := by
  intro char first
  rcases ends char first with blank | rfl | rfl | rfl
  · have outside : isDigit char = false := by
      simp only [isSpace, Bool.or_eq_true, beq_iff_eq, Bool.and_eq_true, decide_eq_true_eq,
        isDigit, Bool.and_eq_false_imp, decide_eq_false_iff_not] at blank ⊢
      intro low
      rcases blank with rfl | ⟨-, high⟩
      · exact absurd low (by decide)
      · exact absurd (Char.le_trans low high) (by decide)
    refine ⟨outside, ?_, ?_, ?_⟩
    · rintro rfl
      exact absurd blank (by decide)
    · rintro rfl
      exact absurd blank (by decide)
    · rintro rfl
      exact absurd blank (by decide)
  · decide
  · decide
  · decide

theorem IsInteger.exists_cons {integer : StringView} (number : IsInteger integer) :
    ∃ first more, integer = first :: more ∧ isDigit first = true := by
  rcases number with rfl | ⟨first, more, range, -, rfl⟩
  · exact ⟨'0', [], rfl, rfl⟩
  · exact ⟨first, more, rfl, isDigit_of_first range⟩

theorem IsFraction.head_not_digit {fraction : StringView} (part : IsFraction fraction)
    (stops : ∀ char ∈ rest.head?, isDigit char = false) :
    ∀ char ∈ (fraction ++ rest).head?, isDigit char = false := by
  rcases part with rfl | ⟨digits, -, rfl⟩
  · exact stops
  · intro char first
    cases Option.some.inj first
    rfl

theorem IsExponent.head_not_digit {exponent : StringView} (part : IsExponent exponent)
    (stops : ∀ char ∈ rest.head?, isDigit char = false ∧ char ≠ '.') :
    ∀ char ∈ (exponent ++ rest).head?, isDigit char = false ∧ char ≠ '.' := by
  rcases part with rfl | ⟨letter, sign, digits, isLetter, -, -, rfl⟩
  · exact stops
  · intro char first
    cases Option.some.inj first
    rcases isLetter with rfl | rfl <;> decide

/-- A number in front of what may stand behind a value is read whole. -/
theorem jsonParseNumberToken_eq {token : StringView} (number : IsNumber token)
    (here : json.drop i = token ++ rest) (ends : EndsValue rest) :
    jsonParseNumberToken json i = .ok (some (i + token.length)) := by
  obtain ⟨sign, integer, fraction, exponent, signs, isInteger, isFraction, isExponent, rfl⟩ :=
    number
  have stops := ends.stops
  simp only [append_assoc] at here
  have atInteger := drop_of_drop here
  have atFraction := drop_of_drop atInteger
  have atExponent := drop_of_drop atFraction
  have third := jsonParseExponent_eq isExponent atExponent fun char first =>
    ⟨(stops char first).1, (stops char first).2.2⟩
  have plain : ∀ char ∈ rest.head?, isDigit char = false ∧ char ≠ '.' :=
    fun char first => ⟨(stops char first).1, (stops char first).2.1⟩
  have behindFraction := isExponent.head_not_digit plain
  have second := jsonParseFraction_eq isFraction atFraction behindFraction
  have first := jsonParseInteger_eq isInteger atInteger
    (isFraction.head_not_digit fun char first => (behindFraction char first).1)
  obtain ⟨digit, more, same, isDigit⟩ := isInteger.exists_cons
  have place : ∃ char tail, json.drop i = char :: tail ∧
      (if char = '-' then i + 1 else i) = i + sign.length := by
    rcases signs with rfl | rfl
    · refine ⟨digit, _, by rw [here, same]; rfl, ?_⟩
      rw [if_neg]
      · rfl
      · rintro rfl
        exact absurd isDigit (by decide)
    · exact ⟨'-', _, here, by rw [if_pos rfl]; rfl⟩
  obtain ⟨char, tail, front, start⟩ := place
  have inside := lt_length_of_drop front
  unfold jsonParseNumberToken
  rw [if_neg (by omega), charAt_of_drop front]
  simp only [bind, Except.bind, start, first, second, third, length_append]
  congr 2
  omega

/-- What is read of a number is a number. -/
theorem jsonParseNumberToken_takes (json : StringView) (i : Nat) :
    Takes json IsNumber i (jsonParseNumberToken json i) := by
  unfold jsonParseNumberToken
  by_cases beyond : json.length ≤ i
  · rw [if_pos beyond]
    trivial
  · obtain ⟨char, here⟩ := exists_char beyond
    rw [if_neg beyond, charAt_of_drop here]
    simp only [bind, Except.bind]
    obtain ⟨sign, signs, start, split⟩ : ∃ sign, (sign = [] ∨ sign = ['-']) ∧
        (if char = '-' then i + 1 else i) = i + sign.length ∧
        json.drop i = sign ++ json.drop (i + sign.length) := by
      by_cases minus : char = '-'
      · refine ⟨['-'], .inr rfl, by rw [if_pos minus]; rfl, ?_⟩
        rw [here, minus]
        rfl
      · exact ⟨[], .inl rfl, by rw [if_neg minus]; rfl, rfl⟩
    rw [start]
    refine Takes.behind sign (?_ : Takes json (fun text => ∃ integer fraction exponent,
      IsInteger integer ∧ IsFraction fraction ∧ IsExponent exponent ∧
        text = integer ++ (fraction ++ exponent)) _ _) split ?_
    · have first := jsonParseInteger_takes json (i + sign.length)
      cases integers : jsonParseInteger json (i + sign.length) with
      | error fault => rw [integers] at first; exact first
      | ok found =>
        cases found with
        | none => trivial
        | some j =>
          rw [integers] at first
          obtain ⟨integer, isInteger, atInteger, rfl⟩ := first
          refine Takes.behind integer (?_ : Takes json (fun text => ∃ fraction exponent,
            IsFraction fraction ∧ IsExponent exponent ∧ text = fraction ++ exponent) _ _)
            atInteger ?_
          · have second := jsonParseFraction_takes json (i + sign.length + integer.length)
            dsimp only
            cases fractions : jsonParseFraction json (i + sign.length + integer.length) with
            | error fault => rw [fractions] at second; exact second
            | ok found =>
              cases found with
              | none => trivial
              | some j =>
                rw [fractions] at second
                obtain ⟨fraction, isFraction, atFraction, rfl⟩ := second
                exact (jsonParseExponent_takes json _).behind fraction atFraction
                  fun exponent isExponent => ⟨fraction, exponent, isFraction, isExponent, rfl⟩
          · rintro _ ⟨fraction, exponent, isFraction, isExponent, rfl⟩
            exact ⟨integer, fraction, exponent, isInteger, isFraction, isExponent, rfl⟩
    · rintro _ ⟨integer, fraction, exponent, isInteger, isFraction, isExponent, rfl⟩
      exact ⟨sign, integer, fraction, exponent, signs, isInteger, isFraction, isExponent, rfl⟩

/-! ## Strings -/

/-- The code point that four hexadecimal digits write. -/
def hexCode (h0 h1 h2 h3 : Char) : Nat :=
  let value := fun digit => (hexDigit? digit).getD 0
  4096 * value h0 + 256 * value h1 + 16 * value h2 + value h3

/-- The character that the decoder puts for a written one. -/
def JsonChar.decoded : JsonChar → Char
  | .plain char _ => char
  | .short letter _ => (jsonEscape letter).getD letter
  | .unicode h0 h1 h2 h3 _ =>
    if hexCode h0 h1 h2 h3 ≤ 0x7F then Char.ofNat (hexCode h0 h1 h2 h3) else '?'

/-- The scanner and the decoder know the same letters. -/
theorem jsonEscape_isSome_iff {letter : Char} :
    (jsonEscape letter).isSome = true ↔ letter ∈ ['"', '\\', '/', 'b', 'f', 'n', 'r', 't'] := by
  unfold jsonEscape
  split <;> simp_all

theorem hexDigit?_lt {char : Char} {value : Nat} (digit : hexDigit? char = some value) :
    value < 16 := by
  have digits : '0'.toNat = 48 ∧ '9'.toNat = 57 := ⟨rfl, rfl⟩
  have small : 'a'.toNat = 97 ∧ 'f'.toNat = 102 := ⟨rfl, rfl⟩
  have large : 'A'.toNat = 65 ∧ 'F'.toNat = 70 := ⟨rfl, rfl⟩
  unfold hexDigit? at digit
  split at digit
  · rename_i decimal
    simp only [isDigit, Bool.and_eq_true, decide_eq_true_eq, Char.le_def, UInt32.le_iff_toNat_le]
      at decimal
    have := Option.some.inj digit
    simp only [Char.toNat] at this digits
    omega
  · split at digit
    · rename_i range
      simp only [Char.le_def, UInt32.le_iff_toNat_le] at range
      have := Option.some.inj digit
      simp only [Char.toNat] at this small
      omega
    · split at digit
      · rename_i range
        simp only [Char.le_def, UInt32.le_iff_toNat_le] at range
        have := Option.some.inj digit
        simp only [Char.toNat] at this large
        omega
      · cases digit

/-- The shifts of the decoder add the digits up. -/
theorem jsonCodePoint_eq {v0 v1 v2 v3 : Nat} (s1 : v1 < 16) (s2 : v2 < 16) (s3 : v3 < 16) :
    jsonCodePoint v0 v1 v2 v3 = 4096 * v0 + 256 * v1 + 16 * v2 + v3 := by
  have low : v2 <<< 4 ||| v3 = 16 * v2 + v3 := by
    rw [← Nat.shiftLeft_add_eq_or_of_lt (by omega), Nat.shiftLeft_eq]
    omega
  have middle : v1 <<< 8 ||| (v2 <<< 4 ||| v3) = 256 * v1 + (16 * v2 + v3) := by
    rw [low, ← Nat.shiftLeft_add_eq_or_of_lt (by omega), Nat.shiftLeft_eq]
    omega
  have high : v0 <<< 12 ||| (v1 <<< 8 ||| (v2 <<< 4 ||| v3)) =
      4096 * v0 + (256 * v1 + (16 * v2 + v3)) := by
    rw [middle, ← Nat.shiftLeft_add_eq_or_of_lt (by omega), Nat.shiftLeft_eq]
    omega
  unfold jsonCodePoint
  rw [Nat.or_assoc, Nat.or_assoc, high]
  omega

theorem charsText_cons (char : JsonChar) (chars : List JsonChar) :
    charsText (char :: chars) = char.text ++ charsText chars := flatMap_cons

/-- The four digits of a code point, one behind the other. -/
theorem charAt_digits {h0 h1 h2 h3 : Char}
    (here : json.drop i = '\\' :: 'u' :: h0 :: h1 :: h2 :: h3 :: rest) :
    i + 5 < json.length ∧ charAt json i = .ok '\\' ∧ charAt json (i + 1) = .ok 'u' ∧
      charAt json (i + 2) = .ok h0 ∧ charAt json (i + 3) = .ok h1 ∧ charAt json (i + 4) = .ok h2 ∧
      charAt json (i + 5) = .ok h3 := by
  have second := drop_succ_of_drop here
  have third := drop_succ_of_drop second
  have fourth := drop_succ_of_drop third
  have fifth := drop_succ_of_drop fourth
  have sixth := drop_succ_of_drop fifth
  exact ⟨lt_length_of_drop sixth, charAt_of_drop here, charAt_of_drop second, charAt_of_drop third,
    charAt_of_drop fourth, charAt_of_drop fifth, charAt_of_drop sixth⟩

/-- The scanner passes by one character. -/
theorem jsonStringTokenLoop_char {char : JsonChar} (here : json.drop i = char.text ++ rest) :
    jsonStringTokenLoop json (fuel + 1) i =
      jsonStringTokenLoop json fuel (i + char.text.length) := by
  rw [jsonStringTokenLoop]
  cases char with
  | plain char bare =>
    have inside := lt_length_of_drop here
    rw [if_neg (by omega), charAt_of_drop here]
    simp only [bind, Except.bind, if_neg bare.1, if_neg bare.2]
    rfl
  | short letter known =>
    have second := drop_succ_of_drop here
    have inside := lt_length_of_drop second
    have isEscape : ¬ (jsonEscape letter).isNone = true := by
      rw [Bool.not_eq_true, Option.isNone_eq_false_iff]
      exact (jsonEscape_isSome_iff).mpr known
    have other : letter ≠ 'u' := by
      rintro rfl
      exact absurd known (by decide)
    have reach : ¬ json.length ≤ i + 1 := by omega
    rw [if_neg (by omega), charAt_of_drop here]
    simp only [bind, Except.bind, if_neg (by decide : ¬ '\\' = '"'), if_true, if_neg reach,
      charAt_of_drop second, if_neg other, if_neg isEscape]
    rfl
  | unicode h0 h1 h2 h3 hex =>
    obtain ⟨inside, first, second, third, fourth, fifth, sixth⟩ := charAt_digits here
    have reach : ¬ json.length ≤ i + 1 := by omega
    have far : ¬ json.length ≤ i + 5 := by omega
    have digits : ¬ ([h0, h1, h2, h3].all fun h => (hexDigit? h).isSome) = false := by
      simp only [IsHexDigit] at hex
      simp [hex]
    rw [if_neg (by omega), first]
    simp only [bind, Except.bind, if_neg (by decide : ¬ '\\' = '"'), if_true, if_neg reach, second,
      if_neg far, third, fourth, fifth, sixth, if_neg digits]
    rfl

/-- The scanner goes on to the closing quote. -/
theorem jsonStringTokenLoop_eq (enough : chars.length < fuel)
    (here : json.drop i = charsText chars ++ '"' :: rest) :
    jsonStringTokenLoop json fuel i = .ok (some (i + (charsText chars).length)) := by
  induction chars generalizing fuel i with
  | nil =>
    obtain ⟨fuel, rfl⟩ := Nat.exists_eq_add_one_of_ne_zero (by omega : fuel ≠ 0)
    have inside := lt_length_of_drop here
    rw [jsonStringTokenLoop, if_neg (by omega), charAt_of_drop here]
    simp [bind, Except.bind, pure, Except.pure, charsText]
  | cons char chars ih =>
    obtain ⟨fuel, rfl⟩ := Nat.exists_eq_add_one_of_ne_zero (by omega : fuel ≠ 0)
    have fewer : chars.length < fuel := by
      simp only [length_cons] at enough
      omega
    rw [charsText_cons, append_assoc] at here
    have later := ih fewer (drop_of_drop here)
    rw [jsonStringTokenLoop_char here, later, charsText_cons, length_append, Nat.add_assoc]

/-- The decoder puts one character for a written one. -/
theorem jsonDecodeLoop_char {raw : StringView} {char : JsonChar}
    (here : raw.drop i = char.text ++ rest) {others : StringView}
    (later : jsonDecodeLoop raw fuel (i + char.text.length) = .ok (some others)) :
    jsonDecodeLoop raw (fuel + 1) i = .ok (some (char.decoded :: others)) := by
  rw [jsonDecodeLoop]
  cases char with
  | plain char bare =>
    have inside := lt_length_of_drop here
    rw [if_neg (by omega), charAt_of_drop here]
    simp only [bind, Except.bind, ne_eq, bare.2, not_false_eq_true, if_true]
    rw [show jsonDecodeLoop raw fuel (i + 1) = .ok (some others) from later]
    rfl
  | short letter known =>
    have second := drop_succ_of_drop here
    have inside := lt_length_of_drop second
    have reach : ¬ raw.length ≤ i + 1 := by omega
    have other : letter ≠ 'u' := by
      rintro rfl
      exact absurd known (by decide)
    obtain ⟨value, escape⟩ := isSome_iff_exists.mp (jsonEscape_isSome_iff.mpr known)
    rw [if_neg (by omega), charAt_of_drop here]
    simp only [bind, Except.bind, ne_eq, not_true_eq_false, if_false, if_neg reach,
      charAt_of_drop second, if_neg other, escape]
    rw [show jsonDecodeLoop raw fuel (i + 2) = .ok (some others) from later]
    simp [JsonChar.decoded, escape, pure, Except.pure]
  | unicode h0 h1 h2 h3 hex =>
    obtain ⟨inside, first, second, third, fourth, fifth, sixth⟩ := charAt_digits here
    have reach : ¬ raw.length ≤ i + 1 := by omega
    have far : ¬ raw.length ≤ i + 5 := by omega
    obtain ⟨d0, d1, d2, d3⟩ := hex
    obtain ⟨v0, e0⟩ := isSome_iff_exists.mp d0
    obtain ⟨v1, e1⟩ := isSome_iff_exists.mp d1
    obtain ⟨v2, e2⟩ := isSome_iff_exists.mp d2
    obtain ⟨v3, e3⟩ := isSome_iff_exists.mp d3
    have code : jsonCodePoint v0 v1 v2 v3 = hexCode h0 h1 h2 h3 := by
      rw [jsonCodePoint_eq (hexDigit?_lt e1) (hexDigit?_lt e2) (hexDigit?_lt e3)]
      simp [hexCode, e0, e1, e2, e3]
    rw [if_neg (by omega), first]
    simp only [bind, Except.bind, ne_eq, not_true_eq_false, if_false, if_neg reach, second, if_true,
      if_neg far, third, fourth, fifth, sixth, e0, e1, e2, e3, code]
    rw [show jsonDecodeLoop raw fuel (i + 6) = .ok (some others) from later]
    rfl

/-- What the scanner has accepted is decoded character by character. -/
theorem jsonDecodeLoop_eq {raw : StringView} (enough : chars.length < fuel)
    (here : raw.drop i = charsText chars) :
    jsonDecodeLoop raw fuel i = .ok (some (chars.map JsonChar.decoded)) := by
  induction chars generalizing fuel i with
  | nil =>
    obtain ⟨fuel, rfl⟩ := Nat.exists_eq_add_one_of_ne_zero (by omega : fuel ≠ 0)
    rw [jsonDecodeLoop, if_pos (drop_eq_nil_iff.mp here)]
    rfl
  | cons char chars ih =>
    obtain ⟨fuel, rfl⟩ := Nat.exists_eq_add_one_of_ne_zero (by omega : fuel ≠ 0)
    have fewer : chars.length < fuel := by
      simp only [length_cons] at enough
      omega
    rw [charsText_cons] at here
    exact jsonDecodeLoop_char here (ih fewer (drop_of_drop here))

theorem length_le_length_charsText (chars : List JsonChar) :
    chars.length ≤ (charsText chars).length := by
  induction chars with
  | nil => exact le_rfl
  | cons char chars ih =>
    have positive : 1 ≤ char.text.length := by cases char <;> simp [JsonChar.text]
    rw [charsText_cons, length_append, length_cons]
    omega

/-- No decoding step fails on what the scanner has accepted. -/
theorem jsonDecodeString_charsText (chars : List JsonChar) :
    jsonDecodeString (charsText chars) = .ok (some (chars.map JsonChar.decoded)) := by
  have short := length_le_length_charsText chars
  exact jsonDecodeLoop_eq (by omega) rfl

/-- A string token with its quotes is read whole. -/
theorem jsonParseStringToken_eq (here : json.drop i = '"' :: (charsText chars ++ '"' :: rest)) :
    jsonParseStringToken json i = .ok (some (i + 1, i + 1 + (charsText chars).length)) := by
  have behind : json.drop (i + 1) = charsText chars ++ '"' :: rest := drop_succ_of_drop here
  have enough : chars.length < json.length - i := by
    have short := length_le_length_charsText chars
    have lengths := congrArg List.length behind
    simp only [length_drop, length_append, length_cons] at lengths
    omega
  have quote : ¬ json[i]? ≠ some '"' := not_not_intro (getElem?_of_drop here)
  unfold jsonParseStringToken
  rw [if_neg quote, jsonStringTokenLoop_eq enough behind]
  rfl

/-- What the scanner passes by are characters, up to a quote. -/
theorem jsonStringTokenLoop_takes (inside : i ≤ json.length) (enough : json.length < i + fuel) :
    Takes json (fun text => ∃ chars, text = charsText chars ++ ['"']) i
      ((jsonStringTokenLoop json fuel i).map (Option.map (· + 1))) := by
  induction fuel generalizing i with
  | zero => omega
  | succ fuel ih =>
    -- a scanner that goes on behind a character
    have onward : ∀ char : JsonChar, ∀ rest, json.drop i = char.text ++ rest →
        Takes json (fun text => ∃ chars, text = charsText chars ++ ['"']) i
          ((jsonStringTokenLoop json (fuel + 1) i).map (Option.map (· + 1))) := by
      intro char rest here
      have behind := drop_of_drop here
      have positive : 1 ≤ char.text.length := by cases char <;> simp [JsonChar.text]
      have lengths := congrArg List.length here
      simp only [length_drop, length_append] at lengths
      rw [jsonStringTokenLoop_char here]
      refine (ih (by omega) (by omega)).behind char.text (by rw [behind]; exact here) ?_
      rintro _ ⟨chars, rfl⟩
      exact ⟨char :: chars, by rw [charsText_cons, append_assoc]⟩
    by_cases beyond : json.length ≤ i
    · rw [jsonStringTokenLoop, if_pos beyond]
      trivial
    · obtain ⟨char, here⟩ := exists_char beyond
      by_cases quote : char = '"'
      · rw [jsonStringTokenLoop, if_neg beyond, charAt_of_drop here]
        subst quote
        exact ⟨['"'], ⟨[], rfl⟩, here, rfl⟩
      · by_cases escape : char = '\\'
        · subst escape
          by_cases last : json.length ≤ i + 1
          · rw [jsonStringTokenLoop, if_neg beyond, charAt_of_drop here]
            simp only [bind, Except.bind, if_neg quote, if_true, if_pos last]
            trivial
          · obtain ⟨letter, second⟩ := exists_char last
            rw [second] at here
            by_cases unicode : letter = 'u'
            · subst unicode
              by_cases short : json.length ≤ i + 5
              · rw [jsonStringTokenLoop, if_neg beyond, charAt_of_drop here]
                simp only [bind, Except.bind, if_neg quote, if_true, if_neg last,
                  charAt_of_drop second, if_pos short]
                trivial
              · have found : ∀ offset < 6, ∃ char,
                    json.drop (i + offset) = char :: json.drop (i + offset + 1) :=
                  fun offset close => exists_char (by omega)
                obtain ⟨h0, third⟩ := found 2 (by omega)
                obtain ⟨h1, fourth⟩ := found 3 (by omega)
                obtain ⟨h2, fifth⟩ := found 4 (by omega)
                obtain ⟨h3, sixth⟩ := found 5 (by omega)
                by_cases hex : IsHexDigit h0 ∧ IsHexDigit h1 ∧ IsHexDigit h2 ∧ IsHexDigit h3
                · refine onward (.unicode h0 h1 h2 h3 hex) (json.drop (i + 6)) ?_
                  rw [here, third, fourth, fifth, sixth]
                  rfl
                · have digits : ([h0, h1, h2, h3].all fun h => (hexDigit? h).isSome) = false := by
                    rw [← Bool.not_eq_true, all_eq_true]
                    intro all
                    exact hex ⟨all h0 (by simp), all h1 (by simp), all h2 (by simp),
                      all h3 (by simp)⟩
                  rw [jsonStringTokenLoop, if_neg beyond, charAt_of_drop here]
                  simp only [bind, Except.bind, if_neg quote, if_true, if_neg last,
                    charAt_of_drop second, if_neg short, charAt_of_drop third,
                    charAt_of_drop fourth, charAt_of_drop fifth, charAt_of_drop sixth, digits]
                  trivial
            · by_cases known : letter ∈ ['"', '\\', '/', 'b', 'f', 'n', 'r', 't']
              · exact onward (.short letter known) (json.drop (i + 2)) here
              · have unknown : (jsonEscape letter).isNone = true := by
                  rw [Option.isNone_iff_eq_none, ← Option.not_isSome_iff_eq_none]
                  exact fun some => known (jsonEscape_isSome_iff.mp some)
                rw [jsonStringTokenLoop, if_neg beyond, charAt_of_drop here]
                simp only [bind, Except.bind, if_neg quote, if_true, if_neg last,
                  charAt_of_drop second, if_neg unicode, if_pos unknown]
                trivial
        · exact onward (.plain char ⟨quote, escape⟩) (json.drop (i + 1)) here

/-- A string token is characters between quotes. -/
theorem jsonParseStringToken_cases (json : StringView) (i : Nat) :
    jsonParseStringToken json i = .ok none ∨ ∃ chars : List JsonChar,
      json.drop i = '"' :: (charsText chars ++ '"' ::
        json.drop (i + 1 + (charsText chars).length + 1)) ∧
      jsonParseStringToken json i = .ok (some (i + 1, i + 1 + (charsText chars).length)) := by
  by_cases quote : json[i]? = some '"'
  · have here := drop_of_getElem? quote
    have inside := lt_length_of_drop here
    have taken : Takes json (fun text => ∃ chars, text = charsText chars ++ ['"']) (i + 1)
        ((jsonStringTokenLoop json (json.length - i) (i + 1)).map (Option.map (· + 1))) :=
      jsonStringTokenLoop_takes (by omega) (by omega)
    unfold jsonParseStringToken
    rw [if_neg (not_not_intro quote)]
    cases outcome : jsonStringTokenLoop json (json.length - i) (i + 1) with
    | error fault =>
      rw [outcome] at taken
      exact taken.elim
    | ok found =>
      cases found with
      | none => exact .inl rfl
      | some close =>
        rw [outcome] at taken
        obtain ⟨text, ⟨chars, rfl⟩, behind, place⟩ := taken
        dsimp only at behind place
        have closes : close = i + 1 + (charsText chars).length := by
          rw [length_append, length_singleton] at place
          omega
        refine .inr ⟨chars, ?_, ?_⟩
        · rw [here, behind, append_assoc, closes]
          rfl
        · rw [closes]
          rfl
  · left
    unfold jsonParseStringToken
    rw [if_pos quote]
    rfl

end Nobify.Evaluator.Json
