import Nobify.Evaluator.Json
import Nobify.Lib.Spans

/-!
# The grammar of JSON

Which texts are JSON texts, over the characters of strings as they are written, with any blank of
`isspace` between the tokens, and what the parser finds at a place of a text.
-/

namespace Nobify.Evaluator.Json

open Lib
open List

variable {i : Nat} {char : Char} {rest : StringView}

/-! ## Characters of strings -/

/-- A hexadecimal digit. -/
def IsHexDigit (char : Char) : Prop := (hexDigit? char).isSome = true

instance : DecidablePred IsHexDigit := fun char =>
  inferInstanceAs (Decidable ((hexDigit? char).isSome = true))

/-- One character of a string as it is written. -/
inductive JsonChar where
  | plain (char : Char) (bare : char ≠ '"' ∧ char ≠ '\\')
  | short (letter : Char) (known : letter ∈ ['"', '\\', '/', 'b', 'f', 'n', 'r', 't'])
  | unicode (h0 h1 h2 h3 : Char)
      (hex : IsHexDigit h0 ∧ IsHexDigit h1 ∧ IsHexDigit h2 ∧ IsHexDigit h3)

theorem bare_a : 'a' ≠ '"' ∧ 'a' ≠ '\\' := by decide

/-- How the character is written. -/
def JsonChar.text : JsonChar → StringView
  | .plain char _ => [char]
  | .short letter _ => ['\\', letter]
  | .unicode h0 h1 h2 h3 _ => ['\\', 'u', h0, h1, h2, h3]

/-- How characters are written. -/
def charsText (chars : List JsonChar) : StringView := chars.flatMap JsonChar.text

/-! ## The grammar -/

/-- At least one digit. -/
def IsDigits (text : StringView) : Prop := text ≠ [] ∧ text.all isDigit = true

/-- The digits in front of the point: no zero in front of another digit. -/
def IsInteger (text : StringView) : Prop :=
  text = ['0'] ∨ ∃ first rest, ('1' ≤ first ∧ first ≤ '9') ∧ rest.all isDigit = true ∧
    text = first :: rest

/-- The point and the digits behind it, or nothing. -/
def IsFraction (text : StringView) : Prop :=
  text = [] ∨ ∃ digits, IsDigits digits ∧ text = '.' :: digits

/-- The exponent, or nothing. -/
def IsExponent (text : StringView) : Prop :=
  text = [] ∨ ∃ letter sign digits, (letter = 'e' ∨ letter = 'E') ∧
    (sign = [] ∨ sign = ['+'] ∨ sign = ['-']) ∧ IsDigits digits ∧ text = letter :: (sign ++ digits)

/-- A number. -/
def IsNumber (text : StringView) : Prop :=
  ∃ sign integer fraction exponent, (sign = [] ∨ sign = ['-']) ∧ IsInteger integer ∧
    IsFraction fraction ∧ IsExponent exponent ∧ text = sign ++ (integer ++ (fraction ++ exponent))

/-- Blanks of `isspace`. -/
def IsBlank (text : StringView) : Prop := text.all isSpace = true

/-- What a piece of text says: a value, the items of an array, or the members of an object. -/
inductive JsonPart where
  | value (tree : JsonValue (List JsonChar))
  | items (items : List (JsonValue (List JsonChar)))
  | members (members : List (List JsonChar × JsonValue (List JsonChar)))

/-- The texts of the parts of JSON. A value has no blanks around it; the items of an array and the
members of an object bring their own. -/
inductive Derives : JsonPart → StringView → Prop where
  | literalNull : Derives (.value .null) (sv "null")
  | literalTrue : Derives (.value (.bool true)) (sv "true")
  | literalFalse : Derives (.value (.bool false)) (sv "false")
  | number {token : StringView} (number : IsNumber token) : Derives (.value (.number token)) token
  | string (chars : List JsonChar) :
    Derives (.value (.string chars)) ('"' :: (charsText chars ++ ['"']))
  | emptyArray {blanks : StringView} (blank : IsBlank blanks) :
    Derives (.value (.array [])) ('[' :: (blanks ++ [']']))
  | array {items : List (JsonValue (List JsonChar))} {text : StringView}
    (inner : Derives (.items items) text) :
    Derives (.value (.array items)) ('[' :: (text ++ [']']))
  | emptyObject {blanks : StringView} (blank : IsBlank blanks) :
    Derives (.value (.object [])) ('{' :: (blanks ++ ['}']))
  | object {members : List (List JsonChar × JsonValue (List JsonChar))} {text : StringView}
    (inner : Derives (.members members) text) :
    Derives (.value (.object members)) ('{' :: (text ++ ['}']))
  | lastItem {tree : JsonValue (List JsonChar)} {before text after : StringView}
    (first : IsBlank before) (inner : Derives (.value tree) text) (last : IsBlank after) :
    Derives (.items [tree]) (before ++ (text ++ after))
  | item {tree : JsonValue (List JsonChar)} {items : List (JsonValue (List JsonChar))}
    {before text after others : StringView} (first : IsBlank before)
    (inner : Derives (.value tree) text) (last : IsBlank after)
    (rest : Derives (.items items) others) :
    Derives (.items (tree :: items)) (before ++ (text ++ (after ++ ',' :: others)))
  | lastMember {key : List JsonChar} {tree : JsonValue (List JsonChar)}
    {front behind before text after : StringView} (ahead : IsBlank front) (colon : IsBlank behind)
    (first : IsBlank before) (inner : Derives (.value tree) text) (last : IsBlank after) :
    Derives (.members [(key, tree)])
      (front ++ ('"' :: (charsText key ++ '"' :: (behind ++ ':' :: (before ++ (text ++ after))))))
  | member {key : List JsonChar} {tree : JsonValue (List JsonChar)}
    {members : List (List JsonChar × JsonValue (List JsonChar))}
    {front behind before text after others : StringView} (ahead : IsBlank front)
    (colon : IsBlank behind) (first : IsBlank before) (inner : Derives (.value tree) text)
    (last : IsBlank after) (rest : Derives (.members members) others) :
    Derives (.members ((key, tree) :: members)) (front ++ ('"' :: (charsText key ++ '"' ::
        (behind ++ ':' :: (before ++ (text ++ (after ++ ',' :: others)))))))

/-- A JSON text and what its derivation says: a value with blanks around it. -/
def IsJson (json : StringView) (tree : JsonValue (List JsonChar)) : Prop :=
  ∃ before text after, IsBlank before ∧ Derives (.value tree) text ∧ IsBlank after ∧
    json = before ++ (text ++ after)

/-! ## Reading at a place -/

variable {json : StringView}

variable (here : json.drop i = char :: rest)

include here

/-- The character at a place in the text. -/
theorem charAt_of_drop : charAt json i = .ok char := by
  have found : json[i]? = some char := by
    have front := congrArg List.head? here
    rwa [List.head?_drop] at front
  rw [charAt, found]

/-- The characters behind a place. -/
theorem drop_succ_of_drop : json.drop (i + 1) = rest := by
  have tail := congrArg List.tail here
  rwa [tail_drop] at tail

omit here

theorem drop_of_drop {front : StringView} (here : json.drop i = front ++ rest) :
    json.drop (i + front.length) = rest := by
  rw [← drop_drop, here, drop_left]

include here in
theorem getElem?_of_drop : json[i]? = some char := by
  have front := congrArg List.head? here
  rwa [List.head?_drop] at front

theorem drop_of_getElem? (here : json[i]? = some char) :
    json.drop i = char :: json.drop (i + 1) := by
  obtain ⟨inside, rfl⟩ := List.getElem?_eq_some_iff.mp here
  exact drop_eq_getElem_cons inside

include here in
/-- A place in the text has a character. -/
theorem lt_length_of_drop : i < json.length := by
  by_contra beyond
  have empty : json.drop i = [] := drop_eq_nil_of_le (by omega)
  rw [empty] at here
  cases here

theorem exists_char (inside : ¬ json.length ≤ i) :
    ∃ char, json.drop i = char :: json.drop (i + 1) :=
  ⟨json[i], drop_eq_getElem_cons (by omega)⟩

/-- A loop over characters stops at the first other one. -/
theorem skipWhile_eq {accepts : Char → Bool} {run : StringView} (here : json.drop i = run ++ rest)
    (all : run.all accepts = true) (stops : ∀ char ∈ rest.head?, accepts char = false) :
    skipWhile accepts json i = i + run.length := by
  have taken : (run ++ rest).takeWhile accepts = run :=
    Spans.takeWhile_eq_iff.mpr ⟨rest, rfl, all_eq_true.mp all, stops⟩
  rw [skipWhile, here, taken]

/-- What a loop over characters passes by, and where it stops. -/
theorem drop_skipWhile (accepts : Char → Bool) (json : StringView) (i : Nat) :
    ∃ run, run.all accepts = true ∧ json.drop i = run ++ json.drop (skipWhile accepts json i) ∧
      skipWhile accepts json i = i + run.length ∧
      ∀ char ∈ (json.drop (skipWhile accepts json i)).head?, accepts char = false := by
  have split : json.drop i = (json.drop i).takeWhile accepts ++ (json.drop i).dropWhile accepts :=
    (takeWhile_append_dropWhile).symm
  have behind : json.drop (skipWhile accepts json i) = (json.drop i).dropWhile accepts :=
    drop_of_drop split
  refine ⟨(json.drop i).takeWhile accepts, all_takeWhile, ?_, rfl, fun char first => ?_⟩
  · rw [behind]
    exact split
  · rw [behind] at first
    have stops := List.head?_dropWhile_not accepts (json.drop i)
    rw [Option.mem_def.mp first] at stops
    exact stops

end Nobify.Evaluator.Json
