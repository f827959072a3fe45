import Nobify.Evaluator.JsonTokens

/-!
# Which texts are JSON texts

The parser accepts exactly the texts of the grammar, ends on every text without a read outside of
it, and gives what the only derivation of the text says, with each string as the decoder has it.
-/

namespace Nobify.Evaluator.Json

open Lib
open List

variable {tree : JsonValue (List JsonChar)} {blanks rest text : StringView} {fuel i : Nat}
  {char : Char}

variable {json : StringView}

/-! ## Every text of the grammar is read -/

/-- A character that starts a value or a key. -/
def StartsPart (char : Char) : Prop := isSpace char = false ∧ char ≠ ']' ∧ char ≠ '\x7d'

theorem startsPart_of_isDigit {digit : Char} (isDigit : isDigit digit = true) :
    StartsPart digit := by
  refine ⟨?_, ?_, ?_⟩
  · by_contra blank
    have ends : EndsValue [digit] := by
      intro char first
      cases Option.some.inj first
      exact .inl (by simpa using blank)
    have other := (ends.stops digit rfl).1
    rw [isDigit] at other
    contradiction
  · rintro rfl
    exact absurd isDigit (by decide)
  · rintro rfl
    exact absurd isDigit (by decide)

/-- How a value starts. -/
theorem Derives.value_head (derives : Derives (.value tree) text) :
    ∃ char more, text = char :: more ∧ StartsPart char := by
  cases derives with
  | literalNull => exact ⟨'n', _, rfl, by decide, by decide, by decide⟩
  | literalTrue => exact ⟨'t', _, rfl, by decide, by decide, by decide⟩
  | literalFalse => exact ⟨'f', _, rfl, by decide, by decide, by decide⟩
  | number number =>
    obtain ⟨sign, integer, fraction, exponent, signs, isInteger, -, -, rfl⟩ := number
    obtain ⟨digit, more, rfl, isDigit⟩ := isInteger.exists_cons
    rcases signs with rfl | rfl
    · exact ⟨digit, _, rfl, startsPart_of_isDigit isDigit⟩
    · exact ⟨'-', _, rfl, by decide, by decide, by decide⟩
  | string chars => exact ⟨'"', _, rfl, by decide, by decide, by decide⟩
  | emptyArray blank => exact ⟨'[', _, rfl, by decide, by decide, by decide⟩
  | array inner => exact ⟨'[', _, rfl, by decide, by decide, by decide⟩
  | emptyObject blank => exact ⟨'\x7b', _, rfl, by decide, by decide, by decide⟩
  | object inner => exact ⟨'\x7b', _, rfl, by decide, by decide, by decide⟩

/-- How the items of an array start behind their blanks. -/
theorem Derives.items_head {items : List (JsonValue (List JsonChar))}
    (derives : Derives (.items items) text) :
    ∃ blanks char more, text = blanks ++ char :: more ∧ IsBlank blanks ∧ StartsPart char := by
  cases derives with
  | lastItem first inner last =>
    obtain ⟨char, more, rfl, starts⟩ := inner.value_head
    exact ⟨_, char, _, rfl, first, starts⟩
  | item first inner last rest =>
    obtain ⟨char, more, rfl, starts⟩ := inner.value_head
    exact ⟨_, char, _, rfl, first, starts⟩

/-- The members of an object start with a key. -/
theorem Derives.members_head {members : List (List JsonChar × JsonValue (List JsonChar))}
    (derives : Derives (.members members) text) :
    ∃ blanks more, text = blanks ++ '"' :: more ∧ IsBlank blanks := by
  cases derives with
  | lastMember ahead colon first inner last => exact ⟨_, _, rfl, ahead⟩
  | member ahead colon first inner last rest => exact ⟨_, _, rfl, ahead⟩

/-- Blanks in front of something else are passed by. -/
theorem jsonSkipWs_eq (blank : IsBlank blanks) (here : json.drop i = blanks ++ char :: rest)
    (visible : isSpace char = false) : jsonSkipWs json i = i + blanks.length := by
  refine skipWhile_eq here blank fun other first => ?_
  cases Option.some.inj first
  exact visible

/-- Blanks up to the end are passed by. -/
theorem jsonSkipWs_end (blank : IsBlank blanks) (here : json.drop i = blanks) :
    jsonSkipWs json i = i + blanks.length := by
  have split : json.drop i = blanks ++ [] := by rw [here, append_nil]
  exact skipWhile_eq split blank fun _ first => by cases first

theorem endsValue_behind_blanks {blanks rest : StringView} {char : Char} (blank : IsBlank blanks)
    (closes : char = ',' ∨ char = ']' ∨ char = '\x7d') : EndsValue (blanks ++ char :: rest) := by
  intro other first
  cases blanks with
  | nil =>
    cases Option.some.inj first
    exact .inr closes
  | cons space more =>
    obtain rfl : space = other := Option.some.inj first
    exact .inl (all_eq_true.mp blank space mem_cons_self)

theorem endsValue_of_blanks (blank : IsBlank blanks) : EndsValue blanks := by
  intro char first
  exact .inl (all_eq_true.mp blank char (mem_of_mem_head? first))

/-- A comma behind blanks. -/
theorem jsonvNext_comma (blank : IsBlank blanks) (here : json.drop i = blanks ++ ',' :: rest)
    (closer : Char) (unterminated unexpected : StringView) :
    jsonvNext json i closer unterminated unexpected =
      .ok (true, jsonSkipWs json (i + blanks.length + 1)) := by
  have skipped := jsonSkipWs_eq blank here (by decide)
  have behind := drop_of_drop here
  have inside := lt_length_of_drop behind
  unfold jsonvNext
  simp only [skipped]
  rw [if_neg (by omega), charAt_of_drop behind]
  simp [bind, Except.bind, pure, Except.pure]

/-- The closer behind blanks. -/
theorem jsonvNext_closer {closer : Char} (blank : IsBlank blanks)
    (here : json.drop i = blanks ++ closer :: rest) (visible : isSpace closer = false)
    (other : closer ≠ ',') (unterminated unexpected : StringView) :
    jsonvNext json i closer unterminated unexpected = .ok (false, i + blanks.length + 1) := by
  have skipped := jsonSkipWs_eq blank here visible
  have behind := drop_of_drop here
  have inside := lt_length_of_drop behind
  unfold jsonvNext
  simp only [skipped]
  rw [if_neg (by omega), charAt_of_drop behind]
  simp [bind, Except.bind, pure, Except.pure, other]

section Readers

variable {τ : Type} {decode : StringView → JsonResult (Option τ)} {read : List JsonChar → τ}

variable (decodes : ∀ chars, decode (charsText chars) = .ok (some (read chars)))

include decodes

/-- A string with its quotes. -/
theorem jsonParseString_eq {chars : List JsonChar}
    (here : json.drop i = '"' :: (charsText chars ++ '"' :: rest))
    (invalid undecodable : StringView) :
    jsonParseString decode json i invalid undecodable =
      .ok (read chars, i + (charsText chars).length + 2) := by
  have inner : (json.drop (i + 1)).take (charsText chars).length = charsText chars := by
    rw [drop_succ_of_drop here, take_left]
  unfold jsonParseString
  rw [jsonParseStringToken_eq here]
  simp only [bind, Except.bind, Nat.add_sub_cancel_left, inner, decodes, pure, Except.pure]
  congr 2
  omega

/-- A key, the colon and the blanks around it. -/
theorem jsonvParseKey_eq {key : List JsonChar} {behind before : StringView}
    (here : json.drop i = '"' :: (charsText key ++ '"' :: (behind ++ ':' :: (before ++ char ::
      rest))))
    (colon : IsBlank behind) (blank : IsBlank before) (visible : isSpace char = false) :
    jsonvParseKey decode json i = .ok (read key,
      i + (charsText key).length + behind.length + before.length + 3) := by
  have atColon : json.drop (i + (charsText key).length + 2) =
      behind ++ ':' :: (before ++ char :: rest) := by
    have inner := drop_of_drop (drop_succ_of_drop here)
    rw [show i + (charsText key).length + 2 = i + 1 + (charsText key).length + 1 by omega]
    exact drop_succ_of_drop inner
  have skipped := jsonSkipWs_eq colon atColon (by decide)
  have point := drop_of_drop atColon
  have last := jsonSkipWs_eq blank (drop_succ_of_drop point) visible
  unfold jsonvParseKey
  rw [jsonParseString_eq decodes here]
  simp only [bind, Except.bind, skipped, getElem?_of_drop point, if_true, last, pure, Except.pure]
  congr 2
  omega

omit decodes

/-- A literal. -/
theorem jsonParseLiteral_eq (lit : StringView) (here : json.drop i = lit ++ rest)
    (nonempty : lit ≠ []) (value : JsonValue τ) :
    jsonParseLiteral json i lit value = .ok (value, i + lit.length) := by
  have taken : (json.drop i).take lit.length = lit := by rw [here, take_left]
  have positive : 0 < lit.length := length_pos_iff.mpr nonempty
  have lengths := congrArg List.length here
  simp only [length_drop, length_append] at lengths
  unfold jsonParseLiteral jsonMatchLit
  rw [if_neg (by omega), if_pos taken]

/-- What the parser makes of a part: a value with blanks in front, the items of an array up to its
closer, the members of an object up to its closer. -/
def Parses (json : StringView) (decode : StringView → JsonResult (Option τ))
    (read : List JsonChar → τ) : JsonPart → StringView → Prop
  | .value tree, text => ∀ i blanks rest fuel, IsBlank blanks →
    json.drop i = blanks ++ (text ++ rest) → EndsValue rest → 3 * text.length ≤ fuel →
    jsonvParseValue decode json fuel i = .ok (tree.map read, i + blanks.length + text.length)
  | .items items, text => ∀ i rest fuel done, json.drop i = text ++ ']' :: rest →
    3 * text.length < fuel →
    jsonvParseItems decode json fuel done (jsonSkipWs json i) =
      .ok (.array (done ++ items.map (JsonValue.map read)), i + text.length + 1)
  | .members members, text => ∀ i rest fuel done, json.drop i = text ++ '\x7d' :: rest →
    3 * text.length < fuel →
    jsonvParseMembers decode json fuel done (jsonSkipWs json i) =
      .ok (.object (done ++ members.map fun member => (read member.1, member.2.map read)),
        i + text.length + 1)

/-- What a value is parsed as is told by its first character. -/
theorem jsonvParseValue_start (blank : IsBlank blanks) (here : json.drop i = blanks ++ char :: rest)
    (visible : isSpace char = false) :
    jsonvParseValue decode json (fuel + 1) i =
      if char = '\x7b' then jsonvParseObject decode json fuel (i + blanks.length)
      else if char = '[' then jsonvParseArray decode json fuel (i + blanks.length)
      else jsonvParseScalar decode json (i + blanks.length) char := by
  have skipped := jsonSkipWs_eq blank here visible
  have behind := drop_of_drop here
  have inside := lt_length_of_drop behind
  rw [jsonvParseValue]
  simp only [skipped]
  rw [if_neg (by omega), charAt_of_drop behind]
  rfl

/-- A value that is no container. -/
theorem parses_scalar {tree : JsonValue (List JsonChar)} {char : Char} {more : StringView}
    (visible : isSpace char = false) (noObject : char ≠ '\x7b') (noArray : char ≠ '[')
    (scalar : ∀ i rest, json.drop i = (char :: more) ++ rest → EndsValue rest →
      jsonvParseScalar decode json i char = .ok (tree.map read, i + (char :: more).length)) :
    Parses json decode read (.value tree) (char :: more) := by
  intro i blanks rest fuel blank here ends enough
  obtain ⟨fuel, rfl⟩ := Nat.exists_eq_add_one_of_ne_zero (n := fuel) (by
    simp only [length_cons] at enough
    omega)
  rw [jsonvParseValue_start blank here visible, if_neg noObject, if_neg noArray]
  exact scalar _ rest (drop_of_drop here) ends

/-- A number is no other value. -/
theorem parses_number {token : StringView} (number : IsNumber token) :
    Parses json decode read (.value (.number token)) token := by
  obtain ⟨char, more, same, visible, -, -⟩ := (Derives.number number).value_head
  have first : char = '-' ∨ isDigit char = true := by
    obtain ⟨sign, integer, fraction, exponent, signs, isInteger, -, -, parts⟩ := number
    obtain ⟨digit, others, rfl, digits⟩ := isInteger.exists_cons
    rcases signs with rfl | rfl
    · rw [same] at parts
      cases List.cons.inj parts |>.1
      exact .inr digits
    · rw [same] at parts
      exact .inl (List.cons.inj parts).1
  have other : ∀ char', isDigit char' = false → char' ≠ '-' → char ≠ char' := by
    rintro char' noDigit noSign rfl
    rcases first with minus | digit
    · exact noSign minus
    · rw [noDigit] at digit
      contradiction
  have range : char = '-' ∨ ('0' ≤ char ∧ char ≤ '9') := by
    rcases first with minus | digit
    · exact .inl minus
    · exact .inr (by simpa [isDigit] using digit)
  subst same
  refine parses_scalar visible (other _ (by decide) (by decide)) (other _ (by decide) (by decide))
    fun i rest here ends => ?_
  have whole := jsonParseNumberToken_eq number here ends
  have inner : (json.drop i).take (i + (char :: more).length - i) = char :: more := by
    rw [here, Nat.add_sub_cancel_left, take_left]
  unfold jsonvParseScalar
  rw [if_neg (other _ (by decide) (by decide)), if_pos range, whole]
  simp only [bind, Except.bind, pure, Except.pure, inner, JsonValue.map]

/-- Two results with one value and the same place. -/
theorem ok_place {α : Type} {value : α} {first second : Nat}
    (same : first = second := by simp only [length_append, length_cons, length_nil]; omega) :
    (Except.ok (value, first) : JsonResult (α × Nat)) = .ok (value, second) := by rw [same]

/-- What a container meets behind its opener. -/
theorem behind_opener {opener : Char} (blank : IsBlank blanks)
    (here : json.drop i = opener :: (blanks ++ char :: rest)) (visible : isSpace char = false) :
    json[i]? = some opener ∧ jsonSkipWs json (i + 1) = i + 1 + blanks.length ∧
      json[i + 1 + blanks.length]? = some char := by
  have inner := drop_succ_of_drop here
  exact ⟨getElem?_of_drop here, jsonSkipWs_eq blank inner visible,
    getElem?_of_drop (drop_of_drop inner)⟩

theorem jsonvParseArray_empty (blank : IsBlank blanks)
    (here : json.drop i = '[' :: (blanks ++ ']' :: rest)) :
    jsonvParseArray decode json (fuel + 1) i = .ok (.array [], i + blanks.length + 2) := by
  obtain ⟨opener, skipped, closer⟩ := behind_opener blank here (by decide)
  rw [jsonvParseArray, if_pos opener]
  simp only [skipped, closer, if_true]
  exact ok_place (by omega)

theorem jsonvParseArray_items (blank : IsBlank blanks)
    (here : json.drop i = '[' :: (blanks ++ char :: rest)) (starts : StartsPart char) :
    jsonvParseArray decode json (fuel + 1) i =
      jsonvParseItems decode json fuel [] (jsonSkipWs json (i + 1)) := by
  obtain ⟨opener, skipped, first⟩ := behind_opener blank here starts.1
  rw [jsonvParseArray, if_pos opener]
  simp only [skipped, first, Option.some.injEq, if_neg starts.2.1]

theorem jsonvParseObject_empty (blank : IsBlank blanks)
    (here : json.drop i = '\x7b' :: (blanks ++ '\x7d' :: rest)) :
    jsonvParseObject decode json (fuel + 1) i = .ok (.object [], i + blanks.length + 2) := by
  obtain ⟨opener, skipped, closer⟩ := behind_opener blank here (by decide)
  rw [jsonvParseObject, if_pos opener]
  simp only [skipped, closer, if_true]
  exact ok_place (by omega)

theorem jsonvParseObject_members (blank : IsBlank blanks)
    (here : json.drop i = '\x7b' :: (blanks ++ char :: rest)) (starts : StartsPart char) :
    jsonvParseObject decode json (fuel + 1) i =
      jsonvParseMembers decode json fuel [] (jsonSkipWs json (i + 1)) := by
  obtain ⟨opener, skipped, first⟩ := behind_opener blank here starts.1
  rw [jsonvParseObject, if_pos opener]
  simp only [skipped, first, Option.some.injEq, if_neg starts.2.2]

/-- Where the value of a member stands. -/
theorem drop_of_member {front key behind before rest : StringView}
    (atKey : json.drop (i + front.length) =
      '"' :: (key ++ '"' :: (behind ++ ':' :: (before ++ rest)))) :
    json.drop (i + front.length + key.length + behind.length + before.length + 3) = rest := by
  have inner := drop_of_drop (drop_succ_of_drop atKey)
  have point := drop_of_drop (drop_succ_of_drop inner)
  have place := drop_of_drop (drop_succ_of_drop point)
  rw [← place]
  congr 1
  omega

include decodes in
/-- The parser reads every text of the grammar as what its derivation says. -/
theorem Derives.parses {part : JsonPart} (derives : Derives part text) :
    Parses json decode read part text := by
  induction derives with
  | literalNull =>
    refine parses_scalar (by decide) (by decide) (by decide) fun i rest here _ => ?_
    exact jsonParseLiteral_eq (sv "null") here (by decide) .null
  | literalTrue =>
    refine parses_scalar (by decide) (by decide) (by decide) fun i rest here _ => ?_
    exact jsonParseLiteral_eq (sv "true") here (by decide) (.bool true)
  | literalFalse =>
    refine parses_scalar (by decide) (by decide) (by decide) fun i rest here _ => ?_
    exact jsonParseLiteral_eq (sv "false") here (by decide) (.bool false)
  | number number => exact parses_number number
  | string chars =>
    refine parses_scalar (by decide) (by decide) (by decide) fun i rest here _ => ?_
    have quoted : json.drop i = '"' :: (charsText chars ++ '"' :: rest) := by simpa using here
    unfold jsonvParseScalar
    rw [if_pos rfl, jsonParseString_eq decodes quoted]
    exact ok_place
  | emptyArray blank =>
    intro i blanks rest fuel before here ends enough
    simp only [length_cons, length_append] at enough
    obtain ⟨fuel, rfl⟩ := Nat.exists_eq_add_of_le' (show 2 ≤ fuel by omega)
    simp only [cons_append, append_assoc, nil_append] at here
    rw [jsonvParseValue_start before here (by decide)]
    refine (jsonvParseArray_empty blank (drop_of_drop here)).trans ?_
    exact ok_place
  | array inner ih =>
    intro i blanks rest fuel before here ends enough
    simp only [length_cons, length_append] at enough
    obtain ⟨fuel, rfl⟩ := Nat.exists_eq_add_of_le' (show 2 ≤ fuel by omega)
    simp only [cons_append, append_assoc, nil_append] at here
    have start := drop_of_drop here
    have items := ih _ rest fuel [] (drop_succ_of_drop start) (by omega)
    obtain ⟨front, char, more, rfl, blank, starts⟩ := inner.items_head
    simp only [cons_append, append_assoc] at start
    rw [jsonvParseValue_start before here (by decide)]
    refine ((jsonvParseArray_items blank start starts).trans items).trans ?_
    simp only [JsonValue.map, JsonValue.mapItems_eq, nil_append]
    exact ok_place
  | emptyObject blank =>
    intro i blanks rest fuel before here ends enough
    simp only [length_cons, length_append] at enough
    obtain ⟨fuel, rfl⟩ := Nat.exists_eq_add_of_le' (show 2 ≤ fuel by omega)
    simp only [cons_append, append_assoc, nil_append] at here
    rw [jsonvParseValue_start before here (by decide)]
    refine (jsonvParseObject_empty blank (drop_of_drop here)).trans ?_
    exact ok_place
  | object inner ih =>
    intro i blanks rest fuel before here ends enough
    simp only [length_cons, length_append] at enough
    obtain ⟨fuel, rfl⟩ := Nat.exists_eq_add_of_le' (show 2 ≤ fuel by omega)
    simp only [cons_append, append_assoc, nil_append] at here
    have start := drop_of_drop here
    have members := ih _ rest fuel [] (drop_succ_of_drop start) (by omega)
    obtain ⟨front, more, rfl, blank⟩ := inner.members_head
    simp only [cons_append, append_assoc] at start
    rw [jsonvParseValue_start before here (by decide)]
    refine ((jsonvParseObject_members blank start ⟨by decide, by decide, by decide⟩).trans
      members).trans ?_
    simp only [JsonValue.map, JsonValue.mapMembers_eq, nil_append]
    exact ok_place
  | lastItem first inner last ih =>
    intro i rest fuel done here enough
    simp only [length_append] at enough
    obtain ⟨fuel, rfl⟩ := Nat.exists_eq_add_one_of_ne_zero (n := fuel) (by omega)
    simp only [append_assoc] at here
    have behind := drop_of_drop here
    have value := ih _ [] _ fuel rfl behind (endsValue_behind_blanks last (.inr (.inl rfl)))
      (by omega)
    have closes := jsonvNext_closer last (drop_of_drop behind) (by decide) (by decide)
    obtain ⟨char, more, rfl, starts⟩ := inner.value_head
    have skipped := jsonSkipWs_eq first here starts.1
    rw [jsonvParseItems, skipped, value]
    simp only [bind, Except.bind, length_nil, Nat.add_zero, closes, pure, Except.pure]
    rw [if_neg (by decide)]
    exact ok_place
  | @item tree items before text after othersText first inner last rest ih others =>
    intro i behindAll fuel done here enough
    simp only [length_append, length_cons] at enough
    obtain ⟨fuel, rfl⟩ := Nat.exists_eq_add_one_of_ne_zero (n := fuel) (by omega)
    simp only [append_assoc, cons_append] at here
    have behind := drop_of_drop here
    have value := ih _ [] _ fuel rfl behind (endsValue_behind_blanks last (.inl rfl)) (by omega)
    have comma := jsonvNext_comma last (drop_of_drop behind)
    have later := others _ behindAll fuel (done ++ [tree.map read])
      (drop_succ_of_drop (drop_of_drop (drop_of_drop behind))) (by omega)
    obtain ⟨char, more, rfl, starts⟩ := inner.value_head
    have skipped := jsonSkipWs_eq first here starts.1
    rw [jsonvParseItems, skipped, value]
    simp only [bind, Except.bind, length_nil, Nat.add_zero, comma, if_true]
    rw [later]
    simp only [map_cons, append_assoc, singleton_append]
    exact ok_place
  | @lastMember key tree front behind before text after ahead colon first inner last ih =>
    intro i rest fuel done here enough
    simp only [length_append, length_cons] at enough
    obtain ⟨fuel, rfl⟩ := Nat.exists_eq_add_one_of_ne_zero (n := fuel) (by omega)
    simp only [append_assoc, cons_append] at here
    have skipped := jsonSkipWs_eq ahead here (by decide)
    have atKey := drop_of_drop here
    have atValue := drop_of_member atKey
    have value := ih _ [] _ fuel rfl atValue (endsValue_behind_blanks last (.inr (.inr rfl)))
      (by omega)
    have closes := jsonvNext_closer last (drop_of_drop atValue) (by decide) (by decide)
    obtain ⟨char, more, rfl, starts⟩ := inner.value_head
    rw [jsonvParseMembers, skipped, jsonvParseKey_eq decodes atKey colon first starts.1]
    simp only [bind, Except.bind, value, length_nil, Nat.add_zero, closes, pure, Except.pure]
    rw [if_neg (by decide)]
    exact ok_place
  | @member key tree members front behind before text after othersText ahead colon first inner last
      rest ih others =>
    intro i behindAll fuel done here enough
    simp only [length_append, length_cons] at enough
    obtain ⟨fuel, rfl⟩ := Nat.exists_eq_add_one_of_ne_zero (n := fuel) (by omega)
    simp only [append_assoc, cons_append] at here
    have skipped := jsonSkipWs_eq ahead here (by decide)
    have atKey := drop_of_drop here
    have atValue := drop_of_member atKey
    have value := ih _ [] _ fuel rfl atValue (endsValue_behind_blanks last (.inl rfl)) (by omega)
    have comma := jsonvNext_comma last (drop_of_drop atValue)
    have later := others _ behindAll fuel (done ++ [(read key, tree.map read)])
      (drop_succ_of_drop (drop_of_drop (drop_of_drop atValue))) (by omega)
    obtain ⟨char, more, rfl, starts⟩ := inner.value_head
    rw [jsonvParseMembers, skipped, jsonvParseKey_eq decodes atKey colon first starts.1]
    simp only [bind, Except.bind, value, length_nil, Nat.add_zero, comma, if_true]
    rw [later]
    simp only [map_cons, append_assoc, singleton_append]
    exact ok_place

/-! ## What is read is a text of the grammar -/

/-- A result that is no fault of the parser: something of a kind, or a rejection. -/
def Yields {α : Type} (kind : α → Prop) : JsonResult α → Prop
  | .ok found => kind found
  | .error (.rejected _) => True
  | .error _ => False

theorem Yields.bind {α β : Type} {first : JsonResult α} {next : α → JsonResult β}
    {kind : α → Prop} {whole : β → Prop} (head : Yields kind first)
    (tail : ∀ found, kind found → Yields whole (next found)) : Yields whole (first >>= next) := by
  cases first with
  | ok found => exact tail found head
  | error fault =>
    cases fault with
    | rejected message => trivial
    | undecodable message => exact head
    | outside => exact head
    | stuck => exact head

theorem Yields.mono {α : Type} {result : JsonResult α} {kind whole : α → Prop}
    (yields : Yields kind result) (weaker : ∀ found, kind found → whole found) :
    Yields whole result := by
  cases result with
  | ok found => exact weaker found yields
  | error fault => cases fault <;> exact yields

/-- The cursor goes on over a text. -/
def Passes (json : StringView) (i j : Nat) (text : StringView) : Prop :=
  json.drop i = text ++ json.drop j ∧ j = i + text.length

theorem Passes.le {j : Nat} (passes : Passes json i j text) (inside : i ≤ json.length) :
    j ≤ json.length := by
  have lengths := congrArg List.length passes.1
  have place := passes.2
  simp only [length_append, length_drop] at lengths
  omega

theorem Passes.trans {j k : Nat} {first second : StringView} (head : Passes json i j first)
    (tail : Passes json j k second) : Passes json i k (first ++ second) := by
  refine ⟨?_, ?_⟩
  · rw [head.1, tail.1, append_assoc]
  · rw [tail.2, head.2, length_append]
    omega

theorem passes_char (here : json[i]? = some char) :
    Passes json i (i + 1) [char] := ⟨drop_of_getElem? here, rfl⟩

theorem passes_blanks (json : StringView) (i : Nat) :
    ∃ blanks, IsBlank blanks ∧ Passes json i (jsonSkipWs json i) blanks := by
  obtain ⟨run, blank, split, place, -⟩ := drop_skipWhile isSpace json i
  exact ⟨run, blank, split, place⟩

include decodes

theorem jsonParseString_yields
    (i : Nat)
    (invalid undecodable : StringView) :
    Yields (fun found => ∃ chars, found.1 = read chars ∧
      Passes json i found.2 ('"' :: (charsText chars ++ ['"'])))
      (jsonParseString decode json i invalid undecodable) := by
  rcases jsonParseStringToken_cases json i with none | ⟨chars, here, -⟩
  · unfold jsonParseString
    rw [none]
    trivial
  · rw [jsonParseString_eq decodes here]
    refine ⟨chars, rfl, ?_, ?_⟩
    · have place : i + 1 + (charsText chars).length + 1 = i + (charsText chars).length + 2 := by
        omega
      rw [here, place]
      simp
    · simp only [length_cons, length_append, length_nil]
      omega

theorem jsonvParseKey_yields
    (i : Nat) :
    Yields (fun found => ∃ key behind before, found.1 = read key ∧ IsBlank behind ∧ IsBlank before ∧
      Passes json i found.2 ('"' :: (charsText key ++ '"' :: (behind ++ ':' :: before))))
      (jsonvParseKey decode json i) := by
  unfold jsonvParseKey
  refine (jsonParseString_yields decodes i _ _).bind ?_
  rintro ⟨text, j⟩ ⟨key, rfl, passes⟩
  obtain ⟨behind, blankBehind, passesBehind⟩ := passes_blanks json j
  dsimp only
  by_cases colon : json[jsonSkipWs json j]? = some ':'
  · obtain ⟨before, blankBefore, passesBefore⟩ := passes_blanks json (jsonSkipWs json j + 1)
    rw [if_pos colon]
    refine ⟨key, behind, before, rfl, blankBehind, blankBefore, ?_⟩
    have whole := ((passes.trans passesBehind).trans (passes_char colon)).trans passesBefore
    simpa using whole
  · rw [if_neg colon]
    trivial

omit decodes

theorem jsonvNext_yields (i : Nat) (closer : Char) (unterminated unexpected : StringView) :
    Yields (fun found => ∃ after, IsBlank after ∧
      if found.1 = true then ∃ front, IsBlank front ∧ Passes json i found.2 (after ++ ',' :: front)
      else Passes json i found.2 (after ++ [closer]))
      (jsonvNext json i closer unterminated unexpected) := by
  obtain ⟨after, blank, passes⟩ := passes_blanks json i
  unfold jsonvNext
  by_cases beyond : json.length ≤ jsonSkipWs json i
  · simp only [if_pos beyond]
    trivial
  · obtain ⟨char, here⟩ := exists_char beyond
    simp only [if_neg beyond, charAt_of_drop here, bind, Except.bind, pure, Except.pure]
    have passesChar := passes.trans (passes_char (getElem?_of_drop here))
    by_cases comma : char = ','
    · obtain ⟨front, blankFront, passesFront⟩ := passes_blanks json (jsonSkipWs json i + 1)
      subst comma
      have whole := passesChar.trans passesFront
      rw [append_assoc, singleton_append] at whole
      rw [if_pos rfl]
      exact ⟨after, blank, front, blankFront, whole⟩
    · rw [if_neg comma]
      by_cases closes : char = closer
      · subst closes
        rw [if_pos rfl]
        exact ⟨after, blank, passesChar⟩
      · rw [if_neg closes]
        trivial

/-- What reading a value gives. -/
def IsValueAt (json : StringView) (read : List JsonChar → τ) (i : Nat)
    (found : JsonValue τ × Nat) : Prop :=
  ∃ tree blanks text, found.1 = tree.map read ∧ IsBlank blanks ∧ Derives (.value tree) text ∧
    Passes json i found.2 (blanks ++ text)

theorem jsonParseLiteral_yields {lit : StringView} (derives : Derives (.value tree) lit) :
    Yields (IsValueAt json read i) (jsonParseLiteral json i lit (tree.map read)) := by
  unfold jsonParseLiteral jsonMatchLit
  by_cases beyond : json.length < i + lit.length
  · rw [if_pos beyond]
    trivial
  · rw [if_neg beyond]
    by_cases found : (json.drop i).take lit.length = lit
    · rw [if_pos found]
      refine ⟨tree, [], lit, rfl, rfl, derives, ?_, rfl⟩
      have split := take_append_drop lit.length (json.drop i)
      rw [found, drop_drop] at split
      exact split.symm
    · rw [if_neg found]
      trivial

include decodes in
theorem jsonvParseScalar_yields
    (i : Nat)
    (char : Char) : Yields (IsValueAt json read i) (jsonvParseScalar decode json i char) := by
  unfold jsonvParseScalar
  split
  · refine (jsonParseString_yields decodes i _ _).bind ?_
    rintro ⟨text, j⟩ ⟨chars, rfl, passes⟩
    exact ⟨.string chars, [], _, rfl, rfl, .string chars, passes⟩
  · split
    · have takes := jsonParseNumberToken_takes json i
      cases outcome : jsonParseNumberToken json i with
      | error fault =>
        rw [outcome] at takes
        exact takes.elim
      | ok found =>
        cases found with
        | none => trivial
        | some j =>
          rw [outcome] at takes
          obtain ⟨token, number, split, place⟩ := takes
          refine ⟨.number token, [], token, ?_, rfl, .number number, split, place⟩
          simp only [JsonValue.map]
          rw [split, place, Nat.add_sub_cancel_left, take_left]
    · split
      · exact jsonParseLiteral_yields .literalTrue
      · split
        · exact jsonParseLiteral_yields .literalFalse
        · split
          · exact jsonParseLiteral_yields .literalNull
          · trivial

theorem IsBlank.append {first second : StringView} (head : IsBlank first) (tail : IsBlank second) :
    IsBlank (first ++ second) := by
  unfold IsBlank at *
  rw [all_append, head, tail]
  rfl

/-- Items may have more blanks in front. -/
theorem Derives.items_behind {items : List (JsonValue (List JsonChar))}
    (derives : Derives (.items items) text) (blank : IsBlank blanks) :
    Derives (.items items) (blanks ++ text) := by
  cases derives with
  | lastItem first inner last =>
    have whole := Derives.lastItem (blank.append first) inner last
    rwa [append_assoc] at whole
  | item first inner last rest =>
    have whole := Derives.item (blank.append first) inner last rest
    rwa [append_assoc] at whole

/-- Members may have more blanks in front. -/
theorem Derives.members_behind {members : List (List JsonChar × JsonValue (List JsonChar))}
    (derives : Derives (.members members) text) (blank : IsBlank blanks) :
    Derives (.members members) (blanks ++ text) := by
  cases derives with
  | @lastMember key tree front behind before text after ahead colon first inner last =>
    have whole := @Derives.lastMember key _ _ _ _ _ _ (blank.append ahead) colon first inner last
    rwa [append_assoc] at whole
  | @member key tree members front behind before text after others ahead colon first inner last
      rest =>
    have whole := @Derives.member key _ _ _ _ _ _ _ _ (blank.append ahead) colon first inner last
      rest
    rwa [append_assoc] at whole

/-- What the loop over members gives, with the members in front. -/
def IsMembersAt (json : StringView) (read : List JsonChar → τ) (done : List (τ × JsonValue τ))
    (i : Nat) (found : JsonValue τ × Nat) : Prop :=
  ∃ members text,
    found.1 = .object (done ++ members.map fun member => (read member.1, member.2.map read)) ∧
    Derives (.members members) text ∧ Passes json i found.2 (text ++ ['\x7d'])

/-- What the loop over items gives, with the items in front. -/
def IsItemsAt (json : StringView) (read : List JsonChar → τ) (done : List (JsonValue τ)) (i : Nat)
    (found : JsonValue τ × Nat) : Prop :=
  ∃ items text, found.1 = .array (done ++ items.map (JsonValue.map read)) ∧
    Derives (.items items) text ∧ Passes json i found.2 (text ++ [']'])

/-- The parsers give something of the grammar, within the bound on their steps. -/
structure ParsersYield (json : StringView) (decode : StringView → JsonResult (Option τ))
    (read : List JsonChar → τ) (fuel : Nat) : Prop where
  value : ∀ i, i ≤ json.length → 3 * (json.length - i) + 1 ≤ fuel →
    Yields (IsValueAt json read i) (jsonvParseValue decode json fuel i)
  object : ∀ i, i < json.length → 3 * (json.length - i) ≤ fuel →
    Yields (IsValueAt json read i) (jsonvParseObject decode json fuel i)
  members : ∀ i done, i ≤ json.length → 3 * (json.length - i) + 2 ≤ fuel →
    Yields (IsMembersAt json read done i) (jsonvParseMembers decode json fuel done i)
  array : ∀ i, i < json.length → 3 * (json.length - i) ≤ fuel →
    Yields (IsValueAt json read i) (jsonvParseArray decode json fuel i)
  items : ∀ i done, i ≤ json.length → 3 * (json.length - i) + 2 ≤ fuel →
    Yields (IsItemsAt json read done i) (jsonvParseItems decode json fuel done i)

variable (parsers : ParsersYield json decode read fuel)

include parsers

/-- An item and what the loop makes of the rest. -/
theorem items_step {done : List (JsonValue τ)} (inside : i ≤ json.length)
    (enough : 3 * (json.length - i) + 1 ≤ fuel) :
    Yields (IsItemsAt json read done i) (jsonvParseItems decode json (fuel + 1) done i) := by
  rw [jsonvParseItems]
  refine (parsers.value i inside enough).bind ?_
  rintro ⟨child, j⟩ ⟨tree, before, text, rfl, first, derives, passes⟩
  have reach := passes.le inside
  refine (jsonvNext_yields j ']' _ _).bind ?_
  rintro ⟨more, k⟩ ⟨after, last, next⟩
  cases more with
  | false =>
    have whole := passes.trans next
    refine ⟨[tree], before ++ (text ++ after), rfl, .lastItem first derives last, ?_⟩
    simpa using whole
  | true =>
    obtain ⟨front, blankFront, passesFront⟩ := next
    have further := passesFront.le reach
    have shorter : j < k := by
      have place := passesFront.2
      simp only [length_append, length_cons] at place
      omega
    have ahead : i ≤ j := by have place := passes.2; omega
    refine (parsers.items k (done ++ [tree.map read]) further (by omega)).mono ?_
    rintro ⟨found, m⟩ ⟨items, others, rfl, rest, behind⟩
    have whole := (passes.trans passesFront).trans behind
    refine ⟨tree :: items, before ++ (text ++ (after ++ ',' :: (front ++ others))), ?_,
      .item first derives last (rest.items_behind blankFront), ?_⟩
    · simp
    · simpa using whole

include decodes in
/-- A member and what the loop makes of the rest. -/
theorem members_step {done : List (τ × JsonValue τ)} (inside : i ≤ json.length)
    (enough : 3 * (json.length - i) + 1 ≤ fuel) :
    Yields (IsMembersAt json read done i) (jsonvParseMembers decode json (fuel + 1) done i) := by
  rw [jsonvParseMembers]
  refine (jsonvParseKey_yields decodes i).bind ?_
  rintro ⟨name, h⟩ ⟨key, behind, colonFront, rfl, blankBehind, blankFront, passesKey⟩
  have insideKey := passesKey.le inside
  have later : i ≤ h := by have place := passesKey.2; omega
  refine (parsers.value h insideKey (by omega)).bind ?_
  rintro ⟨child, j⟩ ⟨tree, before, text, rfl, first, derives, passes⟩
  have reach := passes.le insideKey
  have member := passesKey.trans passes
  refine (jsonvNext_yields j '\x7d' _ _).bind ?_
  rintro ⟨more, k⟩ ⟨after, last, next⟩
  cases more with
  | false =>
    have whole := member.trans next
    refine ⟨[(key, tree)], [] ++ _, rfl,
      .lastMember rfl blankBehind (blankFront.append first) derives last, ?_⟩
    simpa using whole
  | true =>
    obtain ⟨front, blankNext, passesNext⟩ := next
    have further := passesNext.le reach
    have shorter : j < k := by
      have place := passesNext.2
      simp only [length_append, length_cons] at place
      omega
    have ahead : h ≤ j := by have place := passes.2; omega
    refine (parsers.members k (done ++ [(read key, tree.map read)]) further (by omega)).mono ?_
    rintro ⟨found, m⟩ ⟨members, others, rfl, rest, remaining⟩
    have whole := (member.trans passesNext).trans remaining
    refine ⟨(key, tree) :: members, [] ++ _, ?_,
      .member rfl blankBehind (blankFront.append first) derives last
        (rest.members_behind blankNext), ?_⟩
    · simp
    · simpa using whole

/-- An array from its bracket on. -/
theorem array_step (inside : i < json.length) (enough : 3 * (json.length - i) ≤ fuel + 1) :
    Yields (IsValueAt json read i) (jsonvParseArray decode json (fuel + 1) i) := by
  rw [jsonvParseArray]
  by_cases bracket : json[i]? = some '['
  · obtain ⟨blanks, blank, passesBlanks⟩ := passes_blanks json (i + 1)
    have opened := (passes_char bracket).trans passesBlanks
    have reach := passesBlanks.le (by omega)
    have place := passesBlanks.2
    rw [if_pos bracket]
    dsimp only
    by_cases closer : json[jsonSkipWs json (i + 1)]? = some ']'
    · rw [if_pos closer]
      have whole := opened.trans (passes_char closer)
      refine ⟨.array [], [], _, by simp [JsonValue.map, JsonValue.mapItems], rfl,
        .emptyArray blank, ?_⟩
      simpa using whole
    · rw [if_neg closer]
      refine (parsers.items _ [] reach (by omega)).mono ?_
      rintro ⟨found, j⟩ ⟨items, text, rfl, derives, passes⟩
      have whole := opened.trans passes
      refine ⟨.array items, [], _, by simp [JsonValue.map], rfl,
        .array (derives.items_behind blank), ?_⟩
      simpa using whole
  · rw [if_neg bracket]
    trivial

/-- An object from its brace on. -/
theorem object_step (inside : i < json.length) (enough : 3 * (json.length - i) ≤ fuel + 1) :
    Yields (IsValueAt json read i) (jsonvParseObject decode json (fuel + 1) i) := by
  rw [jsonvParseObject]
  by_cases brace : json[i]? = some '\x7b'
  · obtain ⟨blanks, blank, passesBlanks⟩ := passes_blanks json (i + 1)
    have opened := (passes_char brace).trans passesBlanks
    have reach := passesBlanks.le (by omega)
    have place := passesBlanks.2
    rw [if_pos brace]
    dsimp only
    by_cases closer : json[jsonSkipWs json (i + 1)]? = some '\x7d'
    · rw [if_pos closer]
      have whole := opened.trans (passes_char closer)
      refine ⟨.object [], [], _, by simp [JsonValue.map, JsonValue.mapMembers], rfl,
        .emptyObject blank, ?_⟩
      simpa using whole
    · rw [if_neg closer]
      refine (parsers.members _ [] reach (by omega)).mono ?_
      rintro ⟨found, j⟩ ⟨members, text, rfl, derives, passes⟩
      have whole := opened.trans passes
      refine ⟨.object members, [], _, by simp [JsonValue.map], rfl,
        .object (derives.members_behind blank), ?_⟩
      simpa using whole
  · rw [if_neg brace]
    trivial

include decodes

/-- A value behind blanks. -/
theorem value_step (inside : i ≤ json.length) (enough : 3 * (json.length - i) ≤ fuel) :
    Yields (IsValueAt json read i) (jsonvParseValue decode json (fuel + 1) i) := by
  obtain ⟨blanks, blank, passesBlanks⟩ := passes_blanks json i
  have place := passesBlanks.2
  have behind : ∀ found, IsValueAt json read (jsonSkipWs json i) found →
      IsValueAt json read i found := by
    rintro found ⟨tree, more, text, same, blankMore, derives, passes⟩
    have whole := passesBlanks.trans passes
    rw [← append_assoc] at whole
    exact ⟨tree, blanks ++ more, text, same, blank.append blankMore, derives, whole⟩
  rw [jsonvParseValue]
  by_cases beyond : json.length ≤ jsonSkipWs json i
  · simp only [if_pos beyond]
    trivial
  · obtain ⟨char, here⟩ := exists_char beyond
    simp only [if_neg beyond, charAt_of_drop here, bind, Except.bind]
    split
    · exact (parsers.object _ (by omega) (by omega)).mono behind
    · split
      · exact (parsers.array _ (by omega) (by omega)).mono behind
      · exact (jsonvParseScalar_yields decodes _ char).mono behind

omit parsers decodes

theorem parsersYield (json : StringView)
    (decodes : ∀ chars, decode (charsText chars) = .ok (some (read chars))) (fuel : Nat) :
    ParsersYield json decode read fuel := by
  induction fuel with
  | zero =>
    exact ⟨fun i inside enough => by omega, fun i inside enough => by omega,
      fun i done inside enough => by omega, fun i inside enough => by omega,
      fun i done inside enough => by omega⟩
  | succ fuel ih =>
    exact ⟨fun i inside enough => value_step decodes ih inside (by omega),
      fun i inside enough => object_step ih inside (by omega),
      fun i done inside enough => members_step decodes ih inside (by omega),
      fun i inside enough => array_step ih inside (by omega),
      fun i done inside enough => items_step ih inside (by omega)⟩

/-! ## The whole text -/

include decodes in
/-- Every text of the grammar is accepted as what its derivation says. -/
theorem IsJson.parsed (isJson : IsJson json tree) :
    jsonvParseRootWith decode json = .ok (tree.map read) := by
  obtain ⟨before, text, after, first, derives, last, rfl⟩ := isJson
  have start : (before ++ (text ++ after)).drop 0 = before ++ (text ++ after) := rfl
  have value := derives.parses decodes 0 before after (3 * (before ++ (text ++ after)).length + 1)
    first start (endsValue_of_blanks last) (by simp only [length_append]; omega)
  have behind := drop_of_drop (drop_of_drop start)
  have skipped := jsonSkipWs_end last behind
  unfold jsonvParseRootWith
  rw [value]
  simp only [bind, Except.bind, skipped]
  rw [if_pos (by simp only [length_append]; omega)]
  rfl

/-- An accepted text is a text of the grammar, and the other outcome is a rejection. -/
theorem jsonvParseRootWith_yields (json : StringView)
    (decodes : ∀ chars, decode (charsText chars) = .ok (some (read chars))) :
    Yields (fun found => ∃ tree, IsJson json tree ∧ found = tree.map read)
      (jsonvParseRootWith decode json) := by
  unfold jsonvParseRootWith
  refine ((parsersYield json decodes _).value 0 (by omega) (by omega)).bind ?_
  rintro ⟨found, i⟩ ⟨tree, blanks, text, rfl, first, derives, passes⟩
  obtain ⟨after, last, passesAfter⟩ := passes_blanks json i
  dsimp only
  by_cases whole : jsonSkipWs json i = json.length
  · rw [if_pos whole]
    have all := (passes.trans passesAfter).1
    rw [whole, drop_length, append_nil, drop_zero, append_assoc] at all
    exact ⟨tree, ⟨blanks, text, after, first, derives, last, all⟩, rfl⟩
  · rw [if_neg whole]
    trivial

end Readers

/-! ## One reading -/

/-- What is written first is read first. -/
theorem JsonChar.text_append_inj {first second : JsonChar} {others : StringView}
    (same : first.text ++ rest = second.text ++ others) : first = second ∧ rest = others := by
  cases first with
  | plain char bare =>
    cases second with
    | plain other otherBare =>
      cases same
      exact ⟨rfl, rfl⟩
    | short letter known => exact absurd (List.cons.inj same).1 bare.2
    | unicode h0 h1 h2 h3 hex => exact absurd (List.cons.inj same).1 bare.2
  | short letter known =>
    cases second with
    | plain other otherBare => exact absurd (List.cons.inj same).1.symm otherBare.2
    | short other otherKnown =>
      obtain ⟨rfl, rfl⟩ := List.cons.inj (List.cons.inj same).2
      exact ⟨rfl, rfl⟩
    | unicode h0 h1 h2 h3 hex =>
      obtain ⟨rfl, -⟩ := List.cons.inj (List.cons.inj same).2
      exact absurd known (by decide)
  | unicode h0 h1 h2 h3 hex =>
    cases second with
    | plain other otherBare => exact absurd (List.cons.inj same).1.symm otherBare.2
    | short letter known =>
      obtain ⟨rfl, -⟩ := List.cons.inj (List.cons.inj same).2
      exact absurd known (by decide)
    | unicode o0 o1 o2 o3 otherHex =>
      simp only [JsonChar.text, cons_append, nil_append, List.cons.injEq, true_and] at same
      obtain ⟨rfl, rfl, rfl, rfl, rfl⟩ := same
      exact ⟨rfl, rfl⟩

/-- Characters are told by how they are written. -/
theorem charsText_injective : Function.Injective charsText := by
  intro chars others same
  induction chars generalizing others with
  | nil =>
    cases others with
    | nil => rfl
    | cons other others =>
      have short := congrArg List.length same
      have positive : 1 ≤ other.text.length := by cases other <;> simp [JsonChar.text]
      rw [charsText_cons, length_append] at short
      simp only [charsText, flatMap_nil, length_nil] at short
      omega
  | cons char chars ih =>
    cases others with
    | nil =>
      have short := congrArg List.length same
      have positive : 1 ≤ char.text.length := by cases char <;> simp [JsonChar.text]
      rw [charsText_cons, length_append] at short
      simp only [charsText, flatMap_nil, length_nil] at short
      omega
    | cons other others =>
      rw [charsText_cons, charsText_cons] at same
      obtain ⟨rfl, rest⟩ := JsonChar.text_append_inj same
      rw [ih rest]

/-- The characters of a string, as a decoder has them that loses nothing. -/
noncomputable def charsOf (raw : StringView) : JsonResult (Option (List JsonChar)) :=
  open Classical in
  .ok (if written : ∃ chars, charsText chars = raw then some written.choose else none)

theorem charsOf_charsText (chars : List JsonChar) :
    charsOf (charsText chars) = .ok (some chars) := by
  have written : ∃ others, charsText others = charsText chars := ⟨chars, rfl⟩
  rw [charsOf, dif_pos written, charsText_injective written.choose_spec]

/-- No text has two derivations. -/
theorem IsJson.unique {other : JsonValue (List JsonChar)} (first : IsJson json tree)
    (second : IsJson json other) : tree = other := by
  have one : jsonvParseRootWith charsOf json = .ok (tree.map id) := first.parsed charsOf_charsText
  have two : jsonvParseRootWith charsOf json = .ok (other.map id) :=
    second.parsed charsOf_charsText
  rw [JsonValue.map_id] at one two
  rw [one] at two
  exact Except.ok.inj two

end Nobify.Evaluator.Json
