import Nobify.Evaluator.JsonReading

/-!
# What a JSON text says

In JSON a `\u` escape stands for the code point it writes, two escapes of a surrogate pair for one
code point, and a text holds code points in UTF-8. The decoder keeps the code points of ASCII and
puts a question mark for every other escape, so an accepted text is read as what it says exactly
when it has no escape beyond ASCII.
-/

namespace Nobify.Evaluator.Json

open List

/-! ## Code points -/

/-- The bytes of a code point in UTF-8. What is no character stands for the replacement
character. -/
def codePointBytes (code : Nat) : StringView :=
  (String.utf8EncodeChar (if code.isValidChar then Char.ofNat code else '\ufffd')).map
    fun byte => Char.ofNat byte.toNat

/-- The code point of a surrogate pair. -/
def surrogatePair : JsonChar → JsonChar → Option Nat
  | .unicode h0 h1 h2 h3 _, .unicode l0 l1 l2 l3 _ =>
    let high := hexCode h0 h1 h2 h3
    let low := hexCode l0 l1 l2 l3
    if 0xD800 ≤ high ∧ high ≤ 0xDBFF ∧ 0xDC00 ≤ low ∧ low ≤ 0xDFFF then
      some (0x10000 + (high - 0xD800) * 0x400 + (low - 0xDC00))
    else none
  | _, _ => none

/-- What one written character stands for. -/
def JsonChar.bytes : JsonChar → StringView
  | .plain char _ => [char]
  | .short letter _ => [(jsonEscape letter).getD letter]
  | .unicode h0 h1 h2 h3 _ => codePointBytes (hexCode h0 h1 h2 h3)

/-- What the characters of a string stand for. -/
def meaning : List JsonChar → StringView
  | [] => []
  | [char] => char.bytes
  | char :: next :: rest =>
    match surrogatePair char next with
    | some code => codePointBytes code ++ meaning rest
    | none => char.bytes ++ meaning (next :: rest)

/-- An escape beyond ASCII. -/
def JsonChar.isWide : JsonChar → Bool
  | .unicode h0 h1 h2 h3 _ => 0x7F < hexCode h0 h1 h2 h3
  | _ => false

/-! ## What the decoder makes of it -/

theorem toNat_ofNat_byte {n : Nat} (small : n < 256) : (Char.ofNat n).toNat = n := by
  have valid : n.isValidChar := .inl (by omega)
  rw [Char.ofNat, dif_pos valid]
  rfl

/-- The code points of ASCII are their own bytes. -/
theorem codePointBytes_small {code : Nat} (small : code ≤ 0x7F) :
    codePointBytes code = [Char.ofNat code] := by
  have valid : code.isValidChar := .inl (by omega)
  have value : (Char.ofNat code).val.toNat = code := toNat_ofNat_byte (by omega)
  unfold codePointBytes String.utf8EncodeChar
  simp only [if_pos valid, value, if_pos small, map_cons, map_nil, UInt8.toNat_ofNat']
  rw [Nat.mod_eq_of_lt (by omega)]

/-- The bytes of any other code point are beyond ASCII. -/
theorem le_toNat_of_mem_utf8EncodeChar {char : Char} (wide : 0x7F < char.val.toNat) {byte : UInt8}
    (member : byte ∈ String.utf8EncodeChar char) : 0x80 ≤ byte.toNat := by
  unfold String.utf8EncodeChar at member
  dsimp only at member
  rw [if_neg (by omega)] at member
  split at member
  · simp only [mem_cons, not_mem_nil, or_false] at member
    rcases member with rfl | rfl <;> simp only [UInt8.toNat_ofNat'] <;> omega
  · split at member
    · simp only [mem_cons, not_mem_nil, or_false] at member
      rcases member with rfl | rfl | rfl <;> simp only [UInt8.toNat_ofNat'] <;> omega
    · simp only [mem_cons, not_mem_nil, or_false] at member
      rcases member with rfl | rfl | rfl | rfl <;> simp only [UInt8.toNat_ofNat'] <;> omega

/-- No other code point has a question mark among its bytes. -/
theorem notMem_codePointBytes {code : Nat} (wide : 0x7F < code) : '?' ∉ codePointBytes code := by
  intro member
  obtain ⟨byte, listed, same⟩ := mem_map.mp member
  have large : 0x80 ≤ byte.toNat := by
    refine le_toNat_of_mem_utf8EncodeChar ?_ listed
    by_cases valid : code.isValidChar
    · rw [if_pos valid, Char.ofNat, dif_pos valid]
      exact wide
    · rw [if_neg valid]
      decide
  have value := toNat_ofNat_byte byte.toNat_lt
  rw [same] at value
  have mark : '?'.toNat = 63 := rfl
  omega

theorem JsonChar.bytes_eq {char : JsonChar} (narrow : char.isWide = false) :
    char.bytes = [char.decoded] := by
  cases char with
  | plain char bare => rfl
  | short letter known => rfl
  | unicode h0 h1 h2 h3 hex =>
    simp only [isWide, decide_eq_false_iff_not, not_lt] at narrow
    rw [bytes, decoded, if_pos narrow, codePointBytes_small narrow]

/-- The decoder puts a question mark for an escape beyond ASCII. -/
theorem JsonChar.decoded_eq {char : JsonChar} (wide : char.isWide = true) :
    char.decoded = '?' ∧ '?' ∉ char.bytes := by
  cases char with
  | plain char bare => cases wide
  | short letter known => cases wide
  | unicode h0 h1 h2 h3 hex =>
    simp only [isWide, decide_eq_true_eq] at wide
    exact ⟨if_neg (by omega), notMem_codePointBytes wide⟩

/-- Both escapes of a pair are beyond ASCII. -/
theorem surrogatePair_wide {high low : JsonChar} {code : Nat}
    (pair : surrogatePair high low = some code) :
    high.isWide = true ∧ low.isWide = true ∧ 0x7F < code := by
  unfold surrogatePair at pair
  split at pair
  · dsimp only at pair
    split at pair
    · rename_i range
      obtain rfl := Option.some.inj pair
      simp only [JsonChar.isWide, decide_eq_true_eq]
      omega
    · cases pair
  · cases pair

/-- The decoder puts one question mark more for every escape beyond ASCII. -/
theorem count_decoded (chars : List JsonChar) : (chars.map JsonChar.decoded).count '?' =
      (meaning chars).count '?' + chars.countP JsonChar.isWide := by
  have single : ∀ char : JsonChar, [char.decoded].count '?' =
      char.bytes.count '?' + [char].countP JsonChar.isWide := by
    intro char
    cases wide : char.isWide with
    | true =>
      obtain ⟨same, absent⟩ := JsonChar.decoded_eq wide
      rw [same, count_eq_zero.mpr absent, countP_singleton, wide]
      rfl
    | false =>
      rw [JsonChar.bytes_eq wide, countP_singleton, wide]
      rfl
  induction chars using meaning.induct with
  | case1 => rfl
  | case2 char => exact single char
  | case3 char next rest code pair ih =>
    obtain ⟨wideHigh, wideLow, wide⟩ := surrogatePair_wide pair
    rw [meaning, pair]
    simp only [map_cons, (JsonChar.decoded_eq wideHigh).1, (JsonChar.decoded_eq wideLow).1,
      count_cons_self, ih, count_append,
      count_eq_zero.mpr (notMem_codePointBytes wide), countP_cons_of_pos wideHigh,
      countP_cons_of_pos wideLow]
    omega
  | case4 char next rest pair ih =>
    have first := single char
    rw [meaning, pair]
    rw [map_cons, count_append]
    have split : (char.decoded :: (next :: rest).map JsonChar.decoded).count '?' =
        [char.decoded].count '?' + ((next :: rest).map JsonChar.decoded).count '?' := by
      rw [← count_append]
      rfl
    have parts : (char :: next :: rest).countP JsonChar.isWide =
        [char].countP JsonChar.isWide + (next :: rest).countP JsonChar.isWide := by
      rw [← countP_append]
      rfl
    rw [split, parts, first, ih]
    omega

/-- Without such an escape the decoder gives what the characters stand for. -/
theorem meaning_eq {chars : List JsonChar} (narrow : ∀ char ∈ chars, char.isWide = false) :
    meaning chars = chars.map JsonChar.decoded := by
  induction chars using meaning.induct with
  | case1 => rfl
  | case2 char => exact JsonChar.bytes_eq (narrow char mem_cons_self)
  | case3 char next rest code pair ih =>
    have wide := (surrogatePair_wide pair).1
    rw [narrow char mem_cons_self] at wide
    cases wide
  | case4 char next rest pair ih =>
    rw [meaning, pair]
    rw [JsonChar.bytes_eq (narrow char mem_cons_self),
      ih fun other member => narrow other (mem_cons_of_mem _ member)]
    rfl

/-- The decoder gives what the characters stand for exactly when no escape is beyond ASCII. -/
theorem decoded_eq_meaning_iff {chars : List JsonChar} :
    chars.map JsonChar.decoded = meaning chars ↔ ∀ char ∈ chars, char.isWide = false := by
  constructor
  · intro same
    have counts := count_decoded chars
    rw [same] at counts
    have none : chars.countP JsonChar.isWide = 0 := by omega
    intro char member
    have absent := countP_eq_zero.mp none char member
    simpa using absent
  · exact fun narrow => (meaning_eq narrow).symm

/-! ## Texts that are read as what they say -/

/-- No string or key has an escape beyond ASCII. -/
def Narrow (reading : JsonValue (List JsonChar)) : Prop :=
  ∀ chars ∈ reading.strings, ∀ char ∈ chars, char.isWide = false

/-- The decoder reads a derivation as what it says exactly when no escape is beyond ASCII. -/
theorem map_decoded_eq_iff {reading : JsonValue (List JsonChar)} :
    reading.map (List.map JsonChar.decoded) = reading.map meaning ↔ Narrow reading := by
  rw [JsonValue.map_eq_map_iff]
  exact forall₂_congr fun chars _ => decoded_eq_meaning_iff

/-- The parser ends, reads only inside of the text, accepts exactly the texts of the grammar, which
have one reading, decodes every string it has scanned, and gives what the text says. -/
structure ReadsAsJson (json : StringView) : Prop where
  ends : jsonvParseRoot json ≠ .error .stuck
  inside : jsonvParseRoot json ≠ .error .outside
  decodes : ∀ message, jsonvParseRoot json ≠ .error (.undecodable message)
  accepts : (∃ tree, jsonvParseRoot json = .ok tree) ↔ ∃ reading, IsJson json reading
  oneReading : ∀ reading other, IsJson json reading → IsJson json other → reading = other
  meant : ∀ tree reading, jsonvParseRoot json = .ok tree → IsJson json reading →
    tree = reading.map meaning

/-- A text of the grammar is accepted, with the decoded strings. -/
theorem IsJson.accepted {json : StringView} {reading : JsonValue (List JsonChar)}
    (isJson : IsJson json reading) :
    jsonvParseRoot json = .ok (reading.map (List.map JsonChar.decoded)) :=
  isJson.parsed jsonDecodeString_charsText

/-- An accepted text is a text of the grammar, read as it is decoded. -/
theorem exists_isJson {json : StringView} {tree : JsonValue StringView}
    (accepted : jsonvParseRoot json = .ok tree) :
    ∃ reading, IsJson json reading ∧ tree = reading.map (List.map JsonChar.decoded) := by
  have yields := jsonvParseRootWith_yields json jsonDecodeString_charsText
  rw [← jsonvParseRoot, accepted] at yields
  obtain ⟨reading, isJson, same⟩ := yields
  exact ⟨reading, isJson, same⟩

/-- For every text: the parser does all that, with the only exception that the tree is what the
text says exactly when no escape of it is beyond ASCII. -/
theorem readsAsJson_iff (json : StringView) :
    ReadsAsJson json ↔ ∀ reading, IsJson json reading → Narrow reading := by
  have yields := jsonvParseRootWith_yields json jsonDecodeString_charsText
  constructor
  · intro reads reading isJson
    exact (map_decoded_eq_iff).mp (reads.meant _ reading isJson.accepted isJson)
  · intro narrow
    refine ⟨?_, ?_, ?_, ?_, fun reading other first second => first.unique second, ?_⟩
    · intro stuck
      rw [← jsonvParseRoot, stuck] at yields
      exact yields
    · intro outside
      rw [← jsonvParseRoot, outside] at yields
      exact yields
    · intro message undecodable
      rw [← jsonvParseRoot, undecodable] at yields
      exact yields
    · constructor
      · rintro ⟨tree, accepted⟩
        obtain ⟨reading, isJson, -⟩ := exists_isJson accepted
        exact ⟨reading, isJson⟩
      · rintro ⟨reading, isJson⟩
        exact ⟨_, isJson.accepted⟩
    · intro tree reading accepted isJson
      rw [isJson.accepted] at accepted
      rw [← Except.ok.inj accepted]
      exact (map_decoded_eq_iff).mpr (narrow reading isJson)

/-- The text of one string with an e acute as an escape. -/
theorem isJson_acute : IsJson (sv "\"\\u00e9\"") (.string [.unicode '0' '0' 'e' '9' (by decide)]) :=
  ⟨[], _, [], rfl, .string _, rfl, rfl⟩

/-- The text says an e acute and is read as a question mark. -/
theorem not_readsAsJson_acute : ¬ ∀ json, ReadsAsJson json := by
  intro reads
  have same := (reads _).meant _ _ isJson_acute.accepted isJson_acute
  have narrow := (map_decoded_eq_iff).mp same
  have small := narrow _ (mem_singleton_self _) _ (mem_singleton_self _)
  exact absurd small (by decide)

end Nobify.Evaluator.Json
