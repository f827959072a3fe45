import Nobify.Evaluator.JsonMeaning

/-!
# Written trees are read back

The encoder writes every byte in one of the ways of the grammar and puts blanks only between the
tokens, so what it writes derives a reading that is the tree again, with no escape beyond ASCII.
-/

namespace Nobify.Evaluator.Json

open List

variable {tree : JsonValue StringView}

/-! ## Characters -/

theorem isHexDigit_jsonHexDigit (value : Nat) : IsHexDigit (jsonHexDigit value) := by
  by_cases small : value < 16
  · have all : ∀ digit : Fin 16, IsHexDigit (jsonHexDigit digit.val) := by decide
    exact all ⟨value, small⟩
  · have long : (sv "0123456789abcdef").length ≤ value := Nat.le_of_not_lt small
    rw [jsonHexDigit, getD_eq_getElem?_getD, List.getElem?_eq_none long]
    decide

/-- How the encoder writes a character. -/
def writtenChar (char : Char) : JsonChar :=
  if char = '"' then .short '"' (by decide)
  else if char = '\\' then .short '\\' (by decide)
  else if char = '\x08' then .short 'b' (by decide)
  else if char = '\x0c' then .short 'f' (by decide)
  else if char = '\n' then .short 'n' (by decide)
  else if char = '\x0d' then .short 'r' (by decide)
  else if char = '\t' then .short 't' (by decide)
  else if char.toNat < 0x20 then
    .unicode '0' '0' (jsonHexDigit (char.toNat >>> 4 &&& 0x0F)) (jsonHexDigit (char.toNat &&& 0x0F))
      ⟨by decide, by decide, isHexDigit_jsonHexDigit _, isHexDigit_jsonHexDigit _⟩
  else if bare : char ≠ '"' ∧ char ≠ '\\' then .plain char bare
  else .short '"' (by decide)

/-- The two digits that the encoder writes for a control character give it back. -/
theorem hexCode_control {n : Nat} (control : n < 0x20) :
    hexCode '0' '0' (jsonHexDigit (n >>> 4 &&& 0x0F)) (jsonHexDigit (n &&& 0x0F)) = n := by
  have all : ∀ code : Fin 0x20,
      hexCode '0' '0' (jsonHexDigit (code.val >>> 4 &&& 0x0F)) (jsonHexDigit (code.val &&& 0x0F)) =
        code.val := by
    decide
  exact all ⟨n, control⟩

/-- The switch of the encoder writes that character, and the decoder reads it back. -/
theorem writtenChar_spec (char : Char) :
    (writtenChar char).text = jsonvEscapeChar char ∧ (writtenChar char).decoded = char ∧
      (writtenChar char).isWide = false := by
  unfold writtenChar
  split_ifs with quote slash back form line carriage tab control bare
  · subst quote
    exact ⟨rfl, rfl, rfl⟩
  · subst slash
    exact ⟨rfl, rfl, rfl⟩
  · subst back
    exact ⟨rfl, rfl, rfl⟩
  · subst form
    exact ⟨rfl, rfl, rfl⟩
  · subst line
    exact ⟨rfl, rfl, rfl⟩
  · subst carriage
    exact ⟨rfl, rfl, rfl⟩
  · subst tab
    exact ⟨rfl, rfl, rfl⟩
  · have code := hexCode_control control
    refine ⟨?_, ?_, ?_⟩
    · rw [JsonChar.text, jsonvEscapeChar, if_pos control] <;> assumption
    · rw [JsonChar.decoded, code, if_pos (by omega), Char.ofNat_toNat]
    · simp only [JsonChar.isWide, code, decide_eq_false_iff_not]
      omega
  · refine ⟨?_, rfl, rfl⟩
    rw [JsonChar.text, jsonvEscapeChar, if_neg control] <;> assumption
  · exact absurd ⟨quote, slash⟩ bare

/-- How the encoder writes a text. -/
def written (text : StringView) : List JsonChar := text.map writtenChar

theorem charsText_written (text : StringView) :
    charsText (written text) = text.flatMap jsonvEscapeChar := by
  rw [charsText, written, flatMap_map]
  exact flatMap_congr fun char _ => (writtenChar_spec char).1

theorem map_decoded_written (text : StringView) : (written text).map JsonChar.decoded = text := by
  rw [written, List.map_map]
  exact (map_congr_left fun char _ => (writtenChar_spec char).2.1).trans (List.map_id text)

/-- The encoder writes no escape beyond ASCII. -/
theorem isWide_of_mem_written {text : StringView} {char : JsonChar}
    (member : char ∈ written text) : char.isWide = false := by
  obtain ⟨source, -, rfl⟩ := mem_map.mp member
  exact (writtenChar_spec source).2.2

theorem meaning_written (text : StringView) : meaning (written text) = text := by
  rw [meaning_eq fun char member => isWide_of_mem_written member, map_decoded_written]

/-! ## Trees -/

/-- Every number token of the tree is a number. -/
inductive HasNumbers {τ : Type} : JsonValue τ → Prop where
  | null : HasNumbers .null
  | bool (value : Bool) : HasNumbers (.bool value)
  | number {token : StringView} (number : IsNumber token) : HasNumbers (.number token)
  | string (text : τ) : HasNumbers (.string text)
  | array {items : List (JsonValue τ)} (each : ∀ item ∈ items, HasNumbers item) :
    HasNumbers (.array items)
  | object {members : List (τ × JsonValue τ)} (each : ∀ member ∈ members, HasNumbers member.2) :
    HasNumbers (.object members)

theorem isBlank_nil : IsBlank [] := rfl

theorem isBlank_space : IsBlank [' '] := rfl

theorem isBlank_newline : IsBlank ['\n'] := rfl

theorem isBlank_jsonvIndent (level : Nat) : IsBlank (jsonvIndent level) :=
  all_eq_true.mpr fun char member => by
    rw [eq_of_mem_replicate member]
    rfl

theorem isBlank_line (level : Nat) : IsBlank ('\n' :: jsonvIndent level) :=
  isBlank_newline.append (isBlank_jsonvIndent level)

/-- The lines of the items of an array derive them, when each item is derived on every level. -/
theorem derives_items {items : List (JsonValue StringView)} {front : StringView} (indent : Nat)
    (blank : IsBlank front) (some : items ≠ [])
    (each : ∀ item ∈ items, ∀ level,
      Derives (.value (item.map written)) (jsonvSerializeAt level item)) :
    Derives (.items (items.map (JsonValue.map written)))
      (front ++ (jsonvSerializeItems indent items ++ jsonvIndent indent)) := by
  induction items generalizing front with
  | nil => exact absurd rfl some
  | cons item rest ih =>
    have first := each item mem_cons_self (indent + 1)
    have before : IsBlank (front ++ jsonvIndent (indent + 1)) :=
      blank.append (isBlank_jsonvIndent _)
    cases rest with
    | nil =>
      have whole := Derives.lastItem before first (isBlank_line indent)
      simpa [jsonvSerializeItems, sv] using whole
    | cons next rest =>
      have others := ih isBlank_newline (cons_ne_nil _ _)
        fun other member => each other (mem_cons_of_mem _ member)
      have whole := Derives.item before first isBlank_nil others
      simpa [jsonvSerializeItems, sv] using whole

/-- The lines of the members of an object derive them. -/
theorem derives_members {members : List (StringView × JsonValue StringView)}
    {front : StringView} (indent : Nat) (blank : IsBlank front) (some : members ≠ [])
    (each : ∀ member ∈ members, ∀ level,
      Derives (.value (member.2.map written)) (jsonvSerializeAt level member.2)) :
    Derives (.members (members.map fun member => (written member.1, member.2.map written)))
      (front ++ (jsonvSerializeMembers indent members ++ jsonvIndent indent)) := by
  induction members generalizing front with
  | nil => exact absurd rfl some
  | cons member rest ih =>
    obtain ⟨key, tree⟩ := member
    have first := each (key, tree) mem_cons_self (indent + 1)
    have ahead : IsBlank (front ++ jsonvIndent (indent + 1)) :=
      blank.append (isBlank_jsonvIndent _)
    cases rest with
    | nil =>
      have whole := @Derives.lastMember (written key) _ _ _ _ _ _ ahead isBlank_space isBlank_space
        first (isBlank_line indent)
      simpa [jsonvSerializeMembers, jsonvEscapedString, charsText_written, sv] using whole
    | cons next rest =>
      have others := ih isBlank_newline (cons_ne_nil _ _)
        fun other listed => each other (mem_cons_of_mem _ listed)
      have whole := @Derives.member (written key) _ _ _ _ _ _ _ _ ahead isBlank_space isBlank_space
        first isBlank_nil others
      simpa [jsonvSerializeMembers, jsonvEscapedString, charsText_written, sv] using whole

/-- What the encoder writes on a level derives the tree as it is written. -/
theorem HasNumbers.derives (numbers : HasNumbers tree) (level : Nat) :
    Derives (.value (tree.map written)) (jsonvSerializeAt level tree) := by
  induction tree using JsonValue.induct generalizing level with
  | null => exact .literalNull
  | bool value =>
    cases value with
    | true => exact .literalTrue
    | false => exact .literalFalse
  | number token =>
    cases numbers with
    | number isNumber => exact .number isNumber
  | string text =>
    rw [jsonvSerializeAt, jsonvEscapedString, ← charsText_written]
    exact .string _
  | array items ih =>
    cases numbers with
    | array each =>
      rw [JsonValue.map, JsonValue.mapItems_eq]
      cases items with
      | nil => exact .emptyArray isBlank_nil
      | cons item rest =>
        have inner := derives_items level isBlank_newline
          (cons_ne_nil item rest) fun other member => ih other member (each other member)
        simpa [jsonvSerializeAt, sv] using Derives.array inner
  | object members ih =>
    cases numbers with
    | object each =>
      rw [JsonValue.map, JsonValue.mapMembers_eq]
      cases members with
      | nil => exact .emptyObject isBlank_nil
      | cons member rest =>
        have inner := derives_members level isBlank_newline
          (cons_ne_nil member rest) fun other listed => ih other listed (each other listed)
        simpa [jsonvSerializeAt, sv] using Derives.object inner

/-- A written tree is a text of the grammar. -/
theorem HasNumbers.isJson (numbers : HasNumbers tree) :
    IsJson (jsonvSerialize tree) (tree.map written) :=
  ⟨[], _, [], rfl, numbers.derives 0, rfl, by rw [append_nil]; rfl⟩

/-- The tree that was written, as it is decoded. -/
theorem map_written_decoded (tree : JsonValue StringView) :
    (tree.map written).map (List.map JsonChar.decoded) = tree := by
  rw [JsonValue.map_map]
  refine Eq.trans ?_ tree.map_id
  exact JsonValue.map_eq_map_iff.mpr fun text _ => map_decoded_written text

/-- Parsing gives every written tree back. -/
theorem jsonvParseRoot_jsonvSerialize (tree : JsonValue StringView) (numbers : HasNumbers tree) :
    jsonvParseRoot (jsonvSerialize tree) = .ok tree := by
  have accepted := numbers.isJson.accepted
  rwa [map_written_decoded] at accepted

/-- A tree with a control character, a backslash at the end of a string and empty containers. -/
theorem jsonvParseRoot_jsonvSerialize_nested : jsonvParseRoot (jsonvSerialize (.object
      [(sv "\"k\\", .array [.string ['\x01', '\\'], .array []]), ([], .object []),
        ([], .number (sv "-0.5e+1"))])) =
    .ok (.object [(sv "\"k\\", .array [.string ['\x01', '\\'], .array []]), ([], .object []),
      ([], .number (sv "-0.5e+1"))]) := by
  refine jsonvParseRoot_jsonvSerialize _ (.object ?_)
  have number : IsNumber (sv "-0.5e+1") :=
    ⟨['-'], ['0'], ['.', '5'], ['e', '+', '1'], .inr rfl, .inl rfl,
      .inr ⟨['5'], ⟨cons_ne_nil _ _, rfl⟩, rfl⟩,
      .inr ⟨'e', ['+'], ['1'], .inl rfl, .inr (.inl rfl), ⟨cons_ne_nil _ _, rfl⟩, rfl⟩, rfl⟩
  simp only [forall_mem_cons, not_mem_nil, false_imp_iff, implies_true, and_true]
  refine ⟨.array ?_, .object ?_, .number number⟩
  · simp only [forall_mem_cons, not_mem_nil, false_imp_iff, implies_true, and_true]
    exact ⟨.string _, .array fun item member => nomatch member⟩
  · exact fun member listed => nomatch listed

/-! ## Accepted texts -/

/-- What a text of the grammar says has numbers for its number tokens. -/
theorem Derives.hasNumbers {part : JsonPart} {text : StringView} (derives : Derives part text) :
    match part with
    | .value tree => HasNumbers tree
    | .items items => ∀ item ∈ items, HasNumbers item
    | .members members => ∀ member ∈ members, HasNumbers member.2 := by
  induction derives with
  | literalNull => exact .null
  | literalTrue => exact .bool true
  | literalFalse => exact .bool false
  | number isNumber => exact .number isNumber
  | string chars => exact .string chars
  | emptyArray blank => exact .array fun item member => nomatch member
  | array inner ih => exact .array ih
  | emptyObject blank => exact .object fun item member => nomatch member
  | object inner ih => exact .object ih
  | lastItem first inner last ih => exact forall_mem_singleton.mpr ih
  | item first inner last rest ih ihRest => exact forall_mem_cons.mpr ⟨ih, ihRest⟩
  | lastMember ahead colon first inner last ih => exact forall_mem_singleton.mpr ih
  | member ahead colon first inner last rest ih ihRest =>
    exact forall_mem_cons.mpr ⟨ih, ihRest⟩

theorem HasNumbers.map {τ σ : Type} {tree : JsonValue τ} (numbers : HasNumbers tree)
    (read : τ → σ) : HasNumbers (tree.map read) := by
  induction numbers with
  | null => exact .null
  | bool value => exact .bool value
  | number isNumber => exact .number isNumber
  | string text => exact .string (read text)
  | array each ih =>
    rw [JsonValue.map, JsonValue.mapItems_eq]
    exact .array (forall_mem_map.mpr ih)
  | object each ih =>
    rw [JsonValue.map, JsonValue.mapMembers_eq]
    exact .object (forall_mem_map.mpr ih)

/-- The tree of an accepted text can be written. -/
theorem hasNumbers_of_accepted {json : StringView} (accepted : jsonvParseRoot json = .ok tree) :
    HasNumbers tree := by
  obtain ⟨reading, ⟨before, text, after, -, derives, -, -⟩, rfl⟩ := exists_isJson accepted
  exact HasNumbers.map derives.hasNumbers _

/-- Every tree that can be written is the tree of a text. -/
theorem HasNumbers.exists_text (numbers : HasNumbers tree) :
    ∃ json, jsonvParseRoot json = .ok tree :=
  ⟨_, by rw [numbers.isJson.accepted, map_written_decoded]⟩

end Nobify.Evaluator.Json
