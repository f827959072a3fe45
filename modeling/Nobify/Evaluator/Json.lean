import Nobify.Evaluator.Compare

/-!
# JSON texts

`string(JSON)` reads a text into a tree with a cursor that every function moves on, and writes a
tree as an indented text. Every read of the text outside a loop condition goes through `charAt`,
which fails outside of the text, and the parsers have a bound on their steps; neither of the two
faults is an outcome of the source.
-/

namespace Nobify.Evaluator

open List

/-- `String_Json_Value`, over what a string is read as. -/
inductive JsonValue (τ : Type) where
  | null
  | bool (value : Bool)
  | number (token : StringView)
  | string (text : τ)
  | array (items : List (JsonValue τ))
  | object (members : List (τ × JsonValue τ))

namespace JsonValue

variable {τ σ : Type}

mutual

/-- The tree with every string and key read in another way. -/
def map (read : τ → σ) : JsonValue τ → JsonValue σ
  | .null => .null
  | .bool value => .bool value
  | .number token => .number token
  | .string text => .string (read text)
  | .array items => .array (mapItems read items)
  | .object members => .object (mapMembers read members)

/-- The items of an array. -/
def mapItems (read : τ → σ) : List (JsonValue τ) → List (JsonValue σ)
  | [] => []
  | item :: rest => map read item :: mapItems read rest

/-- The members of an object. -/
def mapMembers (read : τ → σ) : List (τ × JsonValue τ) → List (σ × JsonValue σ)
  | [] => []
  | (key, value) :: rest => (read key, map read value) :: mapMembers read rest

end

@[simp] theorem mapItems_eq (read : τ → σ) (items : List (JsonValue τ)) :
    mapItems read items = items.map (map read) := by
  induction items with
  | nil => rfl
  | cons item rest ih => rw [mapItems, ih, map_cons]

@[simp] theorem mapMembers_eq (read : τ → σ) (members : List (τ × JsonValue τ)) :
    mapMembers read members = members.map fun member => (read member.1, map read member.2) := by
  induction members with
  | nil => rfl
  | cons member rest ih => rw [mapMembers, ih, map_cons]

/-- Induction on a tree, with the property for all items of an array and all members of an
object. -/
theorem induct {motive : JsonValue τ → Prop} (null : motive .null)
    (bool : ∀ value, motive (.bool value)) (number : ∀ token, motive (.number token))
    (string : ∀ text, motive (.string text))
    (array : ∀ items, (∀ item ∈ items, motive item) → motive (.array items))
    (object : ∀ members, (∀ member ∈ members, motive member.2) → motive (.object members))
    (value : JsonValue τ) : motive value :=
  @JsonValue.rec τ motive (fun items => ∀ item ∈ items, motive item)
    (fun members => ∀ member ∈ members, motive member.2) (fun member => motive member.2)
    null bool number string array object
    (fun _ member => nomatch member)
    (fun _ _ first rest => forall_mem_cons.mpr ⟨first, rest⟩)
    (fun _ member => nomatch member)
    (fun _ _ first rest => forall_mem_cons.mpr ⟨first, rest⟩) (fun _ _ inner => inner) value

mutual

/-- All strings and keys of a tree. -/
def strings : JsonValue τ → List τ
  | .null => []
  | .bool _ => []
  | .number _ => []
  | .string text => [text]
  | .array items => stringsOfItems items
  | .object members => stringsOfMembers members

/-- The strings of the items of an array. -/
def stringsOfItems : List (JsonValue τ) → List τ
  | [] => []
  | item :: rest => strings item ++ stringsOfItems rest

/-- The keys of an object and the strings of its members. -/
def stringsOfMembers : List (τ × JsonValue τ) → List τ
  | [] => []
  | (key, value) :: rest => key :: (strings value ++ stringsOfMembers rest)

end

@[simp] theorem stringsOfItems_eq (items : List (JsonValue τ)) :
    stringsOfItems items = items.flatMap strings := by
  induction items with
  | nil => rfl
  | cons item rest ih => rw [stringsOfItems, ih, flatMap_cons]

@[simp] theorem stringsOfMembers_eq (members : List (τ × JsonValue τ)) :
    stringsOfMembers members = members.flatMap fun member => member.1 :: member.2.strings := by
  induction members with
  | nil => rfl
  | cons member rest ih => rw [stringsOfMembers, ih, flatMap_cons, cons_append]

/-- Two ways of reading give the same tree exactly when they agree on all strings and keys. -/
theorem map_eq_map_iff {first second : τ → σ} {tree : JsonValue τ} :
    tree.map first = tree.map second ↔ ∀ text ∈ tree.strings, first text = second text := by
  induction tree using induct with
  | null => simp [map, strings]
  | bool value => simp [map, strings]
  | number token => simp [map, strings]
  | string text => simp [map, strings]
  | array items ih =>
    simp only [map, mapItems_eq, array.injEq, map_inj_left, strings, stringsOfItems_eq,
      mem_flatMap, forall_exists_index, and_imp]
    constructor
    · exact fun same text item listed member => (ih item listed).mp (same item listed) text member
    · exact fun same item listed =>
        (ih item listed).mpr fun text member => same text item listed member
  | object members ih =>
    simp only [map, mapMembers_eq, object.injEq, map_inj_left, strings, stringsOfMembers_eq,
      mem_flatMap, forall_exists_index, and_imp, mem_cons, Prod.mk.injEq]
    constructor
    · rintro same text member listed (rfl | inner)
      · exact (same member listed).1
      · exact (ih member listed).mp (same member listed).2 text inner
    · intro same member listed
      refine ⟨same member.1 member listed (.inl rfl), (ih member listed).mpr fun text inner => ?_⟩
      exact same text member listed (.inr inner)

/-- Reading twice. -/
theorem map_map {ρ : Type} (first : τ → σ) (second : σ → ρ) (tree : JsonValue τ) :
    (tree.map first).map second = tree.map (second ∘ first) := by
  induction tree using induct with
  | null => rfl
  | bool value => rfl
  | number token => rfl
  | string text => rfl
  | array items ih =>
    simp only [map, mapItems_eq, List.map_map]
    exact congrArg _ (map_congr_left ih)
  | object members ih =>
    simp only [map, mapMembers_eq, List.map_map]
    refine congrArg _ (map_congr_left fun member listed => ?_)
    simp only [Function.comp_apply, ih member listed]

theorem map_id (tree : JsonValue τ) : tree.map id = tree := by
  induction tree using induct with
  | null => rfl
  | bool value => rfl
  | number token => rfl
  | string text => rfl
  | array items ih =>
    rw [map, mapItems_eq, map_congr_left ih, map_id']
  | object members ih =>
    have same : members.map (fun member => (id member.1, member.2.map id)) = members := by
      refine (map_congr_left fun member listed => ?_).trans (List.map_id members)
      rw [ih member listed]
      rfl
    rw [map, mapMembers_eq, same]

end JsonValue

/-! ## Reading -/

/-- How reading a text ends early: with a message, because a string that was scanned could not be
decoded, or in a way that the source cannot end in. -/
inductive JsonFault where
  | rejected (message : StringView)
  | undecodable (message : StringView)
  | outside
  | stuck

/-- A result of reading. -/
abbrev JsonResult (α : Type) := Except JsonFault α

/-- `json.data[i]`. -/
def charAt (json : StringView) (i : Nat) : JsonResult Char :=
  match json[i]? with
  | some char => .ok char
  | none => .error .outside

/-- `while (i < json.count && accepts(json.data[i])) i++`. -/
def skipWhile (accepts : Char → Bool) (json : StringView) (i : Nat) : Nat :=
  i + ((json.drop i).takeWhile accepts).length

/-- `string_json_skip_ws`. -/
def jsonSkipWs (json : StringView) (i : Nat) : Nat := skipWhile isSpace json i

/-- The letters after a backslash that stand for one character, as the decoder reads them. -/
def jsonEscape (letter : Char) : Option Char :=
  match letter with
  | '"' => some '"'
  | '\\' => some '\\'
  | '/' => some '/'
  | 'b' => some '\x08'
  | 'f' => some '\x0c'
  | 'n' => some '\n'
  | 'r' => some '\x0d'
  | 't' => some '\t'
  | _ => none

/-- The loop of `string_json_parse_string_token`: the place of the closing quote. -/
def jsonStringTokenLoop (json : StringView) : Nat → Nat → JsonResult (Option Nat)
  | 0, _ => .error .stuck
  | fuel + 1, i => do
    if json.length ≤ i then return none
    let c ← charAt json i
    if c = '"' then return some i
    if c = '\\' then
      if json.length ≤ i + 1 then return none
      let e ← charAt json (i + 1)
      if e = 'u' then
        if json.length ≤ i + 5 then return none
        let h0 ← charAt json (i + 2)
        let h1 ← charAt json (i + 3)
        let h2 ← charAt json (i + 4)
        let h3 ← charAt json (i + 5)
        if ([h0, h1, h2, h3].all fun h => (hexDigit? h).isSome) = false then return none
        jsonStringTokenLoop json fuel (i + 6)
      else if (jsonEscape e).isNone then return none
      else jsonStringTokenLoop json fuel (i + 2)
    else jsonStringTokenLoop json fuel (i + 1)

/-- `string_json_parse_string_token`: where the inner text starts and ends; the cursor goes behind
the closing quote. -/
def jsonParseStringToken (json : StringView) (i : Nat) : JsonResult (Option (Nat × Nat)) := do
  if json[i]? ≠ some '"' then return none
  let found ← jsonStringTokenLoop json (json.length - i) (i + 1)
  return found.map fun close => (i + 1, close)

/-- The code point of four hexadecimal digits. -/
def jsonCodePoint (h0 h1 h2 h3 : Nat) : Nat := h0 <<< 12 ||| h1 <<< 8 ||| h2 <<< 4 ||| h3

/-- `string_json_decode_string_temp`, from an index of the raw text. -/
def jsonDecodeLoop (raw : StringView) : Nat → Nat → JsonResult (Option StringView)
  | 0, _ => .error .stuck
  | fuel + 1, i => do
    if raw.length ≤ i then return some []
    let c ← charAt raw i
    if c ≠ '\\' then return (← jsonDecodeLoop raw fuel (i + 1)).map (c :: ·)
    if raw.length ≤ i + 1 then return none
    let e ← charAt raw (i + 1)
    if e = 'u' then
      if raw.length ≤ i + 5 then return none
      let h0 ← charAt raw (i + 2)
      let h1 ← charAt raw (i + 3)
      let h2 ← charAt raw (i + 4)
      let h3 ← charAt raw (i + 5)
      match hexDigit? h0, hexDigit? h1, hexDigit? h2, hexDigit? h3 with
      | some h0, some h1, some h2, some h3 =>
        let cp := jsonCodePoint h0 h1 h2 h3
        return (← jsonDecodeLoop raw fuel (i + 6)).map
          ((if cp ≤ 0x7F then Char.ofNat cp else '?') :: ·)
      | _, _, _, _ => return none
    else
      match jsonEscape e with
      | some char => return (← jsonDecodeLoop raw fuel (i + 2)).map (char :: ·)
      | none => return none

/-- `string_json_decode_string_temp`. -/
def jsonDecodeString (raw : StringView) : JsonResult (Option StringView) :=
  jsonDecodeLoop raw (raw.length + 1) 0

/-- The digits in front of the point, behind the sign. -/
def jsonParseInteger (json : StringView) (i : Nat) : JsonResult (Option Nat) := do
  if json.length ≤ i then return none
  let c ← charAt json i
  if c = '0' then return some (i + 1)
  else if '1' ≤ c ∧ c ≤ '9' then return some (skipWhile isDigit json (i + 1))
  else return none

/-- At least one digit. -/
def jsonParseDigits (json : StringView) (i : Nat) : JsonResult (Option Nat) := do
  if json.length ≤ i then return none
  let c ← charAt json i
  if isDigit c = false then return none
  return some (skipWhile isDigit json i)

/-- The point and the digits behind it, if there is a point. -/
def jsonParseFraction (json : StringView) (i : Nat) : JsonResult (Option Nat) :=
  if json[i]? = some '.' then jsonParseDigits json (i + 1) else .ok (some i)

/-- The exponent, if there is one. -/
def jsonParseExponent (json : StringView) (i : Nat) : JsonResult (Option Nat) :=
  if json[i]? = some 'e' ∨ json[i]? = some 'E' then
    if json[i + 1]? = some '+' ∨ json[i + 1]? = some '-' then jsonParseDigits json (i + 2)
    else jsonParseDigits json (i + 1)
  else .ok (some i)

/-- `string_json_parse_number_token`. -/
def jsonParseNumberToken (json : StringView) (i : Nat) : JsonResult (Option Nat) :=
  if json.length ≤ i then .ok none
  else do
    let c ← charAt json i
    match ← jsonParseInteger json (if c = '-' then i + 1 else i) with
    | none => return none
    | some i =>
      match ← jsonParseFraction json i with
      | none => return none
      | some i => jsonParseExponent json i

/-- `string_json_match_lit`. -/
def jsonMatchLit (json : StringView) (i : Nat) (lit : StringView) : Option Nat :=
  if json.length < i + lit.length then none
  else if (json.drop i).take lit.length = lit then some (i + lit.length)
  else none

/-- What follows an item or a member: a comma, and the cursor at what comes next, or the closer, and
the cursor behind it. -/
def jsonvNext (json : StringView) (start : Nat) (closer : Char)
    (unterminated unexpected : StringView) : JsonResult (Bool × Nat) :=
  let i := jsonSkipWs json start
  if json.length ≤ i then .error (.rejected unterminated)
  else do
    let c ← charAt json i
    if c = ',' then return (true, jsonSkipWs json (i + 1))
    else if c = closer then return (false, i + 1)
    else .error (.rejected unexpected)

section Parser

variable {τ : Type} (decode : StringView → JsonResult (Option τ)) (json : StringView)

/-- A string or a key: its token, decoded, with the cursor behind it. -/
def jsonParseString (i : Nat) (invalid undecodable : StringView) : JsonResult (τ × Nat) := do
  match ← jsonParseStringToken json i with
  | none => .error (.rejected invalid)
  | some (k0, k1) =>
    match ← decode ((json.drop k0).take (k1 - k0)) with
    | none => .error (.undecodable undecodable)
    | some text => return (text, k1 + 1)

/-- A key and the colon behind it, with the cursor at the value. -/
def jsonvParseKey (start : Nat) : JsonResult (τ × Nat) := do
  let (key, i) ← jsonParseString decode json start
    (sv "string(JSON) failed to parse object key") (sv "string(JSON) failed to decode object key")
  let i := jsonSkipWs json i
  if json[i]? = some ':' then return (key, jsonSkipWs json (i + 1))
  else .error (.rejected (sv "string(JSON) expected ':' after object key"))

/-- A literal with its value. -/
def jsonParseLiteral (i : Nat) (lit : StringView) (value : JsonValue τ) :
    JsonResult (JsonValue τ × Nat) :=
  match jsonMatchLit json i lit with
  | some next => .ok (value, next)
  | none => .error (.rejected (sv "string(JSON) invalid literal"))

/-- The cases of `string_jsonv_parse_value_temp` that are no container, at their first character. -/
def jsonvParseScalar (i : Nat) (c : Char) : JsonResult (JsonValue τ × Nat) :=
  if c = '"' then do
    let (text, next) ← jsonParseString decode json i (sv "string(JSON) invalid string value")
      (sv "string(JSON) failed to decode string value")
    return (.string text, next)
  else if c = '-' ∨ ('0' ≤ c ∧ c ≤ '9') then do
    match ← jsonParseNumberToken json i with
    | none => .error (.rejected (sv "string(JSON) invalid number"))
    | some next => return (.number ((json.drop i).take (next - i)), next)
  else if c = 't' then jsonParseLiteral json i (sv "true") (.bool true)
  else if c = 'f' then jsonParseLiteral json i (sv "false") (.bool false)
  else if c = 'n' then jsonParseLiteral json i (sv "null") .null
  else .error (.rejected (sv "string(JSON) invalid token"))

mutual

/-- `string_jsonv_parse_value_temp`. -/
def jsonvParseValue : Nat → Nat → JsonResult (JsonValue τ × Nat)
  | 0, _ => .error .stuck
  | fuel + 1, start =>
    let i := jsonSkipWs json start
    if json.length ≤ i then .error (.rejected (sv "string(JSON) unexpected end of input"))
    else do
      let c ← charAt json i
      if c = '{' then jsonvParseObject fuel i
      else if c = '[' then jsonvParseArray fuel i
      else jsonvParseScalar decode json i c

/-- `string_jsonv_parse_object_temp`. -/
def jsonvParseObject : Nat → Nat → JsonResult (JsonValue τ × Nat)
  | 0, _ => .error .stuck
  | fuel + 1, start =>
    if json[start]? = some '{' then
      let i := jsonSkipWs json (start + 1)
      if json[i]? = some '}' then return (.object [], i + 1)
      else jsonvParseMembers fuel [] i
    else .error (.rejected [])

/-- The loop of `string_jsonv_parse_object_temp`. -/
def jsonvParseMembers : Nat → List (τ × JsonValue τ) → Nat → JsonResult (JsonValue τ × Nat)
  | 0, _, _ => .error .stuck
  | fuel + 1, members, start => do
    let (key, i) ← jsonvParseKey decode json start
    let (child, i) ← jsonvParseValue fuel i
    let (more, i) ← jsonvNext json i '}' (sv "string(JSON) object is not terminated")
      (sv "string(JSON) expected ',' or '\x7d' in object")
    if more then jsonvParseMembers fuel (members ++ [(key, child)]) i
    else return (.object (members ++ [(key, child)]), i)

/-- `string_jsonv_parse_array_temp`. -/
def jsonvParseArray : Nat → Nat → JsonResult (JsonValue τ × Nat)
  | 0, _ => .error .stuck
  | fuel + 1, start =>
    if json[start]? = some '[' then
      let i := jsonSkipWs json (start + 1)
      if json[i]? = some ']' then return (.array [], i + 1)
      else jsonvParseItems fuel [] i
    else .error (.rejected [])

/-- The loop of `string_jsonv_parse_array_temp`. -/
def jsonvParseItems : Nat → List (JsonValue τ) → Nat → JsonResult (JsonValue τ × Nat)
  | 0, _, _ => .error .stuck
  | fuel + 1, items, start => do
    let (child, i) ← jsonvParseValue fuel start
    let (more, i) ← jsonvNext json i ']' (sv "string(JSON) array is not terminated")
      (sv "string(JSON) expected ',' or ']' in array")
    if more then jsonvParseItems fuel (items ++ [child]) i
    else return (.array (items ++ [child]), i)

end

/-- `string_jsonv_parse_root_temp`, over the decoder of strings. The bound on the steps is never
reached. -/
def jsonvParseRootWith : JsonResult (JsonValue τ) := do
  let (tree, i) ← jsonvParseValue decode json (3 * json.length + 1) 0
  if jsonSkipWs json i = json.length then return tree
  else .error (.rejected (sv "string(JSON) extra trailing input"))

end Parser

/-- `string_jsonv_parse_root_temp`. -/
def jsonvParseRoot (json : StringView) : JsonResult (JsonValue StringView) :=
  jsonvParseRootWith jsonDecodeString json

/-! ## Writing -/

/-- `string_jsonv_append_indent`. -/
def jsonvIndent (level : Nat) : StringView := List.replicate (2 * level) ' '

/-- The digits that `string_jsonv_append_escaped_string` picks from. -/
def jsonHexDigit (value : Nat) : Char := (sv "0123456789abcdef").getD value '0'

/-- The switch of `string_jsonv_append_escaped_string`. -/
def jsonvEscapeChar (c : Char) : StringView :=
  match c with
  | '"' => sv "\\\""
  | '\\' => sv "\\\\"
  | '\x08' => sv "\\b"
  | '\x0c' => sv "\\f"
  | '\n' => sv "\\n"
  | '\x0d' => sv "\\r"
  | '\t' => sv "\\t"
  | c =>
    if c.toNat < 0x20 then
      ['\\', 'u', '0', '0', jsonHexDigit (c.toNat >>> 4 &&& 0x0F), jsonHexDigit (c.toNat &&& 0x0F)]
    else [c]

/-- `string_jsonv_append_escaped_string`. -/
def jsonvEscapedString (text : StringView) : StringView :=
  '"' :: (text.flatMap jsonvEscapeChar ++ ['"'])

mutual

/-- `string_jsonv_serialize_append`. -/
def jsonvSerializeAt (indent : Nat) : JsonValue StringView → StringView
  | .null => sv "null"
  | .bool value => if value then sv "true" else sv "false"
  | .number token => token
  | .string text => jsonvEscapedString text
  | .array [] => sv "[]"
  | .array (item :: rest) =>
    sv "[\n" ++ jsonvSerializeItems indent (item :: rest) ++ jsonvIndent indent ++ sv "]"
  | .object [] => sv "\x7b\x7d"
  | .object (member :: rest) =>
    sv "\x7b\n" ++ jsonvSerializeMembers indent (member :: rest) ++ jsonvIndent indent ++ sv "\x7d"

/-- The loop over the items of an array. -/
def jsonvSerializeItems (indent : Nat) : List (JsonValue StringView) → StringView
  | [] => []
  | item :: rest =>
    jsonvIndent (indent + 1) ++ jsonvSerializeAt (indent + 1) item ++
      (if rest.isEmpty then [] else sv ",") ++ sv "\n" ++ jsonvSerializeItems indent rest

/-- The loop over the members of an object. -/
def jsonvSerializeMembers (indent : Nat) : List (StringView × JsonValue StringView) → StringView
  | [] => []
  | (key, value) :: rest =>
    jsonvIndent (indent + 1) ++ jsonvEscapedString key ++ sv " : " ++
      jsonvSerializeAt (indent + 1) value ++ (if rest.isEmpty then [] else sv ",") ++ sv "\n" ++
      jsonvSerializeMembers indent rest

end

/-- `string_jsonv_serialize_temp`. -/
def jsonvSerialize (tree : JsonValue StringView) : StringView := jsonvSerializeAt 0 tree

end Nobify.Evaluator
