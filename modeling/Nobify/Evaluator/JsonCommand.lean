import Nobify.Evaluator.Json
import Nobify.Evaluator.ListItems
import Nobify.Lib.InsertionSort

/-!
# string(JSON)

The modes of the command over the tree of a text. The source walks down to a node and changes it
through its pointer; here a pointer into the tree is the list of places on the way down.
-/

namespace Nobify.Evaluator

/-- `String_Json_Error`, with the tokens of the path that it names. -/
structure JsonError where
  message : StringView
  path : List StringView

/-- `string_json_notfound_temp`. -/
def jsonNotFound : List StringView → StringView
  | [] => sv "NOTFOUND"
  | path => List.intercalate ['-'] path ++ sv "-NOTFOUND"

/-- `string_json_message_with_token_temp`. -/
def jsonMessageWithToken (message token : StringView) : StringView :=
  if token = [] then message else message ++ sv ": " ++ token

/-- The names of `string_json_type_name`. -/
def jsonTypeName {τ : Type} : JsonValue τ → StringView
  | .null => sv "NULL"
  | .bool _ => sv "BOOLEAN"
  | .number _ => sv "NUMBER"
  | .string _ => sv "STRING"
  | .array _ => sv "ARRAY"
  | .object _ => sv "OBJECT"

/-! ## Members and elements -/

/-- `string_jsonv_parse_index_sv`, with the bound when it is checked. -/
def jsonvParseIndex (token : StringView) (bound : Option Nat) : Option Nat :=
  match listParseI64 token with
  | none => none
  | some index =>
    if index < 0 ∨ ∃ count ∈ bound, count ≤ index.toNat then none else some index.toNat

/-- `string_jsonv_object_find`. -/
def jsonvObjectFind (members : List (StringView × JsonValue StringView)) (key : StringView) :
    Option Nat :=
  members.findIdx? fun member => member.1 == key

/-- `string_jsonv_object_member_key_at_temp`: the key at a place of the sorted keys. -/
def jsonvObjectMemberKeyAt (members : List (StringView × JsonValue StringView)) (index : Nat) :
    Option StringView :=
  (Lib.sortInPlace svLexCmp (members.map Prod.fst))[index]?

mutual

/-- `string_jsonv_equal`. -/
def jsonvEqual : JsonValue StringView → JsonValue StringView → Bool
  | .null, .null => true
  | .bool a, .bool b => a == b
  | .number a, .number b => a == b
  | .string a, .string b => a == b
  | .array as, .array bs => as.length == bs.length && jsonvEqualItems as bs
  | .object as, .object bs => as.length == bs.length && jsonvEqualMembers as bs
  | _, _ => false

/-- The loop of `string_jsonv_equal` over the items of an array. -/
def jsonvEqualItems : List (JsonValue StringView) → List (JsonValue StringView) → Bool
  | a :: as, b :: bs => jsonvEqual a b && jsonvEqualItems as bs
  | _, _ => true

/-- The loop of `string_jsonv_equal` over the members of the first object. -/
def jsonvEqualMembers : List (StringView × JsonValue StringView) →
    List (StringView × JsonValue StringView) → Bool
  | [], _ => true
  | (key, value) :: rest, bs =>
    match (jsonvObjectFind bs key).bind (bs[·]?) with
    | some (_, other) => jsonvEqual value other && jsonvEqualMembers rest bs
    | none => false

end

/-! ## Paths -/

/-- One turn of `string_jsonv_resolve_path`: the place of the child, or the message. -/
def jsonvResolveToken (current : JsonValue StringView) (token : StringView) :
    Except StringView (Nat × JsonValue StringView) :=
  match current with
  | .object members =>
    match (jsonvObjectFind members token).bind fun index => members[index]?.map (index, ·.2) with
    | some child => .ok child
    | none => .error (jsonMessageWithToken (sv "string(JSON) object member not found") token)
  | .array items =>
    match (jsonvParseIndex token items.length).bind fun index => items[index]?.map (index, ·) with
    | some child => .ok child
    | none => .error (jsonMessageWithToken (sv "string(JSON) array index out of range") token)
  | _ => .error (jsonMessageWithToken (sv "string(JSON) path traverses non-container value") token)

/-- `string_jsonv_resolve_path`: the pointer and what it points to. The tokens that are done come
first in the path of an error. -/
def jsonvResolvePath (done : List StringView) (current : JsonValue StringView) :
    List StringView → Except JsonError (List Nat × JsonValue StringView)
  | [] => .ok ([], current)
  | token :: rest =>
    match jsonvResolveToken current token with
    | .error message => .error ⟨message, done ++ [token]⟩
    | .ok (index, child) =>
      (jsonvResolvePath (done ++ [token]) child rest).map fun (place, target) =>
        (index :: place, target)

/-- The tree behind an assignment through a pointer. -/
def jsonvStore (value : JsonValue StringView) :
    List Nat → JsonValue StringView → JsonValue StringView
  | [], _ => value
  | index :: place, .object members =>
    .object (members.modify index fun (key, child) => (key, jsonvStore value place child))
  | index :: place, .array items => .array (items.modify index (jsonvStore value place))
  | _ :: _, tree => tree

/-! ## Modes -/

/-- The modes of the command. -/
inductive JsonMode where
  | get
  | type
  | member
  | length
  | remove
  | set
  | equal
  deriving DecidableEq

/-- The mode that a word names. -/
def jsonMode? (word : StringView) : Option JsonMode :=
  if svEqCi word (sv "GET") then some .get
  else if svEqCi word (sv "TYPE") then some .type
  else if svEqCi word (sv "MEMBER") then some .member
  else if svEqCi word (sv "LENGTH") then some .length
  else if svEqCi word (sv "REMOVE") then some .remove
  else if svEqCi word (sv "SET") then some .set
  else if svEqCi word (sv "EQUAL") then some .equal
  else none

/-- An argument read as a text, with an error that names a part of the path. -/
def jsonArgument (json : StringView) (path : List StringView) :
    Except JsonError (JsonValue StringView) :=
  match jsonvParseRoot json with
  | .ok tree => .ok tree
  | .error (.rejected message) => .error ⟨message, path⟩
  | .error (.undecodable message) => .error ⟨message, path⟩
  | .error _ => .error ⟨[], path⟩

/-- What mode GET stores for a node. -/
def jsonvGet : JsonValue StringView → StringView
  | .string text => text
  | .number token => token
  | .bool value => if value then sv "ON" else sv "OFF"
  | .null => []
  | tree => jsonvSerialize tree

/-- Mode LENGTH, for a node behind a path. -/
def jsonvLength (path : List StringView) : JsonValue StringView → Except JsonError StringView
  | .array items => .ok (sv (toString items.length))
  | .object members => .ok (sv (toString members.length))
  | _ => .error ⟨sv "string(JSON LENGTH) requires ARRAY or OBJECT", path⟩

/-- Mode MEMBER: the last argument is the index. -/
def jsonMember (root : JsonValue StringView) (path : List StringView) :
    Except JsonError StringView :=
  match path.getLast? with
  | none => .error ⟨sv "string(JSON MEMBER) requires index argument", []⟩
  | some index => do
    let (_, target) ← jsonvResolvePath [] root path.dropLast
    match target with
    | .object members =>
      match (jsonvParseIndex index members.length).bind (jsonvObjectMemberKeyAt members) with
      | some key => return key
      | none =>
        .error ⟨jsonMessageWithToken (sv "string(JSON MEMBER) invalid index") index, path⟩
    | _ => .error ⟨sv "string(JSON MEMBER) requires OBJECT target", path.dropLast⟩

/-- The node that mode REMOVE leaves of its target. -/
def jsonvRemoveChild (path : List StringView) (token : StringView) :
    JsonValue StringView → Except JsonError (JsonValue StringView)
  | .object members =>
    match jsonvObjectFind members token with
    | some index => .ok (.object (members.eraseIdx index))
    | none => .ok (.object members)
  | .array items =>
    match jsonvParseIndex token items.length with
    | some index => .ok (.array (items.eraseIdx index))
    | none => .error ⟨jsonMessageWithToken (sv "string(JSON REMOVE) invalid index") token, path⟩
  | _ => .error ⟨sv "string(JSON REMOVE) requires OBJECT or ARRAY target", path.dropLast⟩

/-- Mode REMOVE. -/
def jsonRemove (root : JsonValue StringView) (path : List StringView) :
    Except JsonError StringView :=
  match path.getLast? with
  | none => .error ⟨sv "string(JSON REMOVE) requires at least one path token", []⟩
  | some token => do
    let (place, parent) ← jsonvResolvePath [] root path.dropLast
    let parent ← jsonvRemoveChild path token parent
    return jsonvSerialize (jsonvStore parent place root)

/-- The node that mode SET makes of its target: a child is replaced, or the value is added. -/
def jsonvSetChild (path : List StringView) (token : StringView) (value : JsonValue StringView) :
    JsonValue StringView → Except JsonError (JsonValue StringView)
  | .object members =>
    match jsonvObjectFind members token with
    | some index => .ok (.object (members.modify index fun (key, _) => (key, value)))
    | none => .ok (.object (members ++ [(token, value)]))
  | .array items =>
    match jsonvParseIndex token none with
    | some index =>
      if index < items.length then .ok (.array (items.set index value))
      else .ok (.array (items ++ [value]))
    | none => .error ⟨jsonMessageWithToken (sv "string(JSON SET) invalid array index") token, path⟩
  | _ => .error ⟨sv "string(JSON SET) requires OBJECT or ARRAY target", path.dropLast⟩

/-- Mode SET: the last argument is the value, the one before it names the child. -/
def jsonSet (root : JsonValue StringView) (arguments : List StringView) :
    Except JsonError StringView :=
  let path := arguments.dropLast
  match arguments.getLast?, path.getLast? with
  | some newJson, some token => do
    let value ← jsonArgument newJson path
    let (place, parent) ← jsonvResolvePath [] root path.dropLast
    let parent ← jsonvSetChild path token value parent
    return jsonvSerialize (jsonvStore parent place root)
  | _, _ => .error ⟨sv "string(JSON SET) requires path and value arguments", []⟩

/-- Mode EQUAL. -/
def jsonEqual (arguments : List StringView) : Except JsonError StringView :=
  match arguments with
  | [left, right] => do
    let left ← jsonArgument left []
    let right ← jsonArgument right []
    return if jsonvEqual left right then sv "ON" else sv "OFF"
  | _ => .error ⟨sv "string(JSON EQUAL) expects exactly two JSON strings", []⟩

/-- `string_handle_json_command` behind the mode: what it stores, or its error. -/
def stringJson (mode : JsonMode) (arguments : List StringView) : Except JsonError StringView :=
  if mode = .equal then jsonEqual arguments
  else
    match arguments with
    | [] => .error ⟨sv "string(JSON) missing JSON string argument", []⟩
    | json :: path => do
      let root ← jsonArgument json []
      match mode with
      | .get => return jsonvGet (← jsonvResolvePath [] root path).2
      | .type => return jsonTypeName (← jsonvResolvePath [] root path).2
      | .length => jsonvLength path (← jsonvResolvePath [] root path).2
      | .member => jsonMember root path
      | .remove => jsonRemove root path
      | .set => jsonSet root path
      | .equal => jsonEqual arguments

end Nobify.Evaluator
