import Nobify.Evaluator.JsonCommand
import Nobify.Evaluator.JsonRoundTrip
import Nobify.Lib.ExceptLoop

/-!
# Edited texts

`string(JSON REMOVE)` and `string(JSON SET)` decode a whole document, change one place of it and
encode the whole document again. Every kept string goes through the decoder, so the result is the
document changed at that place exactly when no kept string has an escape beyond ASCII.
-/

namespace Nobify.Evaluator.Json

open List

variable {index : Nat} {path : List StringView} {changed root target : JsonValue StringView}
  {items : List (JsonValue (List JsonChar))} {json result : StringView} {change : JsonChange}

/-! ## What an edit is -/

/-- The value changed at the path, as JSON has it: with a value, the first member of the key or the
element of the index becomes that value, or it is added behind the others; without one, the member
or the element goes away. -/
inductive EditedAt (edit : Option (JsonValue StringView)) :
    List StringView → JsonValue StringView → JsonValue StringView → Prop where
  | member {token : StringView} {front back : List (StringView × JsonValue StringView)}
    {old : JsonValue StringView} (first : token ∉ front.map Prod.fst) :
    EditedAt edit [token] (.object (front ++ (token, old) :: back))
      (.object (front ++ (edit.toList.map (token, ·) ++ back)))
  | newMember {token : StringView} {members : List (StringView × JsonValue StringView)}
    (absent : token ∉ members.map Prod.fst) :
    EditedAt edit [token] (.object members) (.object (members ++ edit.toList.map (token, ·)))
  | element {token : StringView} {front back : List (JsonValue StringView)}
    {old : JsonValue StringView} (index : jsonvParseIndex token none = some front.length) :
    EditedAt edit [token] (.array (front ++ old :: back)) (.array (front ++ (edit.toList ++ back)))
  | newElement {token : StringView} {items : List (JsonValue StringView)} {index : Nat}
    (put : edit.isSome = true) (read : jsonvParseIndex token none = some index)
    (behind : items.length ≤ index) :
    EditedAt edit [token] (.array items) (.array (items ++ edit.toList))
  | inMember {token : StringView} {rest : List StringView}
    {front back : List (StringView × JsonValue StringView)} {old new : JsonValue StringView}
    (first : token ∉ front.map Prod.fst) (inner : EditedAt edit rest old new) :
    EditedAt edit (token :: rest) (.object (front ++ (token, old) :: back))
      (.object (front ++ (token, new) :: back))
  | inElement {token : StringView} {rest : List StringView}
    {front back : List (JsonValue StringView)} {old new : JsonValue StringView}
    (index : jsonvParseIndex token none = some front.length) (inner : EditedAt edit rest old new) :
    EditedAt edit (token :: rest) (.array (front ++ old :: back)) (.array (front ++ new :: back))

section Inversion

variable {edit : Option (JsonValue StringView)} {token : StringView} {rest : List StringView}
  {after : JsonValue StringView}

/-- Nothing is edited without a path. -/
theorem EditedAt.path_ne_nil {before : JsonValue StringView} : ¬ EditedAt edit [] before after :=
  fun edited => nomatch edited

/-- What the edit puts in the place of a child, when the rest of the path is behind it. -/
def ReplacesBy (edit : Option (JsonValue StringView)) (rest : List StringView)
    (old : JsonValue StringView) (changed : List (JsonValue StringView)) : Prop :=
  rest = [] ∧ changed = edit.toList ∨ ∃ new, changed = [new] ∧ EditedAt edit rest old new

/-- An edited object has a member of the key, or gets one at its end. -/
theorem EditedAt.object_cases {members : List (StringView × JsonValue StringView)}
    (edited : EditedAt edit (token :: rest) (.object members) after) :
    (∃ front old back changed, members = front ++ (token, old) :: back ∧
      token ∉ front.map Prod.fst ∧
      after = .object (front ++ (changed.map (token, ·) ++ back)) ∧
      ReplacesBy edit rest old changed) ∨
    (rest = [] ∧ token ∉ members.map Prod.fst ∧
      after = .object (members ++ edit.toList.map (token, ·))) := by
  cases edited with
  | member first =>
    exact .inl ⟨_, _, _, _, rfl, first, rfl, .inl ⟨rfl, rfl⟩⟩
  | newMember absent =>
    exact .inr ⟨rfl, absent, rfl⟩
  | inMember first inner =>
    exact .inl ⟨_, _, _, [_], rfl, first, rfl, .inr ⟨_, rfl, inner⟩⟩

/-- An edited array has an element of the index, or gets one at its end. -/
theorem EditedAt.array_cases {items : List (JsonValue StringView)}
    (edited : EditedAt edit (token :: rest) (.array items) after) :
    (∃ front old back changed, items = front ++ old :: back ∧
      jsonvParseIndex token none = some front.length ∧ after = .array (front ++ (changed ++ back)) ∧
      ReplacesBy edit rest old changed) ∨
    (rest = [] ∧ edit.isSome = true ∧ (∃ index, jsonvParseIndex token none = some index ∧
      items.length ≤ index) ∧ after = .array (items ++ edit.toList)) := by
  cases edited with
  | element index =>
    exact .inl ⟨_, _, _, _, rfl, index, rfl, .inl ⟨rfl, rfl⟩⟩
  | newElement put read behind =>
    exact .inr ⟨rfl, put, ⟨_, read, behind⟩, rfl⟩
  | inElement index inner =>
    exact .inl ⟨_, _, _, [_], rfl, index, rfl, .inr ⟨_, rfl, inner⟩⟩

end Inversion

/-! ## Members and indices -/

section Members

variable {members front back : List (StringView × JsonValue StringView)} {token : StringView}
  {old : JsonValue StringView}

theorem objectFind_none (absent : jsonvObjectFind members token = none) :
    token ∉ members.map Prod.fst := by
  intro listed
  obtain ⟨member, inside, rfl⟩ := mem_map.mp listed
  have unlike := List.findIdx?_eq_none_iff.mp absent member inside
  rw [beq_self_eq_true] at unlike
  cases unlike

/-- A key is found at its first place. -/
theorem objectFind_some (found : jsonvObjectFind members token = some index) :
    ∃ front old back, members = front ++ (token, old) :: back ∧ front.length = index ∧
      token ∉ front.map Prod.fst := by
  obtain ⟨inside, here, before⟩ := List.findIdx?_eq_some_iff_getElem.mp found
  have key : members[index].1 = token := eq_of_beq here
  refine ⟨members.take index, members[index].2, members.drop (index + 1), ?_, ?_, ?_⟩
  · have split := take_append_drop index members
    rw [drop_eq_getElem_cons inside] at split
    rw [← key]
    exact split.symm
  · rw [length_take]
    omega
  · intro listed
    obtain ⟨member, early, same⟩ := mem_map.mp listed
    obtain ⟨place, short, rfl⟩ := mem_take_iff_getElem.mp early
    have unlike := before place (by omega)
    simp [same] at unlike

theorem modify_split {α : Type} (front : List α) (item : α) (back : List α) (change : α → α) :
    (front ++ item :: back).modify front.length change = front ++ change item :: back := by
  induction front with
  | nil => rfl
  | cons first rest ih => simp [ih]

theorem exists_split {α : Type} {items : List α} (inside : index < items.length) :
    ∃ front item back, items = front ++ item :: back ∧ front.length = index := by
  refine ⟨items.take index, items[index], items.drop (index + 1), ?_, ?_⟩
  · rw [← drop_eq_getElem_cons inside, take_append_drop]
  · rw [length_take]
    omega

/-- A bounded index is an index. -/
theorem parseIndex_bounded {count : Nat} (read : jsonvParseIndex token (some count) = some index) :
    jsonvParseIndex token none = some index ∧ index < count := by
  unfold jsonvParseIndex at read ⊢
  cases value : listParseI64 token with
  | none =>
    rw [value] at read
    cases read
  | some number =>
    simp only [value, Option.mem_def, Option.some.injEq, exists_eq_left', reduceCtorEq, false_and,
      exists_false, or_false] at read ⊢
    split at read
    · cases read
    · rename_i inside
      push Not at inside
      cases read
      exact ⟨if_neg (by omega), inside.2⟩

end Members

/-! ## The command edits the decoded document -/

/-- The node that mode REMOVE leaves is the target without the child. -/
theorem removeChild_editedAt {token : StringView}
    (done : jsonvRemoveChild path token target = .ok changed) :
    EditedAt none [token] target changed := by
  cases target with
  | object members =>
    cases found : jsonvObjectFind members token with
    | none =>
      simp only [jsonvRemoveChild, found] at done
      cases done
      have absent : EditedAt none [token] (.object members) (.object (members ++ [])) :=
        .newMember (objectFind_none found)
      rwa [append_nil] at absent
    | some index =>
      simp only [jsonvRemoveChild, found] at done
      cases done
      obtain ⟨front, old, back, rfl, rfl, first⟩ := objectFind_some found
      rw [eraseIdx_append_of_length_le (Nat.le_refl _), Nat.sub_self, eraseIdx_cons_zero]
      exact .member first
  | array items =>
    cases read : jsonvParseIndex token (some items.length) with
    | none =>
      simp only [jsonvRemoveChild, read] at done
      cases done
    | some index =>
      simp only [jsonvRemoveChild, read] at done
      cases done
      obtain ⟨free, inside⟩ := parseIndex_bounded read
      obtain ⟨front, old, back, rfl, rfl⟩ := exists_split inside
      rw [eraseIdx_append_of_length_le (Nat.le_refl _), Nat.sub_self, eraseIdx_cons_zero]
      exact .element free
  | _ => cases done

/-- The node that mode SET makes is the target with the value for the child. -/
theorem setChild_editedAt {token : StringView} {value : JsonValue StringView}
    (done : jsonvSetChild path token value target = .ok changed) :
    EditedAt (some value) [token] target changed := by
  cases target with
  | object members =>
    cases found : jsonvObjectFind members token with
    | none =>
      simp only [jsonvSetChild, found] at done
      cases done
      exact .newMember (objectFind_none found)
    | some index =>
      simp only [jsonvSetChild, found] at done
      cases done
      obtain ⟨front, old, back, rfl, rfl, first⟩ := objectFind_some found
      rw [modify_split]
      exact .member first
  | array items =>
    cases read : jsonvParseIndex token none with
    | none =>
      simp only [jsonvSetChild, read] at done
      cases done
    | some index =>
      simp only [jsonvSetChild, read] at done
      split at done
      · rename_i inside
        cases done
        obtain ⟨front, old, back, rfl, rfl⟩ := exists_split inside
        rw [set_append_right _ _ (Nat.le_refl _), Nat.sub_self, set_cons_zero]
        exact .element read
      · rename_i behind
        cases done
        exact .newElement rfl read (Nat.le_of_not_lt behind)
  | _ => cases done

/-- A token leads to the first member of the key, or to the element of the index. -/
theorem resolveToken_split {current child : JsonValue StringView} {token : StringView}
    (found : jsonvResolveToken current token = .ok (index, child)) :
    (∃ front back, current = .object (front ++ (token, child) :: back) ∧ front.length = index ∧
      token ∉ front.map Prod.fst) ∨
    ∃ front back, current = .array (front ++ child :: back) ∧ front.length = index ∧
      jsonvParseIndex token none = some index := by
  cases current with
  | object members =>
    refine .inl ?_
    cases hit : jsonvObjectFind members token with
    | none => simp [jsonvResolveToken, hit] at found
    | some place =>
      obtain ⟨front, old, back, rfl, rfl, first⟩ := objectFind_some hit
      simp [jsonvResolveToken, hit] at found
      obtain ⟨rfl, rfl⟩ := found
      exact ⟨front, back, rfl, rfl, first⟩
  | array items =>
    refine .inr ?_
    cases read : jsonvParseIndex token (some items.length) with
    | none => simp [jsonvResolveToken, read] at found
    | some place =>
      obtain ⟨free, inside⟩ := parseIndex_bounded read
      obtain ⟨front, old, back, rfl, rfl⟩ := exists_split inside
      simp only [jsonvResolveToken, read] at found
      simp at found
      obtain ⟨rfl, rfl⟩ := found
      exact ⟨front, back, rfl, rfl, free⟩
  | _ => cases found

/-- An edit of the target of a path is an edit of the whole tree through the pointer. -/
theorem store_editedAt {edit : Option (JsonValue StringView)} {last : StringView}
    (inner : EditedAt edit [last] target changed) (path : List StringView) {done : List StringView}
    {place : List Nat} (found : jsonvResolvePath done root path = .ok (place, target)) :
    EditedAt edit (path ++ [last]) root (jsonvStore changed place root) := by
  induction path generalizing done root place with
  | nil =>
    cases found
    exact inner
  | cons token rest ih =>
    rw [jsonvResolvePath] at found
    cases step : jsonvResolveToken root token with
    | error message =>
      rw [step] at found
      cases found
    | ok next =>
      obtain ⟨index, child⟩ := next
      simp only [step] at found
      cases more : jsonvResolvePath (done ++ [token]) child rest with
      | error fault =>
        rw [more] at found
        cases found
      | ok behind =>
        rw [more] at found
        cases found
        have deeper := ih more
        rcases resolveToken_split step with ⟨front, back, rfl, rfl, first⟩ |
          ⟨front, back, rfl, rfl, read⟩
        · rw [jsonvStore, modify_split]
          exact .inMember first deeper
        · rw [jsonvStore, modify_split]
          exact .inElement read deeper

/-! ## The kept part of a document -/

/-- The members of an object as they are decoded. -/
def decodedMembers (members : List (List JsonChar × JsonValue (List JsonChar))) :
    List (StringView × JsonValue StringView) :=
  members.map fun member =>
    (member.1.map JsonChar.decoded, member.2.map (List.map JsonChar.decoded))

/-- The members of an object as they are meant. -/
def meantMembers (members : List (List JsonChar × JsonValue (List JsonChar))) :
    List (StringView × JsonValue StringView) :=
  members.map fun member => (meaning member.1, member.2.map meaning)

/-- The document with a null for what the path leads to. -/
def without : List StringView → JsonValue (List JsonChar) → JsonValue (List JsonChar)
  | [], _ => .null
  | token :: rest, .object members =>
    match jsonvObjectFind (decodedMembers members) token with
    | some index =>
      .object (members.modify index fun member => (member.1, without rest member.2))
    | none => .object members
  | token :: rest, .array items =>
    match jsonvParseIndex token none with
    | some index => .array (items.modify index (without rest))
    | none => .array items
  | _ :: _, tree => tree

theorem objectFind_split {front : List (StringView × JsonValue StringView)}
    (member : StringView × JsonValue StringView) (back : List (StringView × JsonValue StringView))
    (first : member.1 ∉ front.map Prod.fst) :
    jsonvObjectFind (front ++ member :: back) member.1 = some front.length := by
  have early : front.findIdx? (fun other => other.1 == member.1) = none := by
    refine List.findIdx?_eq_none_iff.mpr fun other listed => ?_
    exact beq_false_of_ne fun same => first (same ▸ mem_map_of_mem listed)
  simp [jsonvObjectFind, List.findIdx?_append, early, List.findIdx?_cons]

/-- Taking a member out. -/
theorem without_object {front back : List (List JsonChar × JsonValue (List JsonChar))}
    (member : List JsonChar × JsonValue (List JsonChar)) {rest : List StringView}
    (first : member.1.map JsonChar.decoded ∉ (decodedMembers front).map Prod.fst) :
    without (member.1.map JsonChar.decoded :: rest) (.object (front ++ member :: back)) =
      .object (front ++ (member.1, without rest member.2) :: back) := by
  have found : jsonvObjectFind (decodedMembers (front ++ member :: back))
      (member.1.map JsonChar.decoded) = some front.length := by
    have split := objectFind_split (member.1.map JsonChar.decoded,
      member.2.map (List.map JsonChar.decoded)) (decodedMembers back) first
    simpa [decodedMembers] using split
  rw [without, found]
  dsimp only
  rw [modify_split]

theorem without_newMember {members : List (List JsonChar × JsonValue (List JsonChar))}
    {token : StringView} {rest : List StringView}
    (absent : token ∉ (decodedMembers members).map Prod.fst) :
    without (token :: rest) (.object members) = .object members := by
  have none : jsonvObjectFind (decodedMembers members) token = none :=
    List.findIdx?_eq_none_iff.mpr fun other listed =>
      beq_false_of_ne fun same => absent (same ▸ mem_map_of_mem listed)
  rw [without, none]

/-- Taking an element out. -/
theorem without_array {front back : List (JsonValue (List JsonChar))}
    {item : JsonValue (List JsonChar)} {token : StringView} {rest : List StringView}
    (read : jsonvParseIndex token none = some front.length) :
    without (token :: rest) (.array (front ++ item :: back)) =
      .array (front ++ without rest item :: back) := by
  rw [without, read]
  dsimp only
  rw [modify_split]

theorem without_newElement {token : StringView} {rest : List StringView}
    (read : jsonvParseIndex token none = some index) (behind : items.length ≤ index) :
    without (token :: rest) (.array items) = .array items := by
  rw [without, read]
  dsimp only
  rw [modify_eq_self behind]

/-! ## Narrow documents -/

/-- A string without an escape beyond ASCII. -/
def NarrowText (chars : List JsonChar) : Prop := ∀ char ∈ chars, char.isWide = false

theorem narrow_object {members : List (List JsonChar × JsonValue (List JsonChar))} :
    Narrow (.object members) ↔ ∀ member ∈ members, NarrowText member.1 ∧ Narrow member.2 := by
  simp only [Narrow, NarrowText, JsonValue.strings, JsonValue.stringsOfMembers_eq, mem_flatMap,
    mem_cons, forall_exists_index, and_imp]
  constructor
  · intro narrow member listed
    exact ⟨narrow _ member listed (.inl rfl),
      fun chars inner => narrow chars member listed (.inr inner)⟩
  · rintro narrow chars member listed (rfl | inner)
    · exact (narrow member listed).1
    · exact (narrow member listed).2 chars inner

theorem narrow_array : Narrow (.array items) ↔ ∀ item ∈ items, Narrow item := by
  simp only [Narrow, JsonValue.strings, JsonValue.stringsOfItems_eq, mem_flatMap,
    forall_exists_index, and_imp]
  exact ⟨fun narrow item listed chars inner => narrow chars item listed inner,
    fun narrow chars item listed inner => narrow item listed chars inner⟩

theorem narrow_null : Narrow .null := fun _ member => nomatch member

/-- Members are decoded as they are meant exactly when they are narrow. -/
theorem decodedMembers_eq_iff {members : List (List JsonChar × JsonValue (List JsonChar))} :
    decodedMembers members = meantMembers members ↔
      ∀ member ∈ members, NarrowText member.1 ∧ Narrow member.2 := by
  rw [decodedMembers, meantMembers, map_inj_left]
  refine forall₂_congr fun member _ => ?_
  rw [Prod.mk.injEq, decoded_eq_meaning_iff, map_decoded_eq_iff]
  rfl

theorem map_items_eq_iff :
    items.map (JsonValue.map (List.map JsonChar.decoded)) = items.map (JsonValue.map meaning) ↔
      ∀ item ∈ items, Narrow item := by
  rw [map_inj_left]
  exact forall₂_congr fun item _ => map_decoded_eq_iff

/-- When the decoded keys are the meant ones in some order, every key is narrow: the decoder puts a
question mark more for every escape beyond ASCII. -/
theorem narrowText_of_perm {keys : List (List JsonChar)}
    (perm : (keys.map (List.map JsonChar.decoded)).Perm (keys.map meaning)) :
    ∀ chars ∈ keys, NarrowText chars := by
  have flat := (perm.flatten).count_eq '?'
  have counts : (keys.map (List.map JsonChar.decoded)).flatten.count '?' =
      (keys.map meaning).flatten.count '?' + keys.flatten.countP JsonChar.isWide := by
    clear perm flat
    induction keys with
    | nil => rfl
    | cons chars rest ih =>
      simp only [map_cons, flatten_cons, count_append, countP_append, ih, count_decoded]
      omega
  have none : keys.flatten.countP JsonChar.isWide = 0 := by omega
  intro chars listed char member
  have absent := countP_eq_zero.mp none char (mem_flatten.mpr ⟨chars, listed, member⟩)
  simpa using absent

/-! ## Edits of the meant document -/

/-- Two splits of a list at its first entry of a kind are one. -/
theorem split_unique {α : Type} (kind : α → Prop) {front back front' back' : List α}
    {item item' : α} (same : front ++ item :: back = front' ++ item' :: back')
    (here : kind item) (there : kind item') (first : ∀ other ∈ front, ¬ kind other) (first' : ∀ other ∈ front', ¬ kind other) :
    front = front' ∧ item = item' ∧ back = back' := by
  induction front generalizing front' with
  | nil =>
    cases front' with
    | nil => simpa using same
    | cons head tail =>
      obtain ⟨rfl, -⟩ := List.cons.inj same
      exact absurd here (first' _ mem_cons_self)
  | cons head tail ih =>
    cases front' with
    | nil =>
      obtain ⟨rfl, -⟩ := List.cons.inj same
      exact absurd there (first _ mem_cons_self)
    | cons head' tail' =>
      obtain ⟨rfl, behind⟩ := List.cons.inj same
      obtain ⟨rfl, parts⟩ := ih behind (fun other member => first other (mem_cons_of_mem _ member))
        fun other member => first' other (mem_cons_of_mem _ member)
      exact ⟨rfl, parts⟩

theorem map_split {α β : Type} {read : α → β} {items : List α} {front back : List β} {item : β}
    (same : items.map read = front ++ item :: back) :
    ∃ front' item' back', items = front' ++ item' :: back' ∧ front = front'.map read ∧
      item = read item' ∧ back = back'.map read := by
  obtain ⟨front', behind, rfl, rfl, rest⟩ := map_eq_append_iff.mp same
  obtain ⟨item', back', rfl, rfl, rfl⟩ := map_eq_cons_iff.mp rest
  exact ⟨front', item', back', rfl, rfl, rfl, rfl⟩

/-- When two members of one key are replaced and the same members come out, the decoded and the
meant document have the same members apart from them. -/
theorem narrow_of_replaced {front back : List (List JsonChar × JsonValue (List JsonChar))}
    (member : List JsonChar × JsonValue (List JsonChar)) {token : StringView}
    {front' back' : List (StringView × JsonValue StringView)} {old' : JsonValue StringView}
    {changed changed' : List (JsonValue StringView)} (key : member.1.map JsonChar.decoded = token)
    (first : token ∉ (decodedMembers front).map Prod.fst)
    (meant : meantMembers (front ++ member :: back) = front' ++ (token, old') :: back')
    (first' : token ∉ front'.map Prod.fst) (one : changed.length = changed'.length)
    (most : changed.length ≤ 1)
    (same : decodedMembers front ++ (changed.map (token, ·) ++ decodedMembers back) =
      front' ++ (changed'.map (token, ·) ++ back')) :
    (∀ other ∈ front, NarrowText other.1 ∧ Narrow other.2) ∧
      (∀ other ∈ back, NarrowText other.1 ∧ Narrow other.2) ∧ NarrowText member.1 ∧
      old' = member.2.map meaning ∧ changed = changed' := by
  have keys : ∀ chars ∈ (front ++ member :: back).map Prod.fst, NarrowText chars := by
    have outer := congrArg (List.map Prod.fst) same
    have decodedKeys : ((front ++ member :: back).map Prod.fst).map (List.map JsonChar.decoded) =
        (decodedMembers front).map Prod.fst ++ token :: (decodedMembers back).map Prod.fst := by
      simp [decodedMembers, key, Function.comp_def]
    have meantKeys : ((front ++ member :: back).map Prod.fst).map meaning =
        front'.map Prod.fst ++ token :: back'.map Prod.fst := by
      have keys := congrArg (List.map Prod.fst) meant
      simpa [meantMembers, Function.comp_def] using keys
    refine narrowText_of_perm ?_
    rw [decodedKeys, meantKeys]
    simp only [map_append] at outer
    cases changed with
    | nil =>
      obtain rfl := eq_nil_of_length_eq_zero one.symm
      simp only [map_nil, nil_append] at outer
      refine perm_middle.trans ?_
      rw [outer]
      exact perm_middle.symm
    | cons value rest =>
      obtain rfl := eq_nil_of_length_eq_zero (by simpa using most : rest.length = 0)
      obtain ⟨value', rfl⟩ := length_eq_one_iff.mp one.symm
      simp only [map_cons, map_nil, singleton_append] at outer
      rw [outer]
  have agree : ∀ other ∈ front ++ member :: back, other.1.map JsonChar.decoded = meaning other.1 :=
    fun other listed => decoded_eq_meaning_iff.mpr (keys _ (mem_map_of_mem listed))
  obtain ⟨before, middle, behind, split, rfl, there, rfl⟩ := map_split meant
  obtain ⟨thereKey, rfl⟩ := Prod.mk.inj there
  -- the first member of the decoded key and the first member of the meant one are the same
  have thereDecoded : middle.1.map JsonChar.decoded = token :=
    (agree middle (split ▸ mem_append_right _ mem_cons_self)).trans thereKey.symm
  have notBefore : ∀ other ∈ front, ¬ other.1.map JsonChar.decoded = token :=
    fun other listed here => first (mem_map.mpr ⟨_, mem_map_of_mem listed, here⟩)
  have notBefore' : ∀ other ∈ before, ¬ other.1.map JsonChar.decoded = token := by
    intro other listed here
    rw [agree other (split ▸ mem_append_left _ listed)] at here
    exact first' (mem_map.mpr ⟨_, mem_map_of_mem listed, here⟩)
  obtain ⟨rfl, rfl, rfl⟩ := split_unique _ split key thereDecoded notBefore notBefore'
  obtain ⟨fronts, rest⟩ := append_inj same (by simp [decodedMembers])
  obtain ⟨values, backs⟩ := append_inj rest (by simp [one])
  refine ⟨(decodedMembers_eq_iff).mp fronts, (decodedMembers_eq_iff).mp backs, ?_, rfl, ?_⟩
  · exact keys _ (mem_map_of_mem (mem_append_right _ mem_cons_self))
  · exact map_injective_iff.mpr (fun _ _ pair => (Prod.mk.inj pair).2) values

variable {edit : Option (JsonValue (List JsonChar))} {reading : JsonValue (List JsonChar)}
  {after : JsonValue StringView}

/-- An edit with the value as it is decoded. -/
def decodedEdit (edit : Option (JsonValue (List JsonChar))) : Option (JsonValue StringView) :=
  edit.map (JsonValue.map (List.map JsonChar.decoded))

/-- An edit with the value as it is meant. -/
def meantEdit (edit : Option (JsonValue (List JsonChar))) : Option (JsonValue StringView) :=
  edit.map (JsonValue.map meaning)

/-- Both put one value, or none. -/
theorem length_of_replaces {rest : List StringView} {old old' : JsonValue StringView}
    {changed changed' : List (JsonValue StringView)}
    (decoded : ReplacesBy (decodedEdit edit) rest old changed)
    (meant : ReplacesBy (meantEdit edit) rest old' changed') :
    changed.length = changed'.length ∧ changed.length ≤ 1 := by
  rcases decoded with ⟨rfl, rfl⟩ | ⟨new, rfl, inner⟩
  · rcases meant with ⟨-, rfl⟩ | ⟨new', rfl, inner'⟩
    · cases edit with
      | none => exact ⟨rfl, Nat.zero_le 1⟩
      | some value => exact ⟨rfl, Nat.le_refl 1⟩
    · exact absurd inner' EditedAt.path_ne_nil
  · rcases meant with ⟨rfl, -⟩ | ⟨new', rfl, inner'⟩
    · exact absurd inner EditedAt.path_ne_nil
    · exact ⟨rfl, Nat.le_refl 1⟩

/-- What holds of the value that is put and of the kept part of a document. -/
def KeptNarrow (path : List StringView) (edit : Option (JsonValue (List JsonChar)))
    (reading : JsonValue (List JsonChar)) : Prop :=
  Narrow (without path reading) ∧ ∀ value ∈ edit, Narrow value

/-- The value that is put is narrow when its decoded and its meant form are the same. -/
theorem narrow_of_same_edit (same : (decodedEdit edit).toList = (meantEdit edit).toList) :
    ∀ value ∈ edit, Narrow value := by
  rintro value rfl
  exact map_decoded_eq_iff.mp (List.cons.inj same).1

/-- When the same is put for a child, the child is narrow but for its own edit. -/
theorem narrow_of_replaces {rest : List StringView} {child : JsonValue (List JsonChar)}
    {changed : List (JsonValue StringView)}
    (decoded : ReplacesBy (decodedEdit edit) rest (child.map (List.map JsonChar.decoded)) changed)
    (meant : ReplacesBy (meantEdit edit) rest (child.map meaning) changed)
    (deeper : ∀ after,
      EditedAt (decodedEdit edit) rest (child.map (List.map JsonChar.decoded)) after →
      EditedAt (meantEdit edit) rest (child.map meaning) after → KeptNarrow rest edit child) :
    KeptNarrow rest edit child := by
  rcases decoded with ⟨rfl, rfl⟩ | ⟨new, rfl, inner⟩
  · rcases meant with ⟨-, same⟩ | ⟨new', -, inner'⟩
    · exact ⟨narrow_null, narrow_of_same_edit same⟩
    · exact absurd inner' EditedAt.path_ne_nil
  · rcases meant with ⟨rfl, -⟩ | ⟨new', same, inner'⟩
    · exact absurd inner EditedAt.path_ne_nil
    · obtain rfl := (List.cons.inj same).1
      exact deeper _ inner inner'

/-- The kept part of an object and what is put are narrow when both edits give the same. -/
theorem keptNarrow_object {members : List (List JsonChar × JsonValue (List JsonChar))}
    {token : StringView} {rest : List StringView}
    (decoded : EditedAt (decodedEdit edit) (token :: rest) (.object (decodedMembers members)) after)
    (meant : EditedAt (meantEdit edit) (token :: rest) (.object (meantMembers members)) after)
    (deeper : ∀ (child : JsonValue (List JsonChar)) after,
      EditedAt (decodedEdit edit) rest (child.map (List.map JsonChar.decoded)) after →
      EditedAt (meantEdit edit) rest (child.map meaning) after → KeptNarrow rest edit child) :
    KeptNarrow (token :: rest) edit (.object members) := by
  have counts : (decodedMembers members).length = (meantMembers members).length := by
    simp [decodedMembers, meantMembers]
  rcases decoded.object_cases with ⟨front, old, back, changed, splitD, first, rfl, how⟩ |
    ⟨rfl, absent, rfl⟩
  · rcases meant.object_cases with ⟨front', old', back', changed', splitM, first', result, how'⟩ |
      ⟨rfl, absent, result⟩
    · obtain ⟨front, ⟨chars, value⟩, back, rfl, rfl, key, rfl⟩ := map_split splitD
      cases key
      obtain ⟨same, most⟩ := length_of_replaces how how'
      obtain ⟨fronts, backs, narrow, rfl, rfl⟩ := narrow_of_replaced (chars, value)
        rfl first splitM first' same most (JsonValue.object.inj result)
      obtain ⟨inner, put⟩ := narrow_of_replaces how how' (deeper value)
      refine ⟨?_, put⟩
      rw [without_object (chars, value) first, narrow_object]
      intro other listed
      rcases mem_append.mp listed with early | late
      · exact fronts other early
      · rcases mem_cons.mp late with rfl | behind
        · exact ⟨narrow, inner⟩
        · exact backs other behind
    · -- one edit replaces a member and the other one adds one
      have lengths := congrArg List.length (JsonValue.object.inj result)
      rw [splitD] at counts
      rcases how with ⟨-, rfl⟩ | ⟨new, rfl, inner⟩
      · have puts : (decodedEdit edit).toList.length = (meantEdit edit).toList.length := by
          cases edit <;> rfl
        simp only [length_append, length_map, length_cons] at lengths counts
        omega
      · exact absurd inner EditedAt.path_ne_nil
  · rcases meant.object_cases with ⟨front', old', back', changed', splitM, first', result, how'⟩ |
      ⟨-, absent', result⟩
    · have lengths := congrArg List.length (JsonValue.object.inj result)
      rw [splitM] at counts
      rcases how' with ⟨-, rfl⟩ | ⟨new, rfl, inner⟩
      · have puts : (decodedEdit edit).toList.length = (meantEdit edit).toList.length := by
          cases edit <;> rfl
        simp only [length_append, length_map, length_cons] at lengths counts
        omega
      · exact absurd inner EditedAt.path_ne_nil
    · obtain ⟨kept, added⟩ := append_inj (JsonValue.object.inj result) counts
      have values : (decodedEdit edit).toList = (meantEdit edit).toList :=
        map_injective_iff.mpr (fun _ _ pair => (Prod.mk.inj pair).2) added
      refine ⟨?_, narrow_of_same_edit values⟩
      rw [without_newMember absent, narrow_object]
      exact (decodedMembers_eq_iff).mp kept

/-- The kept part of an array and what is put are narrow when both edits give the same. -/
theorem keptNarrow_array {token : StringView} {rest : List StringView}
    (decoded : EditedAt (decodedEdit edit) (token ::
      rest) (.array (items.map (JsonValue.map (List.map JsonChar.decoded)))) after)
    (meant : EditedAt (meantEdit edit) (token ::
      rest) (.array (items.map (JsonValue.map meaning))) after)
    (deeper : ∀ (child : JsonValue (List JsonChar)) after,
      EditedAt (decodedEdit edit) rest (child.map (List.map JsonChar.decoded)) after →
      EditedAt (meantEdit edit) rest (child.map meaning) after → KeptNarrow rest edit child) :
    KeptNarrow (token :: rest) edit (.array items) := by
  rcases decoded.array_cases with ⟨front, old, back, changed, splitD, read, rfl, how⟩ |
    ⟨rfl, put, ⟨index, read, behind⟩, rfl⟩
  · obtain ⟨front, child, back, rfl, rfl, rfl, rfl⟩ := map_split splitD
    rw [length_map] at read
    rcases meant.array_cases with ⟨front', old', back', changed', splitM, read', result, how'⟩ |
      ⟨-, -, ⟨index', read', behind'⟩, -⟩
    · have places : front.length = front'.length := Option.some.inj (read.symm.trans read')
      rw [map_append, map_cons] at splitM
      obtain ⟨rfl, others⟩ := append_inj splitM (by rw [length_map, places])
      cases others
      obtain ⟨same, -⟩ := length_of_replaces how how'
      obtain ⟨fronts, values⟩ := append_inj (JsonValue.array.inj result) (by simp)
      obtain ⟨rfl, backs⟩ := append_inj values same
      obtain ⟨inner, put⟩ := narrow_of_replaces how how' (deeper child)
      refine ⟨?_, put⟩
      rw [without_array read, narrow_array]
      intro other listed
      rcases mem_append.mp listed with early | late
      · exact (map_items_eq_iff).mp fronts other early
      · rcases mem_cons.mp late with rfl | behind
        · exact inner
        · exact (map_items_eq_iff).mp backs other behind
    · obtain rfl := Option.some.inj (read.symm.trans read')
      rw [length_map, length_append, length_cons] at behind'
      omega
  · rw [length_map] at behind
    rcases meant.array_cases with ⟨front', old', back', changed', splitM, read', result, how'⟩ |
      ⟨-, -, -, result⟩
    · have lengths := congrArg List.length splitM
      obtain rfl := Option.some.inj (read.symm.trans read')
      simp only [length_append, length_map, length_cons] at lengths
      omega
    · obtain ⟨kept, added⟩ := append_inj (JsonValue.array.inj result) (by simp)
      refine ⟨?_, narrow_of_same_edit added⟩
      rw [without_newElement read behind, narrow_array]
      exact (map_items_eq_iff).mp kept

/-- When the edits of the decoded and of the meant document give the same, the kept part of the
document and the value that is put are narrow. -/
theorem keptNarrow_of_edited (path : List StringView)
    (decoded : EditedAt (decodedEdit edit) path (reading.map (List.map JsonChar.decoded)) after)
    (meant : EditedAt (meantEdit edit) path (reading.map meaning) after) :
    KeptNarrow path edit reading := by
  induction path generalizing reading after with
  | nil => exact absurd decoded EditedAt.path_ne_nil
  | cons token rest ih =>
    cases reading with
    | object members =>
      rw [JsonValue.map, JsonValue.mapMembers_eq] at decoded meant
      exact keptNarrow_object decoded meant fun _ _ => ih
    | array items =>
      rw [JsonValue.map, JsonValue.mapItems_eq] at decoded meant
      exact keptNarrow_array decoded meant fun _ _ => ih
    | _ => cases decoded

variable {put : Option (JsonValue StringView)}

/-- An edit of the decoded document is one of the meant document when the kept part is narrow. -/
theorem EditedAt.meant (path : List StringView)
    (decoded : EditedAt put path (reading.map (List.map JsonChar.decoded)) after)
    (narrow : Narrow (without path reading)) : EditedAt put path (reading.map meaning) after := by
  induction path generalizing reading after with
  | nil => exact absurd decoded path_ne_nil
  | cons token rest ih =>
    cases reading with
    | object members =>
      rw [JsonValue.map, JsonValue.mapMembers_eq] at decoded ⊢
      change EditedAt put (token :: rest) (.object (meantMembers members)) after
      rcases object_cases decoded with ⟨front, old, back, changed, split, first, rfl, how⟩ |
        ⟨rfl, absent, rfl⟩
      · obtain ⟨front, ⟨chars, value⟩, back, rfl, rfl, key, rfl⟩ := map_split split
        cases key
        rw [without_object (chars, value) first, narrow_object, forall_mem_append, forall_mem_cons]
          at narrow
        obtain ⟨fronts, ⟨narrowKey, inner⟩, backs⟩ := narrow
        have agreeFront := decodedMembers_eq_iff.mpr fronts
        have agreeBack := decodedMembers_eq_iff.mpr backs
        have agreeKey : chars.map JsonChar.decoded = meaning chars :=
          decoded_eq_meaning_iff.mpr narrowKey
        change EditedAt put _ _ (.object (decodedMembers front ++ (_ ++ decodedMembers back)))
        change _ ∉ (decodedMembers front).map Prod.fst at first
        rw [agreeFront, agreeKey] at first
        rw [agreeFront, agreeBack, agreeKey]
        have whole : meantMembers (front ++ (chars, value) :: back) =
            meantMembers front ++ (meaning chars, value.map meaning) :: meantMembers back := by
          simp [meantMembers]
        rw [whole]
        rcases how with ⟨rfl, rfl⟩ | ⟨new, rfl, edited⟩
        · exact .member first
        · exact .inMember first (ih edited inner)
      · rw [without_newMember absent, narrow_object] at narrow
        have agree := decodedMembers_eq_iff.mpr narrow
        change EditedAt put _ _ (.object (decodedMembers members ++ _))
        change _ ∉ (decodedMembers members).map Prod.fst at absent
        rw [agree] at absent ⊢
        exact .newMember absent
    | array items =>
      rw [JsonValue.map, JsonValue.mapItems_eq] at decoded ⊢
      rcases array_cases decoded with ⟨front, old, back, changed, split, read, rfl, how⟩ |
        ⟨rfl, some, ⟨index, read, behind⟩, rfl⟩
      · obtain ⟨front, child, back, rfl, rfl, rfl, rfl⟩ := map_split split
        have place : jsonvParseIndex token none = Option.some front.length := by
          rw [read, length_map]
        rw [without_array place, narrow_array, forall_mem_append, forall_mem_cons] at narrow
        obtain ⟨fronts, inner, backs⟩ := narrow
        rw [map_items_eq_iff.mpr fronts] at read ⊢
        rw [map_items_eq_iff.mpr backs, map_append, map_cons]
        rcases how with ⟨rfl, rfl⟩ | ⟨new, rfl, edited⟩
        · exact .element read
        · exact .inElement read (ih edited inner)
      · rw [length_map] at behind
        rw [without_newElement read behind, narrow_array] at narrow
        rw [map_items_eq_iff.mpr narrow]
        exact .newElement some read (by rwa [length_map])
    | _ => cases decoded

/-! ## The command -/

/-- What a JSON text denotes. -/
def Denotes (json : StringView) (value : JsonValue StringView) : Prop :=
  ∃ reading, IsJson json reading ∧ value = reading.map meaning

/-- The two modes that change a document. -/
inductive JsonChange where
  | remove
  | set (newJson : StringView)

/-- The mode of the command. -/
def JsonChange.mode : JsonChange → JsonMode
  | .remove => .remove
  | .set _ => .set

/-- The arguments of the command behind the mode. -/
def JsonChange.arguments (json : StringView) (path : List StringView) : JsonChange → List StringView
  | .remove => json :: path
  | .set newJson => json :: (path ++ [newJson])

/-- The edits that the change stands for, over what its value denotes. -/
def JsonChange.Means : JsonChange → Option (JsonValue (List JsonChar)) → Prop
  | .remove, edit => edit = none
  | .set newJson, edit => ∃ value, IsJson newJson value ∧ edit = some value

/-- The result denotes what the document denotes, changed only at the path. -/
def ChangesOnly (change : JsonChange) (json : StringView) (path : List StringView)
    (result : StringView) : Prop :=
  ∃ before after edit, Denotes json before ∧ Denotes result after ∧ change.Means edit ∧
    EditedAt (meantEdit edit) path before after

/-- The document without the value at the path, and the new value, have no escape beyond ASCII. -/
def NarrowOutside (change : JsonChange) (json : StringView) (path : List StringView) : Prop :=
  ∃ reading edit, IsJson json reading ∧ change.Means edit ∧ KeptNarrow path edit reading

theorem jsonArgument_ok {tree : JsonValue StringView} (read : jsonArgument json path = .ok tree) :
    jsonvParseRoot json = .ok tree := by
  unfold jsonArgument at read
  split at read
  · rename_i accepted
    rw [accepted, Except.ok.inj read]
  · cases read
  · cases read
  · cases read

/-- What mode REMOVE stores is the edited document. -/
theorem jsonRemove_edited (done : jsonRemove root path = .ok result) :
    ∃ after, EditedAt none path root after ∧ result = jsonvSerialize after := by
  unfold jsonRemove at done
  cases last : path.getLast? with
  | none =>
    rw [last] at done
    cases done
  | some token =>
    simp only [last] at done
    obtain ⟨⟨place, parent⟩, found, done⟩ := Lib.bind_eq_ok.mp done
    obtain ⟨changed, step, done⟩ := Lib.bind_eq_ok.mp done
    have edited := store_editedAt (removeChild_editedAt step) _ found
    rw [dropLast_append_getLast? token last] at edited
    exact ⟨_, edited, (Except.ok.inj done).symm⟩

/-- What mode SET stores is the edited document. -/
theorem jsonSet_edited {newJson : StringView} (done : jsonSet root (path ++ [newJson]) = .ok result)
    : ∃ value after, jsonvParseRoot newJson = .ok value ∧ EditedAt (some value) path root after ∧
      result = jsonvSerialize after := by
  unfold jsonSet at done
  simp only [dropLast_concat, List.getLast?_concat] at done
  cases last : path.getLast? with
  | none =>
    rw [last] at done
    cases done
  | some token =>
    simp only [last] at done
    obtain ⟨value, read, done⟩ := Lib.bind_eq_ok.mp done
    obtain ⟨⟨place, parent⟩, found, done⟩ := Lib.bind_eq_ok.mp done
    obtain ⟨changed, step, done⟩ := Lib.bind_eq_ok.mp done
    have edited := store_editedAt (setChild_editedAt step) _ found
    rw [dropLast_append_getLast? token last] at edited
    exact ⟨value, _, jsonArgument_ok read, edited, (Except.ok.inj done).symm⟩

/-- A successful change edits the decoded document and writes it. -/
theorem stringJson_edited (done : stringJson change.mode (change.arguments json path) = .ok result)
    : ∃ reading edit after, IsJson json reading ∧ change.Means edit ∧
      EditedAt (decodedEdit edit) path (reading.map (List.map JsonChar.decoded)) after ∧
      result = jsonvSerialize after := by
  cases change with
  | remove =>
    simp only [JsonChange.mode, JsonChange.arguments, stringJson, reduceCtorEq, if_false] at done
    obtain ⟨root, read, done⟩ := Lib.bind_eq_ok.mp done
    obtain ⟨reading, isJson, rfl⟩ := exists_isJson (jsonArgument_ok read)
    obtain ⟨after, edited, written⟩ := jsonRemove_edited done
    exact ⟨reading, none, after, isJson, rfl, edited, written⟩
  | set newJson =>
    simp only [JsonChange.mode, JsonChange.arguments, stringJson, reduceCtorEq, if_false] at done
    obtain ⟨root, read, done⟩ := Lib.bind_eq_ok.mp done
    obtain ⟨reading, isJson, rfl⟩ := exists_isJson (jsonArgument_ok read)
    obtain ⟨value, after, accepted, edited, written⟩ := jsonSet_edited done
    obtain ⟨new, isNew, rfl⟩ := exists_isJson accepted
    exact ⟨reading, some new, after, isJson, ⟨new, isNew, rfl⟩, edited, written⟩

/-- An edited tree can be written when the tree and the value can. -/
theorem EditedAt.hasNumbers {before after : JsonValue StringView}
    (edited : EditedAt put path before after) (numbers : HasNumbers before)
    (new : ∀ value ∈ put, HasNumbers value) : HasNumbers after := by
  have newItems : ∀ value ∈ put.toList, HasNumbers value :=
    fun value member => new value (Option.mem_toList.mp member)
  have newMembers : ∀ token, ∀ member ∈ put.toList.map (Prod.mk (α := StringView) token),
      HasNumbers member.2 := by
    intro token member listed
    obtain ⟨value, inside, rfl⟩ := mem_map.mp listed
    exact newItems value inside
  induction edited with
  | member first =>
    cases numbers with
    | object each =>
      rw [forall_mem_append, forall_mem_cons] at each
      refine .object ?_
      rw [forall_mem_append, forall_mem_append]
      exact ⟨each.1, newMembers _, each.2.2⟩
  | newMember absent =>
    cases numbers with
    | object each => exact .object (forall_mem_append.mpr ⟨each, newMembers _⟩)
  | element index =>
    cases numbers with
    | array each =>
      rw [forall_mem_append, forall_mem_cons] at each
      refine .array ?_
      rw [forall_mem_append, forall_mem_append]
      exact ⟨each.1, newItems, each.2.2⟩
  | newElement some read behind =>
    cases numbers with
    | array each => exact .array (forall_mem_append.mpr ⟨each, newItems⟩)
  | inMember first inner ih =>
    cases numbers with
    | object each =>
      rw [forall_mem_append, forall_mem_cons] at each
      refine .object ?_
      rw [forall_mem_append, forall_mem_cons]
      exact ⟨each.1, ih each.2.1, each.2.2⟩
  | inElement index inner ih =>
    cases numbers with
    | array each =>
      rw [forall_mem_append, forall_mem_cons] at each
      refine .array ?_
      rw [forall_mem_append, forall_mem_cons]
      exact ⟨each.1, ih each.2.1, each.2.2⟩

theorem IsJson.hasNumbers {reading : JsonValue (List JsonChar)} (isJson : IsJson json reading) :
    HasNumbers (reading.map (List.map JsonChar.decoded)) :=
  hasNumbers_of_accepted isJson.accepted

/-- What is written denotes the tree. -/
theorem HasNumbers.denotes {tree : JsonValue StringView} (numbers : HasNumbers tree) :
    Denotes (jsonvSerialize tree) tree := by
  refine ⟨_, numbers.isJson, ?_⟩
  rw [JsonValue.map_map]
  refine tree.map_id.symm.trans ?_
  exact JsonValue.map_eq_map_iff.mpr fun text _ => (meaning_written text).symm

theorem JsonChange.Means.unique {edit other : Option (JsonValue (List JsonChar))}
    (first : change.Means edit) (second : change.Means other) : edit = other := by
  cases change with
  | remove => exact first.trans second.symm
  | set newJson =>
    obtain ⟨value, isJson, rfl⟩ := first
    obtain ⟨value', isJson', rfl⟩ := second
    rw [isJson.unique isJson']

theorem JsonChange.Means.hasNumbers {edit : Option (JsonValue (List JsonChar))}
    (means : change.Means edit) : ∀ value ∈ decodedEdit edit, HasNumbers value := by
  intro value member
  obtain ⟨new, rfl, rfl⟩ := Option.map_eq_some_iff.mp member
  cases change with
  | remove => cases means
  | set newJson =>
    obtain ⟨value, isJson, same⟩ := means
    rw [Option.some.inj same]
    exact isJson.hasNumbers

/-- A change that keeps the rest of the document has found nothing beyond ASCII in it. -/
theorem narrowOutside_of_changesOnly (change : JsonChange)
    (done : stringJson change.mode (change.arguments json path) = .ok result)
    (only : ChangesOnly change json path result) : NarrowOutside change json path := by
  obtain ⟨reading, edit, after, isJson, means, edited, rfl⟩ := stringJson_edited done
  obtain ⟨before, denoted, edit', ⟨reading', isJson', rfl⟩, denotes, means', meant⟩ := only
  obtain rfl := isJson.unique isJson'
  obtain rfl := means.unique means'
  have written := (edited.hasNumbers isJson.hasNumbers means.hasNumbers).denotes
  obtain ⟨first, isFirst, rfl⟩ := written
  obtain ⟨second, isSecond, rfl⟩ := denotes
  obtain rfl := isFirst.unique isSecond
  exact ⟨reading, edit, isJson, means, keptNarrow_of_edited path edited meant⟩

/-- A successful change gives what the document denotes, changed only at the path, exactly when the
document without the value at the path, and the new value, have no escape beyond ASCII. -/
theorem changesOnly_iff (change : JsonChange) {json : StringView} {path : List StringView}
    {result : StringView}
    (done : stringJson change.mode (change.arguments json path) = .ok result) :
    ChangesOnly change json path result ↔ NarrowOutside change json path := by
  constructor
  · exact narrowOutside_of_changesOnly change done
  · rintro ⟨reading', edit', isJson', means', narrow, narrowEdit⟩
    obtain ⟨reading, edit, after, isJson, means, edited, rfl⟩ := stringJson_edited done
    obtain rfl := isJson.unique isJson'
    obtain rfl := means.unique means'
    have written := (edited.hasNumbers isJson.hasNumbers means.hasNumbers).denotes
    have same : decodedEdit edit = meantEdit edit :=
      Option.map_congr fun value member => map_decoded_eq_iff.mpr (narrowEdit value member)
    rw [same] at edited
    exact ⟨_, after, edit, ⟨reading, isJson, rfl⟩, written, means, edited.meant path narrow⟩

/-- An object with an e acute under another key than the one that is removed. -/
def acuteMember : JsonValue (List JsonChar) :=
  .object [([.plain 'a' bare_a], .string [.unicode '0' '0' 'e' '9' (by decide)])]

theorem isJson_acuteMember : IsJson (sv "\x7b\"a\":\"\\u00e9\"\x7d") acuteMember := by
  have member := @Derives.lastMember [.plain 'a' bare_a] _ _ _ _ _ _ isBlank_nil isBlank_nil
    isBlank_nil (.string [.unicode '0' '0' 'e' '9' (by decide)]) isBlank_nil
  exact ⟨[], _, [], rfl, .object member, rfl, rfl⟩

/-- Removing another key succeeds. -/
theorem stringJson_acuteMember : stringJson .remove [sv "\x7b\"a\":\"\\u00e9\"\x7d", sv "b"] =
      .ok (jsonvSerialize (.object [(sv "a", .string (sv "?"))])) := by
  have read : jsonArgument (sv "\x7b\"a\":\"\\u00e9\"\x7d") [] =
      .ok (acuteMember.map (List.map JsonChar.decoded)) := by
    rw [jsonArgument, isJson_acuteMember.accepted]
  simp only [stringJson, reduceCtorEq, if_false, read]
  rfl

theorem changesOnly_iff_acuteMember : ChangesOnly .remove (sv "\x7b\"a\":\"\\u00e9\"\x7d") [sv "b"]
        (jsonvSerialize (.object [(sv "a", .string (sv "?"))])) ↔
      NarrowOutside .remove (sv "\x7b\"a\":\"\\u00e9\"\x7d") [sv "b"] :=
  changesOnly_iff .remove stringJson_acuteMember

/-- The kept member becomes a question mark. -/
theorem not_changesOnly : ¬ ∀ change json path result,
    stringJson change.mode (change.arguments json path) = .ok result →
      ChangesOnly change json path result := by
  intro only
  have kept := narrowOutside_of_changesOnly .remove stringJson_acuteMember
    (only .remove _ _ _ stringJson_acuteMember)
  obtain ⟨reading, edit, isJson, -, narrow, -⟩ := kept
  obtain rfl := isJson_acuteMember.unique isJson
  have same : without [sv "b"] acuteMember = acuteMember :=
    without_newMember (by decide)
  rw [same] at narrow
  have inner := (narrow_object.mp narrow _ (mem_singleton_self _)).2
  have small := inner _ (mem_singleton_self _) _ (mem_singleton_self _)
  exact absurd small (by decide)

end Nobify.Evaluator.Json
