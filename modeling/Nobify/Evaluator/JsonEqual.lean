import Nobify.Evaluator.JsonCommand
import Nobify.Evaluator.JsonRoundTrip
import Mathlib.Data.List.Perm.Subperm
import Mathlib.Data.Fintype.EquivFin

/-!
# Equal texts

`string(JSON EQUAL)` looks every member of the first object up in the second one and compares the
numbers of members. When no object of the first text repeats a key this makes both objects have the
same members in some order; a repeated key takes the place of a member that is never looked up.
-/

namespace Nobify.Evaluator.Json

open List

variable {member : StringView × JsonValue StringView} {a : JsonValue StringView}

/-! ## Looking members up -/

/-- The member of a key that a lookup finds. -/
def memberOf (members : List (StringView × JsonValue StringView)) (key : StringView) :
    Option (StringView × JsonValue StringView) :=
  members.find? fun member => member.1 == key

theorem objectFind_bind (members : List (StringView × JsonValue StringView)) (key : StringView) :
    (jsonvObjectFind members key).bind (members[·]?) = memberOf members key :=
  List.find?_eq_bind_findIdx?_getElem?.symm

variable {members others : List (StringView × JsonValue StringView)} {key : StringView}

variable {found : StringView × JsonValue StringView}

theorem fst_of_memberOf (here : memberOf members key = some found) : found.1 = key := by
  have hit := List.find?_some here
  exact eq_of_beq hit

theorem memberOf_mem (here : memberOf members key = some found) : found ∈ members :=
  mem_of_find?_eq_some here

/-- A key of an object is found. -/
theorem exists_memberOf (listed : key ∈ members.map Prod.fst) :
    ∃ found, memberOf members key = some found := by
  obtain ⟨member, inside, rfl⟩ := mem_map.mp listed
  have found : (memberOf members member.1).isSome = true :=
    List.find?_isSome.mpr ⟨member, inside, beq_self_eq_true _⟩
  exact Option.isSome_iff_exists.mp found

/-- Without repeated keys every member is found under its key. -/
theorem memberOf_of_mem (distinct : (members.map Prod.fst).Nodup) (listed : member ∈ members) :
    memberOf members member.1 = some member := by
  obtain ⟨found, here⟩ := exists_memberOf (mem_map_of_mem (f := Prod.fst) listed)
  have same : found = member :=
    inj_on_of_nodup_map distinct (memberOf_mem here) listed (fst_of_memberOf here)
  rw [here, same]

/-! ## The loops of the comparison -/

theorem jsonvEqualItems_eq {as bs : List (JsonValue StringView)} (same : as.length = bs.length) :
    jsonvEqualItems as bs = true ↔ List.Forall₂ (fun a b => jsonvEqual a b = true) as bs := by
  induction as generalizing bs with
  | nil =>
    cases bs with
    | nil => simp [jsonvEqualItems]
    | cons b rest => cases same
  | cons a as ih =>
    cases bs with
    | nil => cases same
    | cons b bs =>
      rw [jsonvEqualItems, Bool.and_eq_true, List.forall₂_cons, ih (Nat.succ.inj same)]

theorem jsonvEqualMembers_eq (as bs : List (StringView × JsonValue StringView)) :
    jsonvEqualMembers as bs = true ↔ ∀ member ∈ as, ∃ other, memberOf bs member.1 = some other ∧
        jsonvEqual member.2 other.2 = true := by
  induction as with
  | nil => simp [jsonvEqualMembers]
  | cons member rest ih =>
    rw [jsonvEqualMembers, forall_mem_cons, objectFind_bind]
    cases memberOf bs member.1 with
    | none => simp
    | some other => simp [ih]

/-- Arrays are equal item by item. -/
theorem jsonvEqual_array (as bs : List (JsonValue StringView)) :
    jsonvEqual (.array as) (.array bs) = true ↔
      List.Forall₂ (fun a b => jsonvEqual a b = true) as bs := by
  rw [jsonvEqual, Bool.and_eq_true, beq_iff_eq]
  constructor
  · exact fun ⟨same, each⟩ => (jsonvEqualItems_eq same).mp each
  · exact fun each => ⟨each.length_eq, (jsonvEqualItems_eq each.length_eq).mpr each⟩

/-- Objects are equal when they have as many members and the second one has, under the key of each
member of the first one, first an equal value. -/
theorem jsonvEqual_object (as bs : List (StringView × JsonValue StringView)) :
    jsonvEqual (.object as) (.object bs) = true ↔ as.length = bs.length ∧
      ∀ member ∈ as, ∃ other, memberOf bs member.1 = some other ∧
        jsonvEqual member.2 other.2 = true := by
  rw [jsonvEqual, Bool.and_eq_true, beq_iff_eq, jsonvEqualMembers_eq]

/-! ## Transitivity -/

/-- The comparison is transitive on all trees. -/
theorem jsonvEqual_trans {b c : JsonValue StringView} (first : jsonvEqual a b = true)
    (second : jsonvEqual b c = true) : jsonvEqual a c = true := by
  induction a using JsonValue.induct generalizing b c with
  | null =>
    cases b with
    | null => exact second
    | _ => cases first
  | bool value =>
    cases b with
    | bool other => exact eq_of_beq first ▸ second
    | _ => cases first
  | number token =>
    cases b with
    | number other => exact eq_of_beq first ▸ second
    | _ => cases first
  | string text =>
    cases b with
    | string other => exact eq_of_beq first ▸ second
    | _ => cases first
  | array items ih =>
    cases b with
    | array bs =>
      cases c with
      | array cs =>
        rw [jsonvEqual_array] at first second ⊢
        rw [List.forall₂_iff_get] at first second ⊢
        refine ⟨first.1.trans second.1, fun i inside within => ?_⟩
        have between : i < bs.length := first.1 ▸ inside
        exact ih _ (get_mem _ _) (first.2 i inside between) (second.2 i between within)
      | _ => cases second
    | _ => cases first
  | object members ih =>
    cases b with
    | object bs =>
      cases c with
      | object cs =>
        rw [jsonvEqual_object] at first second ⊢
        refine ⟨first.1.trans second.1, fun member listed => ?_⟩
        obtain ⟨middle, found, equal⟩ := first.2 member listed
        obtain ⟨last, foundLast, equalLast⟩ := second.2 middle (memberOf_mem found)
        rw [fst_of_memberOf found] at foundLast
        exact ⟨last, foundLast, ih member listed equal equalLast⟩
      | _ => cases second
    | _ => cases first

/-! ## Reflexivity and symmetry without repeated keys -/

/-- No object of the tree repeats a key. -/
inductive DistinctKeys {τ : Type} : JsonValue τ → Prop where
  | null : DistinctKeys .null
  | bool (value : Bool) : DistinctKeys (.bool value)
  | number (token : StringView) : DistinctKeys (.number token)
  | string (text : τ) : DistinctKeys (.string text)
  | array {items : List (JsonValue τ)} (each : ∀ item ∈ items, DistinctKeys item) :
    DistinctKeys (.array items)
  | object {members : List (τ × JsonValue τ)} (distinct : (members.map Prod.fst).Nodup)
    (each : ∀ member ∈ members, DistinctKeys member.2) : DistinctKeys (.object members)

theorem DistinctKeys.equal_self (keys : DistinctKeys a) : jsonvEqual a a = true := by
  induction keys with
  | null => rfl
  | bool value => exact beq_self_eq_true value
  | number token => exact beq_self_eq_true token
  | string text => exact beq_self_eq_true text
  | array each ih =>
    rw [jsonvEqual_array]
    exact List.forall₂_same.mpr ih
  | object distinct each ih =>
    rw [jsonvEqual_object]
    exact ⟨rfl, fun member listed => ⟨member, memberOf_of_mem distinct listed, ih member listed⟩⟩

/-- Distinct keys that are all found in an object with as many members are its keys. -/
theorem keys_perm (distinct : (members.map Prod.fst).Nodup)
    (found : ∀ member ∈ members, ∃ other, memberOf others member.1 = some other)
    (same : members.length = others.length) :
    (members.map Prod.fst).Perm (others.map Prod.fst) := by
  have inside : members.map Prod.fst ⊆ others.map Prod.fst := by
    intro key listed
    obtain ⟨member, here, rfl⟩ := mem_map.mp listed
    obtain ⟨other, hit⟩ := found member here
    rw [← fst_of_memberOf hit]
    exact mem_map_of_mem (memberOf_mem hit)
  refine (subperm_of_subset distinct inside).perm_of_length_le ?_
  rw [length_map, length_map, same]

theorem DistinctKeys.equal_symm {b : JsonValue StringView} (keys : DistinctKeys a)
    (equal : jsonvEqual a b = true) : jsonvEqual b a = true := by
  induction keys generalizing b with
  | null =>
    cases b with
    | null => rfl
    | _ => cases equal
  | bool value =>
    cases b with
    | bool other => exact beq_iff_eq.mpr (eq_of_beq equal).symm
    | _ => cases equal
  | number token =>
    cases b with
    | number other => exact beq_iff_eq.mpr (eq_of_beq equal).symm
    | _ => cases equal
  | string text =>
    cases b with
    | string other => exact beq_iff_eq.mpr (eq_of_beq equal).symm
    | _ => cases equal
  | array each ih =>
    cases b with
    | array bs =>
      rw [jsonvEqual_array] at equal ⊢
      rw [List.forall₂_iff_get] at equal ⊢
      exact ⟨equal.1.symm, fun i inside within =>
        ih _ (get_mem _ ⟨i, within⟩) (equal.2 i within inside)⟩
    | _ => cases equal
  | @object members distinct each ih =>
    cases b with
    | object others =>
      rw [jsonvEqual_object] at equal ⊢
      obtain ⟨same, found⟩ := equal
      have hits := fun member listed => (found member listed).imp fun _ => And.left
      have perm := keys_perm distinct hits same
      refine ⟨same.symm, fun other listed => ?_⟩
      have key : other.1 ∈ members.map Prod.fst :=
        perm.mem_iff.mpr (mem_map_of_mem (f := Prod.fst) listed)
      obtain ⟨member, hit⟩ := exists_memberOf key
      obtain ⟨back, there, equal⟩ := found member (memberOf_mem hit)
      -- the second object does not repeat a key either, so the lookup gives the member itself
      rw [fst_of_memberOf hit, memberOf_of_mem (perm.nodup_iff.mp distinct) listed] at there
      cases there
      exact ⟨member, hit, ih member (memberOf_mem hit) equal⟩
    | _ => cases equal

/-! ## Repeated keys -/

/-- A list that equals itself item by item equals one with an item replaced, but not the other way
round when the new item does not equal the old one. -/
theorem exists_replaced {items : List (JsonValue StringView)} {item other : JsonValue StringView}
    (self : ∀ item ∈ items, jsonvEqual item item = true) (listed : item ∈ items)
    (equal : jsonvEqual item other = true) (unequal : jsonvEqual other item = false) :
    ∃ bs, List.Forall₂ (fun a b => jsonvEqual a b = true) items bs ∧
      ¬ List.Forall₂ (fun a b => jsonvEqual a b = true) bs items ∧
      ∀ b ∈ bs, b = other ∨ b ∈ items := by
  induction items with
  | nil => exact nomatch listed
  | cons first rest ih =>
    obtain ⟨selfFirst, selfRest⟩ := forall_mem_cons.mp self
    rcases mem_cons.mp listed with rfl | behind
    · refine ⟨other :: rest, .cons equal (List.forall₂_same.mpr selfRest), fun same => ?_, ?_⟩
      · rw [List.forall₂_cons, unequal] at same
        cases same.1
      · intro b member
        exact (mem_cons.mp member).imp id (mem_cons_of_mem _)
    · obtain ⟨bs, forward, backward, each⟩ := ih selfRest behind
      refine ⟨first :: bs, .cons selfFirst forward, fun same => ?_, fun b member => ?_⟩
      · exact backward (List.forall₂_cons.mp same).2
      · rcases mem_cons.mp member with rfl | inner
        · exact .inr mem_cons_self
        · exact (each b inner).imp id (mem_cons_of_mem _)

/-- Without repeated keys an object that equals itself equals one with a value replaced, but not the
other way round when the new value does not equal the old one. -/
theorem equal_of_replaced (distinct : (members.map Prod.fst).Nodup)
    (self : jsonvEqual (.object members) (.object members) = true) (listed : member ∈ members)
    {value : JsonValue StringView} (equal : jsonvEqual member.2 value = true)
    (unequal : jsonvEqual value member.2 = false) :
    let others := members.map fun other => if other.1 = member.1 then (other.1, value) else other
    jsonvEqual (.object members) (.object others) = true ∧
      jsonvEqual (.object others) (.object members) = false := by
  intro others
  have keys : others.map Prod.fst = members.map Prod.fst := by
    rw [List.map_map]
    refine map_congr_left fun other _ => ?_
    rw [Function.comp_apply]
    split_ifs <;> rfl
  have distinctOthers : (others.map Prod.fst).Nodup := keys ▸ distinct
  have replaced : (member.1, value) ∈ others :=
    mem_map.mpr ⟨member, listed, if_pos rfl⟩
  constructor
  · rw [jsonvEqual_object] at self ⊢
    refine ⟨(length_map ..).symm, fun other inside => ?_⟩
    by_cases same : other.1 = member.1
    · obtain rfl := inj_on_of_nodup_map distinct inside listed same
      exact ⟨(other.1, value), memberOf_of_mem distinctOthers replaced, equal⟩
    · have kept : other ∈ others := mem_map.mpr ⟨other, inside, if_neg same⟩
      obtain ⟨found, here, equal⟩ := self.2 other inside
      rw [memberOf_of_mem distinct inside] at here
      cases here
      exact ⟨_, memberOf_of_mem distinctOthers kept, equal⟩
  · rw [← Bool.not_eq_true, jsonvEqual_object]
    rintro ⟨-, found⟩
    obtain ⟨old, here, equal⟩ := found _ replaced
    rw [memberOf_of_mem distinct listed] at here
    cases here
    rw [unequal] at equal
    cases equal

/-- A repeated key stands behind another one. -/
theorem exists_repeated (repeats : ¬ (members.map Prod.fst).Nodup) :
    ∃ front member back, members = front ++ member :: back ∧ member.1 ∈ front.map Prod.fst := by
  induction members with
  | nil => exact absurd nodup_nil repeats
  | cons first rest ih =>
    rw [map_cons, nodup_cons, not_and_or, not_not] at repeats
    rcases repeats with again | later
    · obtain ⟨member, inside, same⟩ := mem_map.mp again
      obtain ⟨front, back, rfl⟩ := append_of_mem inside
      exact ⟨first :: front, member, back, rfl, same ▸ mem_cons_self⟩
    · obtain ⟨front, member, back, rfl, behind⟩ := ih later
      exact ⟨first :: front, member, back, rfl, mem_cons_of_mem _ behind⟩

/-- An object that equals itself equals the one in which a repeated key is another one, but not the
other way round: the repeated key is looked up at its first place. -/
theorem equal_of_renamed {front back : List (StringView × JsonValue StringView)}
    {fresh : StringView}
    (self : jsonvEqual (.object (front ++ member :: back)) (.object (front ++ member :: back)) =
      true)
    (again : member.1 ∈ front.map Prod.fst)
    (absent : fresh ∉ (front ++ member :: back).map Prod.fst) :
    let others := front ++ (fresh, member.2) :: back
    jsonvEqual (.object (front ++ member :: back)) (.object others) = true ∧
      jsonvEqual (.object others) (.object (front ++ member :: back)) = false := by
  intro others
  constructor
  · rw [jsonvEqual_object] at self ⊢
    refine ⟨by simp [others], fun other inside => ?_⟩
    have lookup : memberOf others other.1 = memberOf (front ++ member :: back) other.1 := by
      simp only [memberOf, others, List.find?_append, List.find?_cons]
      by_cases same : member.1 = other.1
      · obtain ⟨found, here⟩ := exists_memberOf (same ▸ again)
        rw [memberOf] at here
        rw [here, Option.some_or, Option.some_or]
      · have unlike : ¬ fresh = other.1 := by
          rintro rfl
          exact absent (mem_map_of_mem inside)
        rw [beq_false_of_ne same, beq_false_of_ne unlike]
    rw [lookup]
    exact self.2 other inside
  · rw [← Bool.not_eq_true, jsonvEqual_object]
    rintro ⟨-, found⟩
    obtain ⟨other, here, -⟩ := found (fresh, member.2) (by simp [others])
    have key : other.1 = fresh := fst_of_memberOf here
    exact absent (key ▸ mem_map_of_mem (memberOf_mem here))

/-- A tree with a repeated key that equals itself equals a tree that does not equal it. -/
theorem exists_one_sided (numbers : HasNumbers a) (self : jsonvEqual a a = true)
    (repeats : ¬ DistinctKeys a) :
    ∃ b, HasNumbers b ∧ jsonvEqual a b = true ∧ jsonvEqual b a = false := by
  induction numbers with
  | null => exact absurd .null repeats
  | bool value => exact absurd (.bool value) repeats
  | @number token isNumber => exact absurd (.number token) repeats
  | string text => exact absurd (.string text) repeats
  | @array items each ih =>
    have inner : ∃ item ∈ items, ¬ DistinctKeys item := by
      by_contra none
      push Not at none
      exact repeats (.array none)
    obtain ⟨item, listed, repeated⟩ := inner
    have selfItems := List.forall₂_same.mp ((jsonvEqual_array items items).mp self)
    obtain ⟨other, numbered, equal, unequal⟩ := ih item listed (selfItems item listed) repeated
    obtain ⟨bs, forward, backward, origin⟩ := exists_replaced selfItems listed equal unequal
    refine ⟨.array bs, .array fun b member => ?_, (jsonvEqual_array _ _).mpr forward, ?_⟩
    · rcases origin b member with rfl | old
      · exact numbered
      · exact each b old
    · rw [← Bool.not_eq_true, jsonvEqual_array]
      exact backward
  | @object members each ih =>
    by_cases distinct : (members.map Prod.fst).Nodup
    · have inner : ∃ member ∈ members, ¬ DistinctKeys member.2 := by
        by_contra none
        push Not at none
        exact repeats (.object distinct none)
      obtain ⟨member, listed, repeated⟩ := inner
      have selfMember : jsonvEqual member.2 member.2 = true := by
        obtain ⟨found, here, equal⟩ := ((jsonvEqual_object _ _).mp self).2 member listed
        rw [memberOf_of_mem distinct listed] at here
        cases here
        exact equal
      obtain ⟨value, numbered, equal, unequal⟩ := ih member listed selfMember repeated
      obtain ⟨forward, backward⟩ := equal_of_replaced distinct self listed equal unequal
      refine ⟨_, .object fun other inside => ?_, forward, backward⟩
      obtain ⟨old, was, rfl⟩ := mem_map.mp inside
      split_ifs
      · exact numbered
      · exact each old was
    · obtain ⟨front, member, back, rfl, again⟩ := exists_repeated distinct
      obtain ⟨fresh, absent⟩ :=
        Infinite.exists_notMem_finset ((front ++ member :: back).map Prod.fst).toFinset
      rw [mem_toFinset] at absent
      obtain ⟨forward, backward⟩ := equal_of_renamed self again absent
      refine ⟨_, .object fun other inside => ?_, forward, backward⟩
      rcases mem_append.mp inside with early | late
      · exact each other (mem_append_left _ early)
      · rcases mem_cons.mp late with rfl | later
        · exact each member (mem_append_right _ mem_cons_self)
        · exact each other (mem_append_right _ (mem_cons_of_mem _ later))

/-! ## The comparison of accepted texts -/

/-- The comparison is an equivalence as far as one tree is concerned. -/
structure IsEquivalenceAt (a : JsonValue StringView) : Prop where
  refl : jsonvEqual a a = true
  symm : ∀ text b, jsonvParseRoot text = .ok b → jsonvEqual a b = true → jsonvEqual b a = true
  trans : ∀ text b other c, jsonvParseRoot text = .ok b → jsonvParseRoot other = .ok c →
    jsonvEqual a b = true → jsonvEqual b c = true → jsonvEqual a c = true

/-- Between accepted texts the comparison is an equivalence exactly at those in which no object
repeats a key. -/
theorem isEquivalenceAt_iff (text : StringView) {a : JsonValue StringView}
    (accepted : jsonvParseRoot text = .ok a) : IsEquivalenceAt a ↔ DistinctKeys a := by
  constructor
  · intro equivalence
    by_contra repeats
    have numbers := hasNumbers_of_accepted accepted
    obtain ⟨b, numbered, forward, backward⟩ := exists_one_sided numbers equivalence.refl repeats
    obtain ⟨other, read⟩ := numbered.exists_text
    have equal := equivalence.symm other b read forward
    rw [backward] at equal
    cases equal
  · exact fun keys => ⟨keys.equal_self, fun _ _ _ equal => keys.equal_symm equal,
      fun _ _ _ _ _ _ first second => jsonvEqual_trans first second⟩

/-- An object with two values for one key. -/
def repeatedKey : JsonValue (List JsonChar) :=
  let key : List JsonChar := [.plain 'a' bare_a]
  .object [(key, .number ['1']), (key, .number ['2'])]

theorem isJson_repeatedKey : IsJson (sv "\x7b\"a\":1,\"a\":2\x7d") repeatedKey := by
  have one : IsNumber ['1'] := ⟨[], ['1'], [], [], .inl rfl,
    .inr ⟨'1', [], by decide, rfl, rfl⟩, .inl rfl, .inl rfl, rfl⟩
  have two : IsNumber ['2'] := ⟨[], ['2'], [], [], .inl rfl,
    .inr ⟨'2', [], by decide, rfl, rfl⟩, .inl rfl, .inl rfl, rfl⟩
  have last := @Derives.lastMember [.plain 'a' bare_a] _ _ _ _ _ _ isBlank_nil isBlank_nil
    isBlank_nil (.number two) isBlank_nil
  have both := @Derives.member [.plain 'a' bare_a] _ _ _ _ _ _ _ _ isBlank_nil isBlank_nil
    isBlank_nil (.number one) isBlank_nil last
  exact ⟨[], _, [], rfl, .object both, rfl, rfl⟩

theorem isEquivalenceAt_iff_repeatedKey :
    IsEquivalenceAt (repeatedKey.map (List.map JsonChar.decoded)) ↔
      DistinctKeys (repeatedKey.map (List.map JsonChar.decoded)) :=
  isEquivalenceAt_iff _ isJson_repeatedKey.accepted

/-- That text does not equal itself: both members are compared with the first one. -/
theorem not_isEquivalenceAt : ¬ ∀ text a, jsonvParseRoot text = .ok a → IsEquivalenceAt a := by
  intro equivalence
  have equal := (equivalence _ _ isJson_repeatedKey.accepted).refl
  revert equal
  decide

end Nobify.Evaluator.Json
