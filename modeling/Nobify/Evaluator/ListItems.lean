import Mathlib.Data.List.Induction
import Nobify.Evaluator.ListSplit
import Nobify.Evaluator.Foreach

/-!
# The items of a list

`list()` splits the value of a variable at every semicolon and keeps all empty items.
`foreach(IN LISTS)` splits it with `eval_sv_split_semicolon_genex_aware`, which leaves a semicolon
alone behind a backslash and inside an expression, and drops an empty item at the end.
-/

namespace Nobify.Evaluator

open Nobify.Lib Nobify.Genex
open List Option

variable {items : List StringView}

/-! ## `list()` -/

/-- `list_count_items`. -/
def listCountItems (list : StringView) : Nat := if list = [] then 0 else 1 + list.count ';'

/-- The loop of `list_split_semicolon_preserve_empty`, with what has been read of an item. -/
def listSplitGo : StringView → StringView → List StringView
  | item, [] => [item]
  | item, char :: rest =>
    if char = ';' then item :: listSplitGo [] rest else listSplitGo (item ++ [char]) rest

/-- `list_split_semicolon_preserve_empty`. -/
def listSplit (input : StringView) : List StringView := if input = [] then [] else listSplitGo [] input

/-- `list_join_items_temp`: the joined text goes through a C string. -/
def listJoin (items : List StringView) : StringView := svToCstr (svJoinSemi items)

/-- `list_sv_parse_i64`: the buffer has room for 63 characters, and a NUL ends the text that is
read. Of an empty text nothing is left over. -/
def listParseI64 (text : StringView) : Option Int :=
  if text = [] ∨ 64 ≤ text.length then none
  else if svToCstr text = [] then some 0
  else strtol (svToCstr text)

/-- `list_normalize_index`. -/
def listNormalizeIndex (itemCount : Nat) (rawIndex : Int) (allowEnd : Bool) : Option Nat :=
  if (2 ^ 63 - 1 : Int) < itemCount then none
  else
    let index := if rawIndex < 0 then (itemCount : Int) + rawIndex else rawIndex
    let high : Int := if allowEnd then itemCount else (itemCount : Int) - 1
    if itemCount = 0 ∧ allowEnd = false then none
    else if index < 0 ∨ high < index then none
    else some index.toNat

/-- What `list(GET)` reports about an index. -/
structure ListRefusal where
  code : DiagCode
  cause : StringView
  hint : StringView

/-- The item that `list(GET)` picks for one index. -/
def listGetItem (items : List StringView) (text : StringView) : Except ListRefusal StringView :=
  match listParseI64 text with
  | none => .error ⟨.invalidValue, sv "list(GET) index is not a valid integer", text⟩
  | some raw =>
    match listNormalizeIndex items.length raw false with
    | none => .error ⟨.outOfRange, sv "list(GET) index out of range", text⟩
    | some index => .ok (items.getD index [])

/-- `list(LENGTH)` counts the items that `list(GET)` picks from. -/
theorem listCountItems_eq (list : StringView) : listCountItems list = (listSplit list).length := by
  have loop : ∀ item, (listSplitGo item list).length = 1 + list.count ';' := by
    induction list with
    | nil => intro item; rfl
    | cons char rest ih =>
      intro item
      rw [listSplitGo]
      by_cases semicolon : char = ';'
      · rw [if_pos semicolon, length_cons, ih, semicolon, count_cons_self]
        omega
      · rw [if_neg semicolon, ih, count_cons_of_ne semicolon]
  unfold listCountItems listSplit
  split
  · rfl
  · exact (loop []).symm

/-! ## The two splits -/

/-- A text that goes on is split at each semicolon when the cuts are there, and does not end with
one. -/
theorem listSplitGo_eq_iff {cut : Nat → Bool} {position : Nat} {item rest : StringView}
    (semicolons : ∀ offset, cut (position + offset) = true → rest[offset]? = some ';') :
    listSplitGo item rest = piecesFrom cut position item rest ↔
      (item ++ rest ≠ [] ∧ rest.getLast? ≠ some ';') ∧
        ∀ offset, rest[offset]? = some ';' → cut (position + offset) = true := by
  induction rest generalizing position item with
  | nil =>
    rw [listSplitGo, piecesFrom, append_nil]
    by_cases none : item = []
    · simp [none]
    · simp [none]
  | cons char rest ih =>
    have later : ∀ offset, cut (position + 1 + offset) = true → rest[offset]? = some ';' := by
      intro offset here
      have shifted := semicolons (offset + 1)
      rw [show position + (offset + 1) = position + 1 + offset by omega] at shifted
      exact shifted here
    have shift : (∀ offset, (char :: rest)[offset]? = some ';' → cut (position + offset) = true) ↔
        (char = ';' → cut position = true) ∧
          ∀ offset, rest[offset]? = some ';' → cut (position + 1 + offset) = true := by
      constructor
      · intro cuts
        refine ⟨fun same => cuts 0 (by rw [same]; rfl), fun offset here => ?_⟩
        have shifted := cuts (offset + 1) here
        rwa [show position + (offset + 1) = position + 1 + offset by omega] at shifted
      · rintro ⟨first, others⟩ (_ | offset) here
        · exact first (some.inj here)
        · rw [show position + (offset + 1) = position + 1 + offset by omega]
          exact others offset here
    rw [listSplitGo, piecesFrom, shift]
    by_cases semicolon : char = ';'
    · subst semicolon
      rw [if_pos rfl]
      cases here : cut position with
      | false =>
        rw [if_neg (by decide)]
        refine iff_of_false ?_ fun both => ?_
        · -- a piece that is not cut keeps its semicolon
          have longer : item ++ [';'] ≠ [] := append_ne_nil_of_right_ne_nil _ (by simp)
          obtain ⟨more, pieces, found⟩ := @piecesFrom_head _ cut (position + 1) _ rest longer
          rw [found]
          intro same
          have lengths := congrArg List.length (List.cons.inj same).1
          rw [length_append, length_append, length_singleton] at lengths
          omega
        · have cuts := both.2.1 rfl
          cases cuts
      | true =>
        rw [if_pos rfl, List.cons.injEq, ih later]
        cases rest with
        | nil => simp
        | cons second others => simp
    · rw [if_neg semicolon]
      have none : cut position = false := by
        cases here : cut position with
        | false => rfl
        | true => exact absurd (some.inj (semicolons 0 here)) semicolon
      rw [none, if_neg (by decide), ih later]
      cases rest with
      | nil => simp [semicolon]
      | cons second others => simp [semicolon]

/-- Both splits give the same items exactly when the value does not end with a semicolon and each
of its semicolons is one at which the second split cuts. -/
theorem listSplit_eq_iff (value : StringView) : listSplit value = splitSemicolonGenexAware value ↔
      value.getLast? ≠ some ';' ∧
        ∀ position, value[position]? = some ';' → splitsAt value position = true := by
  have semicolons : ∀ offset, splitsAt value (0 + offset) = true → value[offset]? = some ';' := by
    intro offset cuts
    rw [Nat.zero_add, splitsAt, Bool.and_eq_true] at cuts
    exact (isUnescapedCharAt_iff.mp cuts.1).1
  have whole := @listSplitGo_eq_iff _ 0 [] value semicolons
  rw [splitSemicolonGenexAware_eq, piecesAt]
  unfold listSplit
  by_cases none : value = []
  · subst none
    rw [if_pos rfl]
    exact iff_of_true rfl ⟨by simp, fun position here => by simp at here⟩
  · rw [if_neg none, whole]
    simp [none]

/-- `list(GET)` picks each item by its printed position. -/
theorem listGetItem_showLong {index : Nat} {item : StringView} (few : items.length < 2 ^ 63)
    (found : items[index]? = some item) : listGetItem items (showLong index) = .ok item := by
  obtain ⟨inside, same⟩ := List.getElem?_eq_some_iff.mp found
  have long : InLong (index : Int) := by
    unfold InLong
    omega
  have short := length_showLong long
  have parsed := execCoreParseLong_showLong long
  have read : listParseI64 (showLong index) = some (index : Int) := by
    unfold execCoreParseLong at parsed
    unfold listParseI64
    rw [if_neg (not_or.mpr ⟨showLong_ne_nil index, by omega⟩)] at parsed ⊢
    exact parsed
  have normal : listNormalizeIndex items.length (index : Int) false = some index := by
    unfold listNormalizeIndex
    rw [if_neg (by omega), if_neg (by omega : ¬ (index : Int) < 0), if_neg (by omega)]
    rw [if_neg (by simp; omega)]
    simp
  rw [listGetItem, read]
  dsimp only
  rw [normal]
  dsimp only
  rw [getD_eq_getElem?_getD, found, getD_some]

/-! ## Items that are joined -/

/-- An item that both splits leave whole, and that a C string keeps. -/
structure PlainItem (item : StringView) : Prop where
  semicolon : ';' ∉ item
  opening : ¬ sv "$<" <:+: item
  backslash : '\\' ∉ item
  nul : '\x00' ∉ item

theorem mem_svJoinSemi {char : Char} (listed : char ∈ svJoinSemi items) :
    char = ';' ∨ ∃ item ∈ items, char ∈ item := by
  fun_induction svJoinSemi items with
  | case1 => cases listed
  | case2 item => exact .inr ⟨item, mem_singleton_self item, listed⟩
  | case3 item rest _ ih =>
    rcases mem_append.mp listed with here | behind
    · exact .inr ⟨item, mem_cons_self, here⟩
    · rcases mem_cons.mp behind with semicolon | later
      · exact .inl semicolon
      · rcases ih later with semicolon | ⟨other, member, inside⟩
        · exact .inl semicolon
        · exact .inr ⟨other, mem_cons_of_mem _ member, inside⟩

/-- No expression begins across a semicolon. -/
theorem opening_infix_append {left right : StringView} (found : sv "$<" <:+: left ++ ';' :: right) :
    sv "$<" <:+: left ∨ sv "$<" <:+: right := by
  induction left with
  | nil =>
    rcases List.infix_cons_iff.mp found with front | behind
    · have first := cons_prefix_cons.mp front
      cases first.1
    · exact .inr behind
  | cons char left ih =>
    rcases List.infix_cons_iff.mp found with front | behind
    · obtain ⟨rfl, next⟩ := cons_prefix_cons.mp front
      cases left with
      | nil =>
        have second := cons_prefix_cons.mp next
        cases second.1
      | cons second left =>
        obtain ⟨rfl, _⟩ := cons_prefix_cons.mp next
        exact .inl ⟨[], left, rfl⟩
    · rcases ih behind with inside | later
      · exact .inl (List.infix_cons inside)
      · exact .inr later

theorem opening_infix_svJoinSemi (found : sv "$<" <:+: svJoinSemi items) :
    ∃ item ∈ items, sv "$<" <:+: item := by
  fun_induction svJoinSemi items with
  | case1 =>
    have none := List.infix_nil.mp found
    cases none
  | case2 item => exact ⟨item, mem_singleton_self item, found⟩
  | case3 item rest _ ih =>
    rcases opening_infix_append found with here | later
    · exact ⟨item, mem_cons_self, here⟩
    · obtain ⟨other, member, inside⟩ := ih later
      exact ⟨other, mem_cons_of_mem _ member, inside⟩

/-- Without an expression the depth stays zero. -/
theorem bracketDepth_eq_zero {text : StringView} (none : ¬ sv "$<" <:+: text) :
    bracketDepth 0 text = 0 := by
  induction text with
  | nil => rfl
  | cons char rest ih =>
    have later : ¬ sv "$<" <:+: rest := fun inside => none (List.infix_cons inside)
    have shape : ∀ after, char = '$' → rest = '<' :: after → False := by
      rintro after rfl rfl
      exact none ⟨[], after, rfl⟩
    rw [bracketDepth]
    · simp only [Nat.lt_irrefl, and_false, if_false]
      exact ih later
    · exact shape

theorem oddBackslashes_of_notMem {text : StringView} (none : '\\' ∉ text) :
    oddBackslashes text = false := by
  induction text using List.reverseRecOn with
  | nil => rfl
  | append_singleton text char ih =>
    have other : char ≠ '\\' := fun same => none (by simp [same])
    rw [oddBackslashes_append]
    simp [other]

/-- Every semicolon of a join of plain items is one at which the second split cuts. -/
theorem splitsAt_svJoinSemi (plain : ∀ item ∈ items, PlainItem item) {position : Nat}
    (semicolon : (svJoinSemi items)[position]? = some ';') :
    splitsAt (svJoinSemi items) position = true := by
  have front := (List.take_prefix position (svJoinSemi items)).isInfix
  have depth : bracketDepth 0 ((svJoinSemi items).take position) = 0 := by
    refine bracketDepth_eq_zero fun found => ?_
    obtain ⟨item, member, inside⟩ := opening_infix_svJoinSemi (found.trans front)
    exact (plain item member).opening inside
  have unescaped : oddBackslashes ((svJoinSemi items).take position) = false := by
    refine oddBackslashes_of_notMem fun found => ?_
    rcases mem_svJoinSemi (front.subset found) with same | ⟨item, member, inside⟩
    · cases same
    · exact (plain item member).backslash inside
  rw [splitsAt, Bool.and_eq_true]
  exact ⟨isUnescapedCharAt_iff.mpr ⟨semicolon, unescaped⟩, by rw [depth]; rfl⟩

/-- Items without semicolons come back from their join, unless all there is is one empty item. -/
theorem listSplit_svJoinSemi (filled : items ≠ []) (plain : ∀ item ∈ items, ';' ∉ item) :
    listSplit (svJoinSemi items) = items ↔ items ≠ [[]] := by
  have first : ∀ {item before : StringView} {rest : StringView}, ';' ∉ item →
      listSplitGo before (item ++ ';' :: rest) = (before ++ item) :: listSplitGo [] rest := by
    intro item before rest none
    induction item generalizing before with
    | nil => rw [nil_append, listSplitGo, if_pos rfl, append_nil]
    | cons char item ih =>
      have parts := mem_cons.not.mp none
      rw [cons_append, listSplitGo, if_neg (fun same => parts (.inl same.symm)), ih fun later => parts (.inr later)]
      simp
  have last : ∀ {item before : StringView}, ';' ∉ item →
      listSplitGo before item = [before ++ item] := by
    intro item before none
    induction item generalizing before with
    | nil => rw [listSplitGo, append_nil]
    | cons char item ih =>
      have parts := mem_cons.not.mp none
      rw [listSplitGo, if_neg (fun same => parts (.inl same.symm)), ih fun later => parts (.inr later)]
      simp
  have loop : items ≠ [] → listSplitGo [] (svJoinSemi items) = items := by
    fun_induction svJoinSemi items with
    | case1 => exact fun none => absurd rfl none
    | case2 item => exact fun _ => last (plain item (mem_singleton_self item))
    | case3 item rest more ih =>
      intro _
      have later := ih more (fun other member => plain other (mem_cons_of_mem _ member)) more
      rw [first (plain item mem_cons_self), later, nil_append]
  unfold listSplit
  by_cases empty : svJoinSemi items = []
  · rw [if_pos empty]
    refine iff_of_false filled.symm fun other => ?_
    have back := loop filled
    rw [empty] at back
    exact other back.symm
  · rw [if_neg empty]
    refine iff_of_true (loop filled) fun same => ?_
    rw [same] at empty
    exact empty rfl

/-- A join ends with a semicolon when its last item is empty and is not the only one. -/
theorem getLast?_svJoinSemi (plain : ∀ item ∈ items, ';' ∉ item) :
    (svJoinSemi items).getLast? = some ';' ↔ items.getLast? = some [] ∧ items ≠ [[]] := by
  fun_induction svJoinSemi items with
  | case1 => simp
  | case2 item =>
    have none := plain item (mem_singleton_self item)
    refine iff_of_false (fun last => none (mem_of_getLast? last)) ?_
    rintro ⟨last, other⟩
    rw [List.getLast?_singleton] at last
    rw [some.inj last] at other
    exact other rfl
  | case3 item rest more ih =>
    have filled : rest ≠ [] := by
      rintro rfl
      exact more rfl
    have later := ih fun other member => plain other (mem_cons_of_mem _ member)
    have whole : (item :: rest).getLast? = rest.getLast? := by
      rw [← singleton_append, List.getLast?_append_of_ne_nil _ filled]
    rw [List.getLast?_append_of_ne_nil _ (cons_ne_nil _ _), whole]
    by_cases empty : svJoinSemi rest = []
    · have single : rest = [[]] := by
        by_contra other
        have back := (listSplit_svJoinSemi filled fun other member =>
          plain other (mem_cons_of_mem _ member)).mpr other
        rw [empty] at back
        exact filled back.symm
      rw [empty, single]
      simp
    · have same : (';' :: svJoinSemi rest).getLast? = (svJoinSemi rest).getLast? := by
        rw [← singleton_append, List.getLast?_append_of_ne_nil _ empty]
      rw [same, later]
      constructor
      · exact fun both => ⟨both.1, fun single => filled (List.cons.inj single).2⟩
      · rintro ⟨last, _⟩
        refine ⟨last, ?_⟩
        rintro rfl
        exact empty rfl

/-- The second split gives the items back unless the last of them is empty. -/
theorem splitSemicolonGenexAware_svJoinSemi (filled : items ≠ [])
    (plain : ∀ item ∈ items, PlainItem item) :
    splitSemicolonGenexAware (svJoinSemi items) = items ↔ items.getLast? ≠ some [] := by
  have whole := fun item member => (plain item member).semicolon
  have ends := getLast?_svJoinSemi whole
  have agree := listSplit_eq_iff (svJoinSemi items)
  have cuts : ∀ position, (svJoinSemi items)[position]? = some ';' →
      splitsAt (svJoinSemi items) position = true := fun _ => splitsAt_svJoinSemi plain
  by_cases single : items = [[]]
  · rw [single]
    exact iff_of_false (by decide) (by decide)
  · have back := (listSplit_svJoinSemi filled whole).mpr single
    rw [back] at agree
    constructor
    · intro same last
      exact (agree.mp same.symm).1 (ends.mpr ⟨last, single⟩)
    · intro last
      exact (agree.mpr ⟨fun semicolon => last (ends.mp semicolon).1, cuts⟩).symm

/-- The join of plain items goes through a C string unchanged. -/
theorem listJoin_eq (plain : ∀ item ∈ items, PlainItem item) :
    listJoin items = svJoinSemi items := by
  refine svToCstr_eq_self fun listed => ?_
  rcases mem_svJoinSemi listed with same | ⟨item, member, inside⟩
  · cases same
  · exact (plain item member).nul inside

/-! ## The main result -/

/-- `list(LENGTH)` counts the items that `list(GET)` picks from. `foreach(IN LISTS)` runs over these
items exactly when the value does not end with a semicolon and each of its semicolons stands
outside of expressions and is not escaped. The items of a join come back from it, but for a single
empty item, and in a loop but for an empty item at the end. -/
theorem listItems_foreach : (∀ (visible : StringView → StringView) (var list : StringView),
      listCountItems (visible list) = (listSplit (visible list)).length ∧
      (∀ (index : Nat) (item : StringView), (listSplit (visible list))[index]? = some item →
        (listSplit (visible list)).length < 2 ^ 63 →
        listGetItem (listSplit (visible list)) (showLong index) = .ok item) ∧
      ((foreachSetup visible [var, sv "IN", sv "LISTS", list]).IteratesOver var
          (listSplit (visible list)) ↔
        (visible list).getLast? ≠ some ';' ∧ ∀ position, (visible list)[position]? = some ';' →
          splitsAt (visible list) position = true)) ∧
    ∀ items : List StringView, items ≠ [] → (∀ item ∈ items, PlainItem item) →
      (listSplit (listJoin items) = items ↔ items ≠ [[]]) ∧
      (splitSemicolonGenexAware (listJoin items) = items ↔ items.getLast? ≠ some []) := by
  constructor
  · intro visible var list
    refine ⟨listCountItems_eq _, fun index item found few => listGetItem_showLong few found, ?_⟩
    have setup : foreachSetup visible [var, sv "IN", sv "LISTS", list] =
        .items var (splitSemicolonGenexAware (visible list)) := by
      show ForeachSetup.items var (splitSemicolonGenexAware (visible list) ++ []) = _
      rw [append_nil]
    rw [← listSplit_eq_iff, setup]
    constructor
    · rintro (same | ⟨skipped, _⟩)
      · exact (ForeachSetup.items.inj same).2.symm
      · cases skipped
    · intro same
      exact .inl (by rw [same])
  · intro items filled plain
    rw [listJoin_eq plain]
    exact ⟨listSplit_svJoinSemi filled fun item member => (plain item member).semicolon,
      splitSemicolonGenexAware_svJoinSemi filled plain⟩

/-- Three items of which the first two are empty. -/
theorem listItems_foreach_empty :
    splitSemicolonGenexAware (listJoin [[], [], sv "a>"]) = [[], [], sv "a>"] := by
  refine ((listItems_foreach.2 [[], [], sv "a>"] (by decide) ?_).2).mpr (by decide)
  intro item member
  rcases mem_cons.mp member with rfl | later
  · exact ⟨by decide, by decide, by decide, by decide⟩
  · rcases mem_cons.mp later with rfl | last
    · exact ⟨by decide, by decide, by decide, by decide⟩
    · obtain rfl := mem_singleton.mp last
      exact ⟨by decide, by decide, by decide, by decide⟩

/-- `list()` sees an empty item behind the semicolon, the loop does not. -/
theorem listSplit_ne_foreach : listCountItems (sv "a;") = 2 ∧ listSplit (sv "a;") = [sv "a", []] ∧
      foreachSetup (fun _ => sv "a;") [sv "v", sv "IN", sv "LISTS", sv "l"] =
        .items (sv "v") [sv "a"] := by
  decide

end Nobify.Evaluator
