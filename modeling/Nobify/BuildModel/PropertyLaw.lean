import Nobify.BuildModel.BuilderTarget
import Nobify.Lib.OptionLoop

/-!
# The property store and the model in step

The evaluator keeps two texts for a family of usage requirements, the builder one list of items
with visibilities. Entries of the target commands and appended values keep the two in step. A
value that is set keeps them in step when it replaces all that the property shows, and any written
value only when the items it is split into make up the value again.
-/

namespace Nobify.BuildModel

open Evaluator
open List

variable {first second : List StringView} {env : CallEnv} {property : UsageProperty}
  {items : List (StringView × LinkItemMetadata)} {target : TargetRecord}

/-! ## Joined texts -/

/-- Two filled lists are joined by one separator. -/
theorem svJoinSemi_append (filled : first ≠ []) (more : second ≠ []) :
    svJoinSemi (first ++ second) = svJoinSemi first ++ ';' :: svJoinSemi second := by
  induction first with
  | nil => exact absurd rfl filled
  | cons item rest ih =>
    cases rest with
    | nil =>
      obtain ⟨next, others, rfl⟩ := exists_cons_of_ne_nil more
      rfl
    | cons next others =>
      have tail := ih (cons_ne_nil _ _)
      simp only [cons_append, svJoinSemi] at tail ⊢
      rw [tail, append_assoc, cons_append]

/-- A list whose joined text is empty only when there are no items. -/
def Solid (values : List StringView) : Prop := svJoinSemi values = [] → values = []

/-- Solid lists make a solid list. -/
theorem Solid.append (solid : Solid first) (more : Solid second) : Solid (first ++ second) := by
  intro empty
  by_cases none : first = []
  · subst none
    exact more empty
  · by_cases single : second = []
    · subst single
      rw [append_nil] at empty ⊢
      exact solid empty
    · rw [svJoinSemi_append none single] at empty
      simp at empty

/-- The texts of a solid list and of one put behind it or in front are merged like the lists. -/
theorem mergePropertyValue_lists (solid : Solid first) (more : Solid second) :
    mergePropertyValue (svJoinSemi first) (svJoinSemi second) .appendList =
        svJoinSemi (first ++ second) ∧
      mergePropertyValue (svJoinSemi first) (svJoinSemi second) .prependList =
        svJoinSemi (second ++ first) := by
  unfold mergePropertyValue
  by_cases none : second = []
  · subst none
    simp [svJoinSemi]
  · have written : svJoinSemi second ≠ [] := fun empty => none (more empty)
    by_cases fresh : first = []
    · subst fresh
      simp [svJoinSemi, written]
    · have current : svJoinSemi first ≠ [] := fun empty => fresh (solid empty)
      simp [written, current, svJoinSemi_append fresh none, svJoinSemi_append none fresh]

/-! ## Values and their typed items -/

/-- Whether a text ends right after a list separator, read as by
`eval_sv_split_semicolon_genex_aware`. -/
def endsInSeparatorGo : Nat → Bool → Bool → StringView → Bool
  | _, _, after, [] => after
  | depth, _, _, '$' :: '<' :: rest => endsInSeparatorGo (depth + 1) false false rest
  | depth, escaped, _, char :: rest =>
    if char = '>' ∧ 0 < depth then endsInSeparatorGo (depth - 1) false false rest
    else if char = ';' ∧ depth = 0 ∧ escaped = false then endsInSeparatorGo depth false true rest
    else endsInSeparatorGo depth (char = '\\' && !escaped) false rest

/-- A text that ends in a list separator, which splitting drops. -/
def endsInSeparator (value : StringView) : Bool := endsInSeparatorGo 0 false false value

/-- The pieces of a text that does not end in a separator make up the text again. -/
theorem svJoinSemi_splitSemicolonGo {depth : Nat} {escaped after : Bool} {piece text : StringView}
    (kept : endsInSeparatorGo depth escaped after text = false) :
    svJoinSemi (splitSemicolonGo depth escaped piece text) = piece ++ text := by
  fun_induction splitSemicolonGo depth escaped piece text generalizing after with
  | case1 => rfl
  | case2 => simp [svJoinSemi]
  | case3 depth escaped piece rest ih =>
    rw [endsInSeparatorGo] at kept
    rw [ih kept, append_assoc, cons_append, cons_append, nil_append]
  | case4 depth escaped piece char rest shape closing ih =>
    rw [endsInSeparatorGo, if_pos closing] at kept
    · rw [ih kept, append_assoc, cons_append, nil_append]
    · exact shape
  | case5 depth escaped piece char rest shape closing separator ih =>
    rw [endsInSeparatorGo, if_neg closing, if_pos separator] at kept
    · have tail := ih kept
      have filled : splitSemicolonGo depth false [] rest ≠ [] := by
        intro empty
        obtain ⟨-, rfl⟩ := splitSemicolonGo_eq_nil empty
        cases kept
      have joined := svJoinSemi_append (cons_ne_nil piece []) filled
      rw [cons_append, nil_append, tail, nil_append] at joined
      rw [joined, separator.1]
      rfl
    · exact shape
  | case6 depth escaped piece char rest shape closing separator ih =>
    rw [endsInSeparatorGo, if_neg closing, if_neg separator] at kept
    · rw [ih kept, append_assoc, cons_append, nil_append]
    · exact shape

/-- A value that its typed items keep: it does not end in a separator, and no item of a link
property is empty, has blanks at an end or is one of the keywords for configurations. -/
def KeepsValue (property : UsageProperty) (value : StringView) : Prop :=
  endsInSeparator value = false ∧
    (property.family = .linkLibraries → ∀ piece ∈ splitSemicolonGenexAware value,
      svTrim piece = piece ∧ piece ≠ [] ∧ configKeyword piece = none)

/-- Typed link items are the pieces when each piece is an item as it stands. -/
theorem parseLinkLibrariesItemsSemantics_values {pieces : List StringView}
    (plain : ∀ piece ∈ pieces, svTrim piece = piece ∧ piece ≠ [] ∧ configKeyword piece = none)
    (parsed : parseLinkLibrariesItemsSemantics env property .all pieces = some items) :
    items.map Prod.fst = pieces := by
  induction pieces generalizing items with
  | nil =>
    cases parsed
    rfl
  | cons piece rest ih =>
    obtain ⟨trimmed, filled, unkeyed⟩ := plain piece mem_cons_self
    unfold parseLinkLibrariesItemsSemantics at parsed
    simp only [trimmed, if_neg filled, unkeyed] at parsed
    obtain ⟨semantic, -, later⟩ := Option.bind_eq_some_iff.mp parsed
    obtain ⟨others, known, rfl⟩ := Option.map_eq_some_iff.mp later
    have tail := ih (fun other member => plain other (mem_cons_of_mem _ member)) known
    have item : linkItemApplyConfigFilter piece .all = piece := by
      unfold linkItemApplyConfigFilter
      rw [if_neg filled]
    rw [map_cons, tail, item]

/-- Typed items of the other properties are the pieces. -/
theorem mapM_semantics_values {pieces : List StringView}
    (mapped : (pieces.mapM fun token => (env.semantics property token .all).map fun semantic => (token, semantic)) = some items) :
    items.map Prod.fst = pieces := by
  induction pieces generalizing items with
  | nil =>
    cases mapped
    rfl
  | cons piece rest ih =>
    rw [mapM_cons] at mapped
    obtain ⟨first, head, later⟩ := Option.bind_eq_some_iff.mp mapped
    obtain ⟨others, known, same⟩ := Option.bind_eq_some_iff.mp later
    obtain ⟨semantic, -, rfl⟩ := Option.map_eq_some_iff.mp head
    cases same
    rw [map_cons, ih known]

/-- The typed items of a kept value make up the value again, and an empty value has none. -/
theorem populateTargetPropSetSemantics_values {value : StringView}
    (kept : KeepsValue property value)
    (populated : populateTargetPropSetSemantics env property value = some items) :
    svJoinSemi (items.map Prod.fst) = value ∧ Solid (items.map Prod.fst) := by
  unfold populateTargetPropSetSemantics at populated
  by_cases empty : value = []
  · rw [if_pos empty] at populated
    cases populated
    exact ⟨empty.symm, fun _ => rfl⟩
  · rw [if_neg empty] at populated
    have pieces : items.map Prod.fst = splitSemicolonGenexAware value := by
      by_cases link : property.family = .linkLibraries
      · rw [if_pos link] at populated
        exact parseLinkLibrariesItemsSemantics_values (kept.2 link) populated
      · rw [if_neg link] at populated
        exact mapM_semantics_values populated
    have joined : svJoinSemi (items.map Prod.fst) = value := by
      rw [pieces]
      exact svJoinSemi_splitSemicolonGo kept.1
    exact ⟨joined, fun none => absurd (joined.symm.trans none) empty⟩

/-! ## What a property shows -/

/-- The texts of the items that a property shows. -/
def shownValues (target : TargetRecord) (property : UsageProperty) : List StringView :=
  ((usageItems target property.family).filter (propertyShows property)).map StringItem.value

/-- A visibility writes a property of the evaluator's store. -/
def entryWrites (visibility : CmakeVisibility) (property : UsageProperty) : Bool :=
  if property.isInterface then writesInterface visibility else writesDirect visibility

/-- The item that the builder makes of an entry of a family. -/
def eventItem (family : UsageFamily) (entry : ItemEntry) : StringItem :=
  entryItem entry (allowBefore family && entry.isBefore) (allowSystem family && entry.isSystem)

/-- A property shows the item of an entry exactly when the entry wrote it. -/
theorem propertyShows_eventItem (property : UsageProperty) (family : UsageFamily)
    (entry : ItemEntry) :
    propertyShows property (eventItem family entry) = entryWrites entry.visibility property := by
  unfold propertyShows entryWrites eventItem entryItem
  cases property.isInterface <;> cases entry.visibility <;> rfl

/-- A property shows the items it is promoted to. -/
theorem propertyShows_promoted {item : StringItem}
    (promoted : item.visibility = promotedVisibility property) :
    propertyShows property item = true := by
  unfold propertyShows
  rw [promoted]
  unfold promotedVisibility
  cases property.isInterface <;> decide

/-- The other property of the family does not show them. -/
theorem propertyShows_other {other : UsageProperty} {item : StringItem}
    (sameFamily : other.family = property.family) (different : other ≠ property)
    (promoted : item.visibility = promotedVisibility property) :
    propertyShows other item = false := by
  obtain ⟨family, isInterface⟩ := property
  obtain ⟨otherFamily, otherInterface⟩ := other
  obtain rfl : otherFamily = family := sameFamily
  unfold propertyShows
  rw [promoted]
  unfold promotedVisibility
  cases isInterface <;> cases otherInterface <;> first | exact absurd rfl different | rfl

/-- The item lists after the event of an entry. -/
theorem usageItems_item (target : TargetRecord) (family other : UsageFamily) (entry : ItemEntry) :
    usageItems (handleTargetEvent target (.item family entry)) other =
      if other = family then applyItemMutation (usageItems target family) [eventItem family entry]
        (if allowBefore family && entry.isBefore then .prependList else .appendList)
      else usageItems target other := by
  cases family <;> cases other <;>
    first
    | rfl
    | exact map_append

/-- Promoted mutations of link items, seen as string items. -/
theorem map_applyPromotedItemMutation (dest : List LinkItem) (items : List StringItem)
    (op : PropertyOp) (visibility : Visibility) (system : Bool) :
    (applyPromotedItemMutation LinkItem.toStringItem dest (items.map unresolvedLinkItem) op
        visibility system).map LinkItem.toStringItem =
      applyPromotedItemMutation id (dest.map LinkItem.toStringItem) items op visibility system := by
  have view : (items.map unresolvedLinkItem).map LinkItem.toStringItem = items := by
    rw [List.map_map]
    exact List.map_id items
  unfold applyPromotedItemMutation
  cases op with
  | set =>
    simp only [ne_eq, not_true_eq_false, if_false, map_append, view, filter_map]
    rfl
  | prependList => simp [applyItemMutation, view]
  | appendList => simp [applyItemMutation, view]
  | appendString => simp [applyItemMutation, view]

/-- The item lists after a property was set. -/
theorem usageItems_propSet (target : TargetRecord) (event : PropSetEvent) (other : UsageFamily)
    (promoted : event.op ≠ .appendString) :
    usageItems (handleTargetEvent target (.propSet event)) other =
      if other = event.property.family then
        applyPromotedItemMutation id (usageItems target other) (promotedItems event) event.op
          (promotedVisibility event.property) false
      else usageItems target other := by
  simp only [handleTargetEvent, promotePropertySet, if_neg promoted]
  cases event.property.family <;> cases other <;>
    first
    | rfl
    | exact map_applyPromotedItemMutation _ _ _ _ _

/-! ## One event in step -/

/-- The store and the record of a target agree on every property, and what a property shows has an
empty text only when it shows nothing. -/
structure InStep (store : PropertyStore) (target : TargetRecord) : Prop where
  values : ∀ property, store.values property = targetModeledPropertyValue target property
  solid : ∀ property, Solid (shownValues target property)

/-- The texts in the store after an entry. -/
theorem storeEntry_values (family : UsageFamily) (store : PropertyStore) (entry : ItemEntry)
    (property : UsageProperty) :
    (storeEntry family store entry).values property =
      if property.family = family ∧ entryWrites entry.visibility property = true then
        mergePropertyValue (store.values property) entry.item (itemPropertyOp entry)
      else store.values property := by
  obtain ⟨other, isInterface⟩ := property
  have unfolded : (storeEntry family store entry).values =
      (let direct := if writesDirect entry.visibility then
          store.write ⟨family, false⟩ entry.item (itemPropertyOp entry) else store
        if writesInterface entry.visibility then
          direct.write ⟨family, true⟩ entry.item (itemPropertyOp entry) else direct).values := by
    by_cases system : family = .includeDirectories ∧ writesInterface entry.visibility ∧
        entry.isSystem
    · simp only [storeEntry, if_pos system]
    · simp only [storeEntry, if_neg system]
  rw [unfolded]
  unfold entryWrites
  by_cases same : other = family
  · subst same
    cases isInterface <;> cases direct : writesDirect entry.visibility <;>
      cases interface : writesInterface entry.visibility <;> simp [PropertyStore.write]
  · cases writesDirect entry.visibility <;> cases writesInterface entry.visibility <;>
      simp [PropertyStore.write, same]

/-- What a property shows after the event of an entry. -/
theorem shownValues_item {family : UsageFamily} {entry : ItemEntry}
    (plain : allowBefore family = false → entry.isBefore = false) (property : UsageProperty) :
    shownValues (handleTargetEvent target (.item family entry)) property =
      if property.family = family ∧ entryWrites entry.visibility property = true then
        if entry.isBefore then entry.item :: shownValues target property
        else shownValues target property ++ [entry.item]
      else shownValues target property := by
  have before : (allowBefore family && entry.isBefore) = entry.isBefore := by
    cases allowed : allowBefore family with
    | true => rfl
    | false => rw [plain allowed, Bool.and_false]
  unfold shownValues
  rw [usageItems_item, before]
  by_cases same : property.family = family
  · rw [if_pos same, same]
    have shows := propertyShows_eventItem property family entry
    have value : (eventItem family entry).value = entry.item := rfl
    cases entry.isBefore <;> cases written : entryWrites entry.visibility property <;>
      simp [applyItemMutation, shows, written, value]
  · rw [if_neg same, if_neg fun both => same both.1]

/-- An entry keeps the two in step. -/
theorem InStep.item {store : PropertyStore} {family : UsageFamily} {entry : ItemEntry}
    (inStep : InStep store target) (filled : entry.item ≠ [])
    (plain : allowBefore family = false → entry.isBefore = false) :
    InStep (storeEntry family store entry) (handleTargetEvent target (.item family entry)) := by
  have single : Solid [entry.item] := fun empty => absurd empty filled
  refine ⟨fun property => ?_, fun property => ?_⟩
  · have current : store.values property = svJoinSemi (shownValues target property) :=
      inStep.values property
    show _ = svJoinSemi (shownValues _ property)
    rw [storeEntry_values, shownValues_item plain, current]
    by_cases written : property.family = family ∧ entryWrites entry.visibility property = true
    · rw [if_pos written, if_pos written]
      unfold itemPropertyOp
      cases entry.isBefore with
      | true => exact (mergePropertyValue_lists (inStep.solid property) single).2
      | false => exact (mergePropertyValue_lists (inStep.solid property) single).1
    · rw [if_neg written, if_neg written]
  · rw [shownValues_item plain]
    by_cases written : property.family = family ∧ entryWrites entry.visibility property = true
    · rw [if_pos written]
      cases entry.isBefore with
      | true => exact single.append (inStep.solid property)
      | false => exact (inStep.solid property).append single
    · rw [if_neg written]
      exact inStep.solid property

/-- What a property shows is all replaced when it is set: no public items, and no system ones. -/
def Replaces (target : TargetRecord) (property : UsageProperty) : Prop :=
  ∀ item ∈ usageItems target property.family, propertyShows property item = true →
    itemBucketMatches item (promotedVisibility property) false = true

/-- The property that was written shows the promoted items, its sibling none of them. -/
theorem filter_promotedItems (event : PropSetEvent) (property : UsageProperty)
    (sameFamily : property.family = event.property.family) :
    (promotedItems event).filter (propertyShows property) =
      if property = event.property then promotedItems event else [] := by
  have promoted : ∀ item ∈ promotedItems event,
      item.visibility = promotedVisibility event.property := by
    intro item member
    obtain ⟨typed, -, rfl⟩ := mem_map.mp member
    rfl
  by_cases same : property = event.property
  · rw [if_pos same, filter_eq_self]
    intro item member
    rw [same]
    exact propertyShows_promoted (promoted item member)
  · rw [if_neg same, filter_eq_nil_iff]
    intro item member
    rw [propertyShows_other sameFamily same (promoted item member)]
    exact Bool.false_ne_true

/-- Of the items that setting a property keeps, the property shows none when it replaces all, and
its sibling shows what it showed before. -/
theorem filter_kept {written : UsageProperty} (replaces : Replaces target written)
    (sameFamily : property.family = written.family) :
    ((usageItems target written.family).filter fun item =>
        !itemBucketMatches item (promotedVisibility written) false).filter
          (propertyShows property) =
      if property = written then []
      else (usageItems target written.family).filter (propertyShows property) := by
  by_cases same : property = written
  · rw [if_pos same, filter_eq_nil_iff]
    intro item member shown
    obtain ⟨inside, kept⟩ := mem_filter.mp member
    rw [same] at shown
    rw [replaces item inside shown] at kept
    cases kept
  · rw [if_neg same, filter_filter]
    refine filter_congr fun item _ => ?_
    cases shown : propertyShows property item with
    | false => rfl
    | true =>
      cases bucket : itemBucketMatches item (promotedVisibility written) false with
      | false => rfl
      | true =>
        have promoted : item.visibility = promotedVisibility written := by
          unfold itemBucketMatches at bucket
          simpa using (Bool.and_eq_true_iff.mp bucket).1
        rw [propertyShows_other sameFamily same promoted] at shown
        cases shown

/-- What a property shows after one was written. -/
theorem shownValues_propSet {event : PropSetEvent}
    (listed : event.op = .set ∨ event.op = .appendList)
    (replaces : event.op = .set → Replaces target event.property) (property : UsageProperty) :
    shownValues (handleTargetEvent target (.propSet event)) property =
      if property = event.property then
        if event.op = .set then event.typedItems.map Prod.fst
        else shownValues target property ++ event.typedItems.map Prod.fst
      else shownValues target property := by
  have promoted : event.op ≠ .appendString := by
    rcases listed with set | append
    · rw [set]
      decide
    · rw [append]
      decide
  have values : (promotedItems event).map StringItem.value = event.typedItems.map Prod.fst := by
    unfold promotedItems
    rw [List.map_map]
    rfl
  unfold shownValues
  rw [usageItems_propSet _ _ _ promoted]
  by_cases sameFamily : property.family = event.property.family
  · rw [if_pos sameFamily, sameFamily]
    unfold applyPromotedItemMutation
    rcases listed with set | append
    · have kept := filter_kept (replaces set) sameFamily
      simp only [set, ne_eq, not_true_eq_false, if_false, if_true, id_eq, filter_append, kept,
        filter_promotedItems event property sameFamily]
      by_cases same : property = event.property
      · simp only [if_pos same, nil_append, values]
      · simp only [if_neg same, append_nil]
    · simp only [append, ne_eq, reduceCtorEq, not_false_eq_true, if_true, if_false,
        applyItemMutation, filter_append, filter_promotedItems event property sameFamily]
      by_cases same : property = event.property
      · simp only [if_pos same, map_append, values]
      · simp only [if_neg same, append_nil]
  · have different : property ≠ event.property := fun same => sameFamily (by rw [same])
    rw [if_neg sameFamily, if_neg different]

/-- A written value whose typed items make it up keeps the two in step, when it is appended or
replaces what the property shows. -/
theorem InStep.propSet {store : PropertyStore} {event : PropSetEvent} (inStep : InStep store target)
    (listed : event.op = .set ∨ event.op = .appendList)
    (replaces : event.op = .set → Replaces target event.property)
    (joined : svJoinSemi (event.typedItems.map Prod.fst) = event.value)
    (solid : Solid (event.typedItems.map Prod.fst)) :
    InStep (store.write event.property event.value event.op)
      (handleTargetEvent target (.propSet event)) := by
  refine ⟨fun property => ?_, fun property => ?_⟩
  · have current : store.values property = svJoinSemi (shownValues target property) :=
      inStep.values property
    show (if property = event.property then
        mergePropertyValue (store.values event.property) event.value event.op
      else store.values property) = svJoinSemi (shownValues _ property)
    rw [shownValues_propSet listed replaces]
    by_cases same : property = event.property
    · rw [if_pos same, if_pos same, ← same, current, ← joined]
      rcases listed with set | append
      · rw [set]
        rfl
      · rw [append]
        exact (mergePropertyValue_lists (inStep.solid property) solid).1
    · rw [if_neg same, if_neg same, current]
  · rw [shownValues_propSet listed replaces]
    by_cases same : property = event.property
    · rw [if_pos same]
      rcases listed with set | append
      · rw [if_pos set]
        exact solid
      · rw [append]
        exact (inStep.solid property).append solid
    · rw [if_neg same]
      exact inStep.solid property

end Nobify.BuildModel
