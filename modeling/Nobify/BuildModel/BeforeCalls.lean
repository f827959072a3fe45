import Nobify.BuildModel.PropertyRuns

/-!
# Calls with `BEFORE`

A call with `BEFORE` puts its items before the list of the property one by one, in the store and by
one event for each. So the last item comes first: the items stand in the order of the call only
when they read the same from the back.
-/

namespace Nobify.BuildModel

open Evaluator
open List

/-! ## The texts in the store -/

theorem solid_reverse_of_filled {values : List StringView} (filled : ∀ value ∈ values, value ≠ []) :
    Solid values.reverse := by
  intro empty
  cases reversed : values.reverse with
  | nil => rfl
  | cons first rest =>
    have member : first ∈ values := mem_reverse.mp (reversed ▸ mem_cons_self)
    rw [reversed] at empty
    cases rest with
    | nil => exact absurd empty (filled first member)
    | cons next others =>
      exact absurd empty (append_ne_nil_of_right_ne_nil first (cons_ne_nil ';' _))

/-- A text that is put before another one. -/
theorem mergePropertyValue_cons {value current : StringView} {others : List StringView}
    (filled : value ≠ []) (solid : Solid others) :
    mergePropertyValue (mergePropertyValue current value .prependList) (svJoinSemi others)
        .prependList =
      mergePropertyValue current (svJoinSemi (others ++ [value])) .prependList := by
  have single : Solid [value] := fun empty => absurd empty filled
  have merged := (mergePropertyValue_lists single solid).2
  have whole : svJoinSemi (others ++ [value]) ≠ [] := by
    intro empty
    have none_ := solid.append single empty
    exact append_ne_nil_of_right_ne_nil others (cons_ne_nil value []) none_
  by_cases fresh : current = []
  · subst fresh
    have first : mergePropertyValue [] value .prependList = svJoinSemi [value] := by
      simp [mergePropertyValue, filled, svJoinSemi]
    rw [first, merged]
    simp [mergePropertyValue, whole]
  · have first : mergePropertyValue current value .prependList = value ++ ';' :: current := by
      simp [mergePropertyValue, filled, fresh]
    have last : mergePropertyValue current (svJoinSemi (others ++ [value])) .prependList =
        svJoinSemi (others ++ [value]) ++ ';' :: current := by
      simp [mergePropertyValue, whole, fresh]
    rw [first, last]
    by_cases alone : others = []
    · subst alone
      rfl
    · have joined : svJoinSemi others ≠ [] := fun empty => alone (solid empty)
      rw [svJoinSemi_append alone (cons_ne_nil value [])]
      simp [mergePropertyValue, joined, filled, svJoinSemi]

/-! ## Entries of one visibility before the list -/

/-- The entries of a call with `BEFORE` whose items have one visibility. -/
structure AllBefore (visibility : CmakeVisibility) (entries : List ItemEntry) : Prop where
  isBefore : ∀ entry ∈ entries, entry.isBefore = true
  visibility : ∀ entry ∈ entries, entry.visibility = visibility

theorem AllBefore.tail {visibility : CmakeVisibility} {entry : ItemEntry} {rest : List ItemEntry}
    (all : AllBefore visibility (entry :: rest)) : AllBefore visibility rest :=
  ⟨fun other member => all.isBefore other (mem_cons_of_mem entry member),
    fun other member => all.visibility other (mem_cons_of_mem entry member)⟩

section Entries

variable {family : UsageFamily} {visibility : CmakeVisibility} {property : UsageProperty}
  {entries : List ItemEntry}

/-- The store puts the items before its text from the last to the first. -/
theorem storeEntries_before (sameFamily : property.family = family)
    (written : entryWrites visibility property = true) (all : AllBefore visibility entries)
    (filled : ∀ entry ∈ entries, entry.item ≠ []) (store : PropertyStore) :
    (entries.foldl (storeEntry family) store).values property =
      mergePropertyValue (store.values property) (svJoinSemi (entries.map ItemEntry.item).reverse)
        .prependList := by
  induction entries generalizing store with
  | nil => rfl
  | cons entry rest ih =>
    have here := mem_cons_self (a := entry) (l := rest)
    have restFilled : ∀ other ∈ rest, other.item ≠ [] :=
      fun other member => filled other (mem_cons_of_mem entry member)
    have solid : Solid (rest.map ItemEntry.item).reverse := by
      refine solid_reverse_of_filled fun value member => ?_
      obtain ⟨other, listed, rfl⟩ := mem_map.mp member
      exact restFilled other listed
    have writes : entryWrites entry.visibility property = true := by
      rw [all.visibility entry here, written]
    rw [foldl_cons, ih all.tail restFilled, storeEntry_values, if_pos ⟨sameFamily, writes⟩,
      itemPropertyOp, if_pos (all.isBefore entry here), map_cons, reverse_cons]
    exact mergePropertyValue_cons (filled entry here) solid

/-- The model puts the items before its list from the last to the first. -/
theorem shownValues_before (sameFamily : property.family = family)
    (written : entryWrites visibility property = true) (all : AllBefore visibility entries)
    (wellFormed : ∀ entry ∈ entries, WellFormedEntry family entry) (target : TargetRecord) :
    shownValues (buildTarget target (entries.map (.item family))) property =
      (entries.map ItemEntry.item).reverse ++ shownValues target property := by
  induction entries generalizing target with
  | nil => rfl
  | cons entry rest ih =>
    have here := mem_cons_self (a := entry) (l := rest)
    have later := ih all.tail (fun other member =>
      wellFormed other (mem_cons_of_mem entry member))
      (handleTargetEvent target (.item family entry))
    have writes : entryWrites entry.visibility property = true := by
      rw [all.visibility entry here, written]
    have first : shownValues (handleTargetEvent target (.item family entry)) property =
        entry.item :: shownValues target property := by
      rw [shownValues_item (wellFormed entry here).plain, if_pos ⟨sameFamily, writes⟩,
        if_pos (all.isBefore entry here)]
    rw [first] at later
    rw [map_cons, map_cons, reverse_cons, append_assoc]
    exact later

end Entries

/-- A run of events after another one. -/
theorem buildTarget_append (target : TargetRecord) (stream more : List UsageEvent) :
    buildTarget target (stream ++ more) = buildTarget (buildTarget target stream) more :=
  foldl_append

/-! ## Calls -/

/-- The items of a call with `BEFORE` stand before the list in the order of the call, in the store
and in the model. -/
def PutsBefore (target : TargetRecord) (property : UsageProperty) (state after : UsageState)
    (items : List StringView) : Prop :=
  after.store.values property =
      mergePropertyValue (state.store.values property) (svJoinSemi items) .prependList ∧
    shownValues (buildTarget target after.stream) property =
      items ++ shownValues (buildTarget target state.stream) property

/-- A call with `BEFORE` and items of one visibility puts them before the list in their order
exactly when they read the same from the back. -/
theorem beforeCall_puts_iff {env : CallEnv} {family : UsageFamily} {args : List StringView}
    {entries : List ItemEntry} {visibility : CmakeVisibility} {property : UsageProperty}
    {state after : UsageState} (target : TargetRecord)
    (parsed : requestEntries env family args = some entries)
    (all : AllBefore visibility entries) (sameFamily : property.family = family)
    (written : entryWrites visibility property = true)
    (handled : handleCall env state (.targetItems family args) = some after) :
    PutsBefore target property state after (entries.map ItemEntry.item) ↔
      (entries.map ItemEntry.item).reverse = entries.map ItemEntry.item := by
  have wellFormed := requestEntries_wellFormed parsed
  obtain ⟨same, known, rfl⟩ := Option.map_eq_some_iff.mp handled
  obtain rfl := Option.some.inj (parsed.symm.trans known)
  have stored := storeEntries_before sameFamily written all
    (fun entry member => (wellFormed entry member).filled) state.store
  have shown := shownValues_before sameFamily written all wellFormed
    (buildTarget target state.stream)
  unfold PutsBefore
  rw [buildTarget_append, stored, shown]
  constructor
  · exact fun puts => append_cancel_right puts.2
  · intro back
    rw [back]
    exact ⟨rfl, rfl⟩

/-- An entry of `target_compile_options(app BEFORE PRIVATE ...)`. -/
def beforeEntry (item : StringView) : ItemEntry where
  visibility := .privateItem
  item
  isBefore := true
  semantic := { value := item }

/-- The options of the executable `app` after `target_compile_options(app PRIVATE x)`. -/
def optionX : UsageState :=
  runCall {} (plainEnv, .targetItems .compileOptions [sv "PRIVATE", sv "x"])

/-- A call with one item. -/
theorem beforeCall_puts_iff_single :
    PutsBefore (declaredTarget (sv "app") .executable false) ⟨.compileOptions, false⟩ optionX
        (runCall optionX (plainEnv, .targetItems .compileOptions
          [sv "BEFORE", sv "PRIVATE", sv "a"])) ([beforeEntry (sv "a")].map ItemEntry.item) ↔
      ([beforeEntry (sv "a")].map ItemEntry.item).reverse =
        [beforeEntry (sv "a")].map ItemEntry.item := by
  have parsed : requestEntries plainEnv .compileOptions [sv "BEFORE", sv "PRIVATE", sv "a"] =
      some [beforeEntry (sv "a")] := by decide
  have all : AllBefore .privateItem [beforeEntry (sv "a")] := ⟨by decide, by decide⟩
  exact beforeCall_puts_iff _ parsed all rfl rfl rfl

/-- Before the option `x`, the call with `a` and `b` puts `b` and then `a`. -/
theorem beforeCall_reverses :
    ¬ ∀ (env : CallEnv) (family : UsageFamily) (args : List StringView) (entries : List ItemEntry)
      (visibility : CmakeVisibility) (property : UsageProperty) (state after : UsageState)
      (target : TargetRecord), requestEntries env family args = some entries →
      AllBefore visibility entries → property.family = family →
      entryWrites visibility property = true →
      handleCall env state (.targetItems family args) = some after →
      PutsBefore target property state after (entries.map ItemEntry.item) := by
  intro puts
  have parsed : requestEntries plainEnv .compileOptions
      [sv "BEFORE", sv "PRIVATE", sv "a", sv "b"] =
      some [beforeEntry (sv "a"), beforeEntry (sv "b")] := by decide
  have stored := (puts plainEnv .compileOptions _ _ .privateItem ⟨.compileOptions, false⟩ optionX _
    (declaredTarget (sv "app") .executable false) parsed ⟨by decide, by decide⟩ rfl rfl rfl).1
  revert stored
  decide +kernel

end Nobify.BuildModel
