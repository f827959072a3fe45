import Nobify.Evaluator.Effect
import Nobify.Evaluator.Handlers
import Nobify.Evaluator.ProgRules
import Nobify.Lib.LevelArray

/-!
# Variables as a stack of finite maps

The scopes of the evaluator are an array with a counter of the scopes in view. Popped scopes stay
in the array and are used again by the next push, and the parent view lowers the counter for the
time of one write. `ScopeState.bindings` reads this as a stack of finite maps from names to values
with the cache behind it. Names are C strings: two views with the same bytes before the first NUL
are one name.

Each call on scopes, variables or the cache is one or several writes of that stack. A call that is
refused writes nothing, and a write to a watched variable is followed by the writes with which
the notification records it, in the same scope.
-/

namespace Nobify.Evaluator

open Nobify.Lib (Table replay)
open Nobify.Lib.ScopeStack (Write rebind)
open Prog
open List Option

variable {state : EvalState}

/-- Names with their values, and what is searched after them. -/
abbrev BindingStack := Nobify.Lib.ScopeStack StringView StringView

/-- A write of the stack. -/
abbrev BindingWrite := Write StringView StringView

/-- The bindings of the scopes in view, innermost first, and of the cache. -/
def ScopeState.bindings (scope : ScopeState) : BindingStack where
  scopes := (scope.scopes.take scope.visibleScopeDepth).reverse.map (Table.toFinmap id)
  fallback := scope.cacheEntries.toFinmap CacheValue.data

theorem bindings_eq (scope : ScopeState) : scope.bindings =
      ⟨(Nobify.Lib.levelsInView scope.scopes scope.visibleScopeDepth).map (Table.toFinmap id),
        scope.cacheEntries.toFinmap CacheValue.data⟩ := rfl

/-- `visible_scope_depth <= arena_arr_len(scopes)`, and the outermost scope is in view. -/
structure Scoped (scope : ScopeState) : Prop where
  inView : 0 < scope.visibleScopeDepth
  inRange : scope.visibleScopeDepth ≤ scope.scopes.length

/-- The stack has one map for each scope in view. -/
theorem Scoped.bindings_length {scope : ScopeState} (bounds : Scoped scope) :
    scope.bindings.scopes.length = scope.visibleScopeDepth := by
  rw [bindings_eq, length_map, Nobify.Lib.length_levelsInView bounds.inRange]

/-! ## Lookups -/

/-- The visible scopes are searched as the stack is. -/
theorem lookupVisible_bindings (scopes : List VarTable) (key : StringView) :
    EvalState.lookupVisible scopes key =
      (scopes.reverse.map (Table.toFinmap id)).findSome? fun scope =>
        scope.lookup (svToCstr key) := by
  unfold EvalState.lookupVisible
  rw [List.findSome?_map]
  apply congrArg (scopes.reverse.findSome? ·)
  funext table
  show _ = (table.toFinmap id).lookup (svToCstr key)
  rw [Table.lookup_toFinmap, map_id_apply]

variable (bounds : Scoped state.scope)

include bounds

/-- `eval_var_get_visible` reads the stack; an unbound name reads as empty. -/
theorem varGetVisible_bindings (key : StringView) :
    state.varGetVisible key = (state.scope.bindings.lookup (svToCstr key)).getD [] := by
  have inView := bounds.inView
  have visible : ¬ state.scope.visibleScopeDepth = 0 := by omega
  unfold EvalState.varGetVisible
  rw [if_neg visible, lookupVisible_bindings]
  unfold Lib.ScopeStack.lookup ScopeState.bindings
  rw [Table.lookup_toFinmap]
  cases ((state.scope.scopes.take state.scope.visibleScopeDepth).reverse.map
    (Table.toFinmap id)).findSome? fun scope => scope.lookup (svToCstr key) with
  | some value => rfl
  | none => rfl

/-- `eval_var_defined_visible` tells whether the stack binds a name. -/
theorem varDefinedVisible_bindings (key : StringView) :
    state.varDefinedVisible key = (state.scope.bindings.lookup (svToCstr key)).isSome := by
  have inView := bounds.inView
  have visible : (state.scope.visibleScopeDepth != 0) = true := by simp; omega
  have cached : state.scope.cacheEntries.contains (svToCstr key) =
      (state.scope.cacheEntries.get? (svToCstr key)).isSome := by
    unfold Table.contains Table.get?
    rw [isSome_map, isSome_find?]
  unfold EvalState.varDefinedVisible
  rw [visible, Bool.true_and, lookupVisible_bindings, cached]
  unfold Lib.ScopeStack.lookup ScopeState.bindings
  rw [Table.lookup_toFinmap, isSome_or, isSome_map]

omit bounds

/-! ## Edits of a scope -/

/-- A name with its new value, or without one. -/
structure Edit where
  key : StringView
  value : Option StringView

/-- The edit of a table. -/
def Edit.apply (edit : Edit) (table : VarTable) : VarTable :=
  match edit.value with
  | some value => table.put (svToCstr edit.key) value
  | none => table.erase (svToCstr edit.key)

/-- The edit as a write some levels outwards. -/
def Edit.write (level : Nat) (edit : Edit) : BindingWrite :=
  .bind level (svToCstr edit.key) edit.value

/-- Several edits of a table, the first one first. -/
def editTable (edits : List Edit) (table : VarTable) : VarTable :=
  edits.foldl (fun table edit => edit.apply table) table

/-- Edit the scope some levels outwards. -/
def EvalState.editScope (state : EvalState) (level : Nat) (edits : List Edit) : EvalState :=
  { state with scope := { state.scope with
      scopes := state.scope.scopes.modify (state.scope.visibleScopeDepth - 1 - level)
        (editTable edits) } }

/-- One edit of a table rebinds one name of its map. -/
theorem Edit.apply_toFinmap (edit : Edit) (table : VarTable) : (edit.apply table).toFinmap id =
      rebind (svToCstr edit.key) edit.value (table.toFinmap id) := by
  unfold Edit.apply rebind
  cases edit.value with
  | some value => exact Table.toFinmap_put id table (svToCstr edit.key) value
  | none => exact Table.toFinmap_erase id table (svToCstr edit.key)

/-- Several edits of a map, the first one first. -/
def rebindAll (edits : List Edit) (scope : Finmap fun _ : StringView => StringView) :
    Finmap fun _ : StringView => StringView :=
  edits.foldl (fun scope edit => rebind (svToCstr edit.key) edit.value scope) scope

/-- Several edits of a table rebind their names in order. -/
theorem editTable_toFinmap (edits : List Edit) (table : VarTable) :
    (editTable edits table).toFinmap id = rebindAll edits (table.toFinmap id) := by
  induction edits generalizing table with
  | nil => rfl
  | cons edit rest ih =>
    have step := ih (edit.apply table)
    rw [edit.apply_toFinmap table] at step
    exact step

/-- Rebinding names one by one at one place is one change of that place. -/
theorem replay_edits (edits : List Edit) (level : Nat) (stack : BindingStack) :
    replay Write.apply (edits.map (Edit.write level)) stack =
      { stack with scopes := stack.scopes.modify level (rebindAll edits) } := by
  induction edits generalizing stack with
  | nil =>
    have same : stack.scopes.modify level (rebindAll []) = stack.scopes :=
      modify_id level stack.scopes
    rw [same]
    rfl
  | cons edit rest ih =>
    rw [map_cons, Nobify.Lib.replay_cons, ih]
    have twice : (stack.scopes.modify level (rebind (svToCstr edit.key) edit.value)).modify level
        (rebindAll rest) = stack.scopes.modify level (rebindAll (edit :: rest)) := by
      rw [modify_modify_eq]
      rfl
    exact congrArg (fun scopes => { stack with scopes }) twice

include bounds

/-- The scope in view some levels outwards is the map at that place. -/
theorem bindings_editScope {level : Nat} (within : level < state.scope.visibleScopeDepth)
    (edits : List Edit) :
    (state.editScope level edits).scope.bindings =
      replay Write.apply (edits.map (Edit.write level)) state.scope.bindings := by
  have changed := Nobify.Lib.levelsInView_modify (editTable edits) within bounds.inRange
  have mapped := @Nobify.Lib.map_modify _ _ (Table.toFinmap id) (editTable edits)
    (rebindAll edits) (editTable_toFinmap edits)
  rw [replay_edits, bindings_eq, bindings_eq, ← mapped, ← changed]
  rfl

/-- An edit leaves the number of scopes alone. -/
theorem Scoped.editScope (level : Nat) (edits : List Edit) :
    Scoped (state.editScope level edits).scope := by
  refine ⟨bounds.inView, ?_⟩
  show _ ≤ (state.scope.scopes.modify _ _).length
  rw [length_modify]
  exact bounds.inRange

omit bounds

/-- No edit changes nothing. -/
theorem editScope_nil (state : EvalState) (level : Nat) : state.editScope level [] = state := by
  have same : editTable [] = (id : VarTable → VarTable) := rfl
  unfold EvalState.editScope
  rw [same, modify_id]

/-- Edits of one scope after another. -/
theorem editScope_append (state : EvalState) (level : Nat) (first second : List Edit) :
    (state.editScope level first).editScope level second =
      state.editScope level (first ++ second) := by
  have both : editTable second ∘ editTable first = editTable (first ++ second) := by
    funext table
    exact (foldl_append ..).symm
  have twice : (state.scope.scopes.modify (state.scope.visibleScopeDepth - 1 - level)
      (editTable first)).modify (state.scope.visibleScopeDepth - 1 - level) (editTable second) =
      state.scope.scopes.modify (state.scope.visibleScopeDepth - 1 - level)
        (editTable (first ++ second)) := by
    rw [modify_modify_eq, both]
  exact congrArg (fun scopes => { state with scope := { state.scope with scopes } }) twice

include bounds

/-- The write of `eval_var_set_current` is an edit of the innermost scope in view. -/
theorem setCurrent_eq (key value : StringView) :
    state.setCurrent key value = state.editScope 0 [⟨key, some value⟩] := by
  have inView := bounds.inView
  have visible : ¬ state.scope.visibleScopeDepth = 0 := by omega
  unfold EvalState.setCurrent
  rw [if_neg visible]
  rfl

/-- The removal of `eval_var_unset_current` is an edit of the innermost scope in view. -/
theorem unsetCurrent_eq (key : StringView) :
    state.unsetCurrent key = state.editScope 0 [⟨key, none⟩] := by
  have inView := bounds.inView
  have visible : ¬ state.scope.visibleScopeDepth = 0 := by omega
  unfold EvalState.unsetCurrent
  rw [if_neg visible]
  rfl

/-! ## Scopes opened and closed -/

/-- `eval_scope_push` opens an empty map, whether it grows the array or uses a stale scope. -/
theorem bindings_scopePush :
    state.scopePush.scope.bindings = Write.apply .push state.scope.bindings := by
  have opened := Nobify.Lib.levelsInView_openLevel Table.empty bounds.inRange
  rw [bindings_eq, bindings_eq, Write.apply]
  exact congrArg (fun scopes : List VarTable =>
    (⟨scopes.map (Table.toFinmap id), _⟩ : BindingStack)) opened

/-- `eval_scope_pop` closes the innermost map unless it is the last. -/
theorem bindings_scopePop :
    state.scopePop.scope.bindings = Write.apply .pop state.scope.bindings := by
  have length := bounds.bindings_length
  by_cases nested : 1 < state.scope.visibleScopeDepth
  · have closes : 1 < state.scope.bindings.scopes.length := length.symm ▸ nested
    have closed := Nobify.Lib.levelsInView_set Table.empty bounds.inView bounds.inRange
    unfold EvalState.scopePop
    rw [if_pos nested, Write.apply, if_pos closes, bindings_eq, bindings_eq, ← map_tail, ← closed]
  · have stays : ¬ 1 < state.scope.bindings.scopes.length := length.symm ▸ nested
    unfold EvalState.scopePop
    rw [if_neg nested, Write.apply, if_neg stays]

/-- A push keeps the counter within the array. -/
theorem Scoped.scopePush : Scoped state.scopePush.scope := by
  exact ⟨Nat.succ_pos _, Nobify.Lib.lt_length_openLevel Table.empty bounds.inRange⟩

/-- A pop keeps a scope in view. -/
theorem Scoped.scopePop : Scoped state.scopePop.scope := by
  have range := bounds.inRange
  unfold EvalState.scopePop
  by_cases nested : 1 < state.scope.visibleScopeDepth
  · rw [if_pos nested]
    refine ⟨?_, ?_⟩
    · show 0 < state.scope.visibleScopeDepth - 1
      omega
    · show state.scope.visibleScopeDepth - 1 ≤ (state.scope.scopes.set _ _).length
      rw [length_set]
      omega
  · rw [if_neg nested]
    exact bounds

end Nobify.Evaluator
