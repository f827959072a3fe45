import Nobify.Evaluator.Bindings

/-!
# Runs of scope and variable calls

A call on scopes, variables or the cache is a program of the context. Whatever the context, it
ends, and the stack of bindings it leaves is the one it found after the writes that the call makes
(`ScopeCall.writes`). So after any sequence of calls the lookups answer as the stack does, and
between a push and its pop a scope that was open before changes only by writes through the parent
view.
-/

namespace Nobify.Evaluator

open Nobify.Lib (Table replay Balanced)
open Nobify.Lib.ScopeStack (Write BalancedWrites SameExcept bindingAt escapes)
open Prog
open List

variable {ctx : EvalExecContext} {edits : List Edit} {level : Nat} {calls : List ScopeCall}

variable (dispatch : Nat → Nat → StringView → List Arg → EvalExecContext → Option (Run EvalResult))

/-! ## Writes of the innermost scope -/

/-- The context after edits of the innermost scope in view. -/
def EvalExecContext.edited (ctx : EvalExecContext) (edits : List Edit) : EvalExecContext :=
  { ctx with state := ctx.state.editScope 0 edits }

/-- The variables in which `eval_variable_watch_notify` records a change. -/
def recordEdits (key action value command : StringView) : List Edit :=
  [⟨sv "NOBIFY_VARIABLE_WATCH_LAST_VAR", some key⟩,
    ⟨sv "NOBIFY_VARIABLE_WATCH_LAST_ACTION", some action⟩,
    ⟨sv "NOBIFY_VARIABLE_WATCH_LAST_VALUE", some value⟩] ++
    if command.isEmpty then [] else [⟨sv "NOBIFY_VARIABLE_WATCH_LAST_COMMAND", some command⟩]

/-- The writes of `eval_variable_watch_notify`: none unless the variable is watched. -/
def watchEdits (ctx : EvalExecContext) (key action value : StringView) : List Edit :=
  if ctx.runtime.inVariableWatchNotification || key.isEmpty ||
      (sv "NOBIFY_VARIABLE_WATCH_").isPrefixOf key then []
  else match ctx.state.command.watchedVariables.idxOf? key with
    | none => []
    | some index => recordEdits key action value
        (ctx.state.command.watchedVariableCommands[index]?.getD [])

/-- The writes of `eval_var_set_current`. -/
def setEdits (ctx : EvalExecContext) (key value : StringView) : List Edit :=
  if ctx.shouldStop then [] else ⟨key, some value⟩ :: watchEdits ctx key (sv "SET") value

/-- The writes of `eval_var_unset_current`, whose notification records the value seen before. -/
def unsetEdits (ctx : EvalExecContext) (key : StringView) : List Edit :=
  if ctx.shouldStop then []
  else ⟨key, none⟩ :: watchEdits ctx key (sv "UNSET") (ctx.state.varGetVisible key)

/-- What a call leaves in the scopes. -/
abbrev LeavesEdited (ctx : EvalExecContext) (edits : List Edit) (_ : Bool)
    (after : EvalExecContext) : Prop := after.state = ctx.state.editScope 0 edits

theorem edited_append (ctx : EvalExecContext) (first second : List Edit) :
    (ctx.edited first).edited second = ctx.edited (first ++ second) :=
  congrArg (fun state => { ctx with state }) (editScope_append ctx.state 0 first second)

variable (bounds : Scoped ctx.state.scope)

include bounds

theorem Scoped.edited (edits : List Edit) :
    Scoped (ctx.edited edits).state.scope := bounds.editScope 0 edits

theorem setCurrentChange_apply (key value : StringView) :
    (Op.modify (setCurrentChange key value)).apply ctx = ctx.edited [⟨key, some value⟩] :=
  congrArg (fun state => { ctx with state }) (setCurrent_eq bounds key value)

theorem unsetCurrentChange_apply (key : StringView) :
    (Op.modify (unsetCurrentChange key)).apply ctx = ctx.edited [⟨key, none⟩] :=
  congrArg (fun state => { ctx with state }) (unsetCurrent_eq bounds key)

omit bounds

variable {dispatch}

/-- Writing a variable is one edit more. -/
theorem Prog.Ends.set {α : Type} {key value : StringView} {next : Unit → Prog α}
    {post : α → EvalExecContext → Prop} (bounds : Scoped ctx.state.scope)
    (rest : Ends dispatch (next ()) (ctx.edited (edits ++ [⟨key, some value⟩])) post) :
    Ends dispatch (modifyState (setCurrentChange key value) >>= next) (ctx.edited edits) post := by
  apply Ends.perform
  rw [setCurrentChange_apply (bounds.edited edits), edited_append]
  exact rest

/-- Asking for a stop changes nothing. -/
theorem shouldStop_ends (ctx : EvalExecContext) :
    Ends dispatch Prog.shouldStop ctx fun value after => value = ctx.shouldStop ∧ after = ctx :=
  Ends.context (Ends.pure ⟨rfl, rfl⟩)

/-- A diagnostic leaves the state alone. -/
theorem emitDiag_ends (request : DiagRequest) (ctx : EvalExecContext) :
    Ends dispatch (emitDiag request) ctx fun _ after => after.state = ctx.state := by
  unfold emitDiag
  apply Ends.context
  by_cases stopped : ctx.shouldStop = true
  · rw [if_pos stopped]
    exact Ends.pure rfl
  · rw [if_neg stopped]
    apply Ends.perform
    have kept : ((Op.emitDiag request).apply ctx).state = ctx.state := emitDiag_state ctx request
    apply (shouldStop_ends _).bind
    intro stops after same
    rw [same.2]
    by_cases fatal : stops = true
    · rw [if_pos fatal]
      exact Ends.pure kept
    · rw [if_neg fatal]
      exact Ends.pure kept

include bounds

/-- `eval_variable_watch_notify` ends, and its writes are edits of the scope in view. -/
theorem variableWatchNotify_ends (key action value : StringView) :
    Ends dispatch (variableWatchNotify key action value) ctx
      (LeavesEdited ctx (watchEdits ctx key action value)) := by
  unfold variableWatchNotify watchEdits
  apply Ends.context
  by_cases exempt : (ctx.runtime.inVariableWatchNotification || key.isEmpty ||
      (sv "NOBIFY_VARIABLE_WATCH_").isPrefixOf key) = true
  · rw [if_pos exempt, if_pos exempt]
    exact Ends.pure (editScope_nil ctx.state 0).symm
  · rw [if_neg exempt, if_neg exempt]
    cases watched : ctx.state.command.watchedVariables.idxOf? key with
    | none => exact Ends.pure (editScope_nil ctx.state 0).symm
    | some index =>
      dsimp only
      apply Ends.perform
      have inside : Scoped ((Op.setWatching true).apply ctx).state.scope := bounds
      have closing : ∀ edits request, Ends dispatch (emitDiag request >>= fun result =>
          perform (.setWatching false) >>= fun _ => pure (result != .fatal))
          (((Op.setWatching true).apply ctx).edited edits) (LeavesEdited ctx edits) := by
        intro edits request
        apply (emitDiag_ends request _).bind
        intro result after kept
        exact Ends.perform (Ends.pure kept)
      apply Ends.perform
      rw [setCurrentChange_apply inside]
      apply Ends.set inside
      apply Ends.set inside
      by_cases silent : (ctx.state.command.watchedVariableCommands[index]?.getD []).isEmpty = true
      · simp only [recordEdits, silent, Bool.not_true, Bool.false_eq_true, if_false, if_true]
        exact closing _ _
      · simp only [recordEdits, silent, Bool.not_false, if_true]
        apply Ends.set inside
        exact closing _ _

/-- A change of one variable and the notification about it are edits of the scope in view. -/
theorem notified_ends {change : StateChange} {key action seen : StringView}
    {written : Option StringView}
    (applied : (Op.modify change).apply ctx = ctx.edited [⟨key, written⟩]) :
    Ends dispatch (do
        if ctx.state.scope.visibleScopeDepth == 0 || ctx.shouldStop then return false
        modifyState change
        variableWatchNotify key action seen) ctx
      (LeavesEdited ctx
        (if ctx.shouldStop then [] else ⟨key, written⟩ :: watchEdits ctx key action seen)) := by
  have inView := bounds.inView
  have visible : (ctx.state.scope.visibleScopeDepth == 0) = false := by simp; omega
  rw [visible, Bool.false_or]
  by_cases stopped : ctx.shouldStop = true
  · rw [if_pos stopped, if_pos stopped]
    exact Ends.pure (editScope_nil ctx.state 0).symm
  · rw [if_neg stopped, if_neg stopped]
    apply Ends.perform
    rw [applied]
    apply (variableWatchNotify_ends (bounds.edited _) key action seen).mono
    intro result after leaves
    rw [LeavesEdited, leaves]
    exact editScope_append ctx.state 0 [⟨key, written⟩] (watchEdits ctx key action seen)

/-- `eval_var_set_current` ends, and its writes are edits of the scope in view. -/
theorem varSetCurrent_ends (key value : StringView) :
    Ends dispatch (varSetCurrent key value) ctx (LeavesEdited ctx (setEdits ctx key value)) :=
  Ends.context (notified_ends bounds (setCurrentChange_apply bounds key value))

/-- `eval_var_unset_current` ends, and its writes are edits of the scope in view. -/
theorem varUnsetCurrent_ends (key : StringView) :
    Ends dispatch (varUnsetCurrent key) ctx (LeavesEdited ctx (unsetEdits ctx key)) :=
  Ends.context (notified_ends bounds (unsetCurrentChange_apply bounds key))

/-! ## The parent view -/

/-- The context that a program in the parent view finds. -/
def EvalExecContext.parentView (ctx : EvalExecContext) : EvalExecContext :=
  { ctx with state := ctx.state.withVisibleDepth (ctx.state.scope.visibleScopeDepth - 1) }

/-- Without a parent scope nothing is written; otherwise the writes of the program go one level
outwards. -/
theorem inParentView_ends {program : Prog Bool}
    (ends : Scoped ctx.parentView.state.scope → Ends dispatch program ctx.parentView (LeavesEdited ctx.parentView edits)) :
    Ends dispatch (inParentView program) ctx fun _ after =>
      after.state = ctx.state.editScope 1
        (if ctx.state.scope.visibleScopeDepth ≤ 1 then [] else edits) := by
  have range := bounds.inRange
  unfold inParentView
  apply Ends.context
  dsimp only
  by_cases outermost : ctx.state.scope.visibleScopeDepth ≤ 1
  · rw [if_pos outermost, if_pos outermost]
    exact Ends.pure (editScope_nil ctx.state 1).symm
  · rw [if_neg outermost, if_neg outermost]
    have inside : Scoped ctx.parentView.state.scope := by
      refine ⟨?_, ?_⟩
      · show 0 < ctx.state.scope.visibleScopeDepth - 1
        omega
      · show ctx.state.scope.visibleScopeDepth - 1 ≤ ctx.state.scope.scopes.length
        omega
    apply Ends.perform
    apply (ends inside).bind
    intro result after leaves
    apply Ends.perform
    apply Ends.pure
    show after.state.withVisibleDepth ctx.state.scope.visibleScopeDepth = _
    rw [leaves]
    rfl

omit bounds

/-! ## Calls -/

/-- The write of `eval_cache_set`. -/
def cacheSetChange (key : StringView) (value : CacheValue) : StateChange where
  apply state := { state with scope := { state.scope with
    cacheEntries := state.scope.cacheEntries.put (svToCstr key) value } }
  keepsScopes := scopes_kept
  keepsTargets _ := rfl

/-- `eval_cache_set`. -/
def evalCacheSet (key value type doc : StringView) : Prog Bool := do
  let ctx ← context
  if key.isEmpty || ctx.shouldStop then return false
  modifyState (cacheSetChange key ⟨value, type, doc⟩)
  return true

/-- A call on scopes, variables or the cache. -/
inductive ScopeCall where
  /-- `eval_scope_push`. -/
  | push
  /-- `eval_scope_pop`. -/
  | pop
  /-- `eval_var_set_current`. -/
  | set (key value : StringView)
  /-- `eval_var_unset_current`. -/
  | unset (key : StringView)
  /-- `eval_var_set_current` in the parent view. -/
  | setParent (key value : StringView)
  /-- `eval_var_unset_current` in the parent view. -/
  | unsetParent (key : StringView)
  /-- `eval_cache_set`. -/
  | cacheSet (key value type doc : StringView)

/-- These programs execute no command. -/
def refuseCommands (_ _ : Nat) (_ : StringView) (_ : List Arg) (_ : EvalExecContext) :
    Option (Run EvalResult) := none

namespace ScopeCall

/-- The program of a call. -/
def program : ScopeCall → Prog Bool
  | .push => do
    modifyState scopePushChange
    return true
  | .pop => do
    modifyState scopePopChange
    return true
  | .set key value => varSetCurrent key value
  | .unset key => varUnsetCurrent key
  | .setParent key value => inParentView (varSetCurrent key value)
  | .unsetParent key => inParentView (varUnsetCurrent key)
  | .cacheSet key value type doc => evalCacheSet key value type doc

/-- The context after a call. -/
def run (call : ScopeCall) (ctx : EvalExecContext) : EvalExecContext :=
  ((call.program.exec refuseCommands ctx).map Run.ctx).getD ctx

/-- The writes of edits through the parent view. -/
def parentEdits (ctx : EvalExecContext) (edits : List Edit) : List BindingWrite :=
  (if ctx.state.scope.visibleScopeDepth ≤ 1 then [] else edits).map (Edit.write 1)

/-- What a call writes. -/
def writes (ctx : EvalExecContext) : ScopeCall → List BindingWrite
  | .push => [.push]
  | .pop => [.pop]
  | .set key value => (setEdits ctx key value).map (Edit.write 0)
  | .unset key => (unsetEdits ctx key).map (Edit.write 0)
  | .setParent key value => parentEdits ctx (setEdits ctx.parentView key value)
  | .unsetParent key => parentEdits ctx (unsetEdits ctx.parentView key)
  | .cacheSet key value _ _ =>
    if key.isEmpty || ctx.shouldStop then [] else [.bindFallback (svToCstr key) value]

/-- The call writes through the parent view. -/
def throughParent : ScopeCall → Bool
  | .setParent .. | .unsetParent .. => true
  | _ => false

end ScopeCall

/-- What a sequence of calls writes. -/
def writesOf : List ScopeCall → EvalExecContext → List BindingWrite
  | [], _ => []
  | first :: rest, ctx => first.writes ctx ++ writesOf rest (first.run ctx)

/-- The scopes are in order, and the stack is this one. -/
structure Holds (stack : BindingStack) (ctx : EvalExecContext) : Prop where
  bounds : Scoped ctx.state.scope
  bindings : ctx.state.scope.bindings = stack

include bounds

/-- Edits of the scope in view are writes at its place. -/
theorem Holds.editScope {after : EvalExecContext}
    (left : after.state = ctx.state.editScope level edits)
    (within : level < ctx.state.scope.visibleScopeDepth ∨ edits = []) :
    Holds (replay Write.apply (edits.map (Edit.write level)) ctx.state.scope.bindings) after := by
  rcases within with within | nothing
  · refine ⟨left ▸ bounds.editScope level edits, ?_⟩
    rw [left]
    exact bindings_editScope bounds within edits
  · subst nothing
    rw [editScope_nil] at left
    exact ⟨left ▸ bounds, congrArg (fun state => state.scope.bindings) left⟩

/-- Edits in the parent view are writes at the place of the parent scope. -/
theorem Holds.parentEdits {after : EvalExecContext}
    (left : after.state = ctx.state.editScope 1 (if ctx.state.scope.visibleScopeDepth ≤ 1 then [] else edits)) :
    Holds (replay Write.apply (ScopeCall.parentEdits ctx edits) ctx.state.scope.bindings)
      after := by
  apply Holds.editScope bounds left
  by_cases outermost : ctx.state.scope.visibleScopeDepth ≤ 1
  · rw [if_pos outermost]
    exact .inr rfl
  · exact .inl (Nat.lt_of_not_le outermost)

omit bounds

/-- A call ends, and the stack it leaves is the one it found after the call's writes. -/
theorem ScopeCall.program_ends (call : ScopeCall) (bounds : Scoped ctx.state.scope) :
    Ends dispatch call.program ctx fun _ after =>
      Holds (replay Write.apply (call.writes ctx) ctx.state.scope.bindings) after := by
  have inView := bounds.inView
  cases call with
  | push => exact Ends.perform (Ends.pure ⟨bounds.scopePush, bindings_scopePush bounds⟩)
  | pop => exact Ends.perform (Ends.pure ⟨bounds.scopePop, bindings_scopePop bounds⟩)
  | set key value =>
    apply (varSetCurrent_ends bounds key value).mono
    intro result after left
    exact Holds.editScope bounds left (.inl inView)
  | unset key =>
    apply (varUnsetCurrent_ends bounds key).mono
    intro result after left
    exact Holds.editScope bounds left (.inl inView)
  | setParent key value =>
    apply (inParentView_ends bounds fun inside => varSetCurrent_ends inside key value).mono
    intro result after left
    exact Holds.parentEdits bounds left
  | unsetParent key =>
    apply (inParentView_ends bounds fun inside => varUnsetCurrent_ends inside key).mono
    intro result after left
    exact Holds.parentEdits bounds left
  | cacheSet key value type doc =>
    unfold ScopeCall.program evalCacheSet ScopeCall.writes
    apply Ends.context
    by_cases refused : (key.isEmpty || ctx.shouldStop) = true
    · simp only [refused, if_true]
      exact Ends.pure ⟨bounds, rfl⟩
    · simp only [refused]
      apply Ends.perform
      apply Ends.pure
      have kept : Scoped (cacheSetChange key ⟨value, type, doc⟩ |>.apply ctx.state).scope :=
        ⟨bounds.inView, bounds.inRange⟩
      refine ⟨kept, ?_⟩
      exact congrArg (Nobify.Lib.ScopeStack.mk ctx.state.scope.bindings.scopes)
        (Table.toFinmap_put CacheValue.data ctx.state.scope.cacheEntries (svToCstr key)
          ⟨value, type, doc⟩)

/-- The context in which the program of a call ends. -/
theorem ScopeCall.program_run (call : ScopeCall) (bounds : Scoped ctx.state.scope) :
    Ends refuseCommands call.program ctx fun _ after => after = call.run ctx ∧
      Holds (replay Write.apply (call.writes ctx) ctx.state.scope.bindings) (call.run ctx) := by
  obtain ⟨run, went, left⟩ := @ScopeCall.program_ends ctx refuseCommands call bounds
  have here : call.run ctx = run.ctx := by
    unfold ScopeCall.run
    rw [went]
    rfl
  exact ⟨run, went, here.symm, here ▸ left⟩

/-- What a call leaves. -/
theorem ScopeCall.run_holds (call : ScopeCall) (bounds : Scoped ctx.state.scope) :
    Holds (replay Write.apply (call.writes ctx) ctx.state.scope.bindings) (call.run ctx) := by
  obtain ⟨_, _, _, left⟩ := call.program_run bounds
  exact left

/-- What a sequence of calls leaves. -/
theorem run_holds (calls : List ScopeCall) (bounds : Scoped ctx.state.scope) :
    Holds (replay Write.apply (writesOf calls ctx) ctx.state.scope.bindings)
      (replay ScopeCall.run calls ctx) := by
  induction calls generalizing ctx with
  | nil => exact ⟨bounds, rfl⟩
  | cons call rest ih =>
    have first := call.run_holds bounds
    have later := ih first.bounds
    rw [first.bindings] at later
    rw [writesOf, Nobify.Lib.replay_append]
    exact later

/-! ## Balanced runs -/

/-- Sequences of calls in which every push is followed by its pop. -/
abbrev BalancedCalls (calls : List ScopeCall) : Prop :=
  Balanced (fun call => call = ScopeCall.push) (fun call => call = ScopeCall.pop) calls

/-- A call of the run, in the scope in which the run starts, writes the name through the parent
view. -/
def WrittenThroughParent (calls : List ScopeCall) (ctx : EvalExecContext) (name : StringView) :
    Prop :=
  ∃ before call after value, calls = before ++ call :: after ∧ BalancedCalls before ∧
    ScopeCall.throughParent call = true ∧
    Write.bind 1 name value ∈ call.writes (replay ScopeCall.run before ctx)

/-- Edits are plain writes of one level. -/
theorem mem_edits {write : BindingWrite} (member : write ∈ edits.map (Edit.write level)) :
    ∃ key value, write = .bind level key value := by
  obtain ⟨edit, _, same⟩ := mem_map.mp member
  exact ⟨svToCstr edit.key, edit.value, same.symm⟩

/-- The calls of the parent view bind one level outwards, the others in the scope in view, and only
`push` and `pop` open and close scopes. -/
theorem ScopeCall.mem_writes {call : ScopeCall} {write : BindingWrite}
    (member : write ∈ call.writes ctx) :
    (call = .push ∧ write = .push) ∨ (call = .pop ∧ write = .pop) ∨
      (∃ key value, write = .bindFallback key value) ∨
      ∃ key value, write = .bind (if call.throughParent then 1 else 0) key value := by
  cases call with
  | push => exact .inl ⟨rfl, mem_singleton.mp member⟩
  | pop => exact .inr (.inl ⟨rfl, mem_singleton.mp member⟩)
  | set key value => exact .inr (.inr (.inr (mem_edits member)))
  | unset key => exact .inr (.inr (.inr (mem_edits member)))
  | setParent key value => exact .inr (.inr (.inr (mem_edits member)))
  | unsetParent key => exact .inr (.inr (.inr (mem_edits member)))
  | cacheSet key value type doc =>
    have member : write ∈ (if key.isEmpty || ctx.shouldStop then []
      else [Write.bindFallback (svToCstr key) value] : List BindingWrite) := member
    by_cases refused : (key.isEmpty || ctx.shouldStop) = true
    · rw [if_pos refused] at member
      exact nomatch member
    · rw [if_neg refused] at member
      exact .inr (.inr (.inl ⟨_, _, mem_singleton.mp member⟩))

/-- A call that is neither `push` nor `pop` opens and closes no scope. -/
theorem ScopeCall.writes_plain {call : ScopeCall} (notPush : ¬ call = .push)
    (notPop : ¬ call = .pop) (ctx : EvalExecContext) : ∀ write ∈ call.writes ctx, write.Plain := by
  intro write member
  rcases mem_writes member with opens | closes | ⟨key, value, rfl⟩ | ⟨key, value, rfl⟩
  · exact absurd opens.1 notPush
  · exact absurd closes.1 notPop
  · exact ⟨nofun, nofun⟩
  · exact ⟨nofun, nofun⟩

theorem writesOf_append (first second : List ScopeCall) (ctx : EvalExecContext) :
    writesOf (first ++ second) ctx =
      writesOf first ctx ++ writesOf second (replay ScopeCall.run first ctx) := by
  induction first generalizing ctx with
  | nil => rfl
  | cons call rest ih =>
    rw [cons_append, writesOf, writesOf, ih, append_assoc]
    rfl

/-- A balanced sequence of calls makes a balanced sequence of writes. -/
theorem balanced_writesOf (balanced : BalancedCalls calls) (ctx : EvalExecContext) :
    BalancedWrites (writesOf calls ctx) := by
  induction balanced generalizing ctx with
  | nil => exact .nil
  | @plain call rest notPush notPop _ ih =>
    exact Lib.ScopeStack.balanced_of_plain (call.writes_plain notPush notPop ctx) (ih _)
  | @nested opening closing body rest isPush isPop _ _ bodyIh tailIh =>
    subst isPush isPop
    rw [writesOf_append]
    exact .nested rfl rfl (bodyIh _) (tailIh _)

/-- No call binds further out than the parent scope. -/
theorem level_of_mem_writesOf {key : StringView} {value : Option StringView}
    (member : Write.bind level key value ∈ writesOf calls ctx) : level < 2 := by
  induction calls generalizing ctx with
  | nil => exact nomatch member
  | cons call rest ih =>
    rcases mem_append.mp member with here | later
    · rcases ScopeCall.mem_writes here with opens | closes | ⟨_, _, same⟩ | ⟨_, _, same⟩
      · exact absurd opens.2 nofun
      · exact absurd closes.2 nofun
      · exact absurd same nofun
      · have level_eq : level = if call.throughParent then 1 else 0 := by
          injection same
        rw [level_eq]
        cases call.throughParent <;> decide
    · exact ih later

/-- What escapes from a balanced sequence is written through the parent view, into the parent
scope. -/
theorem writtenThroughParent_of_escapes (balanced : BalancedCalls calls) {place : Nat}
    {name : StringView} (member : (place, name) ∈ escapes 1 (writesOf calls ctx)) :
    place = 0 ∧ WrittenThroughParent calls ctx name := by
  induction balanced generalizing ctx with
  | nil => exact nomatch member
  | @plain call rest notPush notPop _ ih =>
    have plain := call.writes_plain notPush notPop ctx
    have alone : BalancedWrites (call.writes ctx) := by
      have whole := Lib.ScopeStack.balanced_of_plain plain .nil
      rwa [append_nil] at whole
    rw [writesOf, Lib.ScopeStack.escapes_append alone] at member
    rcases mem_append.mp member with here | later
    · obtain ⟨value, bound⟩ := Lib.ScopeStack.bind_of_mem_escapes plain here
      have near : 1 + place < 2 := by
        have listed : Write.bind (1 + place) name value ∈ writesOf [call] ctx :=
          mem_append_left _ bound
        exact level_of_mem_writesOf listed
      have first : place = 0 := by omega
      subst first
      rcases ScopeCall.mem_writes bound with opens | closes | ⟨_, _, same⟩ | ⟨_, _, same⟩
      · exact absurd opens.1 notPush
      · exact absurd closes.1 notPop
      · exact absurd same nofun
      · have through : call.throughParent = true := by
          cases kind : call.throughParent with
          | true => rfl
          | false =>
            rw [kind] at same
            exact absurd same nofun
        exact ⟨rfl, [], call, rest, value, rfl, .nil, through, bound⟩
    · obtain ⟨first, before, parent, after, value, split, prior, through, bound⟩ := ih later
      exact ⟨first, call :: before, parent, after, value, congrArg (call :: ·) split,
        .plain notPush notPop prior, through, bound⟩
  | @nested opening closing body rest isPush isPop body_balanced _ bodyIh tailIh =>
    subst isPush isPop
    have inner := balanced_writesOf body_balanced (ScopeCall.push.run ctx)
    have inside : escapes 2 (writesOf body (ScopeCall.push.run ctx)) = [] :=
      Lib.ScopeStack.escapes_eq_nil inner fun level key value member =>
        level_of_mem_writesOf member
    have parts : escapes 1 (writesOf (.push :: body ++ .pop :: rest) ctx) =
        escapes 1 (writesOf rest (replay ScopeCall.run (.push :: body ++ [.pop]) ctx)) := by
      rw [writesOf_append, Nobify.Lib.replay_append]
      show escapes 2 (writesOf body (ScopeCall.push.run ctx) ++ _) = _
      rw [Lib.ScopeStack.escapes_append inner, inside]
      rfl
    rw [parts] at member
    obtain ⟨first, before, call, after, value, split, prior, through, bound⟩ := tailIh member
    refine ⟨first, .push :: body ++ .pop :: before, call, after, value, ?_,
      .nested rfl rfl body_balanced prior, through, ?_⟩
    · rw [split]
      simp
    · have started : replay ScopeCall.run (.push :: body ++ .pop :: before) ctx =
          replay ScopeCall.run before (replay ScopeCall.run (.push :: body ++ [.pop]) ctx) := by
        rw [Nobify.Lib.replay_append, Nobify.Lib.replay_append]
        rfl
      rw [started]
      exact bound

/-- Opening a scope, a balanced sequence and closing the scope leave the other scopes as they were,
but for what the sequence writes through the parent view. -/
theorem bracket_bindings {body : List ScopeCall} (balanced : BalancedCalls body)
    (bounds : Scoped ctx.state.scope) :
    SameExcept (escapes 1 (writesOf body (ScopeCall.push.run ctx))) ctx.state.scope.bindings.scopes
      (replay ScopeCall.run (.push :: body ++ [.pop]) ctx).state.scope.bindings.scopes := by
  have length := bounds.bindings_length
  have inView := bounds.inView
  have left := run_holds (.push :: body ++ [.pop]) bounds
  have written : writesOf (.push :: body ++ [.pop]) ctx =
      .push :: writesOf body (ScopeCall.push.run ctx) ++ [.pop] := writesOf_append ..
  rw [left.bindings, written]
  exact Lib.ScopeStack.bracket_outer (balanced_writesOf balanced _) _ (by omega)

/-- A variable bound outside, shadowed, and written through the parent view. -/
def shadowingCalls : List ScopeCall :=
  [.cacheSet (sv "C") (sv "0") [] [], .set (sv "X") (sv "1"), .push, .set (sv "X") (sv "2"),
    .setParent (sv "X") (sv "3"), .unset (sv "X")]

end Nobify.Evaluator
