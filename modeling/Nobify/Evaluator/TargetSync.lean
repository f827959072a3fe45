import Nobify.Evaluator.EventOrder

/-!
# Target records and their declaration events

Each target on record should have its declaration in the stream, and the other way round. A
declaration is buffered in the transaction of the declaring command and reaches the stream when
that transaction commits; the record is copied by every enclosing transaction and restored when
one of them fails. A failing command therefore takes back the record of a target that a command
executed inside it has declared, while the event stays.

The relation between the two sides is an invariant of every run in which no rollback, and no
truncation of the records, takes back a record whose event is already out of its reach.
-/

namespace Nobify.Evaluator

open Nobify.Lib (Along)
open List

variable {after before ctx : EvalExecContext}

/-- The target names declared among marked events. -/
def declaredNames (marks : List Mark) : List StringView :=
  marks.filterMap fun mark =>
    match mark.body with
    | .targetDeclare declaration => some declaration.name
    | _ => none

/-- The names declared in the stream. -/
def EvalExecContext.streamNames (ctx : EvalExecContext) : List StringView :=
  declaredNames (ctx.stream.map Event.mark)

/-- The names declared in the buffers of transactions. -/
def bufferedNames (transactions : List Transaction) : List StringView :=
  transactions.flatMap fun tx => declaredNames tx.marks

/-- The target names a transaction restores. -/
def Transaction.restoredNames (tx : Transaction) : List StringView :=
  tx.targetRecords.map TargetRecord.name

/-- Each transaction restores the names declared in the stream or in an enclosing buffer only,
and all of the latter. -/
def CopiesInStep (stream : List StringView) : List Transaction → Prop
  | [] => True
  | tx :: parents =>
    (∀ name ∈ tx.restoredNames, name ∈ stream ∨ name ∈ bufferedNames parents) ∧
      (∀ name ∈ bufferedNames parents, name ∈ tx.restoredNames) ∧ CopiesInStep stream parents

/-- Records, stream, buffers and copies agree on the targets. -/
structure InStep (ctx : EvalExecContext) : Prop where
  records : ∀ name, name ∈ ctx.state.targetNames ↔
    name ∈ ctx.streamNames ∨ name ∈ bufferedNames ctx.transactions
  copies : CopiesInStep ctx.streamNames ctx.transactions

/-- The declared names whose records a step may take back. -/
def Action.endangeredNames : Action → EvalExecContext → List StringView
  | .txFinish false, ctx => ctx.streamNames
  | .op (.truncateTargets _), ctx => ctx.streamNames ++ bufferedNames ctx.transactions
  | _, _ => []

/-- The names whose records such a step lets stand: those copied at the begin of the failing
transaction, or those before the cut. -/
def Action.standingNames : Action → EvalExecContext → List StringView
  | .txFinish false, ctx =>
    (ctx.transactions.head?.map Transaction.restoredNames).getD ctx.state.targetNames
  | .op (.truncateTargets count), ctx =>
    (ctx.state.semantic.targets.take count).map TargetRecord.name
  | _, ctx => ctx.state.targetNames

/-- The step takes back no record whose declaration stays. -/
def KeepsDeclared (action : Action) (ctx : EvalExecContext) : Prop :=
  ∀ name ∈ action.endangeredNames ctx, name ∈ action.standingNames ctx

instance (action : Action) (ctx : EvalExecContext) : Decidable (KeepsDeclared action ctx) :=
  inferInstanceAs (Decidable (∀ name ∈ _, name ∈ _))

/-! ## One step -/

/-- Names declared by events one after the other. -/
theorem declaredNames_append (first second : List Mark) :
    declaredNames (first ++ second) = declaredNames first ++ declaredNames second :=
  filterMap_append

/-- A stream that grew by marks declares their names too. -/
theorem Appends.streamNames_eq {marks : List Mark} (grown : Appends before after marks) :
    after.streamNames = before.streamNames ++ declaredNames marks := by
  rw [EvalExecContext.streamNames, grown.marks_eq, declaredNames_append]
  rfl

/-- Copies stay in step when the stream grows. -/
theorem CopiesInStep.mono {stream longer : List StringView} {transactions : List Transaction}
    (inStep : CopiesInStep stream transactions) (grown : ∀ name ∈ stream, name ∈ longer) :
    CopiesInStep longer transactions := by
  induction transactions with
  | nil => trivial
  | cons tx parents ih =>
    obtain ⟨restored, buffered, rest⟩ := inStep
    refine ⟨fun name found => ?_, buffered, ih rest⟩
    rcases restored name found with early | late
    · exact .inl (grown name early)
    · exact .inr late

/-- The copies of the active transaction matter, not its buffer. -/
theorem CopiesInStep.changeActive {stream : List StringView} {active changed : Transaction}
    {parents : List Transaction} (inStep : CopiesInStep stream (active :: parents))
    (copies : changed.copies = active.copies) : CopiesInStep stream (changed :: parents) := by
  have same : changed.restoredNames = active.restoredNames :=
    congrArg (fun tx => tx.targetRecords.map TargetRecord.name) copies
  obtain ⟨restored, buffered, rest⟩ := inStep
  exact ⟨same ▸ restored, same ▸ buffered, rest⟩

/-- A quiet step that keeps the records keeps everything in step. -/
theorem Quiet.inStep (quiet : Quiet before after)
    (records : after.state.targetNames = before.state.targetNames) (inStep : InStep before) :
    InStep after := by
  have stream : after.streamNames = before.streamNames := by
    simp only [EvalExecContext.streamNames, quiet.stream]
  have parents := quiet.parents
  have copies := quiet.copies
  have marks := quiet.marks
  cases shape : before.transactions with
  | nil =>
    have idle : after.transactions = [] := by
      cases afterShape : after.transactions with
      | nil => rfl
      | cons changed rest => simp [shape, afterShape] at copies
    have same : after.transactions = before.transactions := idle.trans shape.symm
    exact ⟨by rw [records, stream, same]; exact inStep.records,
      by rw [stream, same]; exact inStep.copies⟩
  | cons active rest =>
    cases afterShape : after.transactions with
    | nil => simp [shape, afterShape] at copies
    | cons changed others =>
      simp only [shape, afterShape, List.head?_cons, Option.map_some, Option.some.injEq,
        tail_cons] at parents copies marks
      subst parents
      have start := inStep.copies
      have agree := inStep.records
      rw [shape] at start agree
      refine ⟨?_, ?_⟩
      · rw [records, stream, afterShape]
        simpa [bufferedNames, marks] using agree
      · rw [stream, afterShape]
        exact start.changeActive copies

/-- A push puts its declared names into the stream or into a buffer, and the records in step
with them. -/
theorem Pushed.inStep {body : EventBody} (pushed : Pushed body before after)
    (records : ∀ name, name ∈ after.state.targetNames ↔
      name ∈ before.state.targetNames ∨ name ∈ declaredNames [⟨body, 0, 0⟩])
    (inStep : InStep before) : InStep after := by
  cases pushed with
  | direct reason grown count stack =>
    have stream : after.streamNames = before.streamNames ++ declaredNames [⟨body, 0, 0⟩] :=
      grown.streamNames_eq
    refine ⟨fun name => ?_, ?_⟩
    · rw [records, inStep.records, stream, stack, mem_append]
      tauto
    · rw [stream, stack]
      exact inStep.copies.mono fun name found => mem_append_left _ found
  | buffered active changed parents stack reason stream count changedStack copies marks =>
    have same : after.streamNames = before.streamNames := by
      simp only [EvalExecContext.streamNames, stream]
    have start := inStep.copies
    rw [stack] at start
    refine ⟨fun name => ?_, ?_⟩
    · have buffer : declaredNames changed.marks =
          declaredNames active.marks ++ declaredNames [⟨body, 0, 0⟩] := by
        rw [marks, declaredNames_append]
        rfl
      rw [records, inStep.records, same, stack, changedStack]
      simp only [bufferedNames, flatMap_cons, buffer, mem_append]
      tauto
    · rw [same, changedStack]
      exact start.changeActive copies

/-- Registering a target puts its name on record. -/
theorem registerTarget_names (ctx : EvalExecContext) (name declaredDir other : StringView) :
    other ∈ (ctx.registerTarget name declaredDir).state.targetNames ↔
      other ∈ ctx.state.targetNames ∨ other = name := by
  unfold EvalExecContext.registerTarget
  split
  · rename_i known
    constructor
    · exact .inl
    · rintro (old | rfl)
      · exact old
      · exact known
  · simp [EvalState.targetNames]

/-- Operations other than a declaration and a truncation keep the names on record. -/
theorem Op.apply_targetNames {operation : Op} (notDeclare : ∀ declaration declaredDir origin,
      operation ≠ .declareTarget declaration declaredDir origin)
    (notTruncate : ∀ count, operation ≠ .truncateTargets count) :
    (operation.apply ctx).state.targetNames = ctx.state.targetNames := by
  cases operation with
  | modify change => exact change.keepsTargets ctx.state
  | pushEvent kind fields origin allowStopped => simp [Op.apply]
  | emitDiag request => simp [Op.apply]
  | preserveScopeVars => simp [Op.apply, EvalExecContext.preserveScopeVars]
  | declareTarget declaration declaredDir origin => exact absurd rfl (notDeclare _ _ _)
  | truncateTargets count => exact absurd rfl (notTruncate count)
  | retractError => simp [Op.apply]
  | setCompat | setWatching | requestStop | resetStop => rfl

/-- Only a declaration pushes a declaring event. -/
theorem Op.pushes_declaredNames {operation : Op} {body : EventBody}
    (notDeclare : ∀ declaration declaredDir origin,
      operation ≠ .declareTarget declaration declaredDir origin)
    (pushed : operation.pushes ctx = some body) : declaredNames [⟨body, 0, 0⟩] = [] := by
  cases operation with
  | pushEvent kind fields origin allowStopped =>
    simp only [Op.pushes] at pushed
    split at pushed
    · cases pushed
    · cases pushed
      rfl
  | emitDiag request =>
    simp only [Op.pushes] at pushed
    split at pushed
    · cases pushed
    · cases pushed
      rfl
  | declareTarget declaration declaredDir origin => exact absurd rfl (notDeclare _ _ _)
  | _ => cases pushed

/-- A declaration keeps records and events in step. -/
theorem declareTarget_inStep (declaration : TargetDeclaration) (declaredDir : StringView)
    (origin : Origin) (inStep : InStep ctx) :
    InStep ((Op.declareTarget declaration declaredDir origin).apply ctx) := by
  have effect := (Op.declareTarget declaration declaredDir origin).effect ctx
  cases stopped : ctx.shouldStop with
  | true =>
    simp only [Op.apply, EvalExecContext.declareTarget, stopped, if_true]
    exact inStep
  | false =>
    simp only [Op.pushes, stopped, Bool.false_eq_true, if_false] at effect
    refine Pushed.inStep effect (fun name => ?_) inStep
    simp only [Op.apply, EvalExecContext.declareTarget, stopped, Bool.false_eq_true, if_false,
      pushEvent_state, registerTarget_names, declaredNames]
    simp

/-- A truncation that keeps every declared name keeps the two sides in step. -/
theorem truncateTargets_inStep (count : Nat)
    (keeps : KeepsDeclared (.op (.truncateTargets count)) ctx) (inStep : InStep ctx) :
    InStep ((Op.truncateTargets count).apply ctx) := by
  refine ⟨fun name => ?_, inStep.copies⟩
  constructor
  · intro found
    have old : name ∈ ctx.state.targetNames := by
      obtain ⟨record, kept, rfl⟩ := mem_map.mp found
      exact mem_map_of_mem (mem_of_mem_take kept)
    exact (inStep.records name).mp old
  · intro declared
    exact keeps name (mem_append.mpr declared)

/-- A begin keeps the two sides in step. -/
theorem txBegin_inStep (inStep : InStep ctx) : InStep ctx.txBegin := by
  refine ⟨fun name => ?_, ?_, ?_, inStep.copies⟩
  · have agree := inStep.records name
    simpa [EvalExecContext.txBegin, bufferedNames, snapshotState, Transaction.marks,
      declaredNames, EvalExecContext.streamNames] using agree
  · exact fun name found => (inStep.records name).mp found
  · exact fun name found => (inStep.records name).mpr (.inr found)

/-- What a rollback flushes declares nothing. -/
theorem declaredNames_rollback (tx : Transaction) : declaredNames (tx.flushedMarks false) = [] := by
  refine filterMap_eq_nil_iff.mpr fun mark found => ?_
  rcases flushedMarks_rollback found with bracket | ⟨diag, body⟩
  · cases shape : mark.body <;> simp_all [EventBody.isBracket]
  · rw [body]

/-- A finish keeps the two sides in step, if the rollback takes back no declared target. -/
theorem txFinish_inStep {active : Transaction} {parents : List Transaction} (commitState : Bool)
    (stack : ctx.transactions = active :: parents)
    (keeps : KeepsDeclared (.txFinish commitState) ctx) (inStep : InStep ctx) :
    InStep (ctx.txFinish commitState) := by
  have finished := txFinish_effect stack commitState
  have agree := inStep.records
  have copies := inStep.copies
  rw [stack] at agree copies
  obtain ⟨restored, buffered, rest⟩ := copies
  have stream := finished.grown.streamNames_eq
  refine ⟨fun name => ?_, ?_⟩
  · rw [finished.state, finished.stack, stream]
    cases commitState with
    | true =>
      rw [flushedMarks_commit, mem_append]
      simp only [finishedState, if_true, agree, bufferedNames, flatMap_cons, mem_append]
      tauto
    | false =>
      rw [declaredNames_rollback, append_nil]
      have kept : ∀ name ∈ ctx.streamNames, name ∈ active.restoredNames := by
        simpa [KeepsDeclared, Action.endangeredNames, Action.standingNames, stack] using keeps
      constructor
      · exact fun found => restored name found
      · rintro (early | late)
        · exact kept name early
        · exact buffered name late
  · rw [finished.stack, stream]
    exact rest.mono fun name found => mem_append_left _ found

/-- A step that takes back no declared target keeps the two sides in step. -/
theorem step_inStep (action : Action) (ctx : EvalExecContext) (keeps : KeepsDeclared action ctx)
    (inStep : InStep ctx) : InStep (action.apply ctx) := by
  have bracket (body : EventBody) (origin : Origin) (allowStopped : Bool)
      (plain : declaredNames [⟨body, 0, 0⟩] = []) :
      InStep (ctx.pushEvent body origin allowStopped) := by
    cases refused : (!allowStopped && ctx.shouldStop) with
    | true => rwa [pushEvent_refused ctx body origin allowStopped refused]
    | false =>
      exact (pushEvent_effect ctx body origin allowStopped refused).inStep
        (fun name => by simp [plain]) inStep
  cases action with
  | op operation =>
    by_cases declares : ∃ declaration declaredDir origin,
        operation = .declareTarget declaration declaredDir origin
    · obtain ⟨declaration, declaredDir, origin, rfl⟩ := declares
      exact declareTarget_inStep declaration declaredDir origin inStep
    · by_cases truncates : ∃ count, operation = .truncateTargets count
      · obtain ⟨count, rfl⟩ := truncates
        exact truncateTargets_inStep count keeps inStep
      · have notDeclare := fun declaration declaredDir origin same =>
          declares ⟨declaration, declaredDir, origin, same⟩
        have names : (operation.apply ctx).state.targetNames = ctx.state.targetNames :=
          Op.apply_targetNames notDeclare fun count same => truncates ⟨count, same⟩
        have effect := operation.effect ctx
        cases pushes : operation.pushes ctx with
        | none =>
          rw [pushes] at effect
          exact Quiet.inStep effect names inStep
        | some body =>
          rw [pushes] at effect
          refine Pushed.inStep effect (fun name => ?_) inStep
          simp only [Action.apply, names, Op.pushes_declaredNames notDeclare pushes]
          simp
  | txBegin => exact txBegin_inStep inStep
  | commandBegin info origin => exact bracket (.commandBegin info) origin false rfl
  | commandEnd info status origin => exact bracket (.commandEnd info status) origin true rfl
  | txFinish commitState =>
    cases stack : ctx.transactions with
    | nil =>
      have same : ctx.txFinish commitState = ctx := by simp [EvalExecContext.txFinish, stack]
      rw [Action.apply, same]
      exact inStep
    | cons active parents => exact txFinish_inStep commitState stack keeps inStep

/-! ## Whole runs -/

/-- A run from an idle context ends idle. -/
theorem Runs.idle {trace : List Action} (run : Runs ctx trace) (idle : ctx.transactions = []) :
    (replayActions trace ctx).transactions = [] := by
  obtain ⟨own, buffer, -⟩ := run.addsBrackets.buffer
  cases shape : (replayActions trace ctx).transactions with
  | nil => rfl
  | cons active parents => simp [shape, idle] at buffer

/-- In a script whose steps take back no declared target, a target is on record at the end
exactly when its declaration is in the stream. -/
theorem targets_match_declarations (env : Environment) (depth : Nat) (script : List Node)
    (ctx : EvalExecContext) (run : Run EvalResult) (empty : ctx.stream = [])
    (idle : ctx.transactions = []) (blank : ctx.state.semantic.targets = [])
    (executed : runPrepared env depth script ctx = some run)
    (keeps : Along Action.apply KeepsDeclared run.trace ctx) (name : StringView) :
    name ∈ run.ctx.state.targetNames ↔ ∃ event ∈ run.ctx.stream, ∃ declaration,
        event.body = .targetDeclare declaration ∧ declaration.name = name := by
  obtain ⟨final, steps⟩ := runPrepared_sound env depth script ctx run executed
  have start : InStep ctx := by
    refine ⟨fun name => ?_, by simp [idle, CopiesInStep]⟩
    simp [EvalState.targetNames, blank, EvalExecContext.streamNames, empty, declaredNames, idle,
      bufferedNames]
  have inStep : InStep (replayActions run.trace ctx) :=
    Lib.along_invariant Action.apply step_inStep keeps start
  rw [final, inStep.records, steps.idle idle]
  simp only [bufferedNames, flatMap_nil, not_mem_nil, or_false,
    EvalExecContext.streamNames, declaredNames, filterMap_map, mem_filterMap]
  constructor
  · rintro ⟨event, found, declared⟩
    simp only [Function.comp, Event.mark] at declared
    split at declared
    · rename_i declaration body
      exact ⟨event, found, declaration, body, Option.some.inj declared⟩
    · cases declared
  · rintro ⟨event, found, declaration, body, same⟩
    refine ⟨event, found, ?_⟩
    simp only [Function.comp, Event.mark, body, same]

/-- A script that declares an executable and reports a warning. -/
def declaringScript : List Node :=
  [.command 1 1 (sv "add_executable") [wordArg "app", wordArg "main.c"],
    .command 2 1 (sv "message") [wordArg "WARNING", wordArg "note"]]

/-- The executable is on record and declared. -/
theorem targets_match_declarations_declaringScript :
    ∃ run, runPrepared handlerEnvironment 1 declaringScript freshContext = some run ∧
      run.ctx.state.targetNames = [sv "app"] ∧
      ∃ event ∈ run.ctx.stream, ∃ declaration,
        event.body = .targetDeclare declaration ∧ declaration.name = sv "app" := by
  refine ⟨_, rfl, by decide +kernel, ?_⟩
  refine (targets_match_declarations handlerEnvironment 1 declaringScript freshContext _ rfl rfl
    rfl rfl (by decide +kernel) (sv "app")).mp ?_
  decide +kernel

/-- A function that declares an executable and then reports an error. -/
def failingFunctionScript : List Node :=
  [.functionDef 1 1 (sv "f") []
      [.command 2 1 (sv "add_executable") [wordArg "app", wordArg "main.c"],
        .command 3 1 (sv "message") [wordArg "SEND_ERROR", wordArg "no"]],
    .command 5 1 (sv "f") []]

/-- The function fails and takes the record back; the declaration stays in the stream. -/
theorem failingFunctionScript_out_of_step :
    ∃ run, runPrepared handlerEnvironment 2 failingFunctionScript freshContext = some run ∧
      sv "app" ∉ run.ctx.state.targetNames ∧ sv "app" ∈ run.ctx.streamNames := by
  refine ⟨_, rfl, ?_, ?_⟩
  · decide +kernel
  · decide +kernel

end Nobify.Evaluator
