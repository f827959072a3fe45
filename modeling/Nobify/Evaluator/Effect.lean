import Nobify.Evaluator.Exec

/-!
# What a step can do

Every result about runs needs the same few facts about one step: what it adds to the stream,
what it does to the transactions, and that nothing else about either changes. They are stated
here once, for an operation of a handler and for the calls of the dispatcher.

An event is followed by its mark: its body and the two ghost fields. The stamped depths and
the origin play no part in any order or nesting.
-/

namespace Nobify.Evaluator

open List

variable (ctx : EvalExecContext)

variable {after before : EvalExecContext} {body : EventBody}

/-- What identifies an event among all pushes. -/
structure Mark where
  body : EventBody
  pushIndex : Nat
  txDepth : Nat

/-- The mark of an event. -/
def Event.mark (event : Event) : Mark := ⟨event.body, event.pushIndex, event.txDepth⟩

/-- The mark of a buffered projection. -/
def Projection.mark (projection : Projection) : Mark := projection.toEvent.mark

/-- The marks a transaction has buffered. -/
def Transaction.marks (tx : Transaction) : List Mark := tx.projections.map Projection.mark

/-- A transaction without its buffer and counters: the copies taken at its begin. -/
def Transaction.copies (tx : Transaction) : Transaction :=
  { tx with
    preserveScopeVarsOnFailure := false
    sawErrorDiag := false
    pendingWarningCount := 0
    pendingErrorCount := 0
    projections := [] }

/-- The stream grew by events with these marks. -/
def Appends (before after : EvalExecContext) (marks : List Mark) : Prop :=
  ∃ added, after.stream = before.stream ++ added ∧ added.map Event.mark = marks

namespace Appends

/-- A stream left alone grew by nothing. -/
theorem of_eq (same : after.stream = before.stream) : Appends before after [] :=
  ⟨[], by simpa using same, rfl⟩

/-- Growth adds up. -/
theorem trans {first second third : EvalExecContext} {early late : List Mark}
    (head : Appends first second early) (tail : Appends second third late) :
    Appends first third (early ++ late) := by
  obtain ⟨added, grown, marked⟩ := head
  obtain ⟨more, grownMore, markedMore⟩ := tail
  refine ⟨added ++ more, ?_, ?_⟩
  · rw [grownMore, grown, append_assoc]
  · rw [map_append, marked, markedMore]

/-- The marks of the stream are appended to. -/
theorem marks_eq {marks : List Mark} (grown : Appends before after marks) :
    after.stream.map Event.mark = before.stream.map Event.mark ++ marks := by
  obtain ⟨added, stream, marked⟩ := grown
  rw [stream, map_append, marked]

end Appends

/-! ## Operations -/

/-- A step that pushes nothing: it may touch the counters and the preserve flag of the active
transaction. -/
structure Quiet (before after : EvalExecContext) : Prop where
  stream : after.stream = before.stream
  count : after.pushCount = before.pushCount
  parents : after.transactions.tail = before.transactions.tail
  copies : after.transactions.head?.map Transaction.copies =
    before.transactions.head?.map Transaction.copies
  marks : after.transactions.head?.map Transaction.marks =
    before.transactions.head?.map Transaction.marks

/-- An accepted push goes to the stream or to the buffer of the active transaction. -/
inductive Pushed (body : EventBody) (before after : EvalExecContext) : Prop where
  | direct (reason : before.transactions = [] ∨ body.emitsImmediately = true)
      (grown : Appends before after [⟨body, before.pushCount, before.transactions.length⟩])
      (count : after.pushCount = before.pushCount + 1)
      (stack : after.transactions = before.transactions)
  | buffered (active changed : Transaction) (parents : List Transaction)
      (stack : before.transactions = active :: parents)
      (reason : body.emitsImmediately = false)
      (stream : after.stream = before.stream)
      (count : after.pushCount = before.pushCount + 1)
      (changedStack : after.transactions = changed :: parents)
      (copies : changed.copies = active.copies)
      (marks : changed.marks =
        active.marks ++ [⟨body, before.pushCount, before.transactions.length⟩])

/-- A context changed outside its stream, its push count and its transactions is quiet. -/
theorem Quiet.of_eq (stream : after.stream = before.stream)
    (count : after.pushCount = before.pushCount) (stack : after.transactions = before.transactions) :
    Quiet before after :=
  ⟨stream, count, by rw [stack], by rw [stack], by rw [stack]⟩

/-- Editing the active transaction outside its copies and buffer is quiet. -/
theorem Quiet.editActive (edit : Transaction → Transaction)
    (copies : ∀ tx, (edit tx).copies = tx.copies) (marks : ∀ tx, (edit tx).marks = tx.marks) :
    Quiet ctx (ctx.editActive edit) := by
  unfold EvalExecContext.editActive
  split
  · exact .of_eq rfl rfl rfl
  · rename_i active parents stack
    refine ⟨rfl, rfl, ?_, ?_, ?_⟩
    · simp [stack]
    · simp [stack, copies]
    · simp [stack, marks]

/-- Emission appends one event with the same mark and changes nothing but the stream. -/
theorem emitEventDirect_appends (event : Event) :
    Appends ctx (ctx.emitEventDirect event) [event.mark] :=
  ⟨_, rfl, rfl⟩

/-- A push that is not refused is as `Pushed` says. -/
theorem pushEvent_effect (body : EventBody) (origin : Origin) (allowStopped : Bool)
    (accepted : (!allowStopped && ctx.shouldStop) = false) :
    Pushed body ctx (ctx.pushEvent body origin allowStopped) := by
  unfold EvalExecContext.pushEvent
  rw [if_neg (by simp [accepted])]
  cases stack : ctx.transactions with
  | nil =>
    rw [if_pos (by simp)]
    refine .direct (.inl stack) ?_ rfl stack.symm
    rw [stack]
    exact emitEventDirect_appends _ _
  | cons active parents =>
    by_cases immediate : body.emitsImmediately = true
    · rw [if_pos (by simp [immediate])]
      refine .direct (.inr immediate) ?_ rfl stack.symm
      rw [stack]
      exact emitEventDirect_appends _ _
    · rw [if_neg (by simp [immediate])]
      refine .buffered active _ parents stack (by simpa using immediate) rfl rfl rfl rfl ?_
      simp [Transaction.marks, stack, Projection.mark, Projection.toEvent, Event.mark]

/-- A refused push changes nothing. -/
theorem pushEvent_refused (body : EventBody) (origin : Origin) (allowStopped : Bool)
    (refused : (!allowStopped && ctx.shouldStop) = true) :
    ctx.pushEvent body origin allowStopped = ctx := by
  unfold EvalExecContext.pushEvent
  rw [if_pos refused]

/-- A diagnostic of a running context is pushed like an event. -/
theorem pushDiag_effect (diag : Diag) (running : ctx.shouldStop = false) :
    Pushed (.diag diag) ctx (ctx.pushDiag diag) := by
  unfold EvalExecContext.pushDiag
  cases stack : ctx.transactions with
  | nil =>
    refine .direct (.inl stack) ?_ rfl stack.symm
    rw [stack]
    exact emitEventDirect_appends _ _
  | cons active parents =>
    simp only [running, Bool.false_eq_true, if_false]
    refine .buffered active _ parents stack rfl rfl rfl rfl rfl ?_
    simp [Transaction.marks, EvalExecContext.bufferDiag, stack, Projection.mark,
      Projection.toEvent, Event.mark]

/-- The stop decision touches neither the stream nor the transactions. -/
theorem decideOnDiag_fields (effective : Severity) :
    (ctx.decideOnDiag effective).stream = ctx.stream ∧
      (ctx.decideOnDiag effective).pushCount = ctx.pushCount ∧
      (ctx.decideOnDiag effective).transactions = ctx.transactions ∧
      (ctx.decideOnDiag effective).state = ctx.state := by
  unfold EvalExecContext.decideOnDiag
  split
  · exact ⟨rfl, rfl, rfl, rfl⟩
  · split
    · split <;> exact ⟨rfl, rfl, rfl, rfl⟩
    · split <;> exact ⟨rfl, rfl, rfl, rfl⟩

/-- What is pushed does not depend on fields outside stream, count and transactions. -/
theorem Pushed.congr {middle : EvalExecContext} (pushed : Pushed body before middle)
    (stream : after.stream = middle.stream) (count : after.pushCount = middle.pushCount)
    (stack : after.transactions = middle.transactions) : Pushed body before after := by
  cases pushed with
  | direct reason grown counted kept =>
    refine .direct reason ?_ (count.trans counted) (stack.trans kept)
    simpa using grown.trans (Appends.of_eq stream)
  | buffered active changed parents stacked reason same counted changedStack copies marks =>
    exact .buffered active changed parents stacked reason (stream.trans same)
      (count.trans counted) (stack.trans changedStack) copies marks

/-- The same, for fields of the context before. -/
theorem Pushed.congr_left {middle : EvalExecContext} (pushed : Pushed body middle after)
    (stream : middle.stream = before.stream) (count : middle.pushCount = before.pushCount)
    (stack : middle.transactions = before.transactions) : Pushed body before after := by
  cases pushed with
  | direct reason grown counted kept =>
    rw [count, stack] at grown
    refine .direct (stack ▸ reason) ?_ (by rw [counted, count]) (kept.trans stack)
    simpa using (Appends.of_eq stream).trans grown
  | buffered active changed parents stacked reason same counted changedStack copies marks =>
    rw [count, stack] at marks
    exact .buffered active changed parents (stack ▸ stacked) reason (same.trans stream)
      (by rw [counted, count]) changedStack copies marks

/-- Editing the active transaction leaves the state alone. -/
@[simp] theorem editActive_state (edit : Transaction → Transaction) :
    (ctx.editActive edit).state = ctx.state := by
  unfold EvalExecContext.editActive
  split <;> rfl

/-- A push leaves the state alone. -/
@[simp] theorem pushEvent_state (body : EventBody) (origin : Origin) (allowStopped : Bool) :
    (ctx.pushEvent body origin allowStopped).state = ctx.state := by
  simp only [EvalExecContext.pushEvent, EvalExecContext.appendProjection]
  split
  · rfl
  · split
    · rfl
    · rw [editActive_state]

/-- A diagnostic leaves the state alone. -/
@[simp] theorem emitDiag_state (request : DiagRequest) :
    (ctx.emitDiag request).state = ctx.state := by
  simp only [EvalExecContext.emitDiag]
  split
  · rfl
  · rw [(decideOnDiag_fields _ _).2.2.2]
    unfold EvalExecContext.pushDiag
    split
    · rfl
    · split
      · rfl
      · rw [editActive_state]

/-- One of the two brackets of a command. -/
def EventBody.isBracket : EventBody → Bool
  | .commandBegin _ | .commandEnd _ _ => true
  | _ => false

/-- The body of the event an operation may push. -/
def Op.pushes (ctx : EvalExecContext) : Op → Option EventBody
  | .pushEvent kind fields _ allowStopped =>
    if !allowStopped && ctx.shouldStop then none else some (.plain kind fields)
  | .emitDiag request =>
    if ctx.shouldStop then none
    else
      let severities := effectiveSeverities ctx.runtime request.severity request.code
      some (.diag
        { inputSeverity := severities.1, effectiveSeverity := severities.2, code := request.code,
          component := request.component, command := request.command, origin := request.origin,
          cause := request.cause, hint := request.hint })
  | .declareTarget declaration _ _ =>
    if ctx.shouldStop then none else some (.targetDeclare declaration)
  | _ => none

/-- What an operation does to the stream and the transactions. -/
def OpEffect (pushes : Option EventBody) (before after : EvalExecContext) : Prop :=
  match pushes with
  | none => Quiet before after
  | some body => Pushed body before after

/-- Registering a target leaves stream and transactions alone. -/
theorem registerTarget_fields (name declaredDir : StringView) :
    (ctx.registerTarget name declaredDir).stream = ctx.stream ∧
      (ctx.registerTarget name declaredDir).pushCount = ctx.pushCount ∧
      (ctx.registerTarget name declaredDir).transactions = ctx.transactions ∧
      (ctx.registerTarget name declaredDir).stopRequested = ctx.stopRequested := by
  unfold EvalExecContext.registerTarget
  split <;> exact ⟨rfl, rfl, rfl, rfl⟩

/-- Every operation has the effect its push says. -/
theorem Op.effect (operation : Op) (ctx : EvalExecContext) :
    OpEffect (operation.pushes ctx) ctx (operation.apply ctx) := by
  cases operation with
  | modify change => exact .of_eq rfl rfl rfl
  | setCompat profile policy errorBudget continueOnError => exact .of_eq rfl rfl rfl
  | setWatching active => exact .of_eq rfl rfl rfl
  | pushEvent kind fields origin allowStopped =>
    cases refused : (!allowStopped && ctx.shouldStop) with
    | true =>
      simp only [Op.pushes, Op.apply, refused, if_true, pushEvent_refused ctx _ _ _ refused]
      exact .of_eq rfl rfl rfl
    | false =>
      simp only [Op.pushes, Op.apply, refused, Bool.false_eq_true, if_false]
      exact pushEvent_effect ctx _ origin allowStopped refused
  | emitDiag request =>
    cases stopped : ctx.shouldStop with
    | true =>
      simp only [Op.pushes, Op.apply, EvalExecContext.emitDiag, stopped, if_true]
      exact .of_eq rfl rfl rfl
    | false =>
      simp only [Op.pushes, Op.apply, EvalExecContext.emitDiag, stopped, Bool.false_eq_true,
        if_false]
      obtain ⟨stream, count, stack, -⟩ := decideOnDiag_fields
        (ctx.pushDiag _) (effectiveSeverities ctx.runtime request.severity request.code).2
      exact (pushDiag_effect ctx _ stopped).congr stream count stack
  | preserveScopeVars => exact .editActive ctx _ (fun _ => rfl) fun _ => rfl
  | declareTarget declaration declaredDir origin =>
    cases stopped : ctx.shouldStop with
    | true =>
      simp only [Op.pushes, Op.apply, EvalExecContext.declareTarget, stopped, if_true]
      exact .of_eq rfl rfl rfl
    | false =>
      simp only [Op.pushes, Op.apply, EvalExecContext.declareTarget, stopped, Bool.false_eq_true,
        if_false]
      obtain ⟨stream, count, stack, running⟩ :=
        registerTarget_fields ctx declaration.name declaredDir
      refine (pushEvent_effect _ _ origin false ?_).congr_left stream count stack
      simpa [EvalExecContext.shouldStop, running] using stopped
  | truncateTargets count => exact .of_eq rfl rfl rfl
  | retractError => exact .editActive ctx _ (fun _ => rfl) fun _ => rfl
  | requestStop => exact .of_eq rfl rfl rfl
  | resetStop => exact .of_eq rfl rfl rfl

/-- No operation of a handler pushes a bracket. -/
theorem Op.pushes_not_bracket {operation : Op} {ctx : EvalExecContext}
    (pushed : operation.pushes ctx = some body) : body.isBracket = false := by
  cases operation <;> simp only [Op.pushes, reduceCtorEq] at pushed <;>
    split at pushed <;> simp only [reduceCtorEq, Option.some.injEq] at pushed <;>
    (subst pushed; rfl)

/-! ## Begin and finish -/

/-- One flushed projection appends its event and changes nothing but stream and report. -/
theorem flushProjection_effect (projection : Projection) :
    Appends ctx (ctx.flushProjection projection) [projection.mark] ∧
      (ctx.flushProjection projection).state = ctx.state ∧
      (ctx.flushProjection projection).transactions = ctx.transactions ∧
      (ctx.flushProjection projection).pushCount = ctx.pushCount ∧
      (ctx.flushProjection projection).stopRequested = ctx.stopRequested := by
  cases projection with
  | event buffered => exact ⟨emitEventDirect_appends ctx buffered, rfl, rfl, rfl, rfl⟩
  | diag buffered => exact ⟨⟨_, rfl, rfl⟩, rfl, rfl, rfl, rfl⟩

/-- The flush loop appends the projections in order. -/
theorem flush_effect (projections : List Projection) :
    Appends ctx (projections.foldl EvalExecContext.flushProjection ctx)
        (projections.map Projection.mark) ∧
      (projections.foldl EvalExecContext.flushProjection ctx).state = ctx.state ∧
      (projections.foldl EvalExecContext.flushProjection ctx).transactions = ctx.transactions ∧
      (projections.foldl EvalExecContext.flushProjection ctx).pushCount = ctx.pushCount ∧
      (projections.foldl EvalExecContext.flushProjection ctx).stopRequested =
        ctx.stopRequested := by
  induction projections generalizing ctx with
  | nil => exact ⟨.of_eq rfl, rfl, rfl, rfl, rfl⟩
  | cons projection rest ih =>
    obtain ⟨grown, state, stack, count, stop⟩ := flushProjection_effect ctx projection
    obtain ⟨grownRest, stateRest, stackRest, countRest, stopRest⟩ :=
      ih (ctx.flushProjection projection)
    refine ⟨grown.trans grownRest, stateRest.trans state, stackRest.trans stack,
      countRest.trans count, stopRest.trans stop⟩

/-- What a finish flushes, by its marks. -/
def Transaction.flushedMarks (tx : Transaction) (commitState : Bool) : List Mark :=
  (flushedProjections tx.projections commitState).map Projection.mark

/-- The state a finish leaves. -/
def finishedState (tx : Transaction) (commitState : Bool) (state : EvalState) : EvalState :=
  if commitState then state else restoreState tx state

/-- What finishing the active transaction does. -/
structure Finished (active : Transaction) (parents : List Transaction) (commitState : Bool)
    (before after : EvalExecContext) : Prop where
  grown : Appends before after (active.flushedMarks commitState)
  state : after.state = finishedState active commitState before.state
  stack : after.transactions = parents
  count : after.pushCount = before.pushCount
  stop : after.stopRequested = before.stopRequested

/-- A finish of the active transaction is as `Finished` says. -/
theorem txFinish_effect {ctx : EvalExecContext} {active : Transaction}
    {parents : List Transaction} (stack : ctx.transactions = active :: parents)
    (commitState : Bool) : Finished active parents commitState ctx (ctx.txFinish commitState) := by
  unfold EvalExecContext.txFinish
  rw [stack]
  simp only
  cases commitState with
  | true =>
    obtain ⟨grown, state, -, count, stop⟩ :=
      flush_effect ctx (flushedProjections active.projections true)
    exact ⟨grown, state, rfl, count, stop⟩
  | false =>
    obtain ⟨grown, state, -, count, stop⟩ :=
      flush_effect
        { ctx with state := restoreState active ctx.state, transactions := active :: parents }
        (flushedProjections active.projections false)
    exact ⟨grown, state, rfl, count, stop⟩

/-- A committed transaction flushes its whole buffer. -/
theorem flushedMarks_commit (tx : Transaction) : tx.flushedMarks true = tx.marks := by
  simp [Transaction.flushedMarks, flushedProjections, Transaction.marks]

/-- What is flushed is part of the buffer, in its order. -/
theorem flushedMarks_sublist (tx : Transaction) (commitState : Bool) :
    (tx.flushedMarks commitState).Sublist tx.marks :=
  filter_sublist.map _

/-- A rollback flushes diagnostics and brackets only. -/
theorem flushedMarks_rollback {tx : Transaction} {mark : Mark}
    (flushed : mark ∈ tx.flushedMarks false) :
    mark.body.isBracket = true ∨ ∃ diag, mark.body = .diag diag := by
  obtain ⟨projection, found, rfl⟩ := mem_map.mp flushed
  obtain ⟨-, kept⟩ := mem_filter.mp found
  cases projection with
  | diag buffered => exact .inr ⟨buffered.diag, rfl⟩
  | event buffered =>
    refine .inl ?_
    cases body : buffered.body <;>
      simp_all [Projection.keepOnFailure, Projection.mark, Projection.toEvent, Event.mark,
        EventBody.isBracket]

end Nobify.Evaluator
