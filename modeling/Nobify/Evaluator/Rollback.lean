import Nobify.Evaluator.Handlers
import Nobify.Evaluator.Runs

/-!
# Rolling back a command

Between the begin of a transaction and its failing finish, anything may happen: state changes,
pushes, nested commands that commit or fail, in any order. The copies of the transaction
survive all of it, and so does the number of scopes; the failing finish therefore returns every
copied field to its value at the begin. Of the transaction's own events only the brackets, the
diagnostics and the kinds that bypass the buffer are in the stream afterwards.

The macro, block and execution stacks and the policy levels are not copied. Handlers pair their
pushes and pops of these stacks; `block()` with a malformed option list does not.
-/

namespace Nobify.Evaluator

open Nobify.Lib (Table)
open List

variable {after before : EvalExecContext} {active : Transaction} {parents : List Transaction}

/-- A state with the fields that no transaction copies taken from another state. -/
def EvalState.withUncopied (base other : EvalState) : EvalState :=
  { base with
    scope := { base.scope with
      macroFrames := other.scope.macroFrames
      blockFrames := other.scope.blockFrames
      returnPropagateVars := other.scope.returnPropagateVars }
    file := { base.file with
      fileLocks := other.file.fileLocks
      nextBuildStepId := other.file.nextBuildStepId
      nextReplayActionId := other.file.nextReplayActionId
      nextExportId := other.file.nextExportId
      nextCpackPackageId := other.file.nextCpackPackageId }
    policyLevels := other.policyLevels
    visiblePolicyDepth := other.visiblePolicyDepth
    execContexts := other.execContexts }

/-! ## Restoring from the copies -/

/-- Rebuilding every scope of an array of the copied length gives the copied scopes. -/
theorem overwriteScopes_eq (copied scopes : List VarTable) (long : copied.length ≤ scopes.length) :
    overwriteScopes (copied.map Table.entries) (scopes.take copied.length) = copied := by
  induction copied generalizing scopes with
  | nil => cases scopes <;> rfl
  | cons table rest ih =>
    cases scopes with
    | nil => simp at long
    | cons scope scopes =>
      simp only [length_cons, Nat.add_le_add_iff_right] at long
      simp only [map_cons, length_cons, take_succ_cons, overwriteScopes,
        Table.ofEntries_entries, ih scopes long]

/-- The scope array after a rollback is the copied one. -/
theorem restoreScopes_snapshot (saved : EvalState) (scopes : List VarTable)
    (long : saved.scope.scopes.length ≤ scopes.length) :
    restoreScopes (snapshotState saved) scopes = saved.scope.scopes := by
  have cut : (if saved.scope.scopes.length < scopes.length then
      scopes.take saved.scope.scopes.length else scopes) =
      scopes.take saved.scope.scopes.length := by
    split
    · rfl
    · rename_i short
      rw [take_of_length_le (by omega)]
  simp only [restoreScopes, snapshotState, length_map, cut, Bool.false_eq_true, if_false]
  exact overwriteScopes_eq saved.scope.scopes scopes long

/-- A directory node is recovered from its snapshot. -/
theorem restoreDirectoryNodes_snapshot (nodes : List DirectoryNode) :
    (nodes.map snapshotDirectoryNode).map restoreDirectoryNode = nodes := by
  rw [List.map_map]
  exact List.map_id nodes

/-- A deferred frame is recovered from its snapshot. -/
theorem restoreDeferredDirs_snapshot (frames : List DeferredDirFrame) :
    (frames.map snapshotDeferredDir).map restoreDeferredDir = frames := by
  rw [List.map_map]
  exact List.map_id frames

/-- Restoring a snapshot brings back every copied field. -/
theorem restoreState_snapshot (saved state : EvalState)
    (long : saved.scope.scopes.length ≤ state.scope.scopes.length) :
    restoreState (snapshotState saved) state = saved.withUncopied state := by
  unfold restoreState
  rw [restoreScopes_snapshot saved state.scope.scopes long]
  simp only [snapshotState, EvalState.withUncopied, Table.ofEntries_entries,
    restoreDirectoryNodes_snapshot, restoreDeferredDirs_snapshot]

/-- A restore that does not preserve variables reads the copies only. -/
theorem restoreState_copies (tx : Transaction) (state : EvalState)
    (unpreserved : tx.preserveScopeVarsOnFailure = false) :
    restoreState tx state = restoreState tx.copies state := by
  unfold restoreState restoreScopes
  simp only [unpreserved, Transaction.copies]
  rfl

/-- Rebuilding scopes in place keeps their number. -/
theorem overwriteScopes_length (copies : List (List (StringView × StringView)))
    (scopes : List VarTable) : (overwriteScopes copies scopes).length = scopes.length := by
  induction copies generalizing scopes with
  | nil => cases scopes <;> rfl
  | cons copy copies ih =>
    cases scopes with
    | nil => rfl
    | cons scope scopes => simp [overwriteScopes, ih]

/-- A rollback leaves as many scopes as were copied. -/
theorem restoreScopes_length (tx : Transaction) (scopes : List VarTable)
    (long : tx.scopeVars.length ≤ scopes.length) :
    (restoreScopes tx scopes).length = tx.scopeVars.length := by
  have cut : (if tx.scopeVars.length < scopes.length then scopes.take tx.scopeVars.length
      else scopes).length = tx.scopeVars.length := by
    split
    · rw [length_take]
      omega
    · omega
  simp only [restoreScopes]
  split
  · exact cut
  · rw [overwriteScopes_length, cut]

/-! ## What survives inside a transaction -/

/-- What the steps inside a transaction at a depth leave of it: its copies, a longer buffer of
its own events, a stream in which its own events are of the immediate kinds, and no fewer
scopes. -/
structure Continues (depth : Nat) (active changed : Transaction)
    (before after : EvalExecContext) : Prop where
  copies : changed.copies = active.copies
  own : ∃ own, changed.marks = active.marks ++ own ∧ ∀ mark ∈ own, mark.txDepth = depth
  stream : ∃ marks, Appends before after marks ∧ ∀ mark ∈ marks,
    depth ≤ mark.txDepth ∧ (mark.txDepth = depth → mark.body.emitsImmediately = true)
  scopes : before.state.scope.scopes.length ≤ after.state.scope.scopes.length

/-- Steps inside a transaction one after the other. -/
theorem Continues.trans {depth : Nat} {first second third : Transaction} {middle : EvalExecContext}
    (head : Continues depth first second before middle)
    (tail : Continues depth second third middle after) :
    Continues depth first third before after := by
  obtain ⟨own, buffered, tagged⟩ := head.own
  obtain ⟨more, bufferedMore, taggedMore⟩ := tail.own
  obtain ⟨marks, grown, immediate⟩ := head.stream
  obtain ⟨later, grownLater, immediateLater⟩ := tail.stream
  refine ⟨tail.copies.trans head.copies, ⟨own ++ more, ?_, ?_⟩,
    ⟨marks ++ later, grown.trans grownLater, ?_⟩, Nat.le_trans head.scopes tail.scopes⟩
  · rw [bufferedMore, buffered, append_assoc]
  · intro mark found
    rcases mem_append.mp found with early | late
    · exact tagged mark early
    · exact taggedMore mark late
  · intro mark found
    rcases mem_append.mp found with early | late
    · exact immediate mark early
    · exact immediateLater mark late

/-- A quiet step continues the transaction. -/
theorem Quiet.continues (quiet : Quiet before after)
    (stack : before.transactions = active :: parents)
    (scopes : before.state.scope.scopes.length ≤ after.state.scope.scopes.length) :
    ∃ changed, after.transactions = changed :: parents ∧
      Continues (parents.length + 1) active changed before after := by
  have kept := quiet.copies
  have buffered := quiet.marks
  have tail := quiet.parents
  rw [stack] at kept buffered tail
  cases shape : after.transactions with
  | nil => simp [shape] at kept
  | cons changed rest =>
    simp only [shape, List.head?_cons, Option.map_some, Option.some.injEq, tail_cons]
      at kept buffered tail
    refine ⟨changed, by rw [tail], kept, ⟨[], ?_, ?_⟩, ⟨[], .of_eq quiet.stream, ?_⟩, scopes⟩
    · rw [buffered, append_nil]
    · simp
    · simp

/-- An accepted push continues the transaction. -/
theorem Pushed.continues {body : EventBody} (pushed : Pushed body before after)
    (stack : before.transactions = active :: parents)
    (scopes : before.state.scope.scopes.length ≤ after.state.scope.scopes.length) :
    ∃ changed, after.transactions = changed :: parents ∧
      Continues (parents.length + 1) active changed before after := by
  cases pushed with
  | direct reason grown count kept =>
    have immediate : body.emitsImmediately = true := by
      rcases reason with empty | immediate
      · simp [stack] at empty
      · exact immediate
    refine ⟨active, kept.trans stack, rfl, ⟨[], by simp, by simp⟩, ⟨_, grown, ?_⟩, scopes⟩
    intro mark found
    obtain rfl := mem_singleton.mp found
    exact ⟨by simp [stack], fun _ => immediate⟩
  | buffered head changed rest stacked reason stream count changedStack copies marks =>
    obtain ⟨rfl, rfl⟩ : active = head ∧ parents = rest := by simpa [stack] using stacked
    refine ⟨changed, changedStack, copies, ⟨_, marks, ?_⟩, ⟨[], .of_eq stream, by simp⟩, scopes⟩
    intro mark found
    obtain rfl := mem_singleton.mp found
    simp [stack]

/-- No operation shortens the scope array. -/
theorem Op.apply_scopes_length (operation : Op) (ctx : EvalExecContext) :
    ctx.state.scope.scopes.length ≤ (operation.apply ctx).state.scope.scopes.length := by
  cases operation with
  | modify change => exact change.keepsScopes ctx.state
  | pushEvent kind fields origin allowStopped => simp [Op.apply]
  | emitDiag request => simp [Op.apply]
  | preserveScopeVars => simp [Op.apply, EvalExecContext.preserveScopeVars]
  | declareTarget declaration declaredDir origin =>
    simp only [Op.apply, EvalExecContext.declareTarget]
    split
    · exact Nat.le_refl _
    · rw [pushEvent_state]
      unfold EvalExecContext.registerTarget
      split <;> exact Nat.le_refl _
  | retractError => simp [Op.apply]
  | setCompat | setWatching | truncateTargets | requestStop | resetStop => exact Nat.le_refl _

/-- A step that neither begins nor finishes a transaction continues the active one. -/
theorem plainAction_continues {action : Action} (notBegin : action ≠ .txBegin)
    (notFinish : ∀ commitState, action ≠ .txFinish commitState) {ctx : EvalExecContext}
    (stack : ctx.transactions = active :: parents) :
    ∃ changed, (action.apply ctx).transactions = changed :: parents ∧
      Continues (parents.length + 1) active changed ctx (action.apply ctx) := by
  cases action with
  | op operation =>
    have effect := operation.effect ctx
    have scopes := operation.apply_scopes_length ctx
    cases pushes : operation.pushes ctx with
    | none =>
      rw [pushes] at effect
      exact Quiet.continues effect stack scopes
    | some body =>
      rw [pushes] at effect
      exact Pushed.continues effect stack scopes
  | txBegin => exact absurd rfl notBegin
  | commandBegin info origin =>
    cases stopped : ctx.shouldStop with
    | true =>
      simp only [Action.apply, pushEvent_refused ctx _ origin false (by simp [stopped])]
      exact (Quiet.of_eq rfl rfl rfl).continues stack (Nat.le_refl _)
    | false =>
      exact (pushEvent_effect ctx (.commandBegin info) origin false (by simp [stopped])).continues
        stack (by simp)
  | commandEnd info status origin =>
    exact (pushEvent_effect ctx (.commandEnd info status) origin true (by simp)).continues
      stack (by simp)
  | txFinish commitState => exact absurd rfl (notFinish commitState)

/-- A whole nested transaction continues the one around it. -/
theorem nested_continues {ctx : EvalExecContext} {inner : Transaction} {inside : EvalExecContext}
    (commitState : Bool) (insideStack : inside.transactions = inner :: active :: parents)
    (within : Continues (parents.length + 2) (snapshotState ctx.state) inner ctx.txBegin inside) :
    Continues (parents.length + 1) active active ctx (inside.txFinish commitState) := by
  have finished := txFinish_effect insideStack commitState
  obtain ⟨own, buffered, tagged⟩ := within.own
  obtain ⟨marks, grown, deep⟩ := within.stream
  have begun : Appends ctx ctx.txBegin [] := .of_eq rfl
  refine ⟨rfl, ⟨[], by simp, by simp⟩, ⟨_, (begun.trans grown).trans finished.grown, ?_⟩, ?_⟩
  · intro mark found
    have deeper : parents.length + 2 ≤ mark.txDepth := by
      rcases mem_append.mp found with early | late
      · exact (deep mark (by simpa using early)).1
      · have member := (flushedMarks_sublist inner commitState).subset late
        rw [buffered] at member
        have depth := tagged mark (by simpa [snapshotState, Transaction.marks] using member)
        omega
    exact ⟨by omega, fun same => by omega⟩
  · have longer : ctx.state.scope.scopes.length ≤ inside.state.scope.scopes.length := within.scopes
    have copied : inner.scopeVars.length = ctx.state.scope.scopes.length := by
      have same := congrArg (fun tx => tx.scopeVars.length) within.copies
      simpa [Transaction.copies, snapshotState] using same
    rw [finished.state]
    cases commitState with
    | true => exact longer
    | false =>
      have length := restoreScopes_length inner inside.state.scope.scopes (by omega)
      simp only [finishedState, restoreState, Bool.false_eq_true, if_false]
      omega

/-- Whatever happens inside a transaction continues it. -/
theorem balanced_continues {trace : List Action} (balanced : BalancedActions trace) :
    ∀ {ctx : EvalExecContext} {active : Transaction} {parents : List Transaction},
      ctx.transactions = active :: parents →
      ∃ changed, (replayActions trace ctx).transactions = changed :: parents ∧
        Continues (parents.length + 1) active changed ctx (replayActions trace ctx) := by
  induction balanced with
  | nil =>
    intro ctx active parents stack
    exact (Quiet.of_eq rfl rfl rfl).continues stack (Nat.le_refl _)
  | plain notOpen notClose _ ih =>
    intro ctx active parents stack
    obtain ⟨middle, middleStack, here⟩ := plainAction_continues notOpen
      (fun commitState same => notClose ⟨commitState, same⟩) stack
    obtain ⟨changed, changedStack, later⟩ := ih middleStack
    exact ⟨changed, changedStack, here.trans later⟩
  | @nested opening closing inner rest isOpen isClose _ _ bodyIh tailIh =>
    intro ctx active parents stack
    obtain rfl : opening = .txBegin := isOpen
    obtain ⟨commitState, rfl⟩ := isClose
    have begun : ctx.txBegin.transactions = snapshotState ctx.state :: active :: parents := by
      simp [EvalExecContext.txBegin, stack]
    obtain ⟨changed, insideStack, within⟩ := bodyIh begun
    have here := nested_continues commitState insideStack within
    obtain ⟨last, lastStack, later⟩ :=
      tailIh (txFinish_effect insideStack commitState).stack
    refine ⟨last, ?_, ?_⟩
    · simpa [Action.apply] using lastStack
    · simpa [Action.apply] using here.trans later

/-- A failed command gives back every copied field and lets through only its brackets, its
diagnostics and its immediate events. -/
theorem rollback_restores_copied (ctx : EvalExecContext) (trace : List Action)
    (balanced : BalancedActions trace)
    (unpreserved : (replayActions (.txBegin :: trace) ctx).transactions.head?.map
      Transaction.preserveScopeVarsOnFailure = some false) :
    let final := replayActions (.txBegin :: trace ++ [.txFinish false]) ctx
    final.state = ctx.state.withUncopied final.state ∧ final.transactions = ctx.transactions ∧
      ∃ added, final.stream = ctx.stream ++ added ∧
        ∀ event ∈ added, event.txDepth = ctx.transactions.length + 1 →
          event.body.isBracket = true ∨ (∃ diag, event.body = .diag diag) ∨
            event.body.emitsImmediately = true := by
  intro final
  obtain ⟨active, insideStack, within⟩ := balanced_continues balanced
    (show ctx.txBegin.transactions = snapshotState ctx.state :: ctx.transactions from rfl)
  have finished := txFinish_effect insideStack false
  have unset : active.preserveScopeVarsOnFailure = false := by
    simpa [Action.apply, insideStack] using unpreserved
  have same : final = (replayActions trace ctx.txBegin).txFinish false := by
    simp [final, Action.apply]
  refine ⟨?_, ?_, ?_⟩
  · have restored : final.state =
        ctx.state.withUncopied (replayActions trace ctx.txBegin).state := by
      rw [same, finished.state]
      simp only [finishedState, Bool.false_eq_true, if_false]
      rw [restoreState_copies active _ unset, within.copies]
      exact restoreState_snapshot ctx.state _ within.scopes
    rw [restored]
    rfl
  · rw [same, finished.stack]
  · obtain ⟨marks, grown, deep⟩ := within.stream
    have begun : Appends ctx ctx.txBegin [] := .of_eq rfl
    obtain ⟨added, stream, marked⟩ := (begun.trans grown).trans finished.grown
    refine ⟨added, same ▸ stream, ?_⟩
    intro event found own
    have member : event.mark ∈ marks ++ active.flushedMarks false := by
      rw [nil_append] at marked
      rw [← marked]
      exact mem_map_of_mem found
    rcases mem_append.mp member with early | late
    · exact .inr (.inr ((deep event.mark early).2 own))
    · rcases flushedMarks_rollback late with bracket | diag
      · exact .inl bracket
      · exact .inr (.inl diag)

/-- The steps of a command that sets a variable, executes an unknown command that commits, and
then reports an error. -/
def failingSteps : List Action :=
  .commandBegin ⟨sv "outer", .builtin, 0⟩ ⟨[], 1, 1⟩ ::
    .op (.modify (setCurrentChange (sv "X") (sv "1"))) ::
    commandActions ⟨sv "inner", .unknown, 0⟩ ⟨[], 2, 1⟩
      [.op (.modify (setCurrentChange (sv "Y") (sv "2")))] .unsupported true ++
    [.op (.emitDiag ⟨.error, .scriptError, sv "message", sv "message", ⟨[], 3, 1⟩, sv "x", []⟩)]

/-- These steps are well bracketed. -/
theorem failingSteps_balanced : BalancedActions failingSteps := by
  refine .plain (by simp) (by simp) (.plain (by simp) (by simp) ?_)
  exact (commandActions_balanced (op_balanced _)).append (op_balanced _)

/-- The failing command gives back both variables; its opening bracket, the nested pair and the
diagnostic are in the stream. -/
theorem rollback_restores_copied_failingSteps :
    let final := replayActions (.txBegin :: failingSteps ++ [.txFinish false]) freshContext
    (replayActions (.txBegin :: failingSteps) freshContext).state.varGetVisible (sv "Y") = sv "2" ∧
      final.state = freshState.withUncopied final.state ∧
      final.stream.map Event.txDepth = [1, 2, 2, 1] := by
  intro final
  refine ⟨by decide +kernel, ?_, by decide +kernel⟩
  exact (rollback_restores_copied freshContext failingSteps failingSteps_balanced
    (by decide +kernel)).1

/-- Whether a step is a failing finish. -/
def Action.isRollback : Action → Bool
  | .txFinish commitState => !commitState
  | _ => false

/-- `block(SCOPE_FOR)` reports an error and is rolled back, and its block frame and execution
frame stay; and an immediate event of a rolled-back transaction stays in the stream. -/
theorem block_rollback_keeps_frames :
    (∃ run, dispatchCommand handlerEnvironment 1 1 1 (sv "block") [wordArg "SCOPE_FOR"]
        freshContext = some run ∧
      run.trace.getLast?.map Action.isRollback = some true ∧
      run.ctx.state.scope.blockFrames ≠ freshState.scope.blockFrames ∧
      run.ctx.state.execContexts ≠ freshState.execContexts) ∧
    (replayActions [.txBegin, .op (.pushEvent .includeBegin [sv "a.cmake"] ⟨[], 1, 1⟩ false),
      .txFinish false] freshContext).stream.map Event.body =
        [.plain .includeBegin [sv "a.cmake"]] := by
  refine ⟨?_, by decide +kernel⟩
  refine ⟨_, rfl, rfl, ?_, ?_⟩
  · decide +kernel
  · decide +kernel

end Nobify.Evaluator
