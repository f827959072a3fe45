import Nobify.Evaluator.Handlers
import Nobify.Evaluator.Runs

/-!
# Order and nesting of the event stream

Two questions about the stream a script leaves. Are events in it in the order in which they
were pushed? And are the brackets of commands well nested?

The brackets are, whatever the handlers do and however transactions end: an opening bracket
goes straight to the stream, and the closing one is the last thing its transaction flushes,
after everything executed inside it.

Push order is kept only by runs that never let an event overtake a buffered one. An event
overtakes when it goes straight to the stream, or into a new transaction, while an active
transaction still has something buffered. A function that executes a command does just that:
the event that announces the function waits in its buffer.
-/

namespace Nobify.Evaluator

open Nobify.Lib (Along)
open List Option

variable {after before ctx : EvalExecContext} {body : EventBody}

/-! ## Push order -/

/-- The marks the active transaction has buffered. -/
def EvalExecContext.activeMarks (ctx : EvalExecContext) : List Mark :=
  (ctx.transactions.head?.map Transaction.marks).getD []

/-- The push indices of the stream, then of the active buffer, then the next one. -/
def EvalExecContext.pushIndices (ctx : EvalExecContext) : List Nat :=
  (ctx.stream.map Event.mark ++ ctx.activeMarks).map Mark.pushIndex ++ [ctx.pushCount]

/-- Stream and active buffer are in push order and the other transactions have empty buffers. -/
structure InPushOrder (ctx : EvalExecContext) : Prop where
  indices : ctx.pushIndices.Pairwise (· < ·)
  parents : ∀ tx ∈ ctx.transactions.tail, tx.projections = []

/-- No active transaction has anything buffered. -/
def NothingBuffered (ctx : EvalExecContext) : Prop :=
  ∀ tx ∈ ctx.transactions, tx.projections = []

/-- The steps whose event passes by the buffers: a command is begun, or one of the immediate
kinds is pushed. -/
def Action.passesBuffers : Action → Bool
  | .txBegin | .commandBegin _ _ => true
  | .op (.pushEvent kind fields _ _) => (EventBody.plain kind fields).emitsImmediately
  | _ => false

/-- The step overtakes nothing. -/
def OvertakesNothing (action : Action) (ctx : EvalExecContext) : Prop :=
  action.passesBuffers = true → NothingBuffered ctx

instance (ctx : EvalExecContext) : Decidable (NothingBuffered ctx) :=
  inferInstanceAs (Decidable (∀ tx ∈ ctx.transactions, tx.projections = []))

instance (action : Action) (ctx : EvalExecContext) : Decidable (OvertakesNothing action ctx) :=
  inferInstanceAs (Decidable (_ → _))

/-- The next index may follow. -/
theorem pairwise_next {indices : List Nat} {next : Nat}
    (sorted : (indices ++ [next]).Pairwise (· < ·)) :
    (indices ++ [next] ++ [next + 1]).Pairwise (· < ·) := by
  refine pairwise_append.mpr ⟨sorted, pairwise_singleton _ _, ?_⟩
  intro index found after same
  obtain rfl := mem_singleton.mp same
  rcases mem_append.mp found with early | last
  · have before := (pairwise_append.mp sorted).2.2 index early next (by simp)
    omega
  · obtain rfl := mem_singleton.mp last
    omega

/-- A quiet step keeps the order. -/
theorem Quiet.inPushOrder (quiet : Quiet before after) (ordered : InPushOrder before) :
    InPushOrder after := by
  refine ⟨?_, ?_⟩
  · have same : after.pushIndices = before.pushIndices := by
      simp only [EvalExecContext.pushIndices, EvalExecContext.activeMarks, quiet.stream,
        quiet.count, quiet.marks]
    rw [same]
    exact ordered.indices
  · rw [quiet.parents]
    exact ordered.parents

/-- A push keeps the order when it goes to the buffer, or when nothing is buffered. -/
theorem Pushed.inPushOrder (pushed : Pushed body before after)
    (overtakes : body.emitsImmediately = true → NothingBuffered before)
    (ordered : InPushOrder before) : InPushOrder after := by
  have sorted := pairwise_next ordered.indices
  cases pushed with
  | direct reason grown count stack =>
    have empty : before.activeMarks = [] := by
      cases shape : before.transactions with
      | nil => simp [EvalExecContext.activeMarks, shape]
      | cons active parents =>
        have immediate : body.emitsImmediately = true := by simpa [shape] using reason
        have none := overtakes immediate active (by simp [shape])
        simp [EvalExecContext.activeMarks, shape, Transaction.marks, none]
    have emptyAfter : after.activeMarks = [] := by
      simpa [EvalExecContext.activeMarks, stack] using empty
    refine ⟨?_, stack ▸ ordered.parents⟩
    have same : after.pushIndices = before.pushIndices ++ [before.pushCount + 1] := by
      simp only [EvalExecContext.pushIndices, grown.marks_eq, empty, emptyAfter, count,
        append_nil, map_append, map_cons, map_nil]
    rw [same]
    exact sorted
  | buffered active changed parents stack reason stream count changedStack copies marks =>
    refine ⟨?_, ?_⟩
    · have same : after.pushIndices = before.pushIndices ++ [before.pushCount + 1] := by
        simp [EvalExecContext.pushIndices, EvalExecContext.activeMarks, stack, changedStack,
          stream, count, marks]
      rw [same]
      exact sorted
    · rw [changedStack]
      have kept := ordered.parents
      rwa [stack] at kept

/-- A finish keeps the order. -/
theorem Finished.inPushOrder {active : Transaction} {parents : List Transaction}
    {commitState : Bool} (finished : Finished active parents commitState before after)
    (stack : before.transactions = active :: parents) (ordered : InPushOrder before) :
    InPushOrder after := by
  have parentsEmpty : ∀ tx ∈ parents, tx.projections = [] := by
    have empty := ordered.parents
    rwa [stack] at empty
  refine ⟨?_, ?_⟩
  · have nothing : after.activeMarks = [] := by
      cases shape : parents with
      | nil => simp [EvalExecContext.activeMarks, finished.stack, shape]
      | cons parent rest =>
        have empty := parentsEmpty parent (by simp [shape])
        simp [EvalExecContext.activeMarks, finished.stack, shape, Transaction.marks, empty]
    have buffer : before.activeMarks = active.marks := by
      simp [EvalExecContext.activeMarks, stack]
    have sub : after.pushIndices.Sublist before.pushIndices := by
      simp only [EvalExecContext.pushIndices, nothing, buffer, finished.grown.marks_eq,
        finished.count, append_nil]
      exact (((List.Sublist.refl _).append (flushedMarks_sublist active commitState)).map
        _).append (List.Sublist.refl _)
    exact ordered.indices.sublist sub
  · rw [finished.stack]
    exact fun tx found => parentsEmpty tx (mem_of_mem_tail found)

/-- An operation that pushes an immediate kind passes by the buffers. -/
theorem Op.pushes_immediate {operation : Op} (pushed : operation.pushes ctx = some body)
    (immediate : body.emitsImmediately = true) : (Action.op operation).passesBuffers = true := by
  cases operation with
  | pushEvent kind fields origin allowStopped =>
    simp only [Op.pushes] at pushed
    split at pushed
    · cases pushed
    · cases pushed
      exact immediate
  | emitDiag request =>
    simp only [Op.pushes] at pushed
    split at pushed
    · cases pushed
    · cases pushed
      cases immediate
  | declareTarget declaration declaredDir origin =>
    simp only [Op.pushes] at pushed
    split at pushed
    · cases pushed
    · cases pushed
      cases immediate
  | _ => cases pushed

/-- A begin keeps the order when nothing is buffered. -/
theorem txBegin_inPushOrder (nothing : NothingBuffered ctx) (ordered : InPushOrder ctx) :
    InPushOrder ctx.txBegin := by
  have empty : ctx.activeMarks = [] := by
    cases shape : ctx.transactions with
    | nil => simp [EvalExecContext.activeMarks, shape]
    | cons active parents =>
      have none := nothing active (by simp [shape])
      simp [EvalExecContext.activeMarks, shape, Transaction.marks, none]
  have same : ctx.txBegin.pushIndices = ctx.pushIndices := by
    simp only [EvalExecContext.pushIndices, empty]
    rfl
  exact ⟨same ▸ ordered.indices, nothing⟩

/-- A step that overtakes nothing keeps the order. -/
theorem step_inPushOrder (action : Action) (ctx : EvalExecContext)
    (overtakes : OvertakesNothing action ctx) (ordered : InPushOrder ctx) :
    InPushOrder (action.apply ctx) := by
  cases action with
  | op operation =>
    have effect := operation.effect ctx
    cases pushes : operation.pushes ctx with
    | none =>
      rw [pushes] at effect
      exact Quiet.inPushOrder effect ordered
    | some body =>
      rw [pushes] at effect
      exact Pushed.inPushOrder effect
        (fun immediate => overtakes (Op.pushes_immediate pushes immediate)) ordered
  | txBegin => exact txBegin_inPushOrder (overtakes rfl) ordered
  | commandBegin info origin =>
    cases stopped : ctx.shouldStop with
    | true =>
      simp only [Action.apply, pushEvent_refused ctx _ origin false (by simp [stopped])]
      exact ordered
    | false =>
      exact (pushEvent_effect ctx (.commandBegin info) origin false
        (by simp [stopped])).inPushOrder (fun _ => overtakes rfl) ordered
  | commandEnd info status origin =>
    exact (pushEvent_effect ctx (.commandEnd info status) origin true (by simp)).inPushOrder
      (fun immediate => by cases immediate) ordered
  | txFinish commitState =>
    cases stack : ctx.transactions with
    | nil =>
      have same : ctx.txFinish commitState = ctx := by simp [EvalExecContext.txFinish, stack]
      rw [Action.apply, same]
      exact ordered
    | cons active parents => exact (txFinish_effect stack commitState).inPushOrder stack ordered

/-- In a script whose steps overtake nothing, the stream is in push order at every moment. -/
theorem stream_in_push_order (env : Environment) (depth : Nat) (script : List Node)
    (ctx : EvalExecContext) (run : Run EvalResult) (empty : ctx.stream = [])
    (idle : ctx.transactions = []) (executed : runPrepared env depth script ctx = some run)
    (overtakes : Along Action.apply OvertakesNothing run.trace ctx) :
    run.ctx = replayActions run.trace ctx ∧ ∀ done rest, run.trace = done ++ rest →
        ((replayActions done ctx).stream.map Event.pushIndex).Pairwise (· < ·) := by
  refine ⟨(runPrepared_sound env depth script ctx run executed).1, ?_⟩
  intro done rest split
  rw [split, Lib.along_append] at overtakes
  have start : InPushOrder ctx := by
    refine ⟨?_, by simp [idle]⟩
    simp [EvalExecContext.pushIndices, EvalExecContext.activeMarks, empty, idle]
  have ordered := Lib.along_invariant Action.apply step_inPushOrder overtakes.1 start
  have sub : ((replayActions done ctx).stream.map Event.pushIndex).Sublist
      (replayActions done ctx).pushIndices := by
    simp only [EvalExecContext.pushIndices, map_append, List.map_map, append_assoc]
    exact sublist_append_left _ _
  exact ordered.indices.sublist sub

/-- A script of two commands that execute nothing inside. -/
def flatScript : List Node :=
  [.command 1 1 (sv "message") [wordArg "hello"], .command 2 1 (sv "unknown") []]

/-- The two commands overtake nothing. -/
theorem stream_in_push_order_flatScript :
    ∃ run, runPrepared handlerEnvironment 1 flatScript freshContext = some run ∧
      run.ctx.stream.length = 5 ∧
      (run.ctx.stream.map Event.pushIndex).Pairwise (· < ·) := by
  refine ⟨_, rfl, by decide +kernel, ?_⟩
  have ordered := stream_in_push_order handlerEnvironment 1 flatScript freshContext _ rfl rfl rfl
    (by decide +kernel)
  rw [ordered.1]
  exact ordered.2 _ [] (append_nil _).symm

/-- A script that defines a function and calls it. -/
def functionScript : List Node :=
  [.functionDef 1 1 (sv "f") [] [.command 2 1 (sv "message") [wordArg "hello"]],
    .command 4 1 (sv "f") []]

/-- The brackets of the command inside the function reach the stream before the event that
announced the function, which was pushed first. -/
theorem functionScript_overtakes :
    ∃ run, runPrepared handlerEnvironment 2 functionScript freshContext = some run ∧
      ¬ (run.ctx.stream.map Event.pushIndex).Pairwise (· < ·) := by
  refine ⟨_, rfl, ?_⟩
  decide +kernel

/-! ## Nesting of the brackets -/

/-- A bracket of a command, as it stands in the stream. -/
inductive Bracket where
  | opening (info : CommandInfo)
  | closing (info : CommandInfo) (status : CommandStatus)
  deriving DecidableEq

/-- The bracket an event is. -/
def EventBody.bracket? : EventBody → Option Bracket
  | .commandBegin info => some (.opening info)
  | .commandEnd info status => some (.closing info status)
  | _ => none

/-- The brackets among marked events. -/
def brackets (marks : List Mark) : List Bracket := marks.filterMap fun mark => mark.body.bracket?

/-- The brackets of the stream. -/
def EvalExecContext.streamBrackets (ctx : EvalExecContext) : List Bracket :=
  brackets (ctx.stream.map Event.mark)

/-- The bracket calls of the dispatcher among the steps of a run. -/
def dispatched (trace : List Action) : List Bracket :=
  trace.filterMap fun
    | .commandBegin info _ => some (.opening info)
    | .commandEnd info status _ => some (.closing info status)
    | _ => none

/-- Sequences in which each opening bracket is closed by one of the same command, around a well
nested sequence. -/
inductive WellNested : List Bracket → Prop where
  | nil : WellNested []
  | pair {info : CommandInfo} {status : CommandStatus} {inner rest : List Bracket}
      (body : WellNested inner) (tail : WellNested rest) :
      WellNested (.opening info :: inner ++ .closing info status :: rest)

/-- The dispatcher's calls of runs one after the other. -/
theorem dispatched_append (first second : List Action) :
    dispatched (first ++ second) = dispatched first ++ dispatched second :=
  filterMap_append

/-- The dispatcher's calls for one command surround those made inside. -/
theorem dispatched_commandActions (info : CommandInfo) (origin : Origin) (inner : List Action)
    (status : CommandStatus) (commitState : Bool) :
    dispatched (commandActions info origin inner status commitState) =
      .opening info :: dispatched inner ++ [.closing info status] := by
  simp [dispatched, commandActions]

/-- The dispatcher's calls of a run are well nested. -/
theorem Runs.dispatched_wellNested {trace : List Action} (run : Runs ctx trace) :
    WellNested (dispatched trace) := by
  induction run with
  | nil => exact .nil
  | op _ ih => exact ih
  | @command ctx info origin inner rest status commitState _ _ _ bodyIh tailIh =>
    have nested : WellNested (.opening info :: dispatched inner ++
        .closing info status :: dispatched rest) := .pair bodyIh tailIh
    rw [dispatched_append, dispatched_commandActions]
    simpa using nested

/-- An event that is no bracket adds none. -/
theorem EventBody.bracket?_eq_none (plain : body.isBracket = false) : body.bracket? = none := by
  cases body <;> simp_all [EventBody.isBracket, EventBody.bracket?]

/-- A finish flushes every bracket of its buffer, committed or not. -/
theorem brackets_flushedMarks (tx : Transaction) (commitState : Bool) :
    brackets (tx.flushedMarks commitState) = brackets tx.marks := by
  simp only [Transaction.flushedMarks, flushedProjections, Transaction.marks, brackets,
    filterMap_map]
  induction tx.projections with
  | nil => rfl
  | cons projection rest ih =>
    cases kept : (commitState || projection.keepOnFailure) with
    | true =>
      rw [filter_cons_of_pos (by simpa using kept), filterMap_cons, filterMap_cons, ih]
    | false =>
      have none : ((fun mark : Mark => mark.body.bracket?) ∘ Projection.mark) projection =
          Option.none := by
        cases projection with
        | diag buffered => rfl
        | event buffered =>
          cases body : buffered.body <;>
            simp_all [Projection.keepOnFailure, Projection.mark, Projection.toEvent, Event.mark,
              EventBody.bracket?]
      rw [filter_cons_of_neg (by simp [kept]), filterMap_cons_none none, ih]

/-- What steps leave of the stream's brackets and of the active buffer: the stream grew by the
given brackets and the buffer by none. -/
structure AddsBrackets (before after : EvalExecContext) (added : List Bracket) : Prop where
  grown : ∃ marks, Appends before after marks ∧ brackets marks = added
  parents : after.transactions.tail = before.transactions.tail
  buffer : ∃ own, after.transactions.head?.map Transaction.marks =
    before.transactions.head?.map (fun tx => tx.marks ++ own) ∧ brackets own = []

/-- Steps one after the other add the brackets of both. -/
theorem AddsBrackets.trans {first second third : EvalExecContext} {early late : List Bracket}
    (head : AddsBrackets first second early) (tail : AddsBrackets second third late) :
    AddsBrackets first third (early ++ late) := by
  obtain ⟨marks, grown, shown⟩ := head.grown
  obtain ⟨more, grownMore, shownMore⟩ := tail.grown
  obtain ⟨own, buffer, none⟩ := head.buffer
  obtain ⟨later, bufferLater, noneLater⟩ := tail.buffer
  refine ⟨⟨marks ++ more, grown.trans grownMore, ?_⟩, tail.parents.trans head.parents,
    ⟨own ++ later, ?_, ?_⟩⟩
  · simp only [brackets, filterMap_append] at shown shownMore ⊢
    rw [shown, shownMore]
  · rw [bufferLater]
    cases shape : second.transactions with
    | nil =>
      cases origin : first.transactions with
      | nil => rfl
      | cons active parents => simp [shape, origin] at buffer
    | cons active parents =>
      cases origin : first.transactions with
      | nil => simp [shape, origin] at buffer
      | cons start rest =>
        simp only [shape, origin, List.head?_cons, map_some, some.injEq] at buffer ⊢
        rw [buffer, append_assoc]
  · simp only [brackets, filterMap_append] at none noneLater ⊢
    rw [none, noneLater]
    rfl

/-- An operation of a handler adds no bracket. -/
theorem Op.addsBrackets (operation : Op) (ctx : EvalExecContext) :
    AddsBrackets ctx (operation.apply ctx) [] := by
  have effect := operation.effect ctx
  cases pushes : operation.pushes ctx with
  | none =>
    rw [pushes] at effect
    exact ⟨⟨[], .of_eq effect.stream, rfl⟩, effect.parents, ⟨[], by simp [effect.marks], rfl⟩⟩
  | some body =>
    rw [pushes] at effect
    have none := EventBody.bracket?_eq_none (Op.pushes_not_bracket pushes)
    cases effect with
    | direct reason grown count stack =>
      exact ⟨⟨_, grown, by simp [brackets, none]⟩, by rw [stack], ⟨[], by simp [stack], rfl⟩⟩
    | buffered active changed parents stack reason stream count changedStack copies marks =>
      exact ⟨⟨[], .of_eq stream, rfl⟩, by simp [stack, changedStack],
        ⟨_, by simp only [stack, changedStack, List.head?_cons, map_some, marks]; rfl,
          by simp [brackets, none]⟩⟩

/-- A command in a running context opens with its bracket in the stream and an empty buffer. -/
theorem commandBegin_effect (info : CommandInfo) (origin : Origin)
    (running : ctx.shouldStop = false) :
    (∃ mark : Mark, mark.body = .commandBegin info ∧
      Appends ctx (replayActions [.txBegin, .commandBegin info origin] ctx) [mark]) ∧
    (replayActions [.txBegin, .commandBegin info origin] ctx).transactions =
      snapshotState ctx.state :: ctx.transactions := by
  have pushed := pushEvent_effect ctx.txBegin (.commandBegin info) origin false
    (by simpa [EvalExecContext.shouldStop, EvalExecContext.txBegin] using running)
  have begun : Appends ctx ctx.txBegin [] := .of_eq rfl
  cases pushed with
  | direct reason grown count stack => exact ⟨⟨_, rfl, begun.trans grown⟩, stack⟩
  | buffered active changed parents stack reason => cases reason

/-- A command adds its own pair around what is added inside. -/
theorem command_addsBrackets {inside : EvalExecContext} {info : CommandInfo} {origin : Origin}
    {added : List Bracket} (status : CommandStatus) (commitState : Bool)
    (running : ctx.shouldStop = false)
    (body : AddsBrackets (replayActions [.txBegin, .commandBegin info origin] ctx) inside added) :
    AddsBrackets ctx (replayActions [.commandEnd info status origin, .txFinish commitState] inside)
      (.opening info :: added ++ [.closing info status]) := by
  obtain ⟨⟨first, opens, begun⟩, opened⟩ := commandBegin_effect info origin running
  obtain ⟨marks, grown, shown⟩ := body.grown
  obtain ⟨own, buffer, none⟩ := body.buffer
  have parents := body.parents
  rw [opened] at buffer parents
  cases shape : inside.transactions with
  | nil => simp [shape] at buffer
  | cons active rest =>
    obtain rfl : rest = ctx.transactions := by simpa [shape] using parents
    have own_eq : active.marks = own := by
      simpa [shape, snapshotState, Transaction.marks] using buffer
    have pushed := pushEvent_effect inside (.commandEnd info status) origin true (by simp)
    cases pushed with
    | direct reason => simp [shape, EventBody.emitsImmediately] at reason
    | buffered head changed parents stack reason stream count changedStack copies pushedMarks =>
      obtain ⟨rfl, rfl⟩ : active = head ∧ ctx.transactions = parents := by
        simpa [shape] using stack
      have finished := txFinish_effect changedStack commitState
      have flushed : brackets (changed.flushedMarks commitState) = [.closing info status] := by
        rw [brackets_flushedMarks, pushedMarks, own_eq]
        simp only [brackets, filterMap_append] at none ⊢
        rw [none]
        rfl
      have ended : Appends inside (inside.pushEvent (.commandEnd info status) origin true) [] :=
        .of_eq stream
      refine ⟨⟨_, begun.trans (grown.trans (ended.trans finished.grown)), ?_⟩, ?_, ⟨[], ?_, rfl⟩⟩
      · simp only [brackets, filterMap_append] at shown flushed ⊢
        rw [shown, filterMap_nil, flushed]
        simp [opens, EventBody.bracket?]
      · exact congrArg List.tail finished.stack
      · simp only [append_nil]
        exact congrArg (fun stack => stack.head?.map Transaction.marks) finished.stack

/-- A run adds to the stream the brackets of the commands it dispatches. -/
theorem Runs.addsBrackets {trace : List Action} (run : Runs ctx trace) :
    AddsBrackets ctx (replayActions trace ctx) (dispatched trace) := by
  induction run with
  | nil => exact ⟨⟨[], .of_eq rfl, rfl⟩, rfl, ⟨[], by simp, rfl⟩⟩
  | @op ctx operation rest _ ih => exact (operation.addsBrackets ctx).trans ih
  | @command ctx info origin inner rest status commitState running _ _ bodyIh tailIh =>
    have here := command_addsBrackets status commitState running bodyIh
    have whole : AddsBrackets ctx
        (replayActions (commandActions info origin inner status commitState) ctx)
        (dispatched (commandActions info origin inner status commitState)) := by
      rw [dispatched_commandActions]
      simpa [commandActions] using here
    have final : replayActions (commandActions info origin inner status commitState ++ rest) ctx =
        replayActions rest
          (replayActions (commandActions info origin inner status commitState) ctx) :=
      Lib.replay_append Action.apply _ _ ctx
    rw [dispatched_append, final]
    exact whole.trans tailIh

/-- The brackets in the stream of a script are those of the commands it dispatched, in order,
and they are well nested. -/
theorem stream_brackets_wellNested (env : Environment) (depth : Nat) (script : List Node)
    (ctx : EvalExecContext) (run : Run EvalResult) (empty : ctx.stream = [])
    (executed : runPrepared env depth script ctx = some run) :
    run.ctx.streamBrackets = dispatched run.trace ∧ WellNested run.ctx.streamBrackets := by
  obtain ⟨final, steps⟩ := runPrepared_sound env depth script ctx run executed
  obtain ⟨marks, grown, shown⟩ := steps.addsBrackets.grown
  have same : run.ctx.streamBrackets = dispatched run.trace := by
    rw [final, EvalExecContext.streamBrackets, grown.marks_eq, empty]
    simpa using shown
  exact ⟨same, same ▸ steps.dispatched_wellNested⟩

/-- The function of `functionScript` and the command inside it. -/
theorem stream_brackets_wellNested_functionScript :
    ∃ run, runPrepared handlerEnvironment 2 functionScript freshContext = some run ∧
      run.ctx.streamBrackets =
        [.opening ⟨sv "f", .functionCommand, 0⟩, .opening ⟨sv "message", .builtin, 1⟩,
          .closing ⟨sv "message", .builtin, 1⟩ .success,
          .closing ⟨sv "f", .functionCommand, 0⟩ .success] ∧
      WellNested run.ctx.streamBrackets := by
  refine ⟨_, rfl, by decide +kernel, ?_⟩
  exact (stream_brackets_wellNested handlerEnvironment 2 functionScript freshContext _ rfl rfl).2

end Nobify.Evaluator
