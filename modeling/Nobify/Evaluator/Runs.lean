import Nobify.Evaluator.Effect

/-!
# Runs of the evaluator

A run is a list of steps; its final context is their replay. The runs that scripts produce
have a shape: operations of handlers, and commands whose two bracket events and transaction
surround the steps of the work done inside. `Runs` is that shape, and every finished
execution of a program, a command or a script has it, whatever the handlers are.
-/

namespace Nobify.Evaluator

open Option

/-- The steps of one command around those of its work. -/
def commandActions (info : CommandInfo) (origin : Origin) (inner : List Action)
    (status : CommandStatus) (commitState : Bool) : List Action :=
  [.txBegin, .commandBegin info origin] ++ inner ++
    [.commandEnd info status origin, .txFinish commitState]

/-- The steps of a run from a context. A command is begun only in a running context. -/
inductive Runs : EvalExecContext → List Action → Prop where
  | nil {ctx : EvalExecContext} : Runs ctx []
  | op {ctx : EvalExecContext} {operation : Op} {rest : List Action}
      (tail : Runs (operation.apply ctx) rest) : Runs ctx (.op operation :: rest)
  | command {ctx : EvalExecContext} {info : CommandInfo} {origin : Origin}
      {inner rest : List Action} {status : CommandStatus} {commitState : Bool}
      (running : ctx.shouldStop = false)
      (body : Runs (replayActions [.txBegin, .commandBegin info origin] ctx) inner)
      (tail : Runs (replayActions (commandActions info origin inner status commitState) ctx) rest) :
      Runs ctx (commandActions info origin inner status commitState ++ rest)

variable {ctx : EvalExecContext}

/-- Runs one after the other are a run. -/
theorem Runs.append {first second : List Action} (head : Runs ctx first)
    (tail : Runs (replayActions first ctx) second) : Runs ctx (first ++ second) := by
  induction head with
  | nil => exact tail
  | op _ ih => exact .op (ih tail)
  | command running body _ _ ih =>
    rw [List.append_assoc]
    refine .command running body (ih ?_)
    simpa using tail

/-- One operation is well bracketed. -/
theorem op_balanced (operation : Op) : BalancedActions [.op operation] :=
  .plain (by simp) (by simp) .nil

variable {info : CommandInfo} {origin : Origin}

/-- The steps of a command are well bracketed around well-bracketed work. -/
theorem commandActions_balanced {inner : List Action} {status : CommandStatus} {commitState : Bool}
    (body : BalancedActions inner) :
    BalancedActions (commandActions info origin inner status commitState) := by
  have last : BalancedActions [Action.commandEnd info status origin] :=
    .plain (by simp) (by simp) .nil
  have whole : BalancedActions
      (Action.commandBegin info origin :: (inner ++ [.commandEnd info status origin])) :=
    .plain (by simp) (by simp) (body.append last)
  have nested : BalancedActions (.txBegin :: (Action.commandBegin info origin ::
      (inner ++ [.commandEnd info status origin])) ++ [.txFinish commitState]) :=
    .nested rfl ⟨commitState, rfl⟩ whole .nil
  simpa [commandActions] using nested

/-! ## Every execution is a run -/

/-- A finished execution reports the steps that lead to its context. -/
def Sound {α : Type} (ctx : EvalExecContext) (execution : Option (Run α)) : Prop :=
  ∀ run, execution = some run → run.ctx = replayActions run.trace ctx ∧ Runs ctx run.trace

/-- A program executes soundly when the commands it executes do. -/
theorem exec_sound {α : Type}
    {dispatch : Nat → Nat → StringView → List Arg → EvalExecContext → Option (Run EvalResult)}
    (nested : ∀ line col name args ctx, Sound ctx (dispatch line col name args ctx))
    (program : Prog α) (ctx : EvalExecContext) : Sound ctx (program.exec dispatch ctx) := by
  induction program generalizing ctx with
  | done value =>
    intro run finished
    cases finished
    exact ⟨rfl, .nil⟩
  | read next ih => exact ih ctx ctx
  | act operation next ih =>
    intro run finished
    obtain ⟨rest, executed, rfl⟩ := map_eq_some_iff.mp finished
    obtain ⟨final, steps⟩ := ih (operation.apply ctx) rest executed
    exact ⟨final, .op steps⟩
  | call line col name args next ih =>
    intro run finished
    obtain ⟨command, executed, later⟩ := bind_eq_some_iff.mp finished
    obtain ⟨rest, executedRest, rfl⟩ := map_eq_some_iff.mp later
    obtain ⟨final, steps⟩ := nested line col name args ctx command executed
    obtain ⟨finalRest, stepsRest⟩ := ih command.value command.ctx rest executedRest
    rw [final] at finalRest stepsRest
    exact ⟨by simpa using finalRest, steps.append stepsRest⟩

/-- A bracketed command executes soundly in a running context when its work does. -/
theorem bracketCommand_sound {α : Type} {work : EvalExecContext → Option (Run α)}
    {decide : EvalExecContext → α → EvalExecContext → CommandStatus × Bool}
    (running : ctx.shouldStop = false) (inside : ∀ opened, Sound opened (work opened)) :
    Sound ctx (bracketCommand info origin ctx work decide) := by
  intro run finished
  obtain ⟨inner, executed, rfl⟩ := map_eq_some_iff.mp finished
  obtain ⟨final, steps⟩ := inside _ inner executed
  generalize decide _ inner.value inner.ctx = decision
  constructor
  · simp only [Lib.replay_append, final]
    rfl
  · have whole : Runs ctx (commandActions info origin inner.trace decision.1 decision.2 ++ []) :=
      .command running steps .nil
    simpa [commandActions] using whole

/-- Changing the value of an execution keeps it sound. -/
theorem Sound.map {α β : Type} {execution : Option (Run α)} (sound : Sound ctx execution)
    (value : Run α → β) :
    Sound ctx (execution.map fun run => { run with value := value run }) := by
  intro run finished
  obtain ⟨inner, executed, rfl⟩ := map_eq_some_iff.mp finished
  exact sound inner executed

/-- Commands execute soundly, at every depth and with any handlers. -/
theorem dispatchCommand_sound (env : Environment) (depth line col : Nat) (name : StringView)
    (args : List Arg) (ctx : EvalExecContext) :
    Sound ctx (dispatchCommand env depth line col name args ctx) := by
  induction depth generalizing line col name args ctx with
  | zero =>
    intro run finished
    cases finished
  | succ depth ih =>
    unfold dispatchCommand
    simp only
    cases stopped : ctx.shouldStop with
    | true =>
      intro run finished
      cases finished
      exact ⟨rfl, .nil⟩
    | false =>
      simp only [Bool.false_eq_true, if_false]
      split
      · exact (bracketCommand_sound stopped fun _ => exec_sound ih _ _).map _
      · exact (bracketCommand_sound stopped fun _ => exec_sound ih _ _).map _
      · exact bracketCommand_sound stopped fun _ => exec_sound ih _ _

/-- A whole script executes soundly. -/
theorem runPrepared_sound (env : Environment) (depth : Nat) (script : List Node)
    (ctx : EvalExecContext) : Sound ctx (runPrepared env depth script ctx) :=
  exec_sound (dispatchCommand_sound env depth) _ ctx

end Nobify.Evaluator
