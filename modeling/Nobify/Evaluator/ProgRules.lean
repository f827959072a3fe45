import Nobify.Evaluator.Exec

/-!
# Rules for programs

Programs over the interface form a lawful monad, so two programs that do the same in another
grouping are equal. `Performs` says which operations a program can reach and that it calls no
command; such a program always ends, whatever commands do.
-/

namespace Nobify.Evaluator

open List Option

namespace Prog

/-! ## Laws -/

theorem bind_done {α : Type} (program : Prog α) : program.bind .done = program := by
  induction program with
  | done value => rfl
  | read next ih => exact congrArg Prog.read (funext ih)
  | act op next ih => exact congrArg (Prog.act op) ih
  | call line col name args next ih => exact congrArg (Prog.call line col name args) (funext ih)

theorem bind_bind {α β γ : Type} (program : Prog α) (next : α → Prog β) (last : β → Prog γ) :
    (program.bind next).bind last = program.bind fun value => (next value).bind last := by
  induction program with
  | done value => rfl
  | read look ih => exact congrArg Prog.read (funext ih)
  | act op rest ih => exact congrArg (Prog.act op) ih
  | call line col name args rest ih => exact congrArg (Prog.call line col name args) (funext ih)

instance : LawfulMonad Prog := LawfulMonad.mk' Prog
  (fun program => bind_done program) (fun _ _ => rfl)
  (fun program next last => bind_bind program next last)

/-! ## What a program performs -/

/-- Every operation that the program can reach is one of these, and it calls no command. -/
def Performs {α : Type} (allowed : Op → Prop) : Prog α → Prop
  | .done _ => True
  | .read next => ∀ ctx, (next ctx).Performs allowed
  | .act op next => allowed op ∧ next.Performs allowed
  | .call .. => False

variable {α β : Type} {allowed : Op → Prop}

theorem Performs.pure (value : α) : (Pure.pure value : Prog α).Performs allowed := trivial

theorem Performs.context : context.Performs allowed := fun _ => trivial

theorem Performs.perform {op : Op} (fine : allowed op) : (Prog.perform op).Performs allowed :=
  ⟨fine, trivial⟩

theorem Performs.bind {program : Prog α} {next : α → Prog β} (first : program.Performs allowed)
    (second : ∀ value, (next value).Performs allowed) : (program >>= next).Performs allowed := by
  induction program with
  | done value => exact second value
  | read look ih => exact fun ctx => ih ctx (first ctx)
  | act op rest ih => exact ⟨first.1, ih first.2⟩
  | call line col name args rest ih => exact first.elim

theorem Performs.mono {more : Op → Prop} {program : Prog α} (performs : program.Performs allowed)
    (implies : ∀ op, allowed op → more op) : program.Performs more := by
  induction program with
  | done value => trivial
  | read look ih => exact fun ctx => ih ctx (performs ctx)
  | act op rest ih => exact ⟨implies op performs.1, ih performs.2⟩
  | call line col name args rest ih => exact performs.elim

theorem Performs.ite {condition : Prop} [Decidable condition] {yes no : Prog α}
    (whenYes : yes.Performs allowed) (whenNo : no.Performs allowed) :
    (if condition then yes else no).Performs allowed := by
  by_cases holds : condition
  · rw [if_pos holds]
    exact whenYes
  · rw [if_neg holds]
    exact whenNo

theorem emitDiag_performs {request : DiagRequest} (fine : allowed (.emitDiag request)) :
    (emitDiag request).Performs allowed := by
  unfold emitDiag
  apply Performs.context.bind
  intro before
  apply Performs.ite (Performs.pure _)
  apply (Performs.perform fine).bind
  intro _
  apply (Performs.context.bind fun _ => Performs.pure _).bind
  intro stopped
  exact Performs.ite (Performs.pure _) (Performs.pure _)

/-! ## What a program gives -/

/-- Every value that the program can end with satisfies this. -/
def Gives {α : Type} (holds : α → Prop) : Prog α → Prop
  | .done value => holds value
  | .read next => ∀ ctx, (next ctx).Gives holds
  | .act _ next => next.Gives holds
  | .call _ _ _ _ next => ∀ result, (next result).Gives holds

section Gives

variable {holds : α → Prop} {program : Prog α}

theorem Gives.bind {later : β → Prop} {next : α → Prog β} (first : program.Gives holds)
    (second : ∀ value, holds value → (next value).Gives later) :
    (program >>= next).Gives later := by
  induction program with
  | done value => exact second value first
  | read look ih => exact fun ctx => ih ctx (first ctx)
  | act op rest ih => exact ih first
  | call line col name args rest ih => exact fun result => ih result (first result)

theorem Gives.all (program : Prog α) : program.Gives fun _ => True := by
  induction program with
  | done value => trivial
  | read next ih => exact ih
  | act op next ih => exact ih
  | call line col name args next ih => exact ih

end Gives

/-! ## Running -/

variable (dispatch : Nat → Nat → StringView → List Arg → EvalExecContext → Option (Run EvalResult))

/-- A program without calls ends, with steps that are its operations. -/
theorem Performs.exec {program : Prog α} (performs : program.Performs allowed)
    (ctx : EvalExecContext) :
    ∃ run, program.exec dispatch ctx = some run ∧
      ∀ action ∈ run.trace, ∃ op, action = .op op ∧ allowed op := by
  induction program generalizing ctx with
  | done value => exact ⟨⟨value, ctx, []⟩, rfl, fun action mem => nomatch mem⟩
  | read next ih => exact ih ctx (performs ctx) ctx
  | act op next ih =>
    obtain ⟨run, went, fine⟩ := ih performs.2 (op.apply ctx)
    refine ⟨{ run with trace := .op op :: run.trace }, ?_, ?_⟩
    · show (next.exec dispatch (op.apply ctx)).map _ = _
      rw [went]
      rfl
    · intro action mem
      rcases mem_cons.mp mem with here | later
      · exact ⟨op, here, performs.1⟩
      · exact fine action later
  | call line col name args next ih => exact performs.elim

/-- What no allowed operation changes is the same at the end of the run. -/
theorem Performs.keeps {look : EvalExecContext → β} {program : Prog α}
    (performs : program.Performs allowed)
    (kept : ∀ op, allowed op → ∀ ctx, look (op.apply ctx) = look ctx) {ctx : EvalExecContext}
    {run : Run α} (went : program.exec dispatch ctx = some run) : look run.ctx = look ctx := by
  induction program generalizing ctx run with
  | done value =>
    cases went
    rfl
  | read next ih => exact ih ctx (performs ctx) went
  | act op next ih =>
    obtain ⟨rest, inner, same⟩ := map_eq_some_iff.mp went
    cases same
    exact (ih performs.2 inner).trans (kept op performs.1 ctx)
  | call line col name args next ih => exact performs.elim

/-- A sequence runs its second part from where the first one ended. -/
theorem exec_bind {program : Prog α} {next : α → Prog β} {ctx : EvalExecContext} {first : Run α}
    {second : Run β} (went : program.exec dispatch ctx = some first)
    (wentOn : (next first.value).exec dispatch first.ctx = some second) :
    (program >>= next).exec dispatch ctx =
      some { second with trace := first.trace ++ second.trace } := by
  induction program generalizing ctx first with
  | done value =>
    cases went
    exact wentOn
  | read look ih => exact ih ctx went wentOn
  | act op rest ih =>
    obtain ⟨run, inner, same⟩ := map_eq_some_iff.mp went
    cases same
    show ((rest >>= next).exec dispatch (op.apply ctx)).map _ = _
    rw [ih inner wentOn]
    rfl
  | call line col name args rest ih =>
    obtain ⟨command, called, continued⟩ := bind_eq_some_iff.mp went
    obtain ⟨run, inner, same⟩ := map_eq_some_iff.mp continued
    cases same
    show (dispatch line col name args ctx).bind _ = _
    rw [called]
    show ((rest command.value >>= next).exec dispatch command.ctx).map _ = _
    rw [ih command.value inner wentOn]
    simp only [map_some, append_assoc]

/-- A value made from the value of a program. -/
theorem exec_bind_pure (made : α → β) {program : Prog α} {ctx : EvalExecContext} {run : Run α}
    (went : program.exec dispatch ctx = some run) :
    (program >>= fun value => Pure.pure (made value)).exec dispatch ctx =
      some ⟨made run.value, run.ctx, run.trace⟩ := by
  have wentOn : (Pure.pure (made run.value) : Prog β).exec dispatch run.ctx =
      some ⟨made run.value, run.ctx, []⟩ := rfl
  have whole := @exec_bind _ _ dispatch _ (fun value => Pure.pure (made value)) _ _ _ went wentOn
  rw [append_nil] at whole
  exact whole

/-- After a part that performs no operation a sequence is its second part. -/
theorem exec_bind_quiet {program : Prog α} {next : α → Prog β} {ctx between : EvalExecContext}
    {value : α} {second : Run β} (went : program.exec dispatch ctx = some ⟨value, between, []⟩)
    (wentOn : (next value).exec dispatch between = some second) :
    (program >>= next).exec dispatch ctx = some second :=
  exec_bind dispatch went wentOn

/-! ## Where a program ends -/

/-- The program ends, in a value and a context that satisfy this. -/
def Ends (program : Prog α) (ctx : EvalExecContext) (post : α → EvalExecContext → Prop) : Prop :=
  ∃ run, program.exec dispatch ctx = some run ∧ post run.value run.ctx

section Ends

variable {dispatch} {program : Prog α} {ctx : EvalExecContext} {post : α → EvalExecContext → Prop}

theorem Ends.pure {value : α} (here : post value ctx) :
    Ends dispatch (Pure.pure value : Prog α) ctx post := ⟨⟨value, ctx, []⟩, rfl, here⟩

theorem Ends.context {next : EvalExecContext → Prog α} (rest : Ends dispatch (next ctx) ctx post) :
    Ends dispatch (Prog.context >>= next) ctx post := rest

theorem Ends.perform {op : Op} {next : Unit → Prog α}
    (rest : Ends dispatch (next ()) (op.apply ctx) post) :
    Ends dispatch (Prog.perform op >>= next) ctx post := by
  obtain ⟨run, went, fine⟩ := rest
  refine ⟨{ run with trace := .op op :: run.trace }, ?_, fine⟩
  show ((next ()).exec dispatch (op.apply ctx)).map _ = _
  rw [went]
  rfl

theorem Ends.bind {next : α → Prog β} {last : β → EvalExecContext → Prop}
    (first : Ends dispatch program ctx post)
    (second : ∀ value after, post value after → Ends dispatch (next value) after last) :
    Ends dispatch (program >>= next) ctx last := by
  obtain ⟨run, went, fine⟩ := first
  obtain ⟨later, wentOn, fine⟩ := second run.value run.ctx fine
  exact ⟨_, exec_bind dispatch went wentOn, fine⟩

theorem Ends.mono {weaker : α → EvalExecContext → Prop} (ends : Ends dispatch program ctx post)
    (implies : ∀ value after, post value after → weaker value after) :
    Ends dispatch program ctx weaker := by
  obtain ⟨run, went, fine⟩ := ends
  exact ⟨run, went, implies run.value run.ctx fine⟩

/-- A program ends once. -/
theorem Ends.and {other : α → EvalExecContext → Prop} (first : Ends dispatch program ctx post)
    (second : Ends dispatch program ctx other) :
    Ends dispatch program ctx fun value after => post value after ∧ other value after := by
  obtain ⟨run, went, fine⟩ := first
  obtain ⟨again, wentAgain, alsoFine⟩ := second
  have same : run = again := some.inj (went.symm.trans wentAgain)
  exact ⟨run, went, fine, same ▸ alsoFine⟩

end Ends

end Prog

end Nobify.Evaluator
