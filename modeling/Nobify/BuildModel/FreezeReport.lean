import Nobify.BuildModel.FreezeIntegrity
import Nobify.BuildModel.GenexContext

/-!
# Freezes that fail without a word

Every pass of `bm_freeze_draft` up to the execution graph reports an error when it fails. The check
of the execution graph reports the cycles it meets, but a view query that fails makes it return
`false` and nothing else. A draft is rejected in silence exactly when the search, which follows at
every node the first successor below which something is missing or cyclic, ends at a failing query
in the first configuration where it does not end well.
-/

namespace Nobify.BuildModel

open Lib (Avoids)
open List

variable {diagnostic : Diagnostic} {model : Model} {genexEval : GenexEval}

/-- What `bm_freeze_draft` owes its caller: a model, or an error in the sink. -/
def FreezeAnswers (outcome : Freezing FrozenModel) : Prop :=
  (∃ model, outcome = .ok model) ∨ ∃ reported, outcome = .error (.failed reported) ∧
      ∃ diagnostic ∈ reported, diagnostic.severity = .error

/-- Under a configuration all view queries of the graph succeed, and it has no cycle. -/
def ExecClear (genexEval : GenexEval) (model : Model) (config : StringView) : Prop :=
  ∀ node ∈ execNodes model, Lib.Clear (execEdges genexEval model (freezeContext config)) node

/-- Under a configuration the first node that is not clear leads to a view query that fails. -/
def ExecDeadEnd (genexEval : GenexEval) (model : Model) (config : StringView) : Prop :=
  Lib.MeetsDeadEnd (execEdges genexEval model (freezeContext config)) (execNodes model)

/-- The draft resolves to a model with sound producers, and in the order of the check all
configurations before some configuration are clear, and that one ends at a failing query. -/
def RejectedInSilence (genexEval : GenexEval) (draft : Draft) : Prop :=
  ∃ model, freezeModel draft = .ok model ∧ validateProducers model.toModel = [] ∧
    ∃ before config after, model.knownConfigurations ++ [[]] = before ++ config :: after ∧
      (∀ other ∈ before, ExecClear genexEval model.toModel other) ∧
      ExecDeadEnd genexEval model.toModel config

/-! ## The reports of the check -/

/-- A check of the validation reports errors only. -/
theorem errorIf_severity {failed : Bool} {command cause hint : String}
    (member : diagnostic ∈ errorIf failed command cause hint) : diagnostic.severity = .error := by
  unfold errorIf at member
  split at member
  · rw [mem_singleton.mp member]
  · cases member

/-- Paths that are written twice are errors. -/
theorem duplicateProducers_severity {index : Nat} {paths : List StringView}
    {own other : BuildStepRecord → List StringView} {ownFirst : Bool}
    {cause ownHint otherHint : String}
    (member : diagnostic ∈ duplicateProducers model index paths own other ownFirst cause ownHint otherHint) :
    diagnostic.severity = .error := by
  unfold duplicateProducers at member
  obtain ⟨path, _, member⟩ := mem_flatMap.mp member
  obtain ⟨step, _, member⟩ := mem_flatMap.mp member
  have both : diagnostic ∈ ((own step.1).drop (if step.2 = index then path.2 + 1 else 0)).flatMap
        (fun written => errorIf (path.1 = written) "freeze" cause ownHint) ∨
      diagnostic ∈ (other step.1).flatMap
        (fun written => errorIf (path.1 = written) "freeze" cause otherHint) := by
    dsimp only at member
    split at member
    · exact mem_append.mp member
    · exact (mem_append.mp member).symm
  rcases both with again | crossed
  · obtain ⟨written, _, here⟩ := mem_flatMap.mp again
    exact errorIf_severity here
  · obtain ⟨written, _, here⟩ := mem_flatMap.mp crossed
    exact errorIf_severity here

/-- A broken contract of an owner is an error. -/
theorem validateStepOwnerContract_severity {step : BuildStepRecord}
    (member : diagnostic ∈ validateStepOwnerContract model step) :
    diagnostic.severity = .error := by
  unfold validateStepOwnerContract at member
  dsimp only at member
  split at member
  · exact errorIf_severity member
  · split at member
    · cases member
    · exact errorIf_severity member
    · exact errorIf_severity member

/-- A source with a wrong producer is an error. -/
theorem validateSourceProducer_severity {source : TargetSourceRecord}
    (member : diagnostic ∈ validateSourceProducer model source) : diagnostic.severity = .error := by
  unfold validateSourceProducer at member
  split at member
  · cases member
  · split at member
    · exact errorIf_severity member
    · exact errorIf_severity member

/-- The checks before the search report errors only. -/
theorem validateProducers_severity (member : diagnostic ∈ validateProducers model) :
    diagnostic.severity = .error := by
  unfold validateProducers at member
  rcases mem_append.mp member with early | bySource
  · rcases mem_append.mp early with byPath | byOwner
    · obtain ⟨step, _, here⟩ := mem_flatMap.mp byPath
      rcases mem_append.mp here with byOutput | byByproduct
      · exact duplicateProducers_severity byOutput
      · exact duplicateProducers_severity byByproduct
    · obtain ⟨step, _, here⟩ := mem_flatMap.mp byOwner
      exact validateStepOwnerContract_severity here
  · obtain ⟨target, _, here⟩ := mem_flatMap.mp bySource
    obtain ⟨source, _, here⟩ := mem_flatMap.mp here
    exact validateSourceProducer_severity here

/-- A cycle is an error. -/
theorem cycleErrors_severity {trail : Lib.Trail OrderNode} (member : diagnostic ∈ cycleErrors trail)
    : diagnostic.severity = .error := by
  obtain ⟨edge, _, here⟩ := mem_flatMap.mp member
  exact errorIf_severity here

/-- A search without a report reports no error. -/
theorem cycleErrors_eq_nil {trail : Lib.Trail OrderNode} :
    cycleErrors trail = [] ↔ trail.reports = [] := by
  unfold cycleErrors errorIf
  cases trail.reports with
  | nil => simp
  | cons first rest => simp

/-- What the check of the execution graph reports, when it succeeds and when it fails. -/
def checkedReports : Except (List Diagnostic) (List Diagnostic) → List Diagnostic
  | .ok reported => reported
  | .error reported => reported

/-- One configuration reports errors only. -/
theorem traceExecutionCycles_severity {ctx : QueryContext}
    (member : diagnostic ∈ checkedReports (traceExecutionCycles genexEval model ctx)) :
    diagnostic.severity = .error := by
  unfold traceExecutionCycles at member
  dsimp only at member
  split at member
  · exact cycleErrors_severity member
  · exact cycleErrors_severity member

/-- The check of the execution graph reports errors only. -/
theorem validateExecutionGraph_severity
    (member : diagnostic ∈ checkedReports (validateExecutionGraph genexEval model)) :
    diagnostic.severity = .error := by
  unfold validateExecutionGraph at member
  have early : ∀ other ∈ validateProducers model, other.severity = .error :=
    fun other => validateProducers_severity
  generalize validateProducers model = reported at member early
  generalize model.knownConfigurations ++ [[]] = configs at member
  induction configs generalizing reported with
  | nil => exact early diagnostic member
  | cons config rest ih =>
    rw [foldlM_cons] at member
    have here : ∀ other ∈ checkedReports
        (traceExecutionCycles genexEval model (freezeContext config)), other.severity = .error :=
      fun other => traceExecutionCycles_severity
    cases round : traceExecutionCycles genexEval model (freezeContext config) with
    | ok more =>
      rw [round] at member here
      refine ih (reported ++ more) ?_ member
      intro other listed
      exact (mem_append.mp listed).elim (early other) (here other)
    | error more =>
      rw [round] at member here
      exact (mem_append.mp member).elim (early diagnostic) (here diagnostic)

/-! ## The silent outcomes -/

/-- Without a report a configuration passes exactly when it is clear, and fails exactly when it ends
at a failing query. -/
theorem traceExecutionCycles_nil_iff {config : StringView} :
    (traceExecutionCycles genexEval model (freezeContext config) = .ok [] ↔
        ExecClear genexEval model config) ∧
      (traceExecutionCycles genexEval model (freezeContext config) = .error [] ↔
        ExecDeadEnd genexEval model config) := by
  have listed : ∀ node, execEdges genexEval model (freezeContext config) node ≠ none →
      node ∈ execNodes model := fun node known => mem_execNodes known
  have clear := Lib.traceFrom_clear_iff listed (le_refl (execNodes model).length)
  have meets := Lib.traceFrom_meets_iff listed (le_refl (execNodes model).length)
  unfold ExecClear ExecDeadEnd
  rw [← clear, ← meets]
  unfold traceExecutionCycles
  dsimp only
  cases Lib.traceFrom (execEdges genexEval model (freezeContext config)) (execNodes model).length
      (execNodes model) .start with
  | ok trail => simp [cycleErrors_eq_nil]
  | error trail => simp [cycleErrors_eq_nil]

/-- The check of the execution graph fails without a report. -/
theorem validateExecutionGraph_eq_error_nil : validateExecutionGraph genexEval model = .error [] ↔
      validateProducers model = [] ∧
        ∃ before config after, model.knownConfigurations ++ [[]] = before ++ config :: after ∧
          (∀ other ∈ before, ExecClear genexEval model other) ∧
          ExecDeadEnd genexEval model config := by
  have loop := Lib.foldlM_gather_error_nil
    (fun config => traceExecutionCycles genexEval model (freezeContext config))
    (fun reported config =>
      match traceExecutionCycles genexEval model (freezeContext config) with
      | .ok more => .ok (reported ++ more)
      | .error more => .error (reported ++ more))
    (fun reported item more round => by simp only [round])
    (fun reported item more round => by simp only [round])
    (model.knownConfigurations ++ [[]]) (validateProducers model)
  simp only [traceExecutionCycles_nil_iff] at loop
  exact loop

/-- A failing freeze of a draft of the builder is silent exactly when the draft is rejected in
silence: all passes before the execution graph report. -/
theorem not_freezeAnswers_iff {draft : Draft} (built : draft.Built) :
    ¬ FreezeAnswers (freezeDraft genexEval draft) ↔ RejectedInSilence genexEval draft := by
  have loud : Avoids FreezeStop.Quiet (freezeModel draft) := loud_freezeModel built
  unfold FreezeAnswers RejectedInSilence freezeDraft
  cases outcome : freezeModel draft with
  | error stop =>
    have heard : ¬ stop.Quiet := loud stop outcome
    have answers : ∃ reported, stop = .failed reported ∧
        ∃ diagnostic ∈ reported, diagnostic.severity = .error := by
      cases stop with
      | fault => exact absurd trivial heard
      | failed reported =>
        have some : ∃ diagnostic ∈ reported, diagnostic.severity = .error := by
          simpa [FreezeStop.Quiet] using heard
        exact ⟨reported, rfl, some⟩
    obtain ⟨reported, rfl, some⟩ := answers
    constructor
    · intro silent
      exact absurd (.inr ⟨reported, rfl, some⟩) silent
    · rintro ⟨model, same, _⟩
      cases same
  | ok model =>
    have silent : validateExecutionGraph genexEval model.toModel = .error [] ↔ _ :=
      validateExecutionGraph_eq_error_nil
    have severe : ∀ diagnostic ∈ checkedReports (validateExecutionGraph genexEval model.toModel),
        diagnostic.severity = .error := fun diagnostic => validateExecutionGraph_severity
    have only : (∃ other, (Except.ok model : Freezing FrozenModel) = .ok other ∧
          validateProducers other.toModel = [] ∧
          ∃ before config after, other.knownConfigurations ++ [[]] = before ++ config :: after ∧
            (∀ other' ∈ before, ExecClear genexEval other.toModel other') ∧
            ExecDeadEnd genexEval other.toModel config) ↔
        validateExecutionGraph genexEval model.toModel = .error [] := by
      rw [silent]
      constructor
      · rintro ⟨other, same, rest⟩
        cases same
        exact rest
      · intro rest
        exact ⟨model, rfl, rest⟩
    rw [only]
    simp only [bind, Except.bind]
    cases checked : validateExecutionGraph genexEval model.toModel with
    | ok reported =>
      rw [checked] at severe
      cases reported with
      | nil => simp
      | cons first rest =>
        have here : first.severity = .error := severe first mem_cons_self
        simp [here]
    | error reported =>
      rw [checked] at severe
      cases reported with
      | nil => simp
      | cons first rest =>
        have here : first.severity = .error := severe first mem_cons_self
        simp [here]

/-! ## Drafts of the builder -/

/-- For every draft of the builder and every evaluator, the freeze returns a model or reports an
error, exactly when the draft is not rejected in silence. -/
theorem freeze_answers_iff (genexEval : GenexEval) (stream : List BuildEvent) {draft : Draft}
    (finalized : (Builder.feed {} stream).finalize.2 = some draft) :
    FreezeAnswers (freezeDraft genexEval draft) ↔ ¬ RejectedInSilence genexEval draft := by
  have silent : ¬ FreezeAnswers (freezeDraft genexEval draft) ↔ _ :=
    not_freezeAnswers_iff (built_of_finalize finalized)
  rw [← silent]
  exact not_not.symm

/-- An executable that links an expression with an operator that is not supported. -/
def bogusStream : List BuildEvent :=
  [{ body := .directory (.enter (sv "/s") (sv "/b")) },
    { body := .target (.declare (sv "app") .executable false false []) },
    { body := .target (.change (sv "app") (.item (.usage .linkLibraries)
      { item := sv "$<BOGUS:x>", visibility := .privateItem,
        semantic := { value := sv "$<BOGUS:x>" } })) },
    { body := .directory (.leave (sv "/s") (sv "/b")) }]

/-- The draft of the stream. -/
def bogusDraft : Draft := (Builder.feed {} bogusStream).draft

/-- The draft is accepted, and its freeze fails without a report. -/
theorem freeze_silent_bogus : (Builder.feed {} bogusStream).finalize.2 = some bogusDraft ∧
      validateAccepts bogusDraft = true ∧
      freezeDraft (queryGenexEval {} (sv "/w") 1) bogusDraft = .error (.failed []) ∧
      ¬ FreezeAnswers (freezeDraft (queryGenexEval {} (sv "/w") 1) bogusDraft) := by
  have outcome : freezeDraft (queryGenexEval {} (sv "/w") 1) bogusDraft = .error (.failed []) := by
    have stopped : (match freezeDraft (queryGenexEval {} (sv "/w") 1) bogusDraft with
      | .error stop => decide (stop = .failed [])
      | .ok _ => false) = true := by decide +kernel
    split at stopped
    · rename_i stop same
      rw [same, of_decide_eq_true stopped]
    · cases stopped
  refine ⟨by decide +kernel, by decide +kernel, outcome, ?_⟩
  rw [outcome]
  rintro (⟨model, same⟩ | ⟨reported, same, diagnostic, member, _⟩)
  · cases same
  · cases same
    cases member

/-- The draft without the expression is answered: it is frozen. -/
theorem freeze_answers_iff_aliasStream : FreezeAnswers (freezeDraft plainGenexEval aliasDraft) ∧
      ¬ RejectedInSilence plainGenexEval aliasDraft := by
  have finalized : (Builder.feed {} aliasStream).finalize.2 = some aliasDraft := by decide +kernel
  have succeeds : (freezeDraft plainGenexEval aliasDraft).toBool = true := by decide +kernel
  have answers : FreezeAnswers (freezeDraft plainGenexEval aliasDraft) := by
    cases outcome : freezeDraft plainGenexEval aliasDraft with
    | error stop =>
      rw [outcome] at succeeds
      cases succeeds
    | ok model => exact .inl ⟨model, rfl⟩
  exact ⟨answers, (freeze_answers_iff plainGenexEval aliasStream finalized).mp answers⟩

end Nobify.BuildModel
