import Mathlib.Data.List.Pairwise
import Nobify.BuildModel.FreezeIntegrity
import Nobify.BuildModel.GenexContext

/-!
# One producer for each path

The check for paths with two producers compares the texts of the outputs and byproducts, and the
views of the steps carry what these texts evaluate to. The check finds every text that is written
twice. Two different texts may still evaluate to one path in some configuration, which takes a
generator expression in one of them; the check does not see these, and they are all it misses.
-/

namespace Nobify.BuildModel

open Lib (bind_eq_ok)
open List
open Option (bind_eq_some_iff)

/-! ## The check of the texts -/

/-- The texts of all outputs and byproducts. -/
def stepPaths (model : Model) : List StringView := model.buildSteps.flatMap BuildStepRecord.writes

/-- Lists that are put together have no duplicates when none of them has one and no two of them
share an item. -/
theorem nodup_flatMap_iff {α β : Type} {parts : List α} {items : α → List β} :
    (parts.flatMap items).Nodup ↔ (∀ part ∈ parts, (items part).Nodup) ∧
      ∀ (first second : Nat) (left right : α), parts[first]? = some left →
        parts[second]? = some right → first ≠ second → List.Disjoint (items left) (items right) := by
  rw [nodup_flatMap, pairwise_iff_getElem]
  apply and_congr_right
  intro _
  constructor
  · intro apart first second left right here there different
    obtain ⟨firstFits, rfl⟩ := List.getElem?_eq_some_iff.mp here
    obtain ⟨secondFits, rfl⟩ := List.getElem?_eq_some_iff.mp there
    rcases Nat.lt_or_gt_of_ne different with before | after
    · exact apart first second firstFits secondFits before
    · exact (apart second first secondFits firstFits after).symm
  · intro apart first second firstFits secondFits before
    exact apart first second _ _ (List.getElem?_eq_getElem firstFits)
      (List.getElem?_eq_getElem secondFits) (Nat.ne_of_lt before)

/-- A list has no duplicates when no item stands again behind it. -/
theorem nodup_iff_drop {α : Type} {items : List α} :
    items.Nodup ↔ ∀ (place : Nat) (item : α), items[place]? = some item →
      ∀ later ∈ items.drop (place + 1), item ≠ later := by
  induction items with
  | nil => simp
  | cons first rest ih =>
    rw [nodup_cons, ih]
    constructor
    · intro ⟨fresh, others⟩ place item here later member
      cases place with
      | zero =>
        have same : first = item := by simpa using here
        intro repeated
        exact fresh (same ▸ repeated ▸ member)
      | succ place => exact others place item here later member
    · intro apart
      refine ⟨fun member => apart 0 first rfl first member rfl, ?_⟩
      intro place item here later member
      exact apart (place + 1) item here later member

theorem errorIf_eq_nil {failed : Bool} {command cause hint : String} :
    errorIf failed command cause hint = [] ↔ failed = false := by
  cases failed with
  | true => exact ⟨nofun, nofun⟩
  | false => exact ⟨fun _ => rfl, fun _ => rfl⟩

/-- The loops over one list of paths find nothing when no path is met again. -/
theorem duplicateProducers_eq_nil {model : Model} {index : Nat} {paths : List StringView}
    {own other : BuildStepRecord → List StringView} {ownFirst : Bool}
    {cause ownHint otherHint : String} :
    duplicateProducers model index paths own other ownFirst cause ownHint otherHint = [] ↔
      ∀ (position : Nat) (path : StringView), paths[position]? = some path →
        ∀ (stepIndex : Nat) (step : BuildStepRecord), model.buildSteps[stepIndex]? = some step →
          (∀ written ∈ (own step).drop (if stepIndex = index then position + 1 else 0),
            path ≠ written) ∧ ∀ written ∈ other step, path ≠ written := by
  unfold duplicateProducers
  rw [flatMap_eq_nil_iff]
  constructor
  · intro silent position path here stepIndex step there
    have round := silent (path, position) (mk_mem_zipIdx_iff_getElem?.mpr here)
    have turn := flatMap_eq_nil_iff.mp round (step, stepIndex)
      (mk_mem_zipIdx_iff_getElem?.mpr there)
    have both : ((own step).drop (if stepIndex = index then position + 1 else 0)).flatMap
          (fun written => errorIf (path = written) "freeze" cause ownHint) = [] ∧
        (other step).flatMap (fun written =>
          errorIf (path = written) "freeze" cause otherHint) = [] := by
      cases ownFirst with
      | true => exact append_eq_nil_iff.mp turn
      | false => exact (append_eq_nil_iff.mp turn).symm
    constructor
    · intro written member
      have quiet := flatMap_eq_nil_iff.mp both.1 written member
      exact of_decide_eq_false (errorIf_eq_nil.mp quiet)
    · intro written member
      have quiet := flatMap_eq_nil_iff.mp both.2 written member
      exact of_decide_eq_false (errorIf_eq_nil.mp quiet)
  · intro apart round listed
    apply flatMap_eq_nil_iff.mpr
    intro turn present
    have checks := apart round.2 round.1 (mk_mem_zipIdx_iff_getElem?.mp listed) turn.2 turn.1
      (mk_mem_zipIdx_iff_getElem?.mp present)
    have again : ((own turn.1).drop (if turn.2 = index then round.2 + 1 else 0)).flatMap
        (fun written => errorIf (round.1 = written) "freeze" cause ownHint) = [] :=
      flatMap_eq_nil_iff.mpr fun written member =>
        (errorIf_eq_nil).mpr (decide_eq_false (checks.1 written member))
    have crossed : (other turn.1).flatMap
        (fun written => errorIf (round.1 = written) "freeze" cause otherHint) = [] :=
      flatMap_eq_nil_iff.mpr fun written member =>
        (errorIf_eq_nil).mpr (decide_eq_false (checks.2 written member))
    cases ownFirst with
    | true => exact append_eq_nil_iff.mpr ⟨again, crossed⟩
    | false => exact append_eq_nil_iff.mpr ⟨crossed, again⟩

/-- The check finds no path written twice when no two texts are equal. -/
theorem validateDuplicateStepProducers_eq_nil {model : Model} :
    validateDuplicateStepProducers model = [] ↔ (stepPaths model).Nodup := by
  unfold validateDuplicateStepProducers stepPaths
  rw [flatMap_eq_nil_iff, nodup_flatMap_iff]
  constructor
  · intro silent
    have turns : ∀ (index : Nat) (step : BuildStepRecord), model.buildSteps[index]? = some step →
        _ ∧ _ := fun index step here =>
      append_eq_nil_iff.mp (silent (step, index) (mk_mem_zipIdx_iff_getElem?.mpr here))
    constructor
    · intro step member
      obtain ⟨index, fits, here⟩ := getElem_of_mem member
      have found : model.buildSteps[index]? = some step := here ▸ List.getElem?_eq_getElem fits
      have outputs := (duplicateProducers_eq_nil).mp (turns index step found).1
      have byproducts := (duplicateProducers_eq_nil).mp (turns index step found).2
      refine nodup_append.mpr ⟨(nodup_iff_drop).mpr ?_, (nodup_iff_drop).mpr ?_, ?_⟩
      · intro place path here later member
        have apart := (outputs place path here index step found).1 later
        rw [if_pos rfl] at apart
        exact apart member
      · intro place path here later member
        have apart := (byproducts place path here index step found).1 later
        rw [if_pos rfl] at apart
        exact apart member
      · intro output listed byproduct other
        obtain ⟨place, inside, rfl⟩ := getElem_of_mem listed
        exact (outputs place _ (List.getElem?_eq_getElem inside) index step found).2 byproduct other
    · intro first second left right here there different
      have others : ¬ second = first := Ne.symm different
      have outputs := (duplicateProducers_eq_nil).mp (turns first left here).1
      have byproducts := (duplicateProducers_eq_nil).mp (turns first left here).2
      intro path written again
      rcases mem_append.mp written with output | byproduct
      · obtain ⟨place, inside, rfl⟩ := getElem_of_mem output
        have apart := outputs place _ (List.getElem?_eq_getElem inside) second right there
        rw [if_neg others] at apart
        rcases mem_append.mp again with same | crossed
        · exact apart.1 _ same rfl
        · exact apart.2 _ crossed rfl
      · obtain ⟨place, inside, rfl⟩ := getElem_of_mem byproduct
        have apart := byproducts place _ (List.getElem?_eq_getElem inside) second right there
        rw [if_neg others] at apart
        rcases mem_append.mp again with crossed | same
        · exact apart.2 _ crossed rfl
        · exact apart.1 _ same rfl
  · intro ⟨within, across⟩ turn listed
    have here : model.buildSteps[turn.2]? = some turn.1 := mk_mem_zipIdx_iff_getElem?.mp listed
    have parts := nodup_append.mp (within turn.1 (mem_of_getElem? here))
    have apart : ∀ (other : Nat) (step : BuildStepRecord), model.buildSteps[other]? = some step →
        other ≠ turn.2 → ∀ path ∈ turn.1.writes, ∀ written ∈ step.writes, path ≠ written := by
      intro other step there different path member written again same
      exact across turn.2 other turn.1 step here there (Ne.symm different) member (same ▸ again)
    refine append_eq_nil_iff.mpr
      ⟨(duplicateProducers_eq_nil).mpr ?_, (duplicateProducers_eq_nil).mpr ?_⟩
    · intro place path found other step there
      have output : path ∈ turn.1.effectiveOutputs := mem_of_getElem? found
      by_cases same : other = turn.2
      · have alike : step = turn.1 := Option.some.inj (there.symm.trans (same ▸ here))
        subst alike
        rw [if_pos same]
        exact ⟨(nodup_iff_drop).mp parts.1 place path found,
          fun written member => parts.2.2 path output written member⟩
      · have foreign := apart other step there same path (mem_append_left _ output)
        rw [if_neg same]
        exact ⟨fun written member => foreign written (mem_append_left _ member),
          fun written member => foreign written (mem_append_right _ member)⟩
    · intro place path found other step there
      have byproduct : path ∈ turn.1.effectiveByproducts := mem_of_getElem? found
      by_cases same : other = turn.2
      · have alike : step = turn.1 := Option.some.inj (there.symm.trans (same ▸ here))
        subst alike
        rw [if_pos same]
        exact ⟨(nodup_iff_drop).mp parts.2.1 place path found,
          fun written member => (parts.2.2 written member path byproduct).symm⟩
      · have foreign := apart other step there same path (mem_append_right _ byproduct)
        rw [if_neg same]
        exact ⟨fun written member => foreign written (mem_append_right _ member),
          fun written member => foreign written (mem_append_left _ member)⟩

/-! ## The paths of the views -/

section Views

variable (genexEval : GenexEval) (model : Model) (ctx : QueryContext)

/-- The view of a step in a configuration, taken for its owner. -/
def stepView (id : BuildStepId) : Option StepEffectiveView :=
  buildStepEffectiveView genexEval model (stepContext model ctx id) id

/-- The paths that a view says are written. -/
def StepEffectiveView.paths (view : StepEffectiveView) : List StringView :=
  view.outputs ++ view.byproducts

/-- The paths of the views of all steps. -/
def producedPaths : List StringView :=
  (List.range model.buildSteps.length).flatMap fun id =>
    (stepView genexEval model ctx id).elim [] StepEffectiveView.paths

/-- The outputs and byproducts of the steps that have a view, each with its step. -/
def viewedEntries : List (BuildStepId × StringView) :=
  (List.range model.buildSteps.length).flatMap fun id =>
    if (stepView genexEval model ctx id).isSome then
      (model.buildSteps[id]?).elim [] fun step => step.writes.map fun text => (id, text)
    else []

/-- The path of an output or byproduct; an empty value is no path. -/
def entryPath (entry : BuildStepId × StringView) : Option StringView :=
  (resolveString genexEval model (stepContext model ctx entry.1) entry.2).filter (· ≠ [])

/-- Two entries with different texts, one of them with a generator expression, have one path. -/
def ExpressionsMeet : Prop :=
  ∃ first ∈ viewedEntries genexEval model ctx, ∃ second ∈ viewedEntries genexEval model ctx,
    first.2 ≠ second.2 ∧ Genex.containsGenex first.2 = true ∧
    ∃ path, entryPath genexEval model ctx first = some path ∧
      entryPath genexEval model ctx second = some path

variable {genexEval model ctx}

/-- Texts that resolve leave their values without the empty ones. -/
theorem resolveStringArray_eq {texts values : List StringView}
    (resolved : resolveStringArray genexEval model ctx texts = some values) :
    values = texts.filterMap fun text =>
      (resolveString genexEval model ctx text).filter (· ≠ []) := by
  obtain ⟨items, each, kept⟩ := Option.map_eq_some_iff.mp resolved
  clear resolved
  subst kept
  induction texts generalizing items with
  | nil =>
    cases each
    rfl
  | cons text rest ih =>
    rw [mapM_cons] at each
    obtain ⟨value, here, later⟩ := bind_eq_some_iff.mp each
    obtain ⟨others, there, same⟩ := bind_eq_some_iff.mp later
    cases same
    have tail : others.filter (· ≠ []) = rest.filterMap fun text =>
        (resolveString genexEval model ctx text).filter (· ≠ []) := ih others there
    by_cases empty : value = []
    · have dropped : (resolveString genexEval model ctx text).filter (· ≠ []) = none := by
        rw [here]
        simp [empty]
      rw [filter_cons_of_neg (by simpa using empty), tail, filterMap_cons]
      simp only [dropped]
    · have kept : (resolveString genexEval model ctx text).filter (· ≠ []) = some value := by
        rw [here]
        simp [empty]
      rw [filter_cons_of_pos (by simpa using empty), tail, filterMap_cons]
      simp only [kept]

/-- A view lists what the entries of its step evaluate to. -/
theorem stepView_paths {id : BuildStepId} {step : BuildStepRecord}
    (found : model.buildSteps[id]? = some step) {view : StepEffectiveView}
    (viewed : stepView genexEval model ctx id = some view) :
    view.paths = (step.writes.map fun text => (id, text)).filterMap
      (entryPath genexEval model ctx) := by
  unfold stepView buildStepEffectiveView at viewed
  obtain ⟨own, here, viewed⟩ := bind_eq_some_iff.mp viewed
  cases found.symm.trans here
  obtain ⟨outputs, first, viewed⟩ := bind_eq_some_iff.mp viewed
  obtain ⟨byproducts, second, viewed⟩ := bind_eq_some_iff.mp viewed
  obtain ⟨_, _, viewed⟩ := bind_eq_some_iff.mp viewed
  obtain ⟨_, _, viewed⟩ := bind_eq_some_iff.mp viewed
  obtain ⟨_, _, viewed⟩ := bind_eq_some_iff.mp viewed
  obtain ⟨_, _, viewed⟩ := bind_eq_some_iff.mp viewed
  cases viewed
  rw [filterMap_map]
  unfold StepEffectiveView.paths BuildStepRecord.writes
  rw [filterMap_append, resolveStringArray_eq first, resolveStringArray_eq second]
  rfl

/-- The paths of all views are what the entries with a view evaluate to. -/
theorem producedPaths_eq : producedPaths genexEval model ctx =
      (viewedEntries genexEval model ctx).filterMap (entryPath genexEval model ctx) := by
  unfold producedPaths viewedEntries
  rw [filterMap_flatMap]
  apply congrArg (List.range model.buildSteps.length).flatMap
  funext id
  cases viewed : stepView genexEval model ctx id with
  | none => rfl
  | some view =>
    have present : ∃ step, model.buildSteps[id]? = some step := by
      unfold stepView buildStepEffectiveView at viewed
      obtain ⟨step, found, _⟩ := bind_eq_some_iff.mp viewed
      exact ⟨step, found⟩
    obtain ⟨step, found⟩ := present
    rw [found]
    exact stepView_paths found viewed

/-- An entry belongs to the step at its id. -/
theorem mem_viewedEntries {entry : BuildStepId × StringView}
    (member : entry ∈ viewedEntries genexEval model ctx) :
    ∃ step, model.buildSteps[entry.1]? = some step ∧ entry.2 ∈ step.writes := by
  obtain ⟨id, _, inside⟩ := mem_flatMap.mp member
  by_cases viewed : (stepView genexEval model ctx id).isSome = true
  · rw [if_pos viewed] at inside
    cases found : model.buildSteps[id]? with
    | none =>
      rw [found] at inside
      exact nomatch inside
    | some step =>
      rw [found] at inside
      obtain ⟨text, written, same⟩ := mem_map.mp inside
      rw [← same]
      exact ⟨step, found, written⟩
  · rw [if_neg viewed] at inside
    exact nomatch inside

variable (distinct : (stepPaths model).Nodup)

include distinct

/-- Where no text is written twice, the entries are different, and so are their texts. -/
theorem viewedEntries_nodup : (viewedEntries genexEval model ctx).Nodup := by
  have texts := nodup_flatMap_iff.mp distinct
  refine nodup_flatMap_iff.mpr ⟨?_, ?_⟩
  · intro id _
    by_cases viewed : (stepView genexEval model ctx id).isSome = true
    · rw [if_pos viewed]
      cases found : model.buildSteps[id]? with
      | none => exact nodup_nil
      | some step =>
        exact (texts.1 step (mem_of_getElem? found)).map fun _ _ same => (Prod.mk.inj same).2
    · rw [if_neg viewed]
      exact nodup_nil
  · intro first second left right here there different
    have leftId : first = left := by
      obtain ⟨fits, same⟩ := List.getElem?_eq_some_iff.mp here
      simpa using same
    have rightId : second = right := by
      obtain ⟨fits, same⟩ := List.getElem?_eq_some_iff.mp there
      simpa using same
    have owned : ∀ id entry, entry ∈ (if (stepView genexEval model ctx id).isSome then
        (model.buildSteps[id]?).elim [] fun step => step.writes.map fun text => (id, text)
        else []) → entry.1 = id := by
      intro id entry inside
      by_cases viewed : (stepView genexEval model ctx id).isSome = true
      · rw [if_pos viewed] at inside
        cases found : model.buildSteps[id]? with
        | none =>
          rw [found] at inside
          exact nomatch inside
        | some step =>
          rw [found] at inside
          obtain ⟨text, _, same⟩ := mem_map.mp inside
          rw [← same]
      · rw [if_neg viewed] at inside
        exact nomatch inside
    intro entry mine others
    apply different
    rw [leftId, rightId, ← owned left entry mine, ← owned right entry others]

/-- Different entries have different texts where no text is written twice. -/
theorem text_injective {first second : BuildStepId × StringView}
    (here : first ∈ viewedEntries genexEval model ctx)
    (there : second ∈ viewedEntries genexEval model ctx) (same : first.2 = second.2) :
    first = second := by
  obtain ⟨left, leftFound, leftWrites⟩ := mem_viewedEntries here
  obtain ⟨right, rightFound, rightWrites⟩ := mem_viewedEntries there
  by_cases ids : first.1 = second.1
  · exact Prod.ext ids same
  · have apart := (nodup_flatMap_iff.mp distinct).2 _ _ left right leftFound rightFound ids
    exact absurd (same ▸ rightWrites) (apart leftWrites)

/-- No two entries have one path exactly when no two entries with different texts do. -/
theorem producedPaths_nodup_iff : (producedPaths genexEval model ctx).Nodup ↔
      ∀ first ∈ viewedEntries genexEval model ctx, ∀ second ∈ viewedEntries genexEval model ctx,
        first.2 ≠ second.2 → ∀ path, entryPath genexEval model ctx first = some path →
          entryPath genexEval model ctx second ≠ some path := by
  rw [producedPaths_eq, List.Nodup, pairwise_filterMap]
  constructor
  · intro apart first here second there texts path denotes again
    have symmetric : Std.Symm fun left right : BuildStepId × StringView =>
        ∀ path, entryPath genexEval model ctx left = some path →
          ∀ other, entryPath genexEval model ctx right = some other → path ≠ other :=
      ⟨fun left right apart path first other second => (apart other second path first).symm⟩
    have different : first ≠ second := fun same => texts (congrArg Prod.snd same)
    exact apart.forall here there different path denotes path again rfl
  · intro apart
    refine (viewedEntries_nodup distinct).pairwise_of_forall_ne ?_
    intro first here second there different path denotes other again same
    have texts : first.2 ≠ second.2 := fun same => different (text_injective distinct here there same)
    exact apart first here second there texts path denotes (same ▸ again)

end Views

/-! ## The evaluator of the queries -/

section Query

variable (host : HostPlatform) (cwd : StringView) (nesting : Nat)

/-- A text without a generator expression stands for itself. -/
theorem entryPath_plain {model : Model} {ctx : QueryContext} {entry : BuildStepId × StringView}
    (plain : Genex.containsGenex entry.2 = false) {path : StringView}
    (denotes : entryPath (queryGenexEval host cwd nesting) model ctx entry = some path) :
    path = entry.2 := by
  obtain ⟨resolved, _⟩ := Option.filter_eq_some_iff.mp denotes
  unfold resolveString at resolved
  by_cases empty : entry.2 = []
  · rw [if_pos empty] at resolved
    rw [empty]
    exact (Option.some.inj resolved).symm
  · rw [if_neg empty] at resolved
    cases nesting with
    | zero => cases resolved
    | succ nesting =>
      unfold queryGenexEval Genex.evalRoot Genex.evalInner at resolved
      simp only [plain] at resolved
      exact (Option.some.inj resolved).symm

/-- Two entries with different texts only have one path where expressions meet. -/
theorem producedPaths_nodup_iff_not_meet {model : Model} {ctx : QueryContext}
    (distinct : (stepPaths model).Nodup) :
    (producedPaths (queryGenexEval host cwd nesting) model ctx).Nodup ↔
      ¬ ExpressionsMeet (queryGenexEval host cwd nesting) model ctx := by
  rw [producedPaths_nodup_iff distinct]
  constructor
  · intro apart ⟨first, here, second, there, texts, _, path, denotes, again⟩
    exact apart first here second there texts path denotes again
  · intro never first here second there texts path denotes again
    cases left : Genex.containsGenex first.2 with
    | true => exact never ⟨first, here, second, there, texts, left, path, denotes, again⟩
    | false =>
      cases right : Genex.containsGenex second.2 with
      | true =>
        exact never ⟨second, there, first, here, texts.symm, right, path, again, denotes⟩
      | false =>
        have own := entryPath_plain host cwd nesting left denotes
        have other := entryPath_plain host cwd nesting right again
        exact texts (own.symm.trans other)

/-- What the check is for: no path has two producers in a frozen model, and a model in which some
path has two producers in some configuration is rejected. -/
def OneProducer (draft : Draft) (model : FrozenModel) : Prop :=
  (freezeDraft (queryGenexEval host cwd nesting) draft = .ok model → ∀ ctx,
    (producedPaths (queryGenexEval host cwd nesting) model.toModel ctx).Nodup) ∧
  ∀ ctx, ¬ (producedPaths (queryGenexEval host cwd nesting) model.toModel ctx).Nodup →
    validateDuplicateStepProducers model.toModel ≠ []

/-- A frozen model has passed the check of the texts. -/
theorem distinct_of_freezeDraft {genexEval : GenexEval} {draft : Draft} {model : FrozenModel}
    (frozen : freezeDraft genexEval draft = .ok model) : (stepPaths model.toModel).Nodup := by
  obtain ⟨made, before, checked⟩ := bind_eq_ok.mp frozen
  split at checked
  · next clean =>
    cases checked
    have producers : validateProducers model.toModel = [] :=
      List.prefix_nil.mp (validateExecutionGraph_reports clean)
    exact validateDuplicateStepProducers_eq_nil.mp
      (append_eq_nil_iff.mp (append_eq_nil_iff.mp producers).1).1
  · cases checked
  · cases checked

/-- The check does what it is for exactly when two texts are equal, or no two entries with
different texts, one of them with a generator expression, evaluate to one path. -/
theorem one_producer_iff (draft : Draft) (model : FrozenModel) :
    OneProducer host cwd nesting draft model ↔ ((stepPaths model.toModel).Nodup → ∀ ctx,
        ¬ ExpressionsMeet (queryGenexEval host cwd nesting) model.toModel ctx) := by
  constructor
  · intro ⟨_, rejects⟩ distinct ctx
    rw [← producedPaths_nodup_iff_not_meet host cwd nesting distinct]
    by_contra shared
    exact rejects ctx shared (validateDuplicateStepProducers_eq_nil.mpr distinct)
  · intro apart
    constructor
    · intro frozen ctx
      have distinct := distinct_of_freezeDraft frozen
      exact (producedPaths_nodup_iff_not_meet host cwd nesting distinct).mpr (apart distinct ctx)
    · intro ctx shared silent
      have distinct := validateDuplicateStepProducers_eq_nil.mp silent
      exact shared
        ((producedPaths_nodup_iff_not_meet host cwd nesting distinct).mpr (apart distinct ctx))

end Query

/-- Two output rules: in the configuration `Debug` the output of the first one has the name of the
output of the second one. -/
def sharedOutputStream : List BuildEvent :=
  [{ body := .directory (.enter (sv "/s") (sv "/b")) },
    { body := .buildGraph (.stepDeclare { stepKey := sv "first", stepKind := .outputRule }) },
    { body := .buildGraph (.stepChange (sv "first")
      (.addOutput (sv "$<IF:$<CONFIG:Debug>,g.c,h.c>"))) },
    { body := .buildGraph (.stepDeclare { stepKey := sv "second", stepKind := .outputRule }) },
    { body := .buildGraph (.stepChange (sv "second") (.addOutput (sv "g.c"))) },
    { body := .directory (.leave (sv "/s") (sv "/b")) }]

/-- The draft of the stream. -/
def sharedOutputDraft : Draft := (Builder.feed {} sharedOutputStream).draft

/-- The builder makes the draft, it is accepted and frozen, and `g.c` has two producers. -/
theorem shared_output_frozen :
    (Builder.feed {} sharedOutputStream).finalize.2 = some sharedOutputDraft ∧
      validateAccepts sharedOutputDraft = true ∧
      ∃ model, freezeDraft (queryGenexEval {} (sv "/w") 1) sharedOutputDraft = .ok model ∧
        producedPaths (queryGenexEval {} (sv "/w") 1) model.toModel (freezeContext (sv "Debug")) =
          [sv "/b/g.c", sv "/b/g.c"] ∧
        ¬ OneProducer {} (sv "/w") 1 sharedOutputDraft model := by
  have paths : (match freezeDraft (queryGenexEval {} (sv "/w") 1) sharedOutputDraft with
    | .ok model => decide (producedPaths (queryGenexEval {} (sv "/w") 1) model.toModel
        (freezeContext (sv "Debug")) = [sv "/b/g.c", sv "/b/g.c"])
    | .error _ => false) = true := by decide +kernel
  refine ⟨by decide +kernel, by decide +kernel, ?_⟩
  split at paths
  · rename_i model frozen
    have shared := of_decide_eq_true paths
    refine ⟨model, frozen, shared, ?_⟩
    intro promised
    have distinct := promised.1 frozen (freezeContext (sv "Debug"))
    rw [shared] at distinct
    exact absurd distinct (by decide)
  · cases paths

end Nobify.BuildModel
