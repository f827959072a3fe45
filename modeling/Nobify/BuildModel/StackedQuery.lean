import Nobify.BuildModel.Query
import Nobify.Lib.StatefulRun

/-!
# The property stack of a query

The expansion of a property reference and the loop over a span call each other with one
`BM_Query_Target_Property_Stack` that they all write to. The functions here follow the source in
that: the stack is a state with a push and a pop, and the recursion itself has nothing but fuel.
`StackState` also notes every content the stack has had.
-/

namespace Nobify.BuildModel

open Lib (StatefulRun)
open Lib.StatefulRun (Agrees attempt outOfFuel outcome outcome_bind)
open List

/-- The stack of a query, and the contents it has had. -/
structure StackState where
  stack : List PropertyFrame
  reached : List (List PropertyFrame)

/-- A query with the stack as its state. Its failure is the result `false`. -/
abbrev QueryRun := StatefulRun Unit StackState

/-- The stack after a change, which is noted. -/
def StackState.change (state : StackState) (stack : List PropertyFrame) : StackState :=
  ⟨stack, state.reached ++ [stack]⟩

/-- `bm_query_target_property_stack_push`. -/
def propertyStackPush (frame : PropertyFrame) : QueryRun Unit := fun state =>
  if propertyStackCapacity ≤ state.stack.length then some (.error (), state)
  else some (.ok (), state.change (frame :: state.stack))

/-- `bm_query_target_property_stack_pop`. -/
def propertyStackPop : QueryRun Unit := fun state =>
  some (.ok (), if state.stack = [] then state else state.change state.stack.tail)

/-- A value that needs no stack. -/
def answer {α : Type} (value : Option α) : Except Unit α := value.elim (.error ()) .ok

section Runs

variable {ι : Type} (genexEval : GenexEval) (model : Model) (ctx : QueryContext)
  (family : ItemFamily ι)

/-- `evalItem`, where the expansion of a reference is a run. -/
def runItem (expand : LinkItemMetadata → QueryRun (List ι)) (item : ι) : QueryRun (List ι) :=
  let view := family.view item
  if semanticMatchesContext view.semantic ctx = true ∧
      (view.semantic.kind = .targetPropertyImplicit ∨
        view.semantic.kind = .targetPropertyExplicit) ∧
      propertyEffectiveKind view.semantic.propertyName = some family.kind then
    expand view.semantic
  else MonadExcept.ofExcept (answer (evalItem genexEval model ctx family (fun _ => none) item))

/-- `bm_eval_item_span_impl` and `bm_eval_link_item_span_impl`. -/
def runItems (expand : LinkItemMetadata → QueryRun (List ι)) (items : List ι) :
    QueryRun (List ι) := do
  let pieces ← items.mapM (runItem genexEval model ctx family expand)
  pure pieces.flatten

/-- Between the push and the return of an expansion: every return pops. -/
def runPushed (frame : PropertyFrame) (run : QueryRun (List ι)) : QueryRun (List ι) := do
  propertyStackPush frame
  let evaluated ← attempt run
  propertyStackPop
  MonadExcept.ofExcept evaluated

/-- `bm_query_expand_same_family_string_property` and
`bm_query_expand_same_family_link_property`. -/
def runExpansion : Nat → TargetId → LinkItemMetadata → QueryRun (List ι)
  | 0, _, _ => outOfFuel
  | fuel + 1, ownerTargetId, semantic => fun state =>
    match sameFamilyPropertySpec semantic.propertyName family.kind with
    | none => some (.error (), state)
    | some spec =>
      match semanticTargetId model ownerTargetId ctx semantic with
      | none => some (.ok [], state)
      | some targetId =>
        if propertyStackContains state.stack targetId family.kind semantic.propertyName then
          some (.error (), state)
        else
          let source := (model.targets[targetId]?).elim [] family.source
          runPushed ⟨targetId, family.kind, semantic.propertyName⟩
            (runItems genexEval model ctx family (runExpansion fuel targetId)
              (source.filter fun item => spec.selects (family.view item))) state

/-- `bm_eval_item_span` and `bm_eval_link_item_span`, from an empty stack. -/
def runSpan (fuel : Nat) (ownerTargetId : TargetId) (items : List ι) :
    Option (Except Unit (List ι) × StackState) :=
  (runItems genexEval model ctx family
    (runExpansion genexEval model ctx family fuel ownerTargetId) items).outcome ⟨[], [[]]⟩

end Runs

/-! ## The guards -/

/-- What the guards of an expansion promise of the stack: it fits its array, and no property of a
target is on it twice. -/
structure Guarded (stack : List PropertyFrame) : Prop where
  fits : stack.length ≤ propertyStackCapacity
  distinct : stack.Pairwise fun later earlier =>
    ¬ (earlier.targetId = later.targetId ∧ earlier.kind = later.kind ∧
      svEqCiQuery earlier.propertyName later.propertyName = true)

theorem Guarded.nil : Guarded [] := ⟨Nat.zero_le _, .nil⟩

/-- What the guards let through keeps the stack guarded. -/
theorem Guarded.cons {stack : List PropertyFrame} {frame : PropertyFrame} (guarded : Guarded stack)
    (room : stack.length < propertyStackCapacity)
    (fresh : propertyStackContains stack frame.targetId frame.kind frame.propertyName ≠ true) :
    Guarded (frame :: stack) := by
  refine ⟨by rw [length_cons]; omega, .cons ?_ guarded.distinct⟩
  intro earlier member same
  apply fresh
  unfold propertyStackContains
  rw [any_eq_true]
  exact ⟨earlier, member, by simp [same]⟩

/-- Where a query stands with that stack: whatever was on the stack was guarded. -/
structure StackState.Sound (stack : List PropertyFrame) (state : StackState) : Prop where
  here : state.stack = stack
  guarded : ∀ stack ∈ state.reached, Guarded stack

theorem StackState.Sound.change {stack changed : List PropertyFrame} {state : StackState}
    (sound : state.Sound stack) (guarded : Guarded changed) :
    (state.change changed).Sound changed := by
  refine ⟨rfl, ?_⟩
  intro other member
  rcases mem_append.mp member with earlier | latest
  · exact sound.guarded other earlier
  · rw [mem_singleton.mp latest]
    exact guarded

/-! ## Every expansion ends -/

theorem answer_mapM {α β : Type} (step : α → Option β) (items : List α) :
    answer (items.mapM step) = items.mapM fun item => answer (step item) := by
  induction items with
  | nil => rfl
  | cons item rest ih =>
    rw [mapM_cons, mapM_cons, ← ih]
    cases step item with
    | none => rfl
    | some value => cases rest.mapM step <;> rfl

section Runs

variable {ι : Type} {genexEval : GenexEval} {model : Model} {ctx : QueryContext}
  {family : ItemFamily ι} {stack : List PropertyFrame}

/-- The loop over a span agrees when the expansions do. -/
theorem runItems_agrees {expand : LinkItemMetadata → QueryRun (List ι)}
    {value : LinkItemMetadata → Option (List ι)}
    (agrees : ∀ semantic, Agrees (StackState.Sound stack) (expand semantic)
      (answer (value semantic))) (items : List ι) :
    Agrees (StackState.Sound stack) (runItems genexEval model ctx family expand items)
      (answer (evalItems genexEval model ctx family value items)) := by
  have round : ∀ item ∈ items, Agrees (StackState.Sound stack)
      (runItem genexEval model ctx family expand item)
      (answer (evalItem genexEval model ctx family value item)) := by
    intro item _
    unfold runItem
    dsimp only
    split
    · rename_i refers
      have expanded : evalItem genexEval model ctx family value item =
          value (family.view item).semantic := by
        simp [evalItem, refers]
      rw [expanded]
      exact agrees _
    · rename_i plain
      have same : evalItem genexEval model ctx family value item =
          evalItem genexEval model ctx family (fun _ => none) item := by
        unfold evalItem
        grind
      rw [same]
      exact Agrees.ofExcept _
  have whole := (Agrees.mapM round).map List.flatten
  rw [← answer_mapM] at whole
  unfold evalItems
  cases pieces : items.mapM (evalItem genexEval model ctx family value) with
  | none => rwa [pieces] at whole
  | some pieces' => rwa [pieces] at whole

/-- What runs behind a push agrees, and the pop takes back the stack below. -/
theorem runPushed_agrees {frame : PropertyFrame} {run : QueryRun (List ι)}
    {value : Option (List ι)} (guarded : Guarded stack)
    (room : stack.length < propertyStackCapacity) (pushed : Guarded (frame :: stack))
    (agrees : Agrees (StackState.Sound (frame :: stack)) run (answer value)) :
    Agrees (StackState.Sound stack) (runPushed frame run) (answer value) := by
  intro state sound
  have pushes : (propertyStackPush frame).outcome state =
      some (.ok (), state.change (frame :: stack)) := by
    show (if _ then _ else _) = _
    rw [sound.here, if_neg (by omega)]
  obtain ⟨middle, went, middleSound⟩ := agrees _ (sound.change pushed)
  have pops : propertyStackPop.outcome middle = some (.ok (), middle.change stack) := by
    show some (Except.ok (), if _ then _ else _) = _
    rw [middleSound.here, if_neg (cons_ne_nil _ _), tail_cons]
  obtain ⟨after, returned, afterSound⟩ := Agrees.ofExcept (answer value) _ (middleSound.change guarded)
  refine ⟨after, ?_, afterSound⟩
  rw [runPushed, outcome_bind, pushes]
  dsimp only
  rw [outcome_bind, Lib.StatefulRun.outcome_attempt, went]
  dsimp only [Option.map_some]
  rw [outcome_bind, pops]
  exact returned

/-- With more fuel than the stack has room an expansion ends with the value of the one that counts
the room down, whatever the references of the model are. -/
theorem runExpansion_agrees (fuel room : Nat) (enough : room < fuel)
    (ownerTargetId : TargetId) (semantic : LinkItemMetadata) (guarded : Guarded stack)
    (left : stack.length + room = propertyStackCapacity) :
    Agrees (StackState.Sound stack)
      (runExpansion genexEval model ctx family fuel ownerTargetId semantic)
      (answer (expandSameFamilyProperty genexEval model ctx family room stack ownerTargetId
        semantic)) := by
  induction fuel generalizing room stack ownerTargetId semantic with
  | zero => omega
  | succ fuel ih =>
    intro state sound
    rw [expandSameFamilyProperty.eq_def]
    dsimp only
    change ∃ after, runExpansion genexEval model ctx family (fuel + 1) ownerTargetId semantic state =
      _ ∧ _
    rw [runExpansion]
    beta_reduce
    rw [sound.here]
    cases sameFamilyPropertySpec semantic.propertyName family.kind with
    | none => exact ⟨state, rfl, sound⟩
    | some spec =>
      rw [Option.bind_some]
      cases semanticTargetId model ownerTargetId ctx semantic with
      | none => exact ⟨state, rfl, sound⟩
      | some targetId =>
        dsimp only
        split
        · exact ⟨state, rfl, sound⟩
        rename_i fresh
        cases room with
        | zero =>
          refine ⟨state, ?_, sound⟩
          have full : (propertyStackPush ⟨targetId, family.kind, semantic.propertyName⟩).outcome
              state = some (.error (), state) := by
            show (if _ then _ else _) = _
            rw [sound.here, if_pos (by omega)]
          change (runPushed _ _).outcome state = _
          rw [runPushed, outcome_bind, full]
          rfl
        | succ room =>
          have pushed : Guarded (⟨targetId, family.kind, semantic.propertyName⟩ :: stack) :=
            guarded.cons (by omega) fresh
          apply runPushed_agrees guarded (by omega) pushed _ state sound
          apply runItems_agrees
          intro nested
          exact ih room (by omega) targetId nested pushed (by rw [length_cons]; omega)

/-- From every guarded stack an expansion ends, with the value that counts the room down, and
leaves the stack as it was; so a query ends with an empty stack. Whatever was on the stack was
guarded. -/
theorem runExpansion_guarded (genexEval : GenexEval) (model : Model) (ctx : QueryContext)
    (family : ItemFamily ι) (ownerTargetId : TargetId) (more : Nat) :
    (∀ (stack : { stack // Guarded stack }) semantic, ∃ after,
      (runExpansion genexEval model ctx family (propertyStackCapacity + 1 + more) ownerTargetId
        semantic).outcome ⟨stack, [stack]⟩ =
          some (answer (expandSameFamilyProperty genexEval model ctx family
            (propertyStackCapacity - stack.1.length) stack ownerTargetId semantic), after) ∧
      after.stack = stack ∧ ∀ stack ∈ after.reached, Guarded stack) ∧
    ∀ items, ∃ after,
      runSpan genexEval model ctx family (propertyStackCapacity + 1 + more) ownerTargetId items =
          some (answer (evalSpan genexEval model ctx family ownerTargetId items), after) ∧
        after.stack = [] ∧ ∀ stack ∈ after.reached, Guarded stack := by
  have start : ∀ {stack}, Guarded stack → (StackState.mk stack [stack]).Sound stack := by
    intro stack guarded
    refine ⟨rfl, fun other member => ?_⟩
    rw [mem_singleton.mp member]
    exact guarded
  constructor
  · intro stack semantic
    have fits := stack.2.fits
    have ends : Agrees (StackState.Sound stack) _ (answer (expandSameFamilyProperty genexEval model
        ctx family (propertyStackCapacity - stack.1.length) stack ownerTargetId semantic)) :=
      runExpansion_agrees (propertyStackCapacity + 1 + more) _ (by omega) ownerTargetId semantic
        stack.2 (by omega)
    obtain ⟨after, went, sound⟩ := ends _ (start stack.2)
    exact ⟨after, went, sound.here, sound.guarded⟩
  · intro items
    obtain ⟨after, went, sound⟩ := runItems_agrees (fun semantic =>
      runExpansion_agrees (propertyStackCapacity + 1 + more) propertyStackCapacity (by omega)
        ownerTargetId semantic Guarded.nil (Nat.zero_add _)) items _ (start Guarded.nil)
    exact ⟨after, went, sound.here, sound.guarded⟩

end Runs

end Nobify.BuildModel
