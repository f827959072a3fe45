import Nobify.Genex.Eval
import Nobify.Lib.StatefulRun

/-!
# The guard stack of an evaluation

`gx_eval_inner` and `gx_eval_body` call each other with a counter for the depth and with one
`Genex_Target_Property_Stack` that they all write to. The functions here follow the source in
that: the stack is a state that `TARGET_PROPERTY` pushes to and pops from, the depth is counted up
to `max_depth`, and the recursion itself has nothing but fuel. `GuardState` also notes every
content the stack has had, and for each call of the two functions the stack at its entry and at
its return.

With more fuel than `max_depth + 1` an evaluation ends, with the result of `evalRoot`, whatever
the callbacks give.
-/

namespace Nobify.Genex

open BuildModel (splitTopLevel)
open Lib (StatefulRun)
open Lib.StatefulRun (Agrees attempt outOfFuel outcome outcome_bind)
open List

/-- The stack of an evaluation, and what has happened to it. -/
structure GuardState where
  stack : PropertyStack := []
  /-- The contents the stack has had, the latest last. -/
  reached : List PropertyStack := []
  /-- The stack at the entry and at the return of each call that has returned. -/
  returned : List (PropertyStack × PropertyStack) := []

/-- An evaluation with the stack as its state. -/
abbrev Run := StatefulRun Failure GuardState

/-- The stack after a change, which is noted. -/
def GuardState.change (state : GuardState) (stack : PropertyStack) : GuardState :=
  { state with stack, reached := state.reached ++ [stack] }

/-- An error with a message, as the result of a run. -/
def failRun {α : Type} (message : String) : Run α := throw ⟨.error, message⟩

/-- The stack, to look at. -/
def readStack : Run PropertyStack := fun state => some (.ok state.stack, state)

/-- `gx_tp_stack_push`: false when the stack is full. -/
def tpStackPush (target property : StringView) : Run Bool := fun state =>
  if propertyStackRoom ≤ state.stack.length then some (.ok false, state)
  else some (.ok true, state.change ((target, property) :: state.stack))

/-- `gx_tp_stack_pop`. -/
def tpStackPop : Run Unit := fun state =>
  match state.stack with
  | [] => some (.ok (), state)
  | _ :: below => some (.ok (), state.change below)

/-- A call of `gx_eval_body` or `gx_eval_inner`, with a note of the stack at its return. -/
def noteReturn {α : Type} (run : Run α) : Run α := fun state =>
  (run.outcome state).map fun (result, after) =>
    (result, { after with returned := after.returned ++ [(state.stack, after.stack)] })

/-! ## Operators -/

section Operators

variable (inner : Context → StringView → Run StringView) (ctx : Context)

/-- `gx_eval_arg_fast`. -/
def runArgFast (arg : StringView) : Run StringView :=
  if containsGenex (svTrim arg) then inner ctx (svTrim arg) else pure (svTrim arg)

/-- The loops of `CONFIG`, `PLATFORM_ID` and `COMPILE_LANGUAGE` over their arguments. -/
def runMatchesAny (needle : StringView) : List StringView → Run StringView
  | [] => pure (truthValue false)
  | arg :: rest => do
    let value ← runArgFast inner ctx arg
    if listMatchesValueCi value needle then pure (truthValue true) else runMatchesAny needle rest

/-- The loop of `AND` and `OR` over their arguments. -/
def runLogical (wantAnd : Bool) : List StringView → Run StringView
  | [] => pure (truthValue wantAnd)
  | arg :: rest => do
    let value ← inner ctx arg
    if cmakeStringIsFalse value = wantAnd then pure (truthValue !wantAnd)
    else runLogical wantAnd rest

/-- An operator that gives its arguments when the context activates it, and nothing otherwise. -/
def runActive (active : Bool) (args : StringView) : Run StringView :=
  if active then inner ctx args else pure []

/-- `TARGET_FILE` and its relatives. -/
def runTargetFile (read : Option (StringView → StringView)) (missing tooLarge : String)
    (part : StringView → StringView) (args : StringView) : Run StringView :=
  match read with
  | none => failRun missing
  | some read => do
    let name ← inner ctx args
    if svTrim name = [] then pure []
    else do
      let path ← MonadExcept.ofExcept (ctx.validateCallbackValue tooLarge (read (svTrim name)))
      pure (part path)

/-- `STREQUAL`. -/
def runStrequal (args : List StringView) : Run StringView :=
  match args with
  | [lhs, rhs] => do
    let left ← inner ctx lhs
    let right ← inner ctx rhs
    pure (truthValue (left == right))
  | _ => failRun "STREQUAL expects 2 arguments"

/-- `IF`. -/
def runIf (args : List StringView) : Run StringView :=
  match args with
  | [condition, yes, no] => do
    let value ← inner ctx condition
    inner ctx (if cmakeStringIsFalse value then no else yes)
  | _ => failRun "IF expects 3 arguments"

/-- `TARGET_GENEX_EVAL`. -/
def runTargetGenexEval (args : List StringView) : Run StringView :=
  match args with
  | [target, value] => do
    let name ← inner ctx target
    if svTrim name = [] then pure []
    else inner { ctx with currentTargetName := svTrim name } value
  | _ => failRun "TARGET_GENEX_EVAL expects 2 arguments"

/-- Between the push and the return of `TARGET_PROPERTY`: both paths pop before they return. -/
def runPushedProperty (read : StringView → StringView → StringView)
    (target property : StringView) : Run StringView :=
  match ctx.validateCallbackValue "TARGET_PROPERTY callback returned an invalid or too large value"
      (read target property) with
  | .error failure => do
    tpStackPop
    throw failure
  | .ok value => do
    let nested ← attempt (inner ctx value)
    tpStackPop
    MonadExcept.ofExcept nested

/-- The end of `TARGET_PROPERTY`: the guards, the push, and the evaluation of the value. -/
def runPropertyOf (target property : StringView) : Run StringView :=
  if target = [] ∨ property = [] then pure []
  else
    match ctx.readTargetProperty with
    | none => failRun "TARGET_PROPERTY callback is not configured"
    | some read => do
      let stack ← readStack
      if ctx.maxTargetPropertyDepth ≤ stack.length then
        throw ⟨.cycleGuardHit, "TARGET_PROPERTY depth guard reached"⟩
      else if ctx.stackContains stack target property then
        throw ⟨.cycleGuardHit, "TARGET_PROPERTY cycle detected"⟩
      else do
        let pushed ← tpStackPush target property
        if pushed then runPushedProperty inner ctx read target property
        else throw ⟨.cycleGuardHit, "TARGET_PROPERTY stack overflow"⟩

/-- `TARGET_PROPERTY`. -/
def runTargetProperty (args : List StringView) : Run StringView :=
  match args with
  | [property] => do
    let name ← inner ctx property
    if svTrim ctx.currentTargetName = [] then
      failRun "TARGET_PROPERTY implicit form requires current target context"
    else runPropertyOf inner ctx (svTrim ctx.currentTargetName) (svTrim name)
  | [target, property] => do
    let name ← inner ctx target
    let propertyName ← inner ctx property
    runPropertyOf inner ctx (svTrim name) (svTrim propertyName)
  | _ => failRun "TARGET_PROPERTY expects property or target,property"

/-- An operator that is no name: a nested expression, or a condition before a value. -/
def runUnnamed (op args : StringView) : Run StringView :=
  if args = [] ∧ 3 ≤ op.length ∧ (sv "$<").isPrefixOf op = true ∧ op.getLast? = some '>' then
    inner ctx op
  else if args ≠ [] ∧ (containsGenex op = true ∨ op = sv "0" ∨ op = sv "1") then do
    let value ← inner ctx op
    if cmakeStringIsFalse value then pure [] else inner ctx args
  else throw ⟨.unsupported, "Unsupported generator expression operator"⟩

/-- The branches of `gx_eval_body` on the name of the operator. `raw` is the whole expression. -/
def runOperator (raw args : StringView) (operator : Operator) : Run StringView :=
  let fileMissing := "TARGET_FILE callback is not configured"
  let filePartMissing := "TARGET_FILE_* callback is not configured"
  let fileTooLarge := "TARGET_FILE callback returned an invalid or too large value"
  let linkerMissing := "TARGET_LINKER_FILE callback is not configured"
  let linkerTooLarge := "TARGET_LINKER_FILE callback returned an invalid or too large value"
  match operator with
  | .config =>
    if args = [] then pure ctx.config
    else runMatchesAny inner ctx ctx.config (splitTopLevel ',' args)
  | .platformId =>
    if args = [] then pure ctx.platformId
    else runMatchesAny inner ctx ctx.platformId (splitTopLevel ',' args)
  | .compileLanguage =>
    if svTrim ctx.compileLanguage = [] ∨ args = [] then pure (truthValue false)
    else runMatchesAny inner ctx (svTrim ctx.compileLanguage) (splitTopLevel ',' args)
  | .buildInterface => runActive inner ctx ctx.buildInterfaceActive args
  | .buildLocalInterface => runActive inner ctx ctx.buildLocalInterfaceActive args
  | .installInterface => runActive inner ctx ctx.installInterfaceActive args
  | .installPrefix =>
    if args ≠ [] then failRun "INSTALL_PREFIX does not accept arguments"
    else pure ctx.installPrefix
  | .linkOnly => runActive inner ctx ctx.linkOnlyActive args
  | .targetFile => runTargetFile inner ctx ctx.readTargetFile fileMissing fileTooLarge id args
  | .targetFileDir =>
    runTargetFile inner ctx ctx.readTargetFile filePartMissing fileTooLarge pathDirname args
  | .targetFileName =>
    runTargetFile inner ctx ctx.readTargetFile filePartMissing fileTooLarge pathBasename args
  | .targetLinkerFile =>
    runTargetFile inner ctx (readLinkerFile ctx) linkerMissing linkerTooLarge id args
  | .targetLinkerFileDir =>
    runTargetFile inner ctx (readLinkerFile ctx) linkerMissing linkerTooLarge pathDirname args
  | .targetLinkerFileName =>
    runTargetFile inner ctx (readLinkerFile ctx) linkerMissing linkerTooLarge pathBasename args
  | .bool => do
    let value ← inner ctx args
    pure (truthValue !(cmakeStringIsFalse value))
  | .not => do
    let value ← inner ctx args
    pure (truthValue (cmakeStringIsFalse value))
  | .and => runLogical inner ctx true (splitTopLevel ',' args)
  | .or => runLogical inner ctx false (splitTopLevel ',' args)
  | .strequal => runStrequal inner ctx (splitTopLevel ',' args)
  | .ifThenElse => runIf inner ctx (splitTopLevel ',' args)
  | .genexEval => do
    let once ← inner ctx args
    inner ctx once
  | .targetGenexEval => runTargetGenexEval inner ctx (splitTopLevel ',' args)
  | .targetProperty => runTargetProperty inner ctx (splitTopLevel ',' args)
  | .linkLibrary | .linkGroup => pure raw

/-- `gx_eval_body`. -/
def runBody (body : StringView) : Run StringView :=
  noteReturn <|
    match findOperator (splitOperator body).1 with
    | some operator =>
      runOperator inner ctx (sv "$<" ++ body ++ sv ">") (splitOperator body).2 operator
    | none => runUnnamed inner ctx (splitOperator body).1 (splitOperator body).2

/-- One round of the loop of `gx_eval_inner`. -/
def runSegment : Segment → Run StringView
  | .text value => pure value
  | .expression body => runBody inner ctx body
  | .unclosed _ => failRun "Unclosed generator expression"

end Operators

/-- `gx_eval_inner`, with fuel for the calls and the depth that the source counts. -/
def runInner : Nat → Nat → Context → StringView → Run StringView
  | 0, _, _, _ => outOfFuel
  | fuel + 1, depth, ctx, input =>
    noteReturn <|
      if ctx.maxDepth < depth then failRun "Generator expression max depth exceeded"
      else if containsGenex input then do
        let parts ← (segments input).mapM (runSegment (runInner fuel (depth + 1)) ctx)
        pure (svToCstr parts.flatten)
      else pure input

/-- The limits of `gx_eval_root`: a bound that is not set is 64. -/
def Context.withLimits (ctx : Context) : Context :=
  { ctx with
    maxDepth := if ctx.maxDepth = 0 then 64 else ctx.maxDepth
    maxTargetPropertyDepth :=
      if ctx.maxTargetPropertyDepth = 0 then 64 else ctx.maxTargetPropertyDepth }

/-- `gx_eval_root`, from an empty stack. -/
def runRoot (fuel : Nat) (ctx : Context) (input : StringView) :
    Option (Evaluated StringView × GuardState) :=
  (runInner fuel 0 ctx.withLimits input).outcome { reached := [[]] }

/-! ## The guards -/

/-- What the guards of `TARGET_PROPERTY` promise of the stack: it fits the limit and its array,
and no property of a target is on it twice. -/
structure Guarded (ctx : Context) (stack : PropertyStack) : Prop where
  fits : stack.length ≤ min ctx.maxTargetPropertyDepth propertyStackRoom
  distinct : stack.Pairwise fun later earlier =>
    ¬ (ctx.targetNameEq earlier.1 later.1 = true ∧ svEqCi earlier.2 later.2 = true)

/-- Where an evaluation stands with that stack: whatever was on the stack was guarded, and every
call returned with the stack it was entered with. -/
structure GuardState.Sound (ctx : Context) (stack : PropertyStack) (state : GuardState) : Prop where
  here : state.stack = stack
  guarded : ∀ stack ∈ state.reached, Guarded ctx stack
  balanced : ∀ call ∈ state.returned, call.1 = call.2

/-- The guards do not look at the current target. -/
theorem Guarded.retarget (ctx : Context) (name : StringView) :
    Guarded { ctx with currentTargetName := name } = Guarded ctx := by
  funext stack
  apply propext
  constructor
  · intro guarded
    exact ⟨guarded.fits, guarded.distinct⟩
  · intro guarded
    exact ⟨guarded.fits, guarded.distinct⟩

/-- An evaluation for another target stands where the one it is part of stands. -/
theorem GuardState.Sound.retarget (ctx : Context) (name : StringView) (stack : PropertyStack) :
    GuardState.Sound { ctx with currentTargetName := name } stack = GuardState.Sound ctx stack := by
  funext state
  apply propext
  constructor
  · intro sound
    refine ⟨sound.here, ?_, sound.balanced⟩
    rw [← Guarded.retarget ctx name]
    exact sound.guarded
  · intro sound
    refine ⟨sound.here, ?_, sound.balanced⟩
    rw [Guarded.retarget ctx name]
    exact sound.guarded

theorem Guarded.nil (ctx : Context) : Guarded ctx [] := ⟨Nat.zero_le _, List.Pairwise.nil⟩

/-- What the three guards let through keeps the stack guarded. -/
theorem Guarded.cons {ctx : Context} {stack : PropertyStack} {target property : StringView}
    (guarded : Guarded ctx stack) (shallow : stack.length < ctx.maxTargetPropertyDepth)
    (fresh : ctx.stackContains stack target property = false)
    (room : stack.length < propertyStackRoom) : Guarded ctx ((target, property) :: stack) := by
  constructor
  · rw [length_cons]
    omega
  · apply List.Pairwise.cons _ guarded.distinct
    intro entry mem same
    have found : ctx.stackContains stack target property = true := by
      unfold Context.stackContains
      rw [any_eq_true]
      exact ⟨entry, mem, by rw [same.1, same.2]; rfl⟩
    rw [found] at fresh
    exact Bool.noConfusion fresh

namespace GuardState.Sound

variable {ctx : Context} {stack changed : PropertyStack} {state : GuardState}

/-- A change of the stack to a guarded one. -/
theorem change (sound : state.Sound ctx stack) (guarded : Guarded ctx changed) :
    (state.change changed).Sound ctx changed := by
  refine ⟨rfl, ?_, sound.balanced⟩
  intro other mem
  rcases mem_append.mp mem with earlier | latest
  · exact sound.guarded other earlier
  · rw [mem_singleton.mp latest]
    exact guarded

end GuardState.Sound

/-- A call that agrees with a value returns with the stack it was entered with. -/
theorem noteReturn_agrees {α : Type} {ctx : Context} {stack : PropertyStack} {run : Run α}
    {result : Evaluated α} (agrees : Agrees (GuardState.Sound ctx stack) run result) :
    Agrees (GuardState.Sound ctx stack) (noteReturn run) result := by
  intro state sound
  obtain ⟨after, went, afterSound⟩ := agrees state sound
  have noted : (noteReturn run).outcome state = some
      (result, { after with returned := after.returned ++ [(state.stack, after.stack)] }) := by
    show (run.outcome state).map _ = _
    rw [went]
    rfl
  refine ⟨_, noted, afterSound.here, afterSound.guarded, ?_⟩
  intro call mem
  rcases mem_append.mp mem with earlier | latest
  · exact afterSound.balanced call earlier
  · rw [mem_singleton.mp latest]
    show state.stack = after.stack
    rw [sound.here, afterSound.here]

/-- A pop takes back the stack below. -/
theorem tpStackPop_outcome {ctx : Context} {entry : StringView × StringView}
    {stack : PropertyStack} {state : GuardState} (guarded : Guarded ctx stack)
    (sound : state.Sound ctx (entry :: stack)) :
    tpStackPop.outcome state = some (.ok (), state.change stack) ∧
      (state.change stack).Sound ctx stack := by
  refine ⟨?_, sound.change guarded⟩
  show (match state.stack with
    | [] => some (Except.ok (), state)
    | _ :: below => some (.ok (), state.change below)) = _
  rw [sound.here]

/-! ## Every call ends -/

section Operators

variable {inner : Context → StringView → Run StringView}
  {eval : Context → PropertyStack → StringView → Evaluated StringView} {ctx : Context}
  {stack : PropertyStack}

/-- From every guarded stack the calls of an operator end with their values, for the context and
for the ones with another target. -/
def InnerAgrees (inner : Context → StringView → Run StringView)
    (eval : Context → PropertyStack → StringView → Evaluated StringView) (ctx : Context) : Prop :=
  ∀ name stack input, Guarded ctx stack →
    Agrees (GuardState.Sound ctx stack) (inner { ctx with currentTargetName := name } input)
      (eval { ctx with currentTargetName := name } stack input)

theorem InnerAgrees.same (agrees : InnerAgrees inner eval ctx) (guarded : Guarded ctx stack)
    (input : StringView) :
    Agrees (GuardState.Sound ctx stack) (inner ctx input) (eval ctx stack input) :=
  agrees ctx.currentTargetName stack input guarded

variable (agrees : InnerAgrees inner eval ctx) (guarded : Guarded ctx stack)

include agrees guarded

theorem runArgFast_agrees (arg : StringView) :
    Agrees (GuardState.Sound ctx stack) (runArgFast inner ctx arg)
      (evalArgFast eval ctx stack arg) := by
  apply Agrees.ite
  · intro _
    exact agrees.same guarded _
  · intro _
    exact Agrees.pure _

theorem runMatchesAny_agrees (needle : StringView) (args : List StringView) :
    Agrees (GuardState.Sound ctx stack) (runMatchesAny inner ctx needle args)
      (matchesAny eval ctx stack needle args) := by
  induction args with
  | nil => exact Agrees.pure _
  | cons arg rest ih =>
    apply (runArgFast_agrees agrees guarded arg).bind
    intro value _
    apply Agrees.ite
    · intro _
      exact Agrees.pure _
    · intro _
      exact ih

theorem runLogical_agrees (wantAnd : Bool) (args : List StringView) :
    Agrees (GuardState.Sound ctx stack) (runLogical inner ctx wantAnd args)
      (evalLogical eval ctx stack wantAnd args) := by
  induction args with
  | nil => exact Agrees.pure _
  | cons arg rest ih =>
    apply (agrees.same guarded arg).bind
    intro value _
    apply Agrees.ite
    · intro _
      exact Agrees.pure _
    · intro _
      exact ih

theorem runActive_agrees (active : Bool) (args : StringView) :
    Agrees (GuardState.Sound ctx stack) (runActive inner ctx active args)
      (evalActive eval ctx stack active args) := by
  apply Agrees.ite
  · intro _
    exact agrees.same guarded args
  · intro _
    exact Agrees.pure _

theorem runTargetFile_agrees (read : Option (StringView → StringView)) (missing tooLarge : String)
    (part : StringView → StringView) (args : StringView) :
    Agrees (GuardState.Sound ctx stack) (runTargetFile inner ctx read missing tooLarge part args)
      (evalTargetFile eval ctx stack read missing tooLarge part args) := by
  cases read with
  | none => exact Agrees.throw _
  | some read =>
    apply (agrees.same guarded args).bind
    intro name _
    apply Agrees.ite
    · intro _
      exact Agrees.pure _
    · intro _
      exact (Agrees.ofExcept _).map part

theorem runStrequal_agrees (args : List StringView) :
    Agrees (GuardState.Sound ctx stack) (runStrequal inner ctx args)
      (evalStrequal eval ctx stack args) := by
  match args with
  | [lhs, rhs] =>
    apply (agrees.same guarded lhs).bind
    intro left _
    apply (agrees.same guarded rhs).bind
    intro right _
    exact Agrees.pure _
  | [] | [_] | _ :: _ :: _ :: _ => exact Agrees.throw _

theorem runIf_agrees (args : List StringView) :
    Agrees (GuardState.Sound ctx stack) (runIf inner ctx args) (evalIf eval ctx stack args) := by
  match args with
  | [condition, yes, no] =>
    apply (agrees.same guarded condition).bind
    intro value _
    exact agrees.same guarded _
  | [] | [_] | [_, _] | _ :: _ :: _ :: _ :: _ => exact Agrees.throw _

theorem runTargetGenexEval_agrees (args : List StringView) :
    Agrees (GuardState.Sound ctx stack) (runTargetGenexEval inner ctx args)
      (evalTargetGenexEval eval ctx stack args) := by
  match args with
  | [target, value] =>
    apply (agrees.same guarded target).bind
    intro name _
    apply Agrees.ite
    · intro _
      exact Agrees.pure _
    · intro _
      exact agrees (svTrim name) stack value guarded
  | [] | [_] | _ :: _ :: _ :: _ => exact Agrees.throw _

/-- Both ways out of a pushed property pop it again. -/
theorem runPushedProperty_outcome {read : StringView → StringView → StringView}
    {target property : StringView} (pushed : Guarded ctx ((target, property) :: stack))
    {state : GuardState} (sound : state.Sound ctx ((target, property) :: stack)) :
    ∃ after, (runPushedProperty inner ctx read target property).outcome state =
        some ((ctx.validateCallbackValue
          "TARGET_PROPERTY callback returned an invalid or too large value"
          (read target property)).bind fun value => eval ctx ((target, property) :: stack) value,
          after) ∧
      after.Sound ctx stack := by
  unfold runPushedProperty
  cases ctx.validateCallbackValue "TARGET_PROPERTY callback returned an invalid or too large value"
      (read target property) with
  | error failure =>
    obtain ⟨popped, poppedSound⟩ := tpStackPop_outcome guarded sound
    refine ⟨_, ?_, poppedSound⟩
    show (tpStackPop >>= fun _ => throw failure : Run StringView).outcome state = _
    rw [outcome_bind, popped]
    rfl
  | ok value =>
    obtain ⟨middle, nested, middleSound⟩ := agrees.same pushed value state sound
    obtain ⟨popped, poppedSound⟩ := tpStackPop_outcome guarded middleSound
    obtain ⟨after, returned, afterSound⟩ :=
      Agrees.ofExcept (eval ctx ((target, property) :: stack) value) _ poppedSound
    refine ⟨after, ?_, afterSound⟩
    show (attempt (inner ctx value) >>= fun nested =>
      tpStackPop >>= fun _ => MonadExcept.ofExcept nested : Run StringView).outcome state = _
    rw [outcome_bind, Lib.StatefulRun.outcome_attempt, nested]
    show (tpStackPop >>= fun _ => MonadExcept.ofExcept
      (eval ctx ((target, property) :: stack) value) : Run StringView).outcome middle = _
    rw [outcome_bind, popped]
    exact returned

theorem runPropertyOf_agrees (target property : StringView) :
    Agrees (GuardState.Sound ctx stack) (runPropertyOf inner ctx target property)
      (evalPropertyOf eval ctx stack target property) := by
  apply Agrees.ite
  · intro _
    exact Agrees.pure _
  intro _
  cases ctx.readTargetProperty with
  | none => exact Agrees.throw _
  | some read =>
    intro state sound
    have looked : readStack.outcome state = some (.ok stack, state) := by
      rw [← sound.here]
      rfl
    rw [outcome_bind, looked]
    show ∃ after, outcome (if ctx.maxTargetPropertyDepth ≤ stack.length then _ else _) state = _ ∧ _
    by_cases deep : ctx.maxTargetPropertyDepth ≤ stack.length
    · rw [if_pos deep]
      dsimp only
      rw [if_pos deep]
      exact ⟨state, rfl, sound⟩
    rw [if_neg deep]
    dsimp only
    rw [if_neg deep]
    by_cases contained : ctx.stackContains stack target property = true
    · rw [if_pos contained, if_pos contained]
      exact ⟨state, rfl, sound⟩
    rw [if_neg contained, if_neg contained, outcome_bind]
    by_cases full : propertyStackRoom ≤ stack.length
    · have refused : (tpStackPush target property).outcome state = some (.ok false, state) := by
        show (if propertyStackRoom ≤ state.stack.length then _ else _) = _
        rw [sound.here, if_pos full]
      rw [refused, if_pos full]
      exact ⟨state, rfl, sound⟩
    · have pushes : (tpStackPush target property).outcome state =
          some (.ok true, state.change ((target, property) :: stack)) := by
        show (if propertyStackRoom ≤ state.stack.length then _ else _) = _
        rw [sound.here, if_neg full]
      rw [pushes, if_neg full]
      have pushed : Guarded ctx ((target, property) :: stack) :=
        guarded.cons (by omega) (Bool.eq_false_iff.mpr contained) (by omega)
      exact runPushedProperty_outcome agrees guarded pushed (sound.change pushed)

theorem runTargetProperty_agrees (args : List StringView) :
    Agrees (GuardState.Sound ctx stack) (runTargetProperty inner ctx args)
      (evalTargetProperty eval ctx stack args) := by
  match args with
  | [property] =>
    apply (agrees.same guarded property).bind
    intro name _
    apply Agrees.ite
    · intro _
      exact Agrees.throw _
    · intro _
      exact runPropertyOf_agrees agrees guarded _ _
  | [target, property] =>
    apply (agrees.same guarded target).bind
    intro name _
    apply (agrees.same guarded property).bind
    intro propertyName _
    exact runPropertyOf_agrees agrees guarded _ _
  | [] | _ :: _ :: _ :: _ => exact Agrees.throw _

theorem runUnnamed_agrees (op args : StringView) :
    Agrees (GuardState.Sound ctx stack) (runUnnamed inner ctx op args)
      (evalUnnamed eval ctx stack op args) := by
  apply Agrees.ite
  · intro _
    exact agrees.same guarded op
  intro _
  apply Agrees.ite
  · intro _
    apply (agrees.same guarded op).bind
    intro value _
    apply Agrees.ite
    · intro _
      exact Agrees.pure _
    · intro _
      exact agrees.same guarded args
  · intro _
    exact Agrees.throw _

/-- Every operator ends with its value. -/
theorem runOperator_agrees (raw args : StringView) (operator : Operator) :
    Agrees (GuardState.Sound ctx stack) (runOperator inner ctx raw args operator)
      (evalOperator eval ctx stack raw args operator) := by
  have orMatches : ∀ (missing : Prop) [Decidable missing] (value needle : StringView),
      Agrees (GuardState.Sound ctx stack)
        (if missing then pure value else runMatchesAny inner ctx needle (splitTopLevel ',' args))
        (if missing then .ok value else matchesAny eval ctx stack needle (splitTopLevel ',' args)) :=
    fun missing _ value needle => Agrees.ite (fun _ => Agrees.pure value)
      fun _ => runMatchesAny_agrees agrees guarded needle _
  cases operator with
  | config => exact orMatches _ _ _
  | platformId => exact orMatches _ _ _
  | compileLanguage => exact orMatches _ _ _
  | buildInterface | buildLocalInterface | installInterface | linkOnly =>
    exact runActive_agrees agrees guarded _ args
  | installPrefix => exact Agrees.ite (fun _ => Agrees.throw _) fun _ => Agrees.pure _
  | targetFile | targetFileDir | targetFileName | targetLinkerFile | targetLinkerFileDir
  | targetLinkerFileName => exact runTargetFile_agrees agrees guarded _ _ _ _ args
  | bool => exact (agrees.same guarded args).map fun value => truthValue !(cmakeStringIsFalse value)
  | not => exact (agrees.same guarded args).map fun value => truthValue (cmakeStringIsFalse value)
  | and | or => exact runLogical_agrees agrees guarded _ _
  | strequal => exact runStrequal_agrees agrees guarded _
  | ifThenElse => exact runIf_agrees agrees guarded _
  | genexEval => exact (agrees.same guarded args).bind fun once _ => agrees.same guarded once
  | targetGenexEval => exact runTargetGenexEval_agrees agrees guarded _
  | targetProperty => exact runTargetProperty_agrees agrees guarded _
  | linkLibrary | linkGroup => exact Agrees.pure raw

theorem runBody_agrees (body : StringView) :
    Agrees (GuardState.Sound ctx stack) (runBody inner ctx body) (evalBody eval ctx stack body) := by
  apply noteReturn_agrees
  unfold evalBody
  dsimp only
  cases findOperator (splitOperator body).1 with
  | none => exact runUnnamed_agrees agrees guarded _ _
  | some operator => exact runOperator_agrees agrees guarded _ _ operator

theorem runSegment_agrees (segment : Segment) :
    Agrees (GuardState.Sound ctx stack) (runSegment inner ctx segment)
      (evalSegment eval ctx stack segment) := by
  cases segment with
  | text value => exact Agrees.pure value
  | expression body => exact runBody_agrees agrees guarded body
  | unclosed rest => exact Agrees.throw _

end Operators

/-- With more fuel than there are levels left an evaluation ends with the value of the evaluation
that counts the levels down: the depth is the measure, not the text. -/
theorem runInner_agrees (fuel depth : Nat) (ctx : Context) (stack : PropertyStack)
    (input : StringView) (enough : ctx.maxDepth + 1 - depth < fuel)
    (guarded : Guarded ctx stack) :
    Agrees (GuardState.Sound ctx stack) (runInner fuel depth ctx input)
      (evalInner (ctx.maxDepth + 1 - depth) ctx stack input) := by
  induction fuel generalizing depth ctx stack input with
  | zero => omega
  | succ fuel ih =>
    apply noteReturn_agrees
    by_cases deep : ctx.maxDepth < depth
    · rw [if_pos deep, show ctx.maxDepth + 1 - depth = 0 by omega]
      exact Agrees.throw _
    · rw [if_neg deep, show ctx.maxDepth + 1 - depth = (ctx.maxDepth + 1 - (depth + 1)) + 1 by omega]
      apply Agrees.ite
      · intro _
        have calls : InnerAgrees (runInner fuel (depth + 1))
            (evalInner (ctx.maxDepth + 1 - (depth + 1))) ctx := by
          intro name stack input guarded
          rw [← Guarded.retarget ctx name] at guarded
          rw [← GuardState.Sound.retarget ctx name]
          exact ih (depth + 1) { ctx with currentTargetName := name } stack input
            (show ctx.maxDepth + 1 - (depth + 1) < fuel by omega) guarded
        have parts := @Agrees.mapM _ _ _ _ _ _ _ (segments input)
          fun segment _ => runSegment_agrees calls guarded segment
        exact parts.map fun parts => svToCstr parts.flatten
      · intro _
        exact Agrees.pure input

/-- An evaluation ends, whatever the callbacks give, with the result of `evalRoot`. Every call
returned with the stack it was entered with, and whatever was on the stack fits the limits and
has no property of a target twice. -/
theorem runRoot_guarded (ctx : Context) (input : StringView) :
    ∃ bound, ∀ fuel, bound ≤ fuel → ∃ state,
      runRoot fuel ctx input = some (evalRoot ctx input, state) ∧ state.stack = [] ∧
      (∀ call ∈ state.returned, call.1.length = call.2.length) ∧
      ∀ stack ∈ state.reached,
        stack.length ≤ min ctx.withLimits.maxTargetPropertyDepth propertyStackRoom ∧
        stack.Pairwise fun later earlier =>
          ¬ (ctx.targetNameEq earlier.1 later.1 = true ∧ svEqCi earlier.2 later.2 = true) := by
  refine ⟨ctx.withLimits.maxDepth + 2, ?_⟩
  intro fuel enough
  have ends := runInner_agrees fuel 0 ctx.withLimits [] input (by omega) (Guarded.nil _)
  have start : GuardState.Sound ctx.withLimits [] { reached := [[]] } := by
    refine ⟨rfl, ?_, fun call mem => nomatch mem⟩
    intro stack mem
    rw [mem_singleton.mp mem]
    exact Guarded.nil _
  obtain ⟨state, went, sound⟩ := ends _ start
  refine ⟨state, went, sound.here, ?_, ?_⟩
  · intro call mem
    rw [sound.balanced call mem]
  · intro stack mem
    exact ⟨(sound.guarded stack mem).fits, (sound.guarded stack mem).distinct⟩

end Nobify.Genex
