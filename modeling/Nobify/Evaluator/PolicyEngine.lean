import Nobify.Evaluator.Condition
import Nobify.Evaluator.WrittenVars

/-!
# The policy engine

Policies are set at levels. `eval_policy_push` opens a level and `eval_policy_pop` closes it, setting
writes the innermost level, and a policy is looked up from the innermost level outwards and then in
the defaults that the variables give. The levels are kept in an array whose slots are used again
after a pop. In every sequence of these operations the engine is a stack of finite maps; what
closes a level leaves every policy as it was when the level was opened.
-/

namespace Nobify.Evaluator

open Lib Prog
open Lib.ScopeStack (Write rebind)
open List

variable {number : Nat} {policyId : StringView}

/-! ## Statuses -/

/-- `Eval_Policy_Status`. -/
inductive PolicyStatus where
  | unset
  | old
  | new
  deriving DecidableEq

/-- `eval_policy_status_to_sv`. -/
def PolicyStatus.text : PolicyStatus → StringView
  | .old => sv "OLD"
  | .new => sv "NEW"
  | .unset => []

/-- `policy_status_from_sv`. -/
def policyStatusFromSv (text : StringView) : PolicyStatus :=
  if svEqCi text (sv "NEW") then .new
  else if svEqCi text (sv "OLD") then .old
  else .unset

/-- `policy_slot_from_status`. -/
def policySlotFromStatus : PolicyStatus → PolicySlot
  | .old => .old
  | .new => .new
  | .unset => .unsetShadow

/-- What the loop of `eval_policy_get_effective` finds in a slot. -/
def PolicySlot.status : PolicySlot → Option PolicyStatus
  | .inherit => none
  | .old => some .old
  | .new => some .new
  | .unsetShadow => some .unset

/-! ## Versions -/

/-- `Eval_Semver`. -/
structure Semver where
  major : Nat
  minor : Nat
  patch : Nat
  tweak : Nat

/-- The loop of `eval_semver_parse_component`, which ends above `INT_MAX`. -/
def semverParseDigits (acc : Nat) : StringView → Option Nat
  | [] => some acc
  | char :: rest =>
    if isDigit char then
      let acc := acc * 10 + (char.toNat - '0'.toNat)
      if 2147483647 < acc then none else semverParseDigits acc rest
    else none

/-- `eval_semver_parse_component`. -/
def semverParseComponent (text : StringView) : Option Nat :=
  if text.isEmpty then none else semverParseDigits 0 text

/-- `eval_semver_parse_strict`: two to four numbers with points between them. -/
def semverParseStrict (token : StringView) : Option Semver :=
  match (token.splitOn '.').mapM semverParseComponent with
  | some [major, minor] => some ⟨major, minor, 0, 0⟩
  | some [major, minor, patch] => some ⟨major, minor, patch, 0⟩
  | some [major, minor, patch, tweak] => some ⟨major, minor, patch, tweak⟩
  | _ => none

/-- `eval_semver_compare`. -/
def semverCompare (left right : Semver) : Ordering :=
  if left.major ≠ right.major then if left.major < right.major then .lt else .gt
  else if left.minor ≠ right.minor then if left.minor < right.minor then .lt else .gt
  else if left.patch ≠ right.patch then if left.patch < right.patch then .lt else .gt
  else if left.tweak ≠ right.tweak then if left.tweak < right.tweak then .lt else .gt
  else .eq

/-- `Policy_Intro_Range`. -/
structure PolicyIntroRange where
  firstId : Nat
  lastId : Nat
  intro : Semver

/-- `POLICY_INTRO_RANGES`. -/
def policyIntroRanges : List PolicyIntroRange :=
  [⟨0, 11, ⟨2, 6, 0, 0⟩⟩, ⟨12, 23, ⟨2, 8, 0, 0⟩⟩, ⟨24, 50, ⟨3, 0, 0, 0⟩⟩, ⟨51, 54, ⟨3, 1, 0, 0⟩⟩,
    ⟨55, 56, ⟨3, 2, 0, 0⟩⟩, ⟨57, 63, ⟨3, 3, 0, 0⟩⟩, ⟨64, 65, ⟨3, 4, 0, 0⟩⟩,
    ⟨66, 66, ⟨3, 7, 0, 0⟩⟩, ⟨67, 67, ⟨3, 8, 0, 0⟩⟩, ⟨68, 69, ⟨3, 9, 0, 0⟩⟩,
    ⟨70, 71, ⟨3, 10, 0, 0⟩⟩, ⟨72, 72, ⟨3, 11, 0, 0⟩⟩, ⟨73, 75, ⟨3, 12, 0, 0⟩⟩,
    ⟨76, 81, ⟨3, 13, 0, 0⟩⟩, ⟨82, 88, ⟨3, 14, 0, 0⟩⟩, ⟨89, 94, ⟨3, 15, 0, 0⟩⟩,
    ⟨95, 97, ⟨3, 16, 0, 0⟩⟩, ⟨98, 102, ⟨3, 17, 0, 0⟩⟩, ⟨103, 108, ⟨3, 18, 0, 0⟩⟩,
    ⟨109, 114, ⟨3, 19, 0, 0⟩⟩, ⟨115, 120, ⟨3, 20, 0, 0⟩⟩, ⟨121, 126, ⟨3, 21, 0, 0⟩⟩,
    ⟨127, 128, ⟨3, 22, 0, 0⟩⟩, ⟨129, 129, ⟨3, 23, 0, 0⟩⟩, ⟨130, 139, ⟨3, 24, 0, 0⟩⟩,
    ⟨140, 142, ⟨3, 25, 0, 0⟩⟩, ⟨143, 143, ⟨3, 26, 0, 0⟩⟩, ⟨144, 151, ⟨3, 27, 0, 0⟩⟩,
    ⟨152, 155, ⟨3, 28, 0, 0⟩⟩]

/-- `policy_get_intro_for_number`. -/
def policyGetIntroForNumber (number : Nat) : Option Semver :=
  (policyIntroRanges.find? fun range => !(number < range.firstId || range.lastId < number)).map
    PolicyIntroRange.intro

/-! ## Policies and their variables -/

/-- The number that `policy_parse_id_number` reads in a known policy. -/
def policyNumber (policyId : StringView) : Nat := digitsValue (policyId.drop 3)

/-- The name `CMP%04d` of a policy. -/
def policyIdText (number : Nat) : StringView :=
  let digits := Nat.toDigits 10 number
  sv "CMP" ++ List.replicate (4 - digits.length) '0' ++ digits

/-- The status of a policy that no level sets. -/
def policyDefault (state : EvalState) (number : Nat) : PolicyStatus :=
  let defaultKey := sv "CMAKE_POLICY_DEFAULT_" ++ policyIdText number
  if state.varDefinedVisible defaultKey then policyStatusFromSv (state.varGetVisible defaultKey)
  else
    match semverParseStrict (state.varGetVisible (sv "CMAKE_POLICY_VERSION")),
      policyGetIntroForNumber number with
    | some current, some intro => if semverCompare current intro ≠ .lt then .new else .unset
    | _, _ => .unset

/-! ## Levels -/

namespace PolicyLevel

/-- The slot of a policy. -/
def slot (level : PolicyLevel) (number : Nat) : PolicySlot :=
  ((level.find? fun entry => entry.1 = number).map Prod.snd).getD .inherit

/-- Write the slot of a policy. -/
def write (level : PolicyLevel) (number : Nat) (slot : PolicySlot) : PolicyLevel :=
  (number, slot) :: level

end PolicyLevel

/-- The status that `eval_policy_get_effective` gives to a policy. -/
def policyEffective (state : EvalState) (number : Nat) : PolicyStatus :=
  match (levelsInView state.policyLevels state.visiblePolicyDepth).findSome? fun level =>
      (level.slot number).status with
  | some status => status
  | none => policyDefault state number

/-- A change of the levels and of the number of those in view. -/
def policyChange (levels : List PolicyLevel → Nat → List PolicyLevel) (depth : Nat → Nat) :
    StateChange where
  apply state := { state with
    policyLevels := levels state.policyLevels state.visiblePolicyDepth
    visiblePolicyDepth := depth state.visiblePolicyDepth }
  keepsScopes := scopes_kept
  keepsTargets _ := rfl

/-- `policy_set_depth_var`. -/
def policySetDepthVar : Prog Bool := do
  let depth := (← context).state.visiblePolicyDepth
  if depth == 0 then return false
  varSetCurrent (sv "NOBIFY_POLICY_STACK_DEPTH") (Nat.toDigits 10 depth)

/-- `policy_stack_bootstrap`: the first use opens a blank level. -/
def policyStackBootstrap : Prog Bool := do
  let ctx ← context
  if ctx.shouldStop then return false
  if ctx.state.visiblePolicyDepth == 0 then
    modifyState (policyChange (openLevel []) fun _ => 1)
    policySetDepthVar
  else return true

/-- `eval_policy_push`. -/
def evalPolicyPush : Prog Bool := do
  if ← Prog.shouldStop then return false
  if !(← policyStackBootstrap) then return false
  modifyState (policyChange (openLevel []) (· + 1))
  policySetDepthVar

/-- `eval_policy_pop`. -/
def evalPolicyPop : Prog Bool := do
  if ← Prog.shouldStop then return false
  if !(← policyStackBootstrap) then return false
  if (← context).state.visiblePolicyDepth ≤ 1 then return false
  modifyState (policyChange (fun levels depth => levels.set (depth - 1) []) (· - 1))
  policySetDepthVar

/-- `eval_policy_set_status`. -/
def evalPolicySetStatus (policyId : StringView) (status : PolicyStatus) : Prog Bool := do
  if ← Prog.shouldStop then return false
  if !policyIsKnown policyId then return false
  if !(← policyStackBootstrap) then return false
  let number := policyNumber policyId
  modifyState (policyChange (fun levels depth =>
    levels.modify (depth - 1) (·.write number (policySlotFromStatus status))) id)
  varSetCurrent (sv "CMAKE_POLICY_" ++ policyIdText number) status.text

/-- `eval_policy_set`. -/
def evalPolicySet (policyId value : StringView) : Prog Bool := do
  let normalized := policyStatusFromSv value
  if normalized = .unset then return false
  evalPolicySetStatus policyId normalized

/-- `eval_policy_get_effective`. -/
def evalPolicyGetEffective (policyId : StringView) : Prog StringView := do
  if ← Prog.shouldStop then return []
  if !policyIsKnown policyId then return []
  if !(← policyStackBootstrap) then return []
  return (policyEffective (← context).state (policyNumber policyId)).text

/-! ## Operations -/

/-- An operation of the engine. -/
inductive PolicyOp where
  /-- `eval_policy_push`. -/
  | push
  /-- `eval_policy_pop`. -/
  | pop
  /-- `eval_policy_set_status`. -/
  | setStatus (policyId : StringView) (status : PolicyStatus)
  /-- `eval_policy_set`. -/
  | set (policyId value : StringView)
  /-- `eval_policy_get_effective`. -/
  | get (policyId : StringView)

/-- What an operation returns. -/
inductive PolicyAnswer where
  | done (succeeds : Bool)
  | value (text : StringView)

/-- The program of an operation. -/
def PolicyOp.program : PolicyOp → Prog PolicyAnswer
  | .push => do return .done (← evalPolicyPush)
  | .pop => do return .done (← evalPolicyPop)
  | .setStatus policyId status => do return .done (← evalPolicySetStatus policyId status)
  | .set policyId value => do return .done (← evalPolicySet policyId value)
  | .get policyId => do return .value (← evalPolicyGetEffective policyId)

/-- A sequence of operations, with what each returns. -/
def policySession : List PolicyOp → Prog (List PolicyAnswer)
  | [] => return []
  | op :: rest => do
    let answer ← op.program
    let answers ← policySession rest
    return answer :: answers

/-! ## The stack of maps -/

/-- Levels as finite maps, innermost first; nothing is looked up behind them. -/
abbrev PolicyStack := Lib.ScopeStack Nat PolicyStatus

/-- The policies that a level sets. -/
def PolicyLevel.statuses (level : PolicyLevel) : Finmap fun _ : Nat => PolicyStatus :=
  level.foldr (fun entry statuses => rebind entry.1 entry.2.status statuses) ∅

/-- The levels in view. Before the first use there is only a blank one to come. -/
def EvalState.policyStack (state : EvalState) : PolicyStack where
  scopes :=
    if state.visiblePolicyDepth = 0 then [∅]
    else (levelsInView state.policyLevels state.visiblePolicyDepth).map PolicyLevel.statuses
  fallback := ∅

/-- What an operation writes. -/
def PolicyOp.writes : PolicyOp → List (Write Nat PolicyStatus)
  | .push => [.push]
  | .pop => [.pop]
  | .setStatus policyId status =>
    if policyIsKnown policyId then [.bind 0 (policyNumber policyId) (some status)] else []
  | .set policyId value =>
    if policyStatusFromSv value ≠ .unset ∧ policyIsKnown policyId = true then
      [.bind 0 (policyNumber policyId) (some (policyStatusFromSv value))]
    else []
  | .get _ => []

/-- What an operation returns for a stack, with the statuses of the policies that no level sets. -/
def PolicyOp.answer (default : Nat → PolicyStatus) (stack : PolicyStack) : PolicyOp → PolicyAnswer
  | .push => .done true
  | .pop => .done (1 < stack.scopes.length)
  | .setStatus policyId _ => .done (policyIsKnown policyId)
  | .set policyId value =>
    .done (policyStatusFromSv value ≠ .unset ∧ policyIsKnown policyId = true)
  | .get policyId =>
    .value (if policyIsKnown policyId then
        ((stack.lookup (policyNumber policyId)).getD (default (policyNumber policyId))).text
      else [])

/-- What an operation returns once the run is stopped. -/
def PolicyOp.refusal : PolicyOp → PolicyAnswer
  | .get _ => .value []
  | _ => .done false

/-- The stack after operations. -/
def stackAfter (stack : PolicyStack) (ops : List PolicyOp) : PolicyStack :=
  replay Write.apply (ops.flatMap PolicyOp.writes) stack

/-- What a sequence of operations returns. -/
def policyAnswers (default : Nat → PolicyStatus) (stack : PolicyStack) :
    List PolicyOp → List PolicyAnswer
  | [] => []
  | op :: rest => op.answer default stack :: policyAnswers default (stackAfter stack [op]) rest

/-- Sequences in which every level that is opened is closed. -/
abbrev BalancedOps (ops : List PolicyOp) : Prop :=
  Balanced (fun op => op = .push) (fun op => op = .pop) ops

/-- What a sequence of operations returns and leaves. Either the run goes on, and the engine has
answered as the stack does and is left with the stack after them; or one of them has stopped the
run, the ones before it are answered as the stack does, and the ones behind it are refused. -/
def Serves (ctx : EvalExecContext) (ops : List PolicyOp) (answers : List PolicyAnswer)
    (after : EvalExecContext) : Prop :=
  (after.shouldStop = false ∧
    answers = policyAnswers (policyDefault ctx.state) ctx.state.policyStack ops ∧
    after.state.policyStack = stackAfter ctx.state.policyStack ops) ∨
  (after.shouldStop = true ∧ ∃ served rest late, ops = served ++ rest ∧
    answers = policyAnswers (policyDefault ctx.state) ctx.state.policyStack served ++ late ∧
    late.length = rest.length ∧ late.tail = rest.tail.map PolicyOp.refusal)

/-! ## Levels as maps -/

/-- A level sets what its slots say. -/
theorem PolicyLevel.statuses_lookup (level : PolicyLevel) (number : Nat) :
    level.statuses.lookup number = (level.slot number).status := by
  induction level with
  | nil => rfl
  | cons entry rest ih =>
    show (rebind entry.1 entry.2.status (PolicyLevel.statuses rest)).lookup number = _
    rw [Lib.ScopeStack.lookup_rebind]
    by_cases here : entry.1 = number
    · rw [if_pos here, PolicyLevel.slot, List.find?_cons_of_pos (by simpa using here)]
      rfl
    · rw [if_neg here, ih, PolicyLevel.slot, PolicyLevel.slot,
        List.find?_cons_of_neg (by simpa using here)]

theorem PolicyLevel.statuses_write (number : Nat) (status : PolicyStatus) (level : PolicyLevel) :
    (level.write number (policySlotFromStatus status)).statuses =
      rebind number (some status) level.statuses := by
  cases status <;> rfl

/-- The loop of `eval_policy_get_effective` looks a policy up in the stack. -/
theorem policyEffective_eq (state : EvalState) (number : Nat) : policyEffective state number =
      (state.policyStack.lookup number).getD (policyDefault state number) := by
  unfold policyEffective EvalState.policyStack Lib.ScopeStack.lookup
  dsimp only
  by_cases unused : state.visiblePolicyDepth = 0
  · rw [if_pos unused, unused]
    rfl
  · rw [if_neg unused, List.findSome?_map]
    have slots : (fun statuses : Finmap fun _ : Nat => PolicyStatus => statuses.lookup number) ∘
        PolicyLevel.statuses = fun level : PolicyLevel => (level.slot number).status := by
      funext level
      exact level.statuses_lookup number
    rw [slots, Finmap.lookup_empty, Option.or_none]
    split
    · rename_i found
      rw [found]
      rfl
    · rename_i none
      rw [none]
      rfl

/-! ## Names -/

/-- The engine never writes a variable under such a name, which is how the names begin that it
reads. -/
def readPrefixes : List StringView := [sv "CMAKE_POLICY_D", sv "CMAKE_POLICY_V"]

/-- The variables from which the default of a policy is taken. -/
def policyReads (number : Nat) : List StringView :=
  [sv "CMAKE_POLICY_DEFAULT_" ++ policyIdText number, sv "CMAKE_POLICY_VERSION"]

/-- The first characters of a name. -/
def nameHead (name : StringView) : StringView := (svToCstr name).take 14

theorem nameHead_append {plain : StringView} (nulFree : '\x00' ∉ plain) (long : 14 ≤ plain.length)
    (rest : StringView) : nameHead (plain ++ rest) = plain.take 14 := by
  have kept : svToCstr (plain ++ rest) = plain ++ svToCstr rest := by
    unfold svToCstr
    rw [takeWhile_append_of_pos]
    intro char inside
    have other : char ≠ '\x00' := fun same => nulFree (same ▸ inside)
    simpa using other
  rw [nameHead, kept, take_append_of_le_length long]

theorem nameHead_reads {name : StringView} (read : name ∈ policyReads number) :
    nameHead name ∈ readPrefixes := by
  rcases mem_cons.mp read with rfl | version
  · rw [nameHead_append (by decide) (by decide)]
    decide
  · rw [mem_singleton.mp version]
    decide

theorem nameHead_policy (number : Nat) :
    nameHead (sv "CMAKE_POLICY_" ++ policyIdText number) ∉ readPrefixes := by
  have whole : sv "CMAKE_POLICY_" ++ policyIdText number =
      sv "CMAKE_POLICY_CMP" ++ (List.replicate (4 - (Nat.toDigits 10 number).length) '0' ++
        Nat.toDigits 10 number) := by
    unfold policyIdText
    rw [append_assoc (sv "CMP"), ← append_assoc]
    rfl
  rw [whole, nameHead_append (by decide) (by decide)]
  decide

theorem nameHead_records : ∀ name ∈ recordNames, nameHead name ∉ readPrefixes := by
  decide +kernel

/-- The default of a policy depends on the variables it is taken from. -/
theorem policyDefault_congr {one two : EvalState} (oneScoped : Scoped one.scope)
    (twoScoped : Scoped two.scope)
    (same : ∀ name ∈ policyReads number, one.scope.bindings.lookup (svToCstr name) =
      two.scope.bindings.lookup (svToCstr name)) :
    policyDefault one number = policyDefault two number := by
  have named := same _ mem_cons_self
  have version := same _ (mem_cons_of_mem _ (mem_singleton_self _))
  unfold policyDefault
  simp only [varDefinedVisible_bindings oneScoped, varDefinedVisible_bindings twoScoped,
    varGetVisible_bindings oneScoped, varGetVisible_bindings twoScoped, named, version]

/-! ## Steps -/

/-- A context of the engine: the stack it stands for, and the defaults of an earlier state. -/
structure PolicyLeft (before after : EvalState) (stack : PolicyStack) : Prop where
  bounds : Scoped after.scope
  inRange : after.visiblePolicyDepth ≤ after.policyLevels.length
  stack_eq : after.policyStack = stack
  default_eq : policyDefault after = policyDefault before

section Steps

variable {dispatch : Nat → Nat → StringView → List Arg → EvalExecContext → Option (Run EvalResult)}
  {before : EvalState} {ctx : EvalExecContext} {stack : PolicyStack}

variable (left : PolicyLeft before ctx.state stack)

include left in
/-- The levels may change with the stack. -/
theorem PolicyLeft.change (levels : List PolicyLevel → Nat → List PolicyLevel) (depth : Nat → Nat)
    {changed : PolicyStack}
    (range : depth ctx.state.visiblePolicyDepth ≤
      (levels ctx.state.policyLevels ctx.state.visiblePolicyDepth).length)
    (stands : ((policyChange levels depth).apply ctx.state).policyStack = changed) :
    PolicyLeft before ((policyChange levels depth).apply ctx.state) changed :=
  ⟨left.bounds, range, stands, left.default_eq⟩

/-- A variable of the engine is written without a change of the stack or of the defaults. -/
theorem PolicyLeft.set (left : PolicyLeft before ctx.state stack) (running : ctx.shouldStop = false)
    {key : StringView} (own : nameHead key ∉ readPrefixes) (value : StringView) :
    Ends dispatch (varSetCurrent key value) ctx fun done after =>
      done = !after.shouldStop ∧ PolicyLeft before after.state stack ∧
        after.state.visiblePolicyDepth = ctx.state.visiblePolicyDepth := by
  have written := (@varSetCurrent_value dispatch _ left.bounds running key value).and
    (varSetCurrent_ends left.bounds key value)
  refine written.mono ?_
  rintro done after ⟨returns, edited⟩
  have edited : after.state = ctx.state.editScope 0 (setEdits ctx key value) := edited
  refine ⟨returns, ?_, by rw [edited]; rfl⟩
  have others : ∀ number, ∀ name ∈ policyReads number, ∀ edit ∈ setEdits ctx key value,
      svToCstr edit.key ≠ svToCstr name := by
    intro number name read edit listed same
    have head : nameHead edit.key ∈ readPrefixes := by
      rw [nameHead, same]
      exact nameHead_reads read
    rw [setEdits, running, if_neg Bool.false_ne_true] at listed
    rcases mem_cons.mp listed with rfl | record
    · exact own head
    · exact nameHead_records _ (watchEdits_mem record).1 head
  have edits := left.bounds.editScope 0 (setEdits ctx key value)
  rw [edited]
  refine ⟨edits, left.inRange, left.stack_eq, ?_⟩
  rw [← left.default_eq]
  funext number
  refine policyDefault_congr edits left.bounds fun name read => ?_
  exact lookup_editScope left.bounds (others number name read)

/-- `policy_set_depth_var` with a level in view. -/
theorem PolicyLeft.setDepthVar (left : PolicyLeft before ctx.state stack)
    (running : ctx.shouldStop = false) (opened : 0 < ctx.state.visiblePolicyDepth) :
    Ends dispatch policySetDepthVar ctx fun done after =>
      done = !after.shouldStop ∧ PolicyLeft before after.state stack ∧
        after.state.visiblePolicyDepth = ctx.state.visiblePolicyDepth := by
  have some : (ctx.state.visiblePolicyDepth == 0) = false := by simp; omega
  unfold policySetDepthVar
  apply Ends.context
  dsimp only
  rw [some, if_neg Bool.false_ne_true]
  exact left.set running (by decide) _

include left

variable (running : ctx.shouldStop = false)

include running in
/-- `policy_stack_bootstrap` leaves a level in view, and the stack as it was. -/
theorem PolicyLeft.bootstrap : Ends dispatch policyStackBootstrap ctx fun ready after =>
      ready = !after.shouldStop ∧ PolicyLeft before after.state stack ∧
        0 < after.state.visiblePolicyDepth ∧
        (0 < ctx.state.visiblePolicyDepth → after = ctx) := by
  unfold policyStackBootstrap
  apply Ends.context
  rw [running, if_neg Bool.false_ne_true]
  by_cases unused : ctx.state.visiblePolicyDepth = 0
  · rw [if_pos (by rw [unused]; rfl)]
    apply Ends.perform
    have blank : levelsInView (openLevel [] ctx.state.policyLevels 0) (0 + 1) =
        ([] : PolicyLevel) :: levelsInView ctx.state.policyLevels 0 :=
      levelsInView_openLevel [] (Nat.zero_le _)
    have room := lt_length_openLevel ([] : PolicyLevel) (Nat.zero_le ctx.state.policyLevels.length)
    have opened : PolicyLeft before
        ((policyChange (openLevel []) fun _ => 1).apply ctx.state) stack := by
      refine left.change _ _ (by rw [unused]; exact room) ?_
      rw [← left.stack_eq]
      unfold EvalState.policyStack
      rw [if_pos unused]
      simp only [policyChange, unused, if_neg Nat.one_ne_zero]
      rw [blank]
      rfl
    refine (@PolicyLeft.setDepthVar dispatch before
      ((Op.modify (policyChange (openLevel []) fun _ => 1)).apply ctx) stack opened running
      Nat.one_pos).mono ?_
    rintro done after ⟨returns, stays, depth⟩
    refine ⟨returns, stays, ?_, fun some => absurd unused (Nat.ne_of_gt some)⟩
    rw [depth]
    exact Nat.one_pos
  · have some : ¬ (ctx.state.visiblePolicyDepth == 0) = true := by simpa using unused
    rw [if_neg some]
    exact Ends.pure ⟨by rw [running]; rfl, left, Nat.pos_of_ne_zero unused, fun _ => rfl⟩

omit left

/-- A stop check. -/
theorem shouldStop_bind {α : Type} {next : Bool → Prog α} {post : α → EvalExecContext → Prop}
    {stops : Bool} (known : ctx.shouldStop = stops) (rest : Ends dispatch (next stops) ctx post) :
    Ends dispatch (Prog.shouldStop >>= next) ctx post := by
  apply (shouldStop_ends ctx).bind
  rintro value after ⟨rfl, rfl⟩
  rw [known]
  exact rest

include left

include running in
/-- What follows `policy_stack_bootstrap` in a running context. -/
theorem PolicyLeft.bootstrap_bind {α : Type} {next : Bool → Prog α}
    {post : α → EvalExecContext → Prop}
    (ready : ∀ after : EvalExecContext, after.shouldStop = false →
      PolicyLeft before after.state stack → 0 < after.state.visiblePolicyDepth →
      Ends dispatch (next true) after fun result last => last.shouldStop = true ∨ post result last)
    (failed : ∀ after : EvalExecContext, after.shouldStop = true →
      Ends dispatch (next false) after fun _ last => last.shouldStop = true) :
    Ends dispatch (policyStackBootstrap >>= next) ctx fun result last =>
      last.shouldStop = true ∨ post result last := by
  apply (left.bootstrap running).bind
  rintro done after ⟨returns, stays, opened, _⟩
  cases stops : after.shouldStop with
  | true =>
    rw [stops] at returns
    subst returns
    exact (failed after stops).mono fun _ _ stopped => .inl stopped
  | false =>
    rw [stops] at returns
    subst returns
    exact ready after stops stays opened

omit left

/-- The stack with a level in view. -/
theorem policyStack_eq {state : EvalState} (opened : 0 < state.visiblePolicyDepth) :
    state.policyStack =
      ⟨(levelsInView state.policyLevels state.visiblePolicyDepth).map PolicyLevel.statuses, ∅⟩ := by
  unfold EvalState.policyStack
  rw [if_neg (Nat.ne_of_gt opened)]

include left

theorem PolicyLeft.stack_length (opened : 0 < ctx.state.visiblePolicyDepth) :
    stack.scopes.length = ctx.state.visiblePolicyDepth := by
  rw [← left.stack_eq, policyStack_eq opened, length_map, length_levelsInView left.inRange]

/-- A push opens an empty map, whether it grows the array or uses a stale slot. -/
theorem PolicyLeft.opened (opened : 0 < ctx.state.visiblePolicyDepth) :
    PolicyLeft before ((policyChange (openLevel []) (· + 1)).apply ctx.state)
      (Write.apply .push stack) := by
  refine left.change _ _ (lt_length_openLevel [] left.inRange) ?_
  have levels := levelsInView_openLevel ([] : PolicyLevel) left.inRange
  rw [policyStack_eq (Nat.succ_pos _), ← left.stack_eq, policyStack_eq opened]
  simp only [policyChange, levels]
  rfl

/-- A pop closes the innermost map unless it is the last. -/
theorem PolicyLeft.closed (nested : 1 < ctx.state.visiblePolicyDepth) : PolicyLeft before
      ((policyChange (fun levels depth => levels.set (depth - 1) []) (· - 1)).apply ctx.state)
      (Write.apply .pop stack) := by
  have range := left.inRange
  have length := left.stack_length (by omega)
  refine left.change _ _ ?_ ?_
  · rw [length_set]
    omega
  · have levels := levelsInView_set ([] : PolicyLevel) (by omega) left.inRange
    have still : 0 < ctx.state.visiblePolicyDepth - 1 := by omega
    rw [Write.apply, if_pos (by omega), policyStack_eq still, ← left.stack_eq,
      policyStack_eq (by omega)]
    simp only [policyChange, levels, map_tail]

/-- A status is written to the innermost map. -/
theorem PolicyLeft.written (opened : 0 < ctx.state.visiblePolicyDepth) (number : Nat)
    (status : PolicyStatus) :
    PolicyLeft before ((policyChange (fun levels depth =>
      levels.modify (depth - 1) (·.write number (policySlotFromStatus status))) id).apply ctx.state)
      (Write.apply (.bind 0 number (some status)) stack) := by
  have range := left.inRange
  refine left.change _ _ ?_ ?_
  · rw [length_modify]
    exact range
  · have levels := levelsInView_modify
      (fun level : PolicyLevel => level.write number (policySlotFromStatus status)) opened range
    have maps := map_modify PolicyLevel.statuses (PolicyLevel.statuses_write number status)
      (levelsInView ctx.state.policyLevels ctx.state.visiblePolicyDepth) 0
    have shape := @policyStack_eq ((policyChange (fun levels depth =>
      levels.modify (depth - 1) (·.write number (policySlotFromStatus status))) id).apply
      ctx.state) opened
    rw [Nat.sub_zero] at levels
    rw [Write.apply, shape, ← left.stack_eq, policyStack_eq opened]
    simp only [policyChange, id, levels, maps]

include running

/-- `eval_policy_push`. -/
theorem PolicyLeft.push :
    Ends dispatch evalPolicyPush ctx fun done after => after.shouldStop = true ∨
      done = true ∧ PolicyLeft before after.state (Write.apply .push stack) := by
  unfold evalPolicyPush
  apply shouldStop_bind running
  rw [if_neg Bool.false_ne_true]
  refine left.bootstrap_bind running ?_ fun after stopped => Ends.pure stopped
  intro after runs stays opened
  apply Ends.perform
  have pushed := stays.opened opened
  refine (@PolicyLeft.setDepthVar dispatch before ((Op.modify (policyChange (openLevel [])
    (· + 1))).apply after) _ pushed runs (Nat.succ_pos _)).mono ?_
  rintro done last ⟨returns, fine, _⟩
  cases stops : last.shouldStop with
  | true => exact .inl rfl
  | false =>
    rw [stops] at returns
    exact .inr ⟨returns, fine⟩

/-- `eval_policy_pop`. -/
theorem PolicyLeft.pop : Ends dispatch evalPolicyPop ctx fun done after => after.shouldStop = true ∨
      done = decide (1 < stack.scopes.length) ∧
        PolicyLeft before after.state (Write.apply .pop stack) := by
  unfold evalPolicyPop
  apply shouldStop_bind running
  rw [if_neg Bool.false_ne_true]
  refine left.bootstrap_bind running ?_ fun after stopped => Ends.pure stopped
  intro after runs stays opened
  have length := stays.stack_length opened
  apply Ends.context
  by_cases base : after.state.visiblePolicyDepth ≤ 1
  · have last : ¬ 1 < stack.scopes.length := by omega
    rw [if_pos base, Write.apply, if_neg last, decide_eq_false last]
    exact Ends.pure (.inr ⟨rfl, stays⟩)
  · have nested : 1 < after.state.visiblePolicyDepth := by omega
    rw [if_neg base, decide_eq_true (by omega)]
    apply Ends.perform
    have popped := stays.closed nested
    refine (@PolicyLeft.setDepthVar dispatch before ((Op.modify (policyChange
      (fun levels depth => levels.set (depth - 1) []) (· - 1))).apply after) _ popped runs
      (Nat.sub_pos_of_lt nested)).mono ?_
    rintro done last ⟨returns, fine, _⟩
    cases stops : last.shouldStop with
    | true => exact .inl rfl
    | false =>
      rw [stops] at returns
      exact .inr ⟨returns, fine⟩

/-- `eval_policy_set_status` of a known policy. -/
theorem PolicyLeft.setStatus (known : policyIsKnown policyId = true) (status : PolicyStatus) :
    Ends dispatch (evalPolicySetStatus policyId status) ctx fun done after =>
      after.shouldStop = true ∨ done = true ∧ PolicyLeft before after.state
        (Write.apply (.bind 0 (policyNumber policyId) (some status)) stack) := by
  unfold evalPolicySetStatus
  apply shouldStop_bind running
  rw [if_neg Bool.false_ne_true, known, if_neg (by decide)]
  refine left.bootstrap_bind running ?_ fun after stopped => Ends.pure stopped
  intro after runs stays opened
  apply Ends.perform
  have written := stays.written opened (policyNumber policyId) status
  refine (@PolicyLeft.set dispatch before ((Op.modify (policyChange (fun levels depth =>
    levels.modify (depth - 1) (·.write (policyNumber policyId) (policySlotFromStatus status)))
    id)).apply after) _ written runs _ (nameHead_policy _) _).mono ?_
  rintro done last ⟨returns, fine, _⟩
  cases stops : last.shouldStop with
  | true => exact .inl rfl
  | false =>
    rw [stops] at returns
    exact .inr ⟨returns, fine⟩

/-- `eval_policy_get_effective` of a known policy. -/
theorem PolicyLeft.get (known : policyIsKnown policyId = true) :
    Ends dispatch (evalPolicyGetEffective policyId) ctx fun text after =>
      after.shouldStop = true ∨ text = ((stack.lookup (policyNumber policyId)).getD
          (policyDefault before (policyNumber policyId))).text ∧
        PolicyLeft before after.state stack := by
  unfold evalPolicyGetEffective
  apply shouldStop_bind running
  rw [if_neg Bool.false_ne_true, known, if_neg (by decide)]
  refine left.bootstrap_bind running ?_ fun after stopped => Ends.pure stopped
  intro after runs stays opened
  apply Ends.context
  refine Ends.pure (.inr ⟨?_, stays⟩)
  rw [policyEffective_eq, stays.stack_eq, stays.default_eq]

omit running left

/-- A status is not set for a policy that is not known. -/
theorem evalPolicySetStatus_unknown (unknown : policyIsKnown policyId = false)
    (running : ctx.shouldStop = false) (status : PolicyStatus) :
    Ends dispatch (evalPolicySetStatus policyId status) ctx fun done after =>
      done = false ∧ after = ctx := by
  unfold evalPolicySetStatus
  apply shouldStop_bind running
  rw [if_neg Bool.false_ne_true, unknown, if_pos (by decide)]
  exact Ends.pure ⟨rfl, rfl⟩

/-- An operation in a running context. -/
theorem PolicyLeft.op (left : PolicyLeft before ctx.state stack)
    (running : ctx.shouldStop = false) (op : PolicyOp) :
    Ends dispatch op.program ctx fun answer after => after.shouldStop = true ∨
      answer = op.answer (policyDefault before) stack ∧
        PolicyLeft before after.state (stackAfter stack [op]) := by
  have one : stackAfter stack [op] = replay Write.apply op.writes stack := by
    rw [stackAfter, flatMap_singleton]
  rw [one]
  cases op with
  | push =>
    apply (left.push running).bind
    rintro done after (stopped | ⟨rfl, fine⟩)
    · exact Ends.pure (.inl stopped)
    · exact Ends.pure (.inr ⟨rfl, fine⟩)
  | pop =>
    apply (left.pop running).bind
    rintro done after (stopped | ⟨rfl, fine⟩)
    · exact Ends.pure (.inl stopped)
    · exact Ends.pure (.inr ⟨rfl, fine⟩)
  | setStatus policyId status =>
    rw [PolicyOp.writes, PolicyOp.answer]
    cases known : policyIsKnown policyId with
    | true =>
      apply (left.setStatus running known status).bind
      rintro done after (stopped | ⟨rfl, fine⟩)
      · exact Ends.pure (.inl stopped)
      · exact Ends.pure (.inr ⟨rfl, fine⟩)
    | false =>
      apply (evalPolicySetStatus_unknown known running status).bind
      rintro done after ⟨rfl, rfl⟩
      exact Ends.pure (.inr ⟨rfl, left⟩)
  | set policyId value =>
    rw [PolicyOp.writes, PolicyOp.answer]
    show Ends dispatch (evalPolicySet policyId value >>= fun done =>
      pure (PolicyAnswer.done done)) ctx _
    unfold evalPolicySet
    by_cases none : policyStatusFromSv value = .unset
    · have refused : ¬ (policyStatusFromSv value ≠ .unset ∧ policyIsKnown policyId = true) :=
        fun both => both.1 none
      rw [if_neg refused, decide_eq_false refused]
      dsimp only
      rw [if_pos none]
      exact Ends.pure (.inr ⟨rfl, left⟩)
    · dsimp only
      rw [if_neg none]
      cases known : policyIsKnown policyId with
      | true =>
        rw [if_pos ⟨none, rfl⟩, decide_eq_true ⟨none, rfl⟩]
        apply (left.setStatus running known _).bind
        rintro done after (stopped | ⟨rfl, fine⟩)
        · exact Ends.pure (.inl stopped)
        · exact Ends.pure (.inr ⟨rfl, fine⟩)
      | false =>
        have refused : ¬ (policyStatusFromSv value ≠ .unset ∧ false = true) := by simp
        rw [if_neg refused, decide_eq_false refused]
        apply (evalPolicySetStatus_unknown known running _).bind
        rintro done after ⟨rfl, rfl⟩
        exact Ends.pure (.inr ⟨rfl, left⟩)
  | get policyId =>
    rw [PolicyOp.writes, PolicyOp.answer]
    cases known : policyIsKnown policyId with
    | true =>
      apply (left.get running known).bind
      rintro text after (stopped | ⟨rfl, fine⟩)
      · exact Ends.pure (.inl stopped)
      · exact Ends.pure (.inr ⟨rfl, fine⟩)
    | false =>
      show Ends dispatch (evalPolicyGetEffective policyId >>= fun text =>
        pure (PolicyAnswer.value text)) ctx _
      have unknown : Ends dispatch (evalPolicyGetEffective policyId) ctx fun text after =>
          text = [] ∧ after = ctx := by
        unfold evalPolicyGetEffective
        apply shouldStop_bind running
        rw [if_neg Bool.false_ne_true, known, if_pos (by decide)]
        exact Ends.pure ⟨rfl, rfl⟩
      apply unknown.bind
      rintro text after ⟨rfl, rfl⟩
      exact Ends.pure (.inr ⟨rfl, left⟩)

/-- A function of the engine begins with a stop check. -/
theorem stopped_ends {α : Type} {value : α} {next : Prog α} (stopped : ctx.shouldStop = true) :
    Ends dispatch (Prog.shouldStop >>= fun stops => if stops = true then pure value else next) ctx
      fun result after => result = value ∧ after = ctx := by
  apply shouldStop_bind stopped
  rw [if_pos rfl]
  exact Ends.pure ⟨rfl, rfl⟩

/-- An operation in a stopped context. -/
theorem PolicyOp.refused (op : PolicyOp) (stopped : ctx.shouldStop = true) :
    Ends dispatch op.program ctx fun answer after => answer = op.refusal ∧ after = ctx := by
  have status : ∀ policyId status, Ends dispatch (evalPolicySetStatus policyId status) ctx
      fun done after => done = false ∧ after = ctx := fun _ _ => stopped_ends stopped
  have flag : ∀ {program : Prog Bool},
      Ends dispatch program ctx (fun done after => done = false ∧ after = ctx) →
      Ends dispatch (program >>= fun done => pure (PolicyAnswer.done done)) ctx
        fun answer after => answer = .done false ∧ after = ctx := by
    intro program ends
    apply ends.bind
    rintro done after ⟨rfl, rfl⟩
    exact Ends.pure ⟨rfl, rfl⟩
  cases op with
  | push => exact flag (stopped_ends stopped)
  | pop => exact flag (stopped_ends stopped)
  | setStatus policyId wanted => exact flag (status policyId wanted)
  | set policyId value =>
    refine flag ?_
    unfold evalPolicySet
    dsimp only
    by_cases none : policyStatusFromSv value = .unset
    · rw [if_pos none]
      exact Ends.pure ⟨rfl, rfl⟩
    · rw [if_neg none]
      exact status policyId _
  | get policyId =>
    have text : Ends dispatch (evalPolicyGetEffective policyId) ctx fun text after =>
        text = [] ∧ after = ctx := stopped_ends stopped
    apply text.bind
    rintro text after ⟨rfl, rfl⟩
    exact Ends.pure ⟨rfl, rfl⟩

/-! ## Runs -/

theorem stackAfter_append (stack : PolicyStack) (first second : List PolicyOp) :
    stackAfter stack (first ++ second) = stackAfter (stackAfter stack first) second := by
  unfold stackAfter
  rw [flatMap_append, replay_append]

/-- A stopped run refuses every operation. -/
theorem policySession_refused (ops : List PolicyOp) (stopped : ctx.shouldStop = true) :
    Ends dispatch (policySession ops) ctx fun answers after =>
      answers = ops.map PolicyOp.refusal ∧ after = ctx := by
  induction ops with
  | nil => exact Ends.pure ⟨rfl, rfl⟩
  | cons op rest ih =>
    rw [policySession]
    apply (op.refused stopped).bind
    rintro answer after ⟨rfl, rfl⟩
    apply ih.bind
    rintro answers after ⟨rfl, rfl⟩
    exact Ends.pure ⟨rfl, rfl⟩

include left

include running in
/-- A sequence of operations in a running context. -/
theorem PolicyLeft.session (ops : List PolicyOp) :
    Ends dispatch (policySession ops) ctx fun answers after =>
      (after.shouldStop = false ∧ answers = policyAnswers (policyDefault before) stack ops ∧
        PolicyLeft before after.state (stackAfter stack ops)) ∨
      (after.shouldStop = true ∧ ∃ served rest late, ops = served ++ rest ∧
        answers = policyAnswers (policyDefault before) stack served ++ late ∧
        late.length = rest.length ∧ late.tail = rest.tail.map PolicyOp.refusal) := by
  induction ops generalizing ctx stack with
  | nil => exact Ends.pure (.inl ⟨running, rfl, left⟩)
  | cons op ops ih =>
    rw [policySession]
    apply (left.op running op).bind
    intro answer after served
    cases stops : after.shouldStop with
    | true =>
      apply (policySession_refused ops stops).bind
      rintro answers last ⟨rfl, rfl⟩
      refine Ends.pure (.inr ⟨stops, [], op :: ops, answer :: ops.map PolicyOp.refusal, rfl, rfl,
        ?_, rfl⟩)
      rw [length_cons, length_cons, length_map]
    | false =>
      rw [stops] at served
      obtain ⟨rfl, fine⟩ := served.resolve_left Bool.false_ne_true
      apply (ih fine stops).bind
      rintro answers last (⟨runs, rfl, finer⟩ | ⟨stopped, served, rest, late, rfl, rfl, parts⟩)
      · refine Ends.pure (.inl ⟨runs, rfl, ?_⟩)
        have whole := stackAfter_append stack [op] ops
        rw [singleton_append] at whole
        rw [whole]
        exact finer
      · exact Ends.pure (.inr ⟨stopped, op :: served, rest, late, rfl, rfl, parts⟩)

end Steps

/-! ## Brackets -/

/-- Operations in which every level is closed write a well-bracketed run. -/
theorem balanced_writes {ops : List PolicyOp} (balanced : BalancedOps ops) :
    Lib.ScopeStack.BalancedWrites (ops.flatMap PolicyOp.writes) := by
  induction balanced with
  | nil => exact .nil
  | @plain op rest notPush notPop _ ih =>
    refine Lib.ScopeStack.balanced_of_plain ?_ ih
    intro write member
    cases op with
    | push => exact absurd rfl notPush
    | pop => exact absurd rfl notPop
    | get policyId => exact nomatch member
    | setStatus policyId status =>
      rw [PolicyOp.writes] at member
      split at member
      · obtain rfl := mem_singleton.mp member
        exact ⟨nofun, nofun⟩
      · exact nomatch member
    | set policyId value =>
      rw [PolicyOp.writes] at member
      split at member
      · obtain rfl := mem_singleton.mp member
        exact ⟨nofun, nofun⟩
      · exact nomatch member
  | @nested opening closing inner rest isPush isPop _ _ bodyIh tailIh =>
    subst isPush isPop
    rw [cons_append, flatMap_cons, flatMap_append, flatMap_cons]
    exact .nested rfl rfl bodyIh tailIh

/-- Between a push and the matching pop nothing is written to the levels outside. -/
theorem mem_writes_level {ops : List PolicyOp} {level : Nat} {status : Option PolicyStatus}
    (member : .bind level number status ∈ ops.flatMap PolicyOp.writes) : level = 0 := by
  obtain ⟨op, _, written⟩ := mem_flatMap.mp member
  cases op with
  | push => simp [PolicyOp.writes] at written
  | pop => simp [PolicyOp.writes] at written
  | get policyId => exact nomatch written
  | setStatus policyId wanted =>
    rw [PolicyOp.writes] at written
    split at written
    · cases mem_singleton.mp written
      rfl
    · exact nomatch written
  | set policyId value =>
    rw [PolicyOp.writes] at written
    split at written
    · cases mem_singleton.mp written
      rfl
    · exact nomatch written

/-- Closing a level leaves the levels outside as they were when it was opened. -/
theorem stackAfter_bracket {inner : List PolicyOp} (balanced : BalancedOps inner)
    (stack : PolicyStack) (filled : 0 < stack.scopes.length) :
    (stackAfter stack (.push :: inner ++ [.pop])).scopes = stack.scopes := by
  have writes : (PolicyOp.push :: inner ++ [PolicyOp.pop]).flatMap PolicyOp.writes =
      .push :: inner.flatMap PolicyOp.writes ++ [.pop] := by
    rw [cons_append, flatMap_cons, flatMap_append]
    rfl
  have outside := Lib.ScopeStack.bracket_outer (balanced_writes balanced) stack filled
  have none : Lib.ScopeStack.escapes 1 (inner.flatMap PolicyOp.writes) = [] := by
    apply Lib.ScopeStack.escapes_eq_nil (balanced_writes balanced)
    intro level number status member
    rw [mem_writes_level member]
    exact Nat.one_pos
  rw [none, ← writes] at outside
  exact outside.eq

/-! ## The engine -/

theorem policyStack_filled {state : EvalState}
    (inRange : state.visiblePolicyDepth ≤ state.policyLevels.length) :
    0 < state.policyStack.scopes.length := by
  unfold EvalState.policyStack
  by_cases unused : state.visiblePolicyDepth = 0
  · rw [if_pos unused]
    exact Nat.one_pos
  · rw [if_neg unused, length_map, length_levelsInView inRange]
    omega

/-- The engine is a stack of finite maps. In every sequence of operations a policy has the status
that the innermost level setting it gives it, or else its default; setting writes the innermost
level only; a pop leaves all policies as they were before the matching push; and with only the
first level left it fails and changes nothing. -/
theorem policyEngine_stack
    {dispatch : Nat → Nat → StringView → List Arg → EvalExecContext → Option (Run EvalResult)}
    {ctx : EvalExecContext} (bounds : Scoped ctx.state.scope)
    (inRange : ctx.state.visiblePolicyDepth ≤ ctx.state.policyLevels.length) :
    (∀ ops, Ends dispatch (policySession ops) ctx (Serves ctx ops)) ∧
    (∀ inner, BalancedOps inner →
      Ends dispatch (policySession (.push :: inner ++ [.pop])) ctx fun _ after =>
        after.shouldStop = false → after.state.policyStack = ctx.state.policyStack ∧
          ∀ number, policyEffective after.state number = policyEffective ctx.state number) ∧
    (ctx.state.policyStack.scopes.length = 1 → Ends dispatch evalPolicyPop ctx fun popped after =>
        popped = false ∧ after.state.policyStack = ctx.state.policyStack ∧
          (0 < ctx.state.visiblePolicyDepth → after = ctx)) := by
  have left : PolicyLeft ctx.state ctx.state ctx.state.policyStack := ⟨bounds, inRange, rfl, rfl⟩
  refine ⟨fun ops => ?_, fun inner balanced => ?_, fun single => ?_⟩
  · cases stops : ctx.shouldStop with
    | true =>
      refine (policySession_refused ops stops).mono ?_
      rintro answers after ⟨rfl, rfl⟩
      exact .inr ⟨stops, [], ops, _, rfl, rfl, length_map _, map_tail.symm⟩
    | false =>
      refine (left.session stops ops).mono ?_
      rintro answers after (⟨runs, same, fine⟩ | stopped)
      · exact .inl ⟨runs, same, fine.stack_eq⟩
      · exact .inr stopped
  · cases stops : ctx.shouldStop with
    | true =>
      refine (policySession_refused _ stops).mono ?_
      rintro answers after ⟨-, rfl⟩ runs
      rw [stops] at runs
      cases runs
    | false =>
      refine (left.session stops _).mono ?_
      rintro answers after (⟨_, _, fine⟩ | ⟨stopped, _⟩) runs
      · have scopes := stackAfter_bracket balanced ctx.state.policyStack (policyStack_filled inRange)
        rw [← fine.stack_eq] at scopes
        have same : after.state.policyStack = ctx.state.policyStack :=
          congrArg (fun scopes => (⟨scopes, ∅⟩ : PolicyStack)) scopes
        refine ⟨same, fun number => ?_⟩
        rw [policyEffective_eq, policyEffective_eq, same, fine.default_eq]
      · rw [stopped] at runs
        cases runs
  · cases stops : ctx.shouldStop with
    | true =>
      refine (stopped_ends stops).mono ?_
      rintro popped after ⟨rfl, rfl⟩
      exact ⟨rfl, rfl, fun _ => rfl⟩
    | false =>
      unfold evalPolicyPop
      apply shouldStop_bind stops
      rw [if_neg Bool.false_ne_true]
      apply (left.bootstrap stops).bind
      rintro ready after ⟨_, stays, opened, unchanged⟩
      cases ready with
      | false => exact Ends.pure ⟨rfl, stays.stack_eq, unchanged⟩
      | true =>
        have depth := stays.stack_length opened
        apply Ends.context
        rw [if_pos (by omega)]
        exact Ends.pure ⟨rfl, stays.stack_eq, unchanged⟩

/-- A policy that is set at a level of its own, and a pop too many. -/
def nestedPolicyOps : List PolicyOp :=
  [.push, .set (sv "CMP0077") (sv "new"), .get (sv "cmp0077"), .pop, .get (sv "CMP0077"), .pop]

/-- The engine in a fresh context. -/
theorem policyEngine_stack_fresh : Ends refuseCommands (policySession nestedPolicyOps) freshContext
      (Serves freshContext nestedPolicyOps) :=
  (policyEngine_stack ⟨by decide, by decide⟩ (by decide)).1 nestedPolicyOps

end Nobify.Evaluator
