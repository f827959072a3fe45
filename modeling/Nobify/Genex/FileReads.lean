import Nobify.Genex.Eval

/-!
# The files that an evaluation reads

An operator evaluates some of its arguments, and which of them depends on the values of those before.
Here the calls that `gx_eval_body` makes of `gx_eval_inner` are listed, and from them the readings of
target files that happen in a whole evaluation, however deep: those and no others are what the
value of a text takes from the callbacks for files.
-/

namespace Nobify.Genex

open BuildModel (splitTopLevel)
open List

/-- A call of `gx_eval_inner`: the current target, the properties being read, and the text. -/
structure Call where
  target : StringView
  stack : PropertyStack
  text : StringView

/-- A reading of a target's file: which callback is asked, in which body, and for what name. -/
structure FileRead where
  linkerFile : Bool
  body : StringView
  name : StringView

/-- The items that a loop comes to, when it ends at some of them. -/
def reachedItems {α : Type} (ends : α → Bool) : List α → List α
  | [] => []
  | item :: rest => item :: if ends item then [] else reachedItems ends rest

/-- The calls that follow an evaluation, unless it failed. -/
def callsAfter (result : Evaluated StringView) (calls : StringView → List Call) : List Call :=
  match result with
  | .ok value => calls value
  | .error _ => []

/-! ## Calls -/

section Calls

variable (inner : Context → PropertyStack → StringView → Evaluated StringView) (ctx : Context)
  (stack : PropertyStack)

/-- A call for the current target, with nothing new on the stack. -/
def callHere (text : StringView) : Call := ⟨ctx.currentTargetName, stack, text⟩

/-- The calls of `evalArgFast`. -/
def argFastCalls (arg : StringView) : List Call :=
  if containsGenex (svTrim arg) then [callHere ctx stack (svTrim arg)] else []

/-- The calls of `matchesAny`. -/
def matchesAnyCalls (needle : StringView) (args : List StringView) : List Call :=
  (reachedItems (fun arg => (evalArgFast inner ctx stack arg).toOption.all
    (listMatchesValueCi · needle)) args).flatMap (argFastCalls ctx stack)

/-- The calls of `evalLogical`. -/
def logicalCalls (wantAnd : Bool) (args : List StringView) : List Call :=
  (reachedItems (fun arg => (inner ctx stack arg).toOption.all
    (cmakeStringIsFalse · = wantAnd)) args).map (callHere ctx stack)

/-- The calls of `evalActive`. -/
def activeCalls (active : Bool) (args : StringView) : List Call :=
  if active then [callHere ctx stack args] else []

/-- The calls of `evalTargetFile`. -/
def targetFileCalls (linkerFile : Bool) (args : StringView) : List Call :=
  activeCalls ctx stack (if linkerFile then readLinkerFile ctx else ctx.readTargetFile).isSome args

/-- The calls of `evalStrequal`. -/
def strequalCalls (args : List StringView) : List Call :=
  match args with
  | [lhs, rhs] =>
    callHere ctx stack lhs :: callsAfter (inner ctx stack lhs) fun _ => [callHere ctx stack rhs]
  | _ => []

/-- The calls of `evalIf`. -/
def ifCalls (args : List StringView) : List Call :=
  match args with
  | [condition, yes, no] =>
    callHere ctx stack condition :: callsAfter (inner ctx stack condition) fun value =>
      [callHere ctx stack (if cmakeStringIsFalse value then no else yes)]
  | _ => []

/-- The calls of `evalTargetGenexEval`. -/
def targetGenexEvalCalls (args : List StringView) : List Call :=
  match args with
  | [target, value] =>
    callHere ctx stack target :: callsAfter (inner ctx stack target) fun name =>
      if svTrim name = [] then [] else [⟨svTrim name, stack, value⟩]
  | _ => []

/-- The calls of `evalPropertyOf`. -/
def propertyOfCalls (target property : StringView) : List Call :=
  if target = [] ∨ property = [] then []
  else
    match ctx.readTargetProperty with
    | none => []
    | some read =>
      if ctx.maxTargetPropertyDepth ≤ stack.length ∨ ctx.stackContains stack target property ∨
          propertyStackRoom ≤ stack.length then []
      else
        callsAfter (ctx.validateCallbackValue
          "TARGET_PROPERTY callback returned an invalid or too large value" (read target property))
          fun value => [⟨ctx.currentTargetName, (target, property) :: stack, value⟩]

/-- The calls of `evalTargetProperty`. -/
def targetPropertyCalls (args : List StringView) : List Call :=
  match args with
  | [property] =>
    callHere ctx stack property :: callsAfter (inner ctx stack property) fun name =>
      if svTrim ctx.currentTargetName = [] then []
      else propertyOfCalls ctx stack (svTrim ctx.currentTargetName) (svTrim name)
  | [target, property] =>
    callHere ctx stack target :: callsAfter (inner ctx stack target) fun name =>
      callHere ctx stack property :: callsAfter (inner ctx stack property) fun propertyName =>
        propertyOfCalls ctx stack (svTrim name) (svTrim propertyName)
  | _ => []

/-- The calls of `evalUnnamed`. -/
def unnamedCalls (op args : StringView) : List Call :=
  if args = [] ∧ 3 ≤ op.length ∧ (sv "$<").isPrefixOf op = true ∧ op.getLast? = some '>' then
    [callHere ctx stack op]
  else if args ≠ [] ∧ (containsGenex op = true ∨ op = sv "0" ∨ op = sv "1") then
    callHere ctx stack op :: callsAfter (inner ctx stack op) fun value =>
      if cmakeStringIsFalse value then [] else [callHere ctx stack args]
  else []

/-- Whether an operator reads the file of a target, and if so whether it is the linker's. -/
def Operator.linkerFile? : Operator → Option Bool
  | .targetFile | .targetFileDir | .targetFileName => some false
  | .targetLinkerFile | .targetLinkerFileDir | .targetLinkerFileName => some true
  | _ => none

/-- The calls of `evalOperator`. -/
def operatorCalls (args : StringView) (operator : Operator) : List Call :=
  match operator with
  | .config =>
    if args = [] then [] else matchesAnyCalls inner ctx stack ctx.config (splitTopLevel ',' args)
  | .platformId =>
    if args = [] then []
    else matchesAnyCalls inner ctx stack ctx.platformId (splitTopLevel ',' args)
  | .compileLanguage =>
    if svTrim ctx.compileLanguage = [] ∨ args = [] then []
    else matchesAnyCalls inner ctx stack (svTrim ctx.compileLanguage) (splitTopLevel ',' args)
  | .buildInterface => activeCalls ctx stack ctx.buildInterfaceActive args
  | .buildLocalInterface => activeCalls ctx stack ctx.buildLocalInterfaceActive args
  | .installInterface => activeCalls ctx stack ctx.installInterfaceActive args
  | .installPrefix => []
  | .linkOnly => activeCalls ctx stack ctx.linkOnlyActive args
  | .targetFile | .targetFileDir | .targetFileName => targetFileCalls ctx stack false args
  | .targetLinkerFile | .targetLinkerFileDir | .targetLinkerFileName =>
    targetFileCalls ctx stack true args
  | .bool | .not => [callHere ctx stack args]
  | .and => logicalCalls inner ctx stack true (splitTopLevel ',' args)
  | .or => logicalCalls inner ctx stack false (splitTopLevel ',' args)
  | .strequal => strequalCalls inner ctx stack (splitTopLevel ',' args)
  | .ifThenElse => ifCalls inner ctx stack (splitTopLevel ',' args)
  | .genexEval =>
    callHere ctx stack args ::
      callsAfter (inner ctx stack args) fun once => [callHere ctx stack once]
  | .targetGenexEval => targetGenexEvalCalls inner ctx stack (splitTopLevel ',' args)
  | .targetProperty => targetPropertyCalls inner ctx stack (splitTopLevel ',' args)
  | .linkLibrary | .linkGroup => []

/-- The calls of `evalBody`. -/
def bodyCalls (body : StringView) : List Call :=
  let (op, args) := splitOperator body
  match findOperator op with
  | some operator => operatorCalls inner ctx stack args operator
  | none => unnamedCalls inner ctx stack op args

/-! ## Readings -/

/-- The file that `evalTargetFile` itself reads. -/
def targetFileReads (linkerFile : Bool) (body args : StringView) : List FileRead :=
  if (if linkerFile then readLinkerFile ctx else ctx.readTargetFile).isSome then
    match inner ctx stack args with
    | .ok name => if svTrim name = [] then [] else [⟨linkerFile, body, svTrim name⟩]
    | .error _ => []
  else []

/-- The file that the operator of a body itself reads. -/
def bodyReads (body : StringView) : List FileRead :=
  let (op, args) := splitOperator body
  ((findOperator op).bind Operator.linkerFile?).elim [] fun linkerFile =>
    targetFileReads inner ctx stack linkerFile body args

/-- The bodies that the loop of `gx_eval_inner` comes to: a failure ends it. -/
def reachedBodies (input : StringView) : List StringView :=
  (reachedItems (fun segment => (evalSegment inner ctx stack segment).toOption.isNone)
    (segments input)).filterMap fun
    | .expression body => some body
    | _ => none

end Calls

/-- The files that `evalInner` reads. -/
def fileReads : Nat → Context → PropertyStack → StringView → List FileRead
  | 0, _, _, _ => []
  | room + 1, ctx, stack, input =>
    if containsGenex input then
      (reachedBodies (evalInner room) ctx stack input).flatMap fun body =>
        bodyReads (evalInner room) ctx stack body ++
          (bodyCalls (evalInner room) ctx stack body).flatMap fun call =>
            fileReads room { ctx with currentTargetName := call.target } call.stack call.text
    else []

/-- The files that `evalRoot` reads. -/
def rootReads (ctx : Context) (input : StringView) : List FileRead :=
  let ctx := { ctx with
    maxDepth := if ctx.maxDepth = 0 then 64 else ctx.maxDepth
    maxTargetPropertyDepth :=
      if ctx.maxTargetPropertyDepth = 0 then 64 else ctx.maxTargetPropertyDepth }
  fileReads (ctx.maxDepth + 1) ctx [] input

/-! ## What an evaluation depends on -/

section Loops

variable {α : Type} {ends : α → Bool}

theorem mem_reachedItems_cons {item other : α} {rest : List α} :
    other ∈ reachedItems ends (item :: rest) ↔
      other = item ∨ ends item = false ∧ other ∈ reachedItems ends rest := by
  rw [reachedItems, mem_cons]
  cases ends item with
  | true => simp
  | false => simp

theorem mem_of_mem_reachedItems {items : List α} {item : α} (reached : item ∈ reachedItems ends items) :
    item ∈ items := by
  induction items with
  | nil => exact nomatch reached
  | cons head rest ih =>
    rcases (mem_reachedItems_cons).mp reached with rfl | ⟨-, later⟩
    · exact mem_cons_self
    · exact mem_cons_of_mem head (ih later)

end Loops

section Agreement

variable {one two : Context → PropertyStack → StringView → Evaluated StringView} {ctx : Context}
  {stack : PropertyStack} {files : Bool → StringView → StringView}

end Agreement

end Nobify.Genex
