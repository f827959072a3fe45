import Nobify.Genex.Parse

/-!
# Evaluating generator expressions

`genex_eval`: the text outside of expressions is kept, and the body of each expression is replaced
by its value. An operator evaluates its arguments with the same function, one level deeper; a
bound on the depth ends the recursion. The value of a target property is evaluated again, so the
properties that are being read are kept on a stack.

A result that is not `GENEX_OK` has the input as its value at every level, and nothing reads it:
a failure is a status with its message.
-/

namespace Nobify.Genex

open BuildModel (splitTopLevel)

/-- `Genex_Status`, without `GENEX_OK`. -/
inductive Status where
  | unsupported
  | error
  | cycleGuardHit
  deriving DecidableEq

/-- A `Genex_Result` that is not `GENEX_OK`. -/
structure Failure where
  status : Status
  message : String
  deriving DecidableEq

/-- `Genex_Result`. -/
abbrev Evaluated := Except Failure

/-- `Genex_Context`. A callback that is not configured is `none`. -/
structure Context where
  config : StringView := []
  currentTargetName : StringView := []
  platformId : StringView := []
  compileLanguage : StringView := []
  installPrefix : StringView := []
  readTargetProperty : Option (StringView → StringView → StringView) := none
  readTargetFile : Option (StringView → StringView) := none
  readTargetLinkerFile : Option (StringView → StringView) := none
  linkOnlyActive : Bool := false
  buildInterfaceActive : Bool := false
  buildLocalInterfaceActive : Bool := false
  installInterfaceActive : Bool := false
  targetNameCaseInsensitive : Bool := false
  maxCallbackValueLen : Nat := 0
  maxDepth : Nat := 0
  maxTargetPropertyDepth : Nat := 0

/-- `Genex_Target_Property_Stack`: target and property, the latest first. -/
abbrev PropertyStack := List (StringView × StringView)

/-- The capacity of `Genex_Target_Property_Stack`. -/
def propertyStackRoom : Nat := 128

/-- An error with a message. -/
def failWith {α : Type} (message : String) : Evaluated α := .error ⟨.error, message⟩

namespace Context

variable (ctx : Context)

/-- `gx_max_callback_value_len`. -/
def callbackValueLimit : Nat :=
  if ctx.maxCallbackValueLen = 0 then 1024 * 1024 else ctx.maxCallbackValueLen

/-- `gx_validate_callback_value`. -/
def validateCallbackValue (message : String) (value : StringView) : Evaluated StringView :=
  if ctx.callbackValueLimit < value.length then failWith message else .ok value

/-- `gx_target_name_eq`. -/
def targetNameEq (left right : StringView) : Bool :=
  if ctx.targetNameCaseInsensitive then svEqCi left right else left == right

/-- `gx_tp_stack_contains`. -/
def stackContains (stack : PropertyStack) (target property : StringView) : Bool :=
  stack.any fun entry => ctx.targetNameEq entry.1 target && svEqCi entry.2 property

end Context

/-! ## Operators -/

/-- The operators that `gx_eval_body` compares the operator of an expression with. -/
inductive Operator where
  | config
  | platformId
  | compileLanguage
  | buildInterface
  | buildLocalInterface
  | installInterface
  | installPrefix
  | linkOnly
  | targetFile
  | targetFileDir
  | targetFileName
  | targetLinkerFile
  | targetLinkerFileDir
  | targetLinkerFileName
  | bool
  | not
  | and
  | or
  | strequal
  | ifThenElse
  | genexEval
  | targetGenexEval
  | targetProperty
  | linkLibrary
  | linkGroup
  deriving DecidableEq

/-- The names of the operators, in the order of the comparisons. -/
def operatorNames : List (String × Operator) :=
  [("CONFIG", .config), ("PLATFORM_ID", .platformId), ("COMPILE_LANGUAGE", .compileLanguage),
    ("BUILD_INTERFACE", .buildInterface), ("BUILD_LOCAL_INTERFACE", .buildLocalInterface),
    ("INSTALL_INTERFACE", .installInterface), ("INSTALL_PREFIX", .installPrefix),
    ("LINK_ONLY", .linkOnly), ("TARGET_FILE", .targetFile), ("TARGET_FILE_DIR", .targetFileDir),
    ("TARGET_FILE_NAME", .targetFileName), ("TARGET_LINKER_FILE", .targetLinkerFile),
    ("TARGET_LINKER_FILE_DIR", .targetLinkerFileDir),
    ("TARGET_LINKER_FILE_NAME", .targetLinkerFileName), ("BOOL", .bool), ("NOT", .not),
    ("AND", .and), ("OR", .or), ("STREQUAL", .strequal), ("IF", .ifThenElse),
    ("GENEX_EVAL", .genexEval), ("TARGET_GENEX_EVAL", .targetGenexEval),
    ("TARGET_PROPERTY", .targetProperty), ("LINK_LIBRARY", .linkLibrary),
    ("LINK_GROUP", .linkGroup)]

/-- The operator of that name. -/
def findOperator (op : StringView) : Option Operator :=
  (operatorNames.find? fun entry => svEqCi op (sv entry.1)).map Prod.snd

/-- The values of conditions. -/
def truthValue (holds : Bool) : StringView := if holds then sv "1" else sv "0"

section Operators

variable (inner : Context → PropertyStack → StringView → Evaluated StringView) (ctx : Context)
  (stack : PropertyStack)

/-- `gx_eval_arg_fast`. -/
def evalArgFast (arg : StringView) : Evaluated StringView :=
  if containsGenex (svTrim arg) then inner ctx stack (svTrim arg) else .ok (svTrim arg)

/-- The loops of `CONFIG`, `PLATFORM_ID` and `COMPILE_LANGUAGE` over their arguments. -/
def matchesAny (needle : StringView) : List StringView → Evaluated StringView
  | [] => .ok (truthValue false)
  | arg :: rest =>
    (evalArgFast inner ctx stack arg).bind fun value =>
      if listMatchesValueCi value needle then .ok (truthValue true) else matchesAny needle rest

/-- The loop of `AND` and `OR` over their arguments: the first one that decides is the last one
that is evaluated. -/
def evalLogical (wantAnd : Bool) : List StringView → Evaluated StringView
  | [] => .ok (truthValue wantAnd)
  | arg :: rest =>
    (inner ctx stack arg).bind fun value =>
      if cmakeStringIsFalse value = wantAnd then .ok (truthValue !wantAnd)
      else evalLogical wantAnd rest

/-- An operator that gives its arguments when the context activates it, and nothing otherwise. -/
def evalActive (active : Bool) (args : StringView) : Evaluated StringView :=
  if active then inner ctx stack args else .ok []

/-- `TARGET_FILE` and its relatives: the part of a path that a callback gives for a target. -/
def evalTargetFile (read : Option (StringView → StringView)) (missing tooLarge : String)
    (part : StringView → StringView) (args : StringView) : Evaluated StringView :=
  match read with
  | none => failWith missing
  | some read =>
    (inner ctx stack args).bind fun name =>
      if svTrim name = [] then .ok []
      else (ctx.validateCallbackValue tooLarge (read (svTrim name))).map part

/-- `STREQUAL`. -/
def evalStrequal (args : List StringView) : Evaluated StringView :=
  match args with
  | [lhs, rhs] => do
    let left ← inner ctx stack lhs
    let right ← inner ctx stack rhs
    .ok (truthValue (left == right))
  | _ => failWith "STREQUAL expects 2 arguments"

/-- `IF`. -/
def evalIf (args : List StringView) : Evaluated StringView :=
  match args with
  | [condition, yes, no] => do
    let value ← inner ctx stack condition
    inner ctx stack (if cmakeStringIsFalse value then no else yes)
  | _ => failWith "IF expects 3 arguments"

/-- `TARGET_GENEX_EVAL`: the second argument is evaluated for the target that the first names. -/
def evalTargetGenexEval (args : List StringView) : Evaluated StringView :=
  match args with
  | [target, value] => do
    let name ← inner ctx stack target
    if svTrim name = [] then .ok []
    else inner { ctx with currentTargetName := svTrim name } stack value
  | _ => failWith "TARGET_GENEX_EVAL expects 2 arguments"

/-- The end of `TARGET_PROPERTY`: read a property and evaluate its value, unless that is being
done already. -/
def evalPropertyOf (target property : StringView) : Evaluated StringView :=
  if target = [] ∨ property = [] then .ok []
  else
    match ctx.readTargetProperty with
    | none => failWith "TARGET_PROPERTY callback is not configured"
    | some read =>
      if ctx.maxTargetPropertyDepth ≤ stack.length then
        .error ⟨.cycleGuardHit, "TARGET_PROPERTY depth guard reached"⟩
      else if ctx.stackContains stack target property then
        .error ⟨.cycleGuardHit, "TARGET_PROPERTY cycle detected"⟩
      else if propertyStackRoom ≤ stack.length then
        .error ⟨.cycleGuardHit, "TARGET_PROPERTY stack overflow"⟩
      else
        (ctx.validateCallbackValue "TARGET_PROPERTY callback returned an invalid or too large value"
          (read target property)).bind fun value =>
            inner ctx ((target, property) :: stack) value

/-- `TARGET_PROPERTY`. -/
def evalTargetProperty (args : List StringView) : Evaluated StringView :=
  match args with
  | [property] => do
    let name ← inner ctx stack property
    if svTrim ctx.currentTargetName = [] then
      failWith "TARGET_PROPERTY implicit form requires current target context"
    else evalPropertyOf inner ctx stack (svTrim ctx.currentTargetName) (svTrim name)
  | [target, property] => do
    let name ← inner ctx stack target
    let propertyName ← inner ctx stack property
    evalPropertyOf inner ctx stack (svTrim name) (svTrim propertyName)
  | _ => failWith "TARGET_PROPERTY expects property or target,property"

/-- The callbacks of `TARGET_LINKER_FILE`. -/
def readLinkerFile : Option (StringView → StringView) :=
  ctx.readTargetLinkerFile.or ctx.readTargetFile

/-- An operator that is no name: a nested expression, or a condition before a value. -/
def evalUnnamed (op args : StringView) : Evaluated StringView :=
  if args = [] ∧ 3 ≤ op.length ∧ (sv "$<").isPrefixOf op = true ∧ op.getLast? = some '>' then
    inner ctx stack op
  else if args ≠ [] ∧ (containsGenex op = true ∨ op = sv "0" ∨ op = sv "1") then do
    let value ← inner ctx stack op
    if cmakeStringIsFalse value then .ok [] else inner ctx stack args
  else .error ⟨.unsupported, "Unsupported generator expression operator"⟩

/-- The branches of `gx_eval_body` on the name of the operator. `raw` is the whole expression. -/
def evalOperator (raw args : StringView) (operator : Operator) : Evaluated StringView :=
  let fileMissing := "TARGET_FILE callback is not configured"
  let filePartMissing := "TARGET_FILE_* callback is not configured"
  let fileTooLarge := "TARGET_FILE callback returned an invalid or too large value"
  let linkerMissing := "TARGET_LINKER_FILE callback is not configured"
  let linkerTooLarge := "TARGET_LINKER_FILE callback returned an invalid or too large value"
  match operator with
  | .config =>
    if args = [] then .ok ctx.config
    else matchesAny inner ctx stack ctx.config (splitTopLevel ',' args)
  | .platformId =>
    if args = [] then .ok ctx.platformId
    else matchesAny inner ctx stack ctx.platformId (splitTopLevel ',' args)
  | .compileLanguage =>
    if svTrim ctx.compileLanguage = [] ∨ args = [] then .ok (truthValue false)
    else matchesAny inner ctx stack (svTrim ctx.compileLanguage) (splitTopLevel ',' args)
  | .buildInterface => evalActive inner ctx stack ctx.buildInterfaceActive args
  | .buildLocalInterface => evalActive inner ctx stack ctx.buildLocalInterfaceActive args
  | .installInterface => evalActive inner ctx stack ctx.installInterfaceActive args
  | .installPrefix =>
    if args ≠ [] then failWith "INSTALL_PREFIX does not accept arguments"
    else .ok ctx.installPrefix
  | .linkOnly => evalActive inner ctx stack ctx.linkOnlyActive args
  | .targetFile =>
    evalTargetFile inner ctx stack ctx.readTargetFile fileMissing fileTooLarge id args
  | .targetFileDir =>
    evalTargetFile inner ctx stack ctx.readTargetFile filePartMissing fileTooLarge pathDirname args
  | .targetFileName =>
    evalTargetFile inner ctx stack ctx.readTargetFile filePartMissing fileTooLarge pathBasename args
  | .targetLinkerFile =>
    evalTargetFile inner ctx stack (readLinkerFile ctx) linkerMissing linkerTooLarge id args
  | .targetLinkerFileDir =>
    evalTargetFile inner ctx stack (readLinkerFile ctx) linkerMissing linkerTooLarge pathDirname
      args
  | .targetLinkerFileName =>
    evalTargetFile inner ctx stack (readLinkerFile ctx) linkerMissing linkerTooLarge pathBasename
      args
  | .bool => (inner ctx stack args).map fun value => truthValue !(cmakeStringIsFalse value)
  | .not => (inner ctx stack args).map fun value => truthValue (cmakeStringIsFalse value)
  | .and => evalLogical inner ctx stack true (splitTopLevel ',' args)
  | .or => evalLogical inner ctx stack false (splitTopLevel ',' args)
  | .strequal => evalStrequal inner ctx stack (splitTopLevel ',' args)
  | .ifThenElse => evalIf inner ctx stack (splitTopLevel ',' args)
  | .genexEval => (inner ctx stack args).bind (inner ctx stack)
  | .targetGenexEval => evalTargetGenexEval inner ctx stack (splitTopLevel ',' args)
  | .targetProperty => evalTargetProperty inner ctx stack (splitTopLevel ',' args)
  | .linkLibrary | .linkGroup => .ok raw

/-- `gx_eval_body`. -/
def evalBody (body : StringView) : Evaluated StringView :=
  let (op, args) := splitOperator body
  match findOperator op with
  | some operator => evalOperator inner ctx stack (sv "$<" ++ body ++ sv ">") args operator
  | none => evalUnnamed inner ctx stack op args

/-- One round of the loop of `gx_eval_inner`. -/
def evalSegment : Segment → Evaluated StringView
  | .text value => .ok value
  | .expression body => evalBody inner ctx stack body
  | .unclosed _ => failWith "Unclosed generator expression"

end Operators

/-! ## Texts -/

/-- `gx_eval_inner`, with the number of levels that are left. What the loop puts together is made a
C string (`gx_copy_to_arena`). -/
def evalInner : Nat → Context → PropertyStack → StringView → Evaluated StringView
  | 0, _, _, _ => failWith "Generator expression max depth exceeded"
  | room + 1, ctx, stack, input =>
    if containsGenex input then
      ((segments input).mapM (evalSegment (evalInner room) ctx stack)).map fun parts =>
        svToCstr parts.flatten
    else .ok input

/-- `genex_eval`: a bound that is not set is 64. -/
def evalRoot (ctx : Context) (input : StringView) : Evaluated StringView :=
  let ctx := { ctx with
    maxDepth := if ctx.maxDepth = 0 then 64 else ctx.maxDepth
    maxTargetPropertyDepth :=
      if ctx.maxTargetPropertyDepth = 0 then 64 else ctx.maxTargetPropertyDepth }
  evalInner (ctx.maxDepth + 1) ctx [] input

end Nobify.Genex
