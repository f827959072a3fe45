import Nobify.BuildModel.FreezeIntegrity
import Nobify.BuildModel.GenexContext
import Nobify.BuildModel.StepSupply
import Nobify.Genex.ReadPlaces
import Nobify.Lib.Spans

/-!
# The targets that commands read

While the argument of a command is evaluated, the files of targets are read: through expressions of
the argument, and again through expressions in the names of the artifacts that are read. What the
view of the step depends on is found in the text of the arguments instead, by six spellings behind
which a name stands. The two agree on an argument whose expressions are plain.
-/

namespace Nobify.BuildModel

open Genex (FileRead EvaluatesOnce containsGenex findOperator splitOperator reachedItems)
open List
open Option (bind_eq_some_iff map_eq_some_iff)

variable {op raw text : StringView} {operator : Genex.Operator} {deps : StepDependencies}
  {step : BuildStepRecord}

/-! ## Targets that are read -/

section Targets

variable (host : HostPlatform) (cwd : StringView) (model : Model)

/-- The texts that `bm_query_target_local_artifact_internal` resolves, in their order. -/
def artifactTexts (ctx : QueryContext) (target : TargetRecord) (role : ArtifactRole) :
    List StringView :=
  let isWindows := platformIsWindows host ctx
  let category := artifactCategory target.kind role isWindows
  [rawOutputName target category ctx.config,
    (findArtifactProperty target (sv "PREFIX")).getD (defaultArtifactPrefix category isWindows),
    (findArtifactProperty target (sv "SUFFIX")).getD
      (defaultArtifactSuffix target.kind category isWindows (platformIsDarwin host ctx)),
    rawOutputDirectory target category ctx.config]

/-- The targets that are read while the artifact of a target is named, when `targets` are those of
a text. -/
def artifactTargets (genexEval : GenexEval) (targets : QueryContext → StringView → List TargetId)
    (ctx : QueryContext) (id : TargetId) (role : ArtifactRole) : List TargetId :=
  match model.targets[id]? with
  | none => []
  | some target =>
    if target.imported || !target.kind.isLocalArtifact then []
    else
      let ctxHere := { ctx with currentTargetId := ctx.currentTargetId.or (some id) }
      (reachedItems (fun text => (resolveString genexEval model ctxHere text).isNone)
        (artifactTexts host ctx target role)).flatMap (targets ctxHere)

/-- The role of the artifact that a callback asks for. -/
def readRole (read : FileRead) : ArtifactRole := if read.linkerFile then .linker else .runtime

/-- The files that a text itself reads, with a bound on how deep the names of artifacts refer to
each other. -/
def textReads (nesting : Nat) (ctx : QueryContext) (raw : StringView) : List FileRead :=
  Genex.rootReads (genexContext host cwd (queryGenexEval host cwd nesting) model ctx) raw

/-- The targets that are read while a text is evaluated. -/
def textTargets : Nat → QueryContext → StringView → List TargetId
  | 0, _, _ => []
  | nesting + 1, ctx, raw =>
    (textReads host cwd model nesting ctx raw).flatMap fun read =>
      (targetIdByNameResolved model read.name).elim [] fun id =>
        id :: artifactTargets host model (queryGenexEval host cwd nesting) (textTargets nesting) ctx
          id (readRole read)

/-- The target that a command runs, where an argument is its program: it stands for the artifact
of the target and is not evaluated. -/
def programTarget (argv : List StringView) (index : Nat) : Option TargetId :=
  if index = 0 then commandTargetDependency model argv else none

/-- The targets whose files are read while `bm_query_build_step_effective_command_argv` evaluates
an argument. -/
def argumentTargets (nesting : Nat) (ctx : QueryContext) (argv : List StringView) (index : Nat) :
    List TargetId :=
  match programTarget model argv index with
  | some id =>
    artifactTargets host model (queryGenexEval host cwd (nesting + 1))
      (textTargets host cwd model (nesting + 1)) ctx id .runtime
  | none => (argv[index]?).elim [] (textTargets host cwd model (nesting + 1) ctx)

/-- The files that an argument of a command itself reads. -/
def argumentReads (nesting : Nat) (ctx : QueryContext) (argv : List StringView) (index : Nat) :
    List FileRead :=
  if (programTarget model argv index).isSome then []
  else (argv[index]?).elim [] (textReads host cwd model nesting ctx)

/-- The targets that are read in the names of the artifacts that an argument reads. -/
def argumentArtifactTargets (nesting : Nat) (ctx : QueryContext) (argv : List StringView)
    (index : Nat) : List TargetId :=
  match programTarget model argv index with
  | some id =>
    artifactTargets host model (queryGenexEval host cwd (nesting + 1))
      (textTargets host cwd model (nesting + 1)) ctx id .runtime
  | none =>
    (argumentReads host cwd model nesting ctx argv index).flatMap fun read =>
      (targetIdByNameResolved model read.name).elim [] fun id =>
        artifactTargets host model (queryGenexEval host cwd nesting)
          (textTargets host cwd model nesting) ctx id (readRole read)

end Targets

section Reading

variable {host : HostPlatform} {cwd : StringView} {model : Model} {nesting : Nat}
  {ctx : QueryContext}

/-- An argument reads targets itself, or in the names of the artifacts that it reads. -/
theorem mem_argumentTargets {argv : List StringView} {index : Nat} {target : TargetId} :
    target ∈ argumentTargets host cwd model nesting ctx argv index ↔
      (∃ read ∈ argumentReads host cwd model nesting ctx argv index,
        targetIdByNameResolved model read.name = some target) ∨
      target ∈ argumentArtifactTargets host cwd model nesting ctx argv index := by
  unfold argumentTargets argumentArtifactTargets argumentReads
  cases programTarget model argv index with
  | some id => simp
  | none =>
    cases argv[index]? with
    | none => simp
    | some raw =>
      show target ∈ textTargets host cwd model (nesting + 1) ctx raw ↔ _
      rw [textTargets, mem_flatMap]
      constructor
      · rintro ⟨read, listed, found⟩
        cases named : targetIdByNameResolved model read.name with
        | none =>
          rw [named] at found
          exact nomatch found
        | some id =>
          rw [named] at found
          rcases mem_cons.mp found with rfl | inside
          · exact .inl ⟨read, listed, named⟩
          · refine .inr (mem_flatMap.mpr ⟨read, listed, ?_⟩)
            rw [named]
            exact inside
      · rintro (⟨read, listed, named⟩ | inside)
        · refine ⟨read, listed, ?_⟩
          rw [named]
          exact mem_cons_self
        · obtain ⟨read, listed, found⟩ := mem_flatMap.mp inside
          refine ⟨read, listed, ?_⟩
          cases named : targetIdByNameResolved model read.name with
          | none =>
            rw [named] at found
            exact nomatch found
          | some id =>
            rw [named] at found
            exact mem_cons_of_mem id found

end Reading

/-! ## Plain arguments -/

/-- The argument of an expression is a name, which the scan for spellings finds up to its end. -/
def plainOperand (text : StringView) : Bool :=
  let name := text.takeWhile fun char =>
    char ≠ '$' && char ≠ '\\' && char ≠ ',' && char ≠ '>'
  (text.drop name.length).head? = some '>' && svTrim name == name

/-- What stands behind an opening is plain: it evaluates no value again, and an operator that reads
a file is spelled as the scan expects it, before a name. -/
def plainExpression (behind : StringView) : Bool :=
  let op := behind.takeWhile fun char => char ≠ ':' && char ≠ '>'
  match findOperator (svTrim op) with
  | some .genexEval | some .targetProperty => false
  | some operator =>
    match operator.linkerFile?, behind.drop op.length with
    | some _, ':' :: operand =>
      targetGenexPrefixes.contains (sv "$<" ++ op ++ sv ":") && plainOperand operand
    | _, _ => true
  | none => true

/-- Every opening in the text has a plain expression behind it. -/
def plainArgument (raw : StringView) : Bool :=
  raw.tails.all fun text =>
    match text with
    | '$' :: '<' :: behind => plainExpression behind
    | _ => true

/-! ## Names behind spellings -/

/-- A target is named in a text: behind one of the spellings its name stands, up to a bracket, a
comma or the end. -/
def SpelledIn (model : Model) (raw : StringView) (target : TargetId) : Prop :=
  ∃ spelling ∈ targetGenexPrefixes, ∃ name behind, spelling ++ (name ++ behind) <:+ raw ∧
    (∀ char ∈ name, char ≠ '>' ∧ char ≠ ',') ∧ (∀ char ∈ behind.head?, char = '>' ∨ char = ',') ∧
    name ≠ [] ∧ targetIdByNameResolved model name = some target

theorem extractTargetGenexDependency_eq_some {start name : StringView} :
    extractTargetGenexDependency start text = some name ↔ ∃ behind, text = start ++ (name ++ behind) ∧
      (∀ char ∈ name, char ≠ '>' ∧ char ≠ ',') ∧ (∀ char ∈ behind.head?, char = '>' ∨ char = ',') ∧
      name ≠ [] := by
  have inName : ∀ char : Char, (char ≠ '>' && char ≠ ',') = true ↔ char ≠ '>' ∧ char ≠ ',' := by
    intro char
    simp
  have ended : ∀ char : Char, (char ≠ '>' && char ≠ ',') = false ↔ char = '>' ∨ char = ',' := by
    intro char
    rw [Bool.and_eq_false_iff]
    simp
  unfold extractTargetGenexDependency
  by_cases starts : start.isPrefixOf text = true
  · obtain ⟨rest, rfl⟩ := List.isPrefixOf_iff_prefix.mp starts
    rw [if_pos starts, drop_left]
    dsimp only
    constructor
    · intro found
      split at found
      · cases found
      · next filled =>
        obtain ⟨behind, whole, all, stop⟩ := Spans.takeWhile_eq_iff.mp (Option.some.inj found)
        rw [Option.some.inj found] at filled
        exact ⟨behind, by rw [whole], fun char listed => (inName char).mp (all char listed),
          fun char first => (ended char).mp (stop char first), filled⟩
    · rintro ⟨behind, same, all, stop, filled⟩
      have taken := Spans.takeWhile_eq_iff.mpr ⟨behind, append_cancel_left same,
        fun char listed => (inName char).mpr (all char listed),
        fun char first => (ended char).mpr (stop char first)⟩
      rw [taken, if_neg filled]
  · rw [if_neg starts]
    refine iff_of_false nofun ?_
    rintro ⟨behind, rfl, -⟩
    exact starts (List.isPrefixOf_iff_prefix.mpr (List.prefix_append start _))

/-- The names that the scan finds. -/
theorem mem_targetGenexNames {name : StringView} :
    name ∈ targetGenexNames raw ↔ ∃ spelling ∈ targetGenexPrefixes, ∃ behind,
      spelling ++ (name ++ behind) <:+ raw ∧ (∀ char ∈ name, char ≠ '>' ∧ char ≠ ',') ∧
      (∀ char ∈ behind.head?, char = '>' ∨ char = ',') ∧ name ≠ [] := by
  unfold targetGenexNames
  rw [mem_flatMap]
  constructor
  · rintro ⟨text, behindIt, found⟩
    obtain ⟨spelling, listed, extracted⟩ := mem_filterMap.mp found
    obtain ⟨behind, rfl, clear, ends, filled⟩ := (extractTargetGenexDependency_eq_some).mp extracted
    exact ⟨spelling, listed, behind, (mem_tails _ _).mp behindIt, clear, ends, filled⟩
  · rintro ⟨spelling, listed, behind, stands, clear, ends, filled⟩
    refine ⟨_, (mem_tails _ _).mpr stands, mem_filterMap.mpr ⟨spelling, listed, ?_⟩⟩
    exact (extractTargetGenexDependency_eq_some).mpr ⟨behind, rfl, clear, ends, filled⟩

theorem spelledIn_iff {model : Model} {target : TargetId} : SpelledIn model raw target ↔
      ∃ name ∈ targetGenexNames raw, targetIdByNameResolved model name = some target := by
  constructor
  · rintro ⟨spelling, listed, name, behind, stands, clear, ends, filled, named⟩
    exact ⟨name, mem_targetGenexNames.mpr ⟨spelling, listed, behind, stands, clear, ends, filled⟩,
      named⟩
  · rintro ⟨name, found, named⟩
    obtain ⟨spelling, listed, behind, stands, clear, ends, filled⟩ := (mem_targetGenexNames).mp found
    exact ⟨spelling, listed, name, behind, stands, clear, ends, filled, named⟩

/-! ## Plain expressions -/

/-- The characters of the operators are none that the scanners look for. -/
theorem clear_of_findOperator (named : findOperator op = some operator) :
    ∀ char ∈ op, char ≠ '$' ∧ char ≠ '\\' ∧ char ≠ '>' ∧ char ≠ ':' := by
  have other : ∀ char ∈ op, Genex.isNameChar char.toUpper ≠ false := by
    intro char inside foreign
    rw [Genex.findOperator_of_mem inside foreign] at named
    cases named
  intro char inside
  refine ⟨?_, ?_, ?_, ?_⟩
  all_goals
    rintro rfl
    exact other _ inside (by decide)

/-- Blanks around an operator do not matter to that. -/
theorem clear_of_findOperator_svTrim (named : findOperator (svTrim op) = some operator) :
    ∀ char ∈ op, char ≠ '$' ∧ char ≠ '\\' ∧ char ≠ '>' ∧ char ≠ ':' := by
  obtain ⟨before, after, whole, leading, trailing⟩ := Genex.svTrim_between op
  have blank : ∀ char, isSpace char = true →
      char ≠ '$' ∧ char ≠ '\\' ∧ char ≠ '>' ∧ char ≠ ':' := by
    intro char space
    refine ⟨?_, ?_, ?_, ?_⟩
    all_goals
      rintro rfl
      exact absurd space (by decide)
  intro char inside
  rw [whole, mem_append, mem_append] at inside
  rcases inside with (front | middle) | back
  · exact blank char (leading char front)
  · exact clear_of_findOperator named char middle
  · exact blank char (trailing char back)

/-- The operator of an expression that stands in a text, as the scan for plain ones reads it. -/
theorem operator_of_expression {body : StringView} (behind : StringView)
    (named : findOperator (splitOperator body).1 = some operator) :
    ∃ op rest, (body ++ '>' :: behind).takeWhile (fun char => char ≠ ':' && char ≠ '>') = op ∧
      svTrim op = (splitOperator body).1 ∧ body ++ '>' :: behind = op ++ rest ∧
      ((splitOperator body).2 = [] ∨
        ∃ args, body = op ++ ':' :: args ∧ (splitOperator body).2 = args) := by
  have stops : ∀ {op rest : StringView}, findOperator (svTrim op) = some operator →
      (∀ char ∈ rest.head?, char = ':' ∨ char = '>') →
      (op ++ rest).takeWhile (fun char => char ≠ ':' && char ≠ '>') = op := by
    intro op rest named ends
    refine Spans.takeWhile_eq_iff.mpr ⟨rest, rfl, fun char listed => ?_, fun char first => ?_⟩
    · have clear := clear_of_findOperator_svTrim named char listed
      simp [clear.2.2.1, clear.2.2.2]
    · rcases ends char first with rfl | rfl <;> rfl
  rcases Genex.splitOperator_cases body with ⟨op, args, whole, parts⟩ | parts
  · rw [parts] at named ⊢
    refine ⟨op, ':' :: (args ++ '>' :: behind), ?_, rfl, ?_, .inr ⟨args, whole, rfl⟩⟩
    · rw [whole, append_assoc]
      exact stops named (fun char first => .inl (Option.some.inj first).symm)
    · rw [whole, append_assoc]
      rfl
  · rw [parts] at named ⊢
    refine ⟨body, '>' :: behind, ?_, rfl, rfl, .inl rfl⟩
    exact stops named (fun char first => .inr (Option.some.inj first).symm)

/-- What stands behind every opening of a plain argument is plain. -/
theorem plainExpression_of_stands {body : StringView} (plain : plainArgument raw = true)
    (inside : '$' :: '<' :: (body ++ ['>']) <:+: raw) : ∃ behind,
      '$' :: '<' :: (body ++ '>' :: behind) <:+ raw ∧ plainExpression (body ++ '>' :: behind) = true := by
  obtain ⟨before, behind, whole⟩ := inside
  have stands : '$' :: '<' :: (body ++ '>' :: behind) <:+ raw := by
    refine ⟨before, ?_⟩
    rw [← whole]
    simp
  have every := all_eq_true.mp plain _ ((mem_tails _ _).mpr stands)
  exact ⟨behind, stands, every⟩

/-- A plain expression evaluates no value again, and reads a file only through a spelling before a
plain operand. -/
theorem plainExpression_operator {behind : StringView} (plain : plainExpression behind = true)
    (taken : behind.takeWhile (fun char => char ≠ ':' && char ≠ '>') = op)
    (named : findOperator (svTrim op) = some operator) :
    operator ≠ .genexEval ∧ operator ≠ .targetProperty ∧
      ∀ linkerFile operand, operator.linkerFile? = some linkerFile → behind = op ++ ':' :: operand →
        sv "$<" ++ op ++ sv ":" ∈ targetGenexPrefixes ∧ plainOperand operand = true := by
  unfold plainExpression at plain
  rw [taken] at plain
  dsimp only at plain
  rw [named] at plain
  have once : operator ≠ .genexEval ∧ operator ≠ .targetProperty := by
    constructor
    · rintro rfl
      cases plain
    · rintro rfl
      cases plain
  refine ⟨once.1, once.2, fun linkerFile operand reads whole => ?_⟩
  rw [whole, drop_left] at plain
  split at plain
  · next same => exact absurd (Option.some.inj same) once.1
  · next same => exact absurd (Option.some.inj same) once.2
  · next other _ _ same =>
    cases same
    rw [reads] at plain
    obtain ⟨spelled, literal⟩ := Bool.and_eq_true_iff.mp plain
    exact ⟨contains_iff_mem.mp spelled, literal⟩
  · next missing => cases missing

theorem evaluatesOnce_of_plain (plain : plainArgument raw = true) : EvaluatesOnce raw := by
  intro body inside
  obtain ⟨behind, -, here⟩ := plainExpression_of_stands plain inside
  have once : ∀ operator, findOperator (splitOperator body).1 = some operator →
      operator ≠ .genexEval ∧ operator ≠ .targetProperty := by
    intro operator named
    obtain ⟨op, rest, taken, trimmed, -, -⟩ := operator_of_expression behind named
    rw [← trimmed] at named
    have plainly := plainExpression_operator here taken named
    exact ⟨plainly.1, plainly.2.1⟩
  exact ⟨fun named => (once _ named).1 rfl, fun named => (once _ named).2 rfl⟩

/-- A plain operand is a name before the bracket that closes its expression. -/
theorem plainOperand_iff (plain : plainOperand text = true) : ∃ name behind,
    text = name ++ '>' :: behind ∧ svTrim name = name ∧
      ∀ char ∈ name, char ≠ '$' ∧ char ≠ '\\' ∧ char ≠ ',' ∧ char ≠ '>' := by
  unfold plainOperand at plain
  dsimp only at plain
  obtain ⟨ends, trimmed⟩ := Bool.and_eq_true_iff.mp plain
  obtain ⟨behind, whole, all, -⟩ := Spans.takeWhile_eq_iff.mp (rfl : text.takeWhile (fun char =>
    char ≠ '$' && char ≠ '\\' && char ≠ ',' && char ≠ '>') = _)
  generalize text.takeWhile (fun char =>
    char ≠ '$' && char ≠ '\\' && char ≠ ',' && char ≠ '>') = name at whole all ends trimmed
  rw [whole, drop_left] at ends
  obtain ⟨rest, rfl⟩ := List.head?_eq_some_iff.mp (of_decide_eq_true ends)
  refine ⟨name, rest, whole, beq_iff_eq.mp trimmed, fun char listed => ?_⟩
  have clear := all char listed
  simpa [and_assoc] using clear

/-- A text without a dollar sign has no expression. -/
theorem containsGenex_eq_false (clear : ∀ char ∈ text, char ≠ '$') :
    containsGenex text = false := by
  refine Bool.eq_false_iff.mpr fun contains => ?_
  have dollar := (Genex.opening_of_containsGenexGo contains).subset mem_cons_self
  exact clear '$' dollar rfl

/-- Where an argument is plain, the scan finds the name of every file that is read through one of
its expressions. -/
theorem mem_targetGenexNames_of_plain {read : FileRead} (plain : plainArgument raw = true)
    (stands : read.StandsIn raw) : read.name ∈ targetGenexNames raw := by
  obtain ⟨behind, suffix, here⟩ := plainExpression_of_stands plain stands.expression
  obtain ⟨operator, named, reads⟩ := bind_eq_some_iff.mp stands.operator
  obtain ⟨op, rest, taken, trimmed, -, shape⟩ := operator_of_expression behind named
  rcases shape with noArgs | ⟨args, whole, argsHere⟩
  · -- without an argument there is no name to read a file for
    have nothing := stands.literal (by rw [noArgs]; rfl)
    rw [noArgs] at nothing
    exact absurd nothing.symm stands.filled
  · have clearOp := clear_of_findOperator_svTrim (trimmed ▸ named)
    have text : read.body ++ '>' :: behind = op ++ ':' :: (args ++ '>' :: behind) := by
      rw [whole, append_assoc]
      rfl
    obtain ⟨-, -, plainly⟩ := plainExpression_operator here taken (trimmed ▸ named)
    obtain ⟨spelled, operand⟩ := plainly _ _ reads text
    obtain ⟨name, more, same, own, clear⟩ := plainOperand_iff operand
    have argsAreName : args = name := by
      rcases append_eq_append_iff.mp same with ⟨bs, longer, ends⟩ | ⟨bs, longer, ends⟩
      · cases bs with
        | nil => rw [longer, append_nil]
        | cons char bs =>
          have bracket : '>' ∈ name := by
            rw [longer, (List.cons.inj ends).1]
            simp
          exact absurd rfl (clear '>' bracket).2.2.2
      · cases bs with
        | nil => rw [longer, append_nil]
        | cons char bs =>
          obtain ⟨after, closes⟩ := stands.closes
          rw [whole, longer, ← (List.cons.inj ends).1, ← cons_append, ← append_assoc] at closes
          refine absurd closes (Genex.not_closesAt_bracket fun char listed => ?_)
          rcases mem_append.mp listed with inOp | inName
          · exact ⟨(clearOp char inOp).1, (clearOp char inOp).2.1, (clearOp char inOp).2.2.1⟩
          · rcases mem_cons.mp inName with rfl | inside
            · decide
            · exact ⟨(clear char inside).1, (clear char inside).2.1, (clear char inside).2.2.2⟩
    subst argsAreName
    have value : args = read.name := by
      rw [← own, ← argsHere]
      refine stands.literal (containsGenex_eq_false fun char listed => ?_)
      rw [argsHere] at listed
      exact (clear char listed).1
    rw [← value]
    refine (mem_targetGenexNames).mpr ⟨_, spelled, '>' :: behind, ?_, ?_, ?_, ?_⟩
    · have start : sv "$<" ++ op ++ sv ":" ++ (args ++ '>' :: behind) =
          '$' :: '<' :: (op ++ ':' :: (args ++ '>' :: behind)) := by
        rw [append_assoc, append_assoc]
        rfl
      rw [start, ← text]
      exact suffix
    · exact fun char listed => ⟨(clear char listed).2.2.2, (clear char listed).2.2.1⟩
    · exact fun char first => .inl (Option.some.inj first).symm
    · rw [value]
      exact stands.filled

/-! ## Targets of a view -/

section View

variable {genexEval : GenexEval} {model : Model} {ctx : QueryContext} {target : TargetId}

/-- A loop lists the targets that its rounds list. -/
theorem mem_targets_foldl {α : Type} {round : StepDependencies → α → StepDependencies}
    {lists : α → Prop}
    (one : ∀ deps item, target ∈ (round deps item).targets ↔ target ∈ deps.targets ∨ lists item)
    {items : List α} :
    target ∈ (items.foldl round deps).targets ↔
      target ∈ deps.targets ∨ ∃ item ∈ items, lists item := by
  induction items generalizing deps with
  | nil => simp
  | cons item rest ih => rw [foldl_cons, ih, one, or_assoc, exists_mem_cons_iff]

theorem mem_targets_pushTarget {id : Option TargetId} :
    target ∈ (deps.pushTarget id).targets ↔ target ∈ deps.targets ∨ id = some target := by
  cases id with
  | none => simp [StepDependencies.pushTarget]
  | some id => simp [StepDependencies.pushTarget, mem_pushUnique, eq_comm]

theorem mem_targets_pushUnless {id owner : Option TargetId} :
    target ∈ (if id = owner then deps else deps.pushTarget id).targets ↔
      target ∈ deps.targets ∨ id = some target ∧ some target ≠ owner := by
  by_cases own : id = owner
  · rw [if_pos own]
    refine (or_iff_left ?_).symm
    rintro ⟨same, other⟩
    exact other (same.symm.trans own)
  · rw [if_neg own, mem_targets_pushTarget]
    refine or_congr_right ⟨fun same => ⟨same, fun owns => own (same.trans owns)⟩, And.left⟩

/-- Commands list the targets that they run and those that their arguments spell, except for the
owner of the step. -/
theorem mem_targets_commands {owner : Option TargetId} {commands : List (List StringView)} :
    target ∈ (collectCommandDependencies model owner commands deps).targets ↔
      target ∈ deps.targets ∨ some target ≠ owner ∧ ∃ argv ∈ commands,
        commandTargetDependency model argv = some target ∨
          ∃ arg ∈ argv, SpelledIn model arg target := by
  have spelled : ∀ (deps : StepDependencies) (arg : StringView),
      target ∈ (collectTargetGenexDependencies model owner arg deps).targets ↔
        target ∈ deps.targets ∨ SpelledIn model arg target ∧ some target ≠ owner := by
    intro deps arg
    have one : ∀ (deps : StepDependencies) (name : StringView),
        target ∈ (if targetIdByNameResolved model name = owner then deps
            else deps.pushTarget (targetIdByNameResolved model name)).targets ↔
          target ∈ deps.targets ∨
            targetIdByNameResolved model name = some target ∧ some target ≠ owner :=
      fun _ _ => mem_targets_pushUnless
    refine (mem_targets_foldl one).trans (or_congr_right ?_)
    rw [spelledIn_iff]
    constructor
    · rintro ⟨name, found, named, other⟩
      exact ⟨⟨name, found, named⟩, other⟩
    · rintro ⟨⟨name, found, named⟩, other⟩
      exact ⟨name, found, named, other⟩
  unfold collectCommandDependencies
  rw [mem_targets_foldl (fun deps argv => by
    rw [mem_targets_foldl spelled, mem_targets_pushUnless, or_assoc])]
  refine or_congr_right ?_
  constructor
  · rintro ⟨argv, listed, ⟨runs, other⟩ | ⟨arg, inside, names, other⟩⟩
    · exact ⟨other, argv, listed, .inl runs⟩
    · exact ⟨other, argv, listed, .inr ⟨arg, inside, names⟩⟩
  · rintro ⟨other, argv, listed, runs | ⟨arg, inside, names⟩⟩
    · exact ⟨argv, listed, .inl ⟨runs, other⟩⟩
    · exact ⟨argv, listed, .inr ⟨arg, inside, names, other⟩⟩

/-- The records of a step list the targets that they refer to. -/
theorem mem_targets_records {id : BuildStepId} {records : List StepDependency}
    {before after : StepDependencies}
    (looped : records.foldlM (viewDependency genexEval model ctx id step) before = some after) :
    target ∈ after.targets ↔ target ∈ before.targets ∨ ∃ name targetId,
      .targetRef name targetId ∈ records ∧ resolveAliasTargetId model targetId = some target := by
  induction records generalizing before with
  | nil =>
    cases looped
    simp
  | cons record rest ih =>
    rw [foldlM_cons] at looped
    obtain ⟨middle, first, later⟩ := bind_eq_some_iff.mp looped
    rw [ih later]
    cases record with
    | targetRef name targetId =>
      cases first
      rw [mem_targets_pushTarget, or_assoc]
      refine or_congr_right ?_
      constructor
      · rintro (same | ⟨other, otherId, listed, same⟩)
        · exact ⟨name, targetId, mem_cons_self, same⟩
        · exact ⟨other, otherId, mem_cons_of_mem _ listed, same⟩
      · rintro ⟨other, otherId, listed, same⟩
        rcases mem_cons.mp listed with here | listed
        · cases here
          exact .inl same
        · exact .inr ⟨other, otherId, listed, same⟩
    | pathToken token producer file =>
      rw [viewDependency_pathToken] at first
      obtain ⟨pushed, -, rfl⟩ := map_eq_some_iff.mp first
      have unchanged : (before.pushSupply pushed).targets = before.targets := by
        cases pushed with
        | none => rfl
        | some supply =>
          cases supply with
          | producer producer => rfl
          | file path =>
            show (before.pushFile path).targets = before.targets
            unfold StepDependencies.pushFile
            split
            · rfl
            · rfl
      rw [unchanged]
      refine or_congr_right ?_
      constructor
      · rintro ⟨other, otherId, listed, same⟩
        exact ⟨other, otherId, mem_cons_of_mem _ listed, same⟩
      · rintro ⟨other, otherId, listed, same⟩
        rcases mem_cons.mp listed with here | listed
        · cases here
        · exact ⟨other, otherId, listed, same⟩

/-- What freeze found is listed. -/
theorem mem_targets_frozen (frozen : frozenDependencies genexEval model ctx step = some deps) :
    target ∈ deps.targets ↔ target ∈ step.resolvedTargetDependencies := by
  obtain ⟨files, -, rfl⟩ := map_eq_some_iff.mp frozen
  have pushed : ∀ (deps : StepDependencies) (file : StringView),
      target ∈ (deps.pushFile file).targets ↔ target ∈ deps.targets ∨ False := by
    intro deps file
    rw [or_false]
    unfold StepDependencies.pushFile
    split
    · rfl
    · rfl
  rw [mem_targets_foldl pushed, mem_foldl_pushUnique]
  simp

end View

/-- A step names a target: by a dependency, as the program of a command, or by a spelling in an
argument. -/
def StepNames (model : Model) (step : BuildStepRecord) (target : TargetId) : Prop :=
  target ∈ step.resolvedTargetDependencies ∨
    (∃ name targetId, .targetRef name targetId ∈ step.dependencies ∧
      resolveAliasTargetId model targetId = some target) ∨
    ∃ argv ∈ step.commands, commandTargetDependency model argv = some target ∨
      ∃ arg ∈ argv, SpelledIn model arg target

/-- A view depends on the targets that the step names, apart from the owner among those that only
commands name. -/
theorem mem_view_targets {genexEval : GenexEval} {model : Model} {ctx : QueryContext}
    {id : BuildStepId} {view : StepEffectiveView} {target : TargetId}
    (known : model.buildSteps[id]? = some step)
    (viewed : buildStepEffectiveView genexEval model ctx id = some view)
    (other : some target ≠ resolveAliasTargetId model step.ownerTargetId) :
    target ∈ view.dependencies.targets ↔ StepNames model step target := by
  obtain ⟨deps, frozen, looped⟩ :=
    bind_eq_some_iff.mp (stepDependencies_of_view known viewed)
  obtain ⟨records, ran, same⟩ := map_eq_some_iff.mp looped
  rw [← same, mem_targets_commands, mem_targets_records ran, mem_targets_frozen frozen, or_assoc,
    and_iff_right other]
  rfl

/-! ## Edges -/

/-- The model's own target, as opposed to an imported one. -/
def IsLocal (model : Model) (target : TargetId) : Prop :=
  ∃ record, model.targets[target]? = some record ∧ record.imported = false

/-- What the commands of a step read and the step does not spell plainly, it names: the targets
that arguments which are not plain read, and those that are read in the names of artifacts. -/
structure ReadsNamed (host : HostPlatform) (cwd : StringView) (model : Model) (nesting : Nat)
    (ctx : QueryContext) (step : BuildStepRecord) : Prop where
  arguments : ∀ argv ∈ step.commands, ∀ index raw, argv[index]? = some raw →
    plainArgument raw = false → ∀ read ∈ argumentReads host cwd model nesting ctx argv index,
      ∀ target, targetIdByNameResolved model read.name = some target → IsLocal model target →
        some target ≠ resolveAliasTargetId model step.ownerTargetId → StepNames model step target
  artifacts : ∀ argv ∈ step.commands, ∀ index,
    ∀ target ∈ argumentArtifactTargets host cwd model nesting ctx argv index,
      IsLocal model target → some target ≠ resolveAliasTargetId model step.ownerTargetId →
        StepNames model step target

/-- A view depends on every local target that the commands of its step read, apart from the owner,
exactly when the step names those that it does not spell plainly. -/
theorem commandReads_depend_iff {host : HostPlatform} {cwd : StringView} {model : Model}
    {nesting : Nat} {ctx : QueryContext} {id : BuildStepId} {step : BuildStepRecord}
    {view : StepEffectiveView} (known : model.buildSteps[id]? = some step)
    (viewed : buildStepEffectiveView (queryGenexEval host cwd (nesting + 1)) model ctx id =
      some view) :
    (∀ argv ∈ step.commands, ∀ index,
      ∀ target ∈ argumentTargets host cwd model nesting ctx argv index, IsLocal model target →
        some target ≠ resolveAliasTargetId model step.ownerTargetId →
          target ∈ view.dependencies.targets) ↔
      ReadsNamed host cwd model nesting ctx step := by
  constructor
  · intro depends
    constructor
    · intro argv listed index raw _ _ read reads target named isLocal other
      have reached := mem_argumentTargets.mpr (.inl ⟨read, reads, named⟩)
      exact (mem_view_targets known viewed other).mp
        (depends argv listed index target reached isLocal other)
    · intro argv listed index target inside isLocal other
      have reached := mem_argumentTargets.mpr (.inr inside)
      exact (mem_view_targets known viewed other).mp
        (depends argv listed index target reached isLocal other)
  · intro names argv listed index target reached isLocal other
    refine (mem_view_targets known viewed other).mpr ?_
    rcases mem_argumentTargets.mp reached with ⟨read, reads, named⟩ | inside
    · have argument : ∃ raw, argv[index]? = some raw ∧
          read ∈ textReads host cwd model nesting ctx raw := by
        unfold argumentReads at reads
        split at reads
        · exact nomatch reads
        · cases here : argv[index]? with
          | none =>
            rw [here] at reads
            exact nomatch reads
          | some raw =>
            rw [here] at reads
            exact ⟨raw, rfl, reads⟩
      obtain ⟨raw, here, own⟩ := argument
      cases plain : plainArgument raw with
      | false =>
        exact names.arguments argv listed index raw here plain read reads target named isLocal other
      | true =>
        have stands : read.StandsIn raw :=
          Genex.standsIn_of_mem_fileReads (evaluatesOnce_of_plain plain) List.infix_rfl own
        have spelled : SpelledIn model raw target :=
          spelledIn_iff.mpr ⟨read.name, mem_targetGenexNames_of_plain plain stands, named⟩
        exact .inr (.inr ⟨argv, listed, .inr ⟨raw, mem_of_getElem? here, spelled⟩⟩)
    · exact names.artifacts argv listed index target inside isLocal other

/-! ## A tool in an argument -/

/-- A project with an executable and a custom command that hands an argument to a program. -/
def commandStream (arg : String) : List BuildEvent :=
  [{ body := .directory (.enter (sv "/s") (sv "/b")) },
    { body := .target (.declare (sv "tool") .executable false false []) },
    { body := .target (.change (sv "tool") (.addSource (sv "tool.c") .privateItem .regular [])) },
    { body := .buildGraph (.stepDeclare { stepKey := sv "k", stepKind := .outputRule }) },
    { body := .buildGraph (.stepChange (sv "k") (.addOutput (sv "gen.txt"))) },
    { body := .buildGraph (.stepChange (sv "k") (.addCommand [sv "sh", sv arg])) },
    { body := .directory (.leave (sv "/s") (sv "/b")) }]

/-- The frozen model of the project. -/
def commandModel (arg : String) : Option FrozenModel :=
  (freezeDraft plainGenexEval (Builder.feed {} (commandStream arg)).draft).toOption

/-- What the command is in the frozen model, what its view depends on, and what its two arguments
read. -/
structure CommandRun where
  commands : List (List StringView)
  owner : Option TargetId
  imported : List Bool
  dependencies : List TargetId
  reads : List (List TargetId)
  artifacts : List (List TargetId)
  deriving DecidableEq

/-- The command of the project. -/
def commandRun (arg : String) : Option CommandRun := do
  let model ← commandModel arg
  let step ← model.buildSteps[0]?
  let view ← buildStepEffectiveView (queryGenexEval {} (sv "/w") 1) model.toModel {} 0
  return {
    commands := step.commands
    owner := resolveAliasTargetId model.toModel step.ownerTargetId
    imported := model.targets.map TargetRecord.imported
    dependencies := view.dependencies.targets
    reads := [0, 1].map (argumentTargets {} (sv "/w") model.toModel 0 {} [sv "sh", sv arg])
    artifacts := [0, 1].map
      (argumentArtifactTargets {} (sv "/w") model.toModel 0 {} [sv "sh", sv arg]) }

theorem commandRun_eq_some {arg : String} {run : CommandRun} (ran : commandRun arg = some run) :
    ∃ (model : FrozenModel) (step : BuildStepRecord) (view : StepEffectiveView),
      commandModel arg = some model ∧ model.buildSteps[0]? = some step ∧
        buildStepEffectiveView (queryGenexEval {} (sv "/w") 1) model.toModel {} 0 = some view ∧
        run = {
          commands := step.commands
          owner := resolveAliasTargetId model.toModel step.ownerTargetId
          imported := model.targets.map TargetRecord.imported
          dependencies := view.dependencies.targets
          reads := [0, 1].map (argumentTargets {} (sv "/w") model.toModel 0 {} [sv "sh", sv arg])
          artifacts := [0, 1].map
            (argumentArtifactTargets {} (sv "/w") model.toModel 0 {} [sv "sh", sv arg]) } := by
  unfold commandRun at ran
  obtain ⟨model, frozen, ran⟩ := bind_eq_some_iff.mp ran
  obtain ⟨step, known, ran⟩ := bind_eq_some_iff.mp ran
  obtain ⟨view, viewed, ran⟩ := bind_eq_some_iff.mp ran
  exact ⟨model, step, view, frozen, known, viewed, (Option.some.inj ran).symm⟩

/-- A tool that the argument spells is a dependency. -/
theorem commandReads_depend_iff_spelled :
    ∃ model step view, commandModel "$<TARGET_FILE:tool>" = some model ∧
      model.buildSteps[0]? = some step ∧
      buildStepEffectiveView (queryGenexEval {} (sv "/w") 1) model.toModel {} 0 = some view ∧
      argumentTargets {} (sv "/w") model.toModel 0 {} [sv "sh", sv "$<TARGET_FILE:tool>"] 1 = [0] ∧
      ∀ argv ∈ step.commands, ∀ index,
        ∀ target ∈ argumentTargets {} (sv "/w") model.toModel 0 {} argv index,
          IsLocal model.toModel target →
            some target ≠ resolveAliasTargetId model.toModel step.ownerTargetId →
              target ∈ view.dependencies.targets := by
  have ran : commandRun "$<TARGET_FILE:tool>" = some
      { commands := [[sv "sh", sv "$<TARGET_FILE:tool>"]], owner := none, imported := [false]
        dependencies := [0], reads := [[], [0]], artifacts := [[], []] } := by decide +kernel
  obtain ⟨model, step, view, frozen, known, viewed, same⟩ := commandRun_eq_some ran
  have commands : step.commands = [[sv "sh", sv "$<TARGET_FILE:tool>"]] :=
    (congrArg CommandRun.commands same).symm
  have reads := congrArg CommandRun.reads same
  have artifacts := congrArg CommandRun.artifacts same
  refine ⟨model, step, view, frozen, known, viewed, (List.cons.inj (List.cons.inj reads).2).1.symm,
    (commandReads_depend_iff known viewed).mpr ⟨?_, ?_⟩⟩
  · intro argv listed index raw here notPlain
    rw [commands, mem_singleton] at listed
    have plain : ∀ raw ∈ [sv "sh", sv "$<TARGET_FILE:tool>"], plainArgument raw = true := by
      decide +kernel
    rw [plain raw (listed ▸ mem_of_getElem? here)] at notPlain
    cases notPlain
  · intro argv listed index target inside
    rw [commands, mem_singleton] at listed
    rw [listed] at inside
    match index with
    | 0 =>
      rw [← (List.cons.inj artifacts).1] at inside
      exact nomatch inside
    | 1 =>
      rw [← (List.cons.inj (List.cons.inj artifacts).2).1] at inside
      exact nomatch inside
    | index + 2 =>
      simp [argumentArtifactTargets, programTarget, argumentReads] at inside

/-- A tool whose name is computed is read, and is no dependency. -/
theorem computed_name_unnoticed :
    ∃ model step view, commandModel "$<TARGET_FILE:$<1:tool>>" = some model ∧
      model.buildSteps[0]? = some step ∧
      buildStepEffectiveView (queryGenexEval {} (sv "/w") 1) model.toModel {} 0 = some view ∧
      ¬ ∀ argv ∈ step.commands, ∀ index,
        ∀ target ∈ argumentTargets {} (sv "/w") model.toModel 0 {} argv index,
          IsLocal model.toModel target →
            some target ≠ resolveAliasTargetId model.toModel step.ownerTargetId →
              target ∈ view.dependencies.targets := by
  have ran : commandRun "$<TARGET_FILE:$<1:tool>>" = some
      { commands := [[sv "sh", sv "$<TARGET_FILE:$<1:tool>>"]], owner := none, imported := [false]
        dependencies := [], reads := [[], [0]], artifacts := [[], []] } := by decide +kernel
  obtain ⟨model, step, view, frozen, known, viewed, same⟩ := commandRun_eq_some ran
  refine ⟨model, step, view, frozen, known, viewed, fun depends => ?_⟩
  have commands : step.commands = [[sv "sh", sv "$<TARGET_FILE:$<1:tool>>"]] :=
    (congrArg CommandRun.commands same).symm
  have owner : resolveAliasTargetId model.toModel step.ownerTargetId = none :=
    (congrArg CommandRun.owner same).symm
  have imported : model.targets.map TargetRecord.imported = [false] :=
    (congrArg CommandRun.imported same).symm
  have dependencies : view.dependencies.targets = [] :=
    (congrArg CommandRun.dependencies same).symm
  have reads := congrArg CommandRun.reads same
  have read : argumentTargets {} (sv "/w") model.toModel 0 {}
      [sv "sh", sv "$<TARGET_FILE:$<1:tool>>"] 1 = [0] :=
    (List.cons.inj (List.cons.inj reads).2).1.symm
  have isLocal : IsLocal model.toModel 0 := by
    have first : (model.targets.map TargetRecord.imported)[0]? = some false := by
      rw [imported]
      rfl
    rw [List.getElem?_map] at first
    exact map_eq_some_iff.mp first
  have depended := depends _ (commands ▸ mem_cons_self) 1 0
    (read ▸ mem_cons_self) isLocal (by rw [owner]; exact Option.some_ne_none 0)
  rw [dependencies] at depended
  exact nomatch depended

end Nobify.BuildModel
