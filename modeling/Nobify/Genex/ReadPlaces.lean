import Nobify.Genex.FileReads
import Nobify.Genex.Parts
import Nobify.Genex.TreeEval

/-!
# Where files are read

An operator evaluates parts of its body, except for two: `GENEX_EVAL` evaluates a value again, and
`TARGET_PROPERTY` the value of a property. Without these a file is read through an expression that
stands in the text, and its name stands there too unless it is computed in turn.
-/

namespace Nobify.Genex

open BuildModel (splitTopLevel)
open List

/-! ## Calls -/

section Places

variable {inner : Context → PropertyStack → StringView → Evaluated StringView} {ctx : Context}
  {stack : PropertyStack} {call : Call}

theorem mem_callsAfter {result : Evaluated StringView} {calls : StringView → List Call} :
    call ∈ callsAfter result calls ↔ ∃ value, result = .ok value ∧ call ∈ calls value := by
  cases result with
  | error failure => simp [callsAfter]
  | ok value => simp [callsAfter]

theorem mem_argFastCalls {arg : StringView} (called : call ∈ argFastCalls ctx stack arg) :
    call.text = svTrim arg := by
  unfold argFastCalls at called
  split at called
  · rw [mem_singleton.mp called]
    rfl
  · exact nomatch called

theorem mem_activeCalls {active : Bool} {args : StringView}
    (called : call ∈ activeCalls ctx stack active args) : call.text = args := by
  unfold activeCalls at called
  split at called
  · rw [mem_singleton.mp called]
    rfl
  · exact nomatch called

/-- An operator that evaluates no value again evaluates parts of its arguments. -/
theorem infix_of_mem_operatorCalls {args : StringView} {operator : Operator}
    (noEval : operator ≠ .genexEval) (noProperty : operator ≠ .targetProperty)
    (called : call ∈ operatorCalls inner ctx stack args operator) : call.text <:+: args := by
  have part : ∀ {arg : StringView}, arg ∈ splitTopLevel ',' args → arg <:+: args :=
    fun split => infix_of_mem_splitTopLevel split
  have matched : ∀ (needle : StringView),
      call ∈ matchesAnyCalls inner ctx stack needle (splitTopLevel ',' args) →
      call.text <:+: args := by
    intro needle called
    obtain ⟨arg, reached, calls⟩ := mem_flatMap.mp called
    rw [mem_argFastCalls calls]
    exact (infix_svTrim arg).trans (part (mem_of_mem_reachedItems reached))
  have matchedUnless : ∀ (needle : StringView) (skip : Prop) [Decidable skip],
      call ∈ (if skip then [] else
        matchesAnyCalls inner ctx stack needle (splitTopLevel ',' args)) →
      call.text <:+: args := by
    intro needle skip _ called
    split at called
    · exact nomatch called
    · exact matched needle called
  have active : ∀ {active : Bool}, call ∈ activeCalls ctx stack active args →
      call.text <:+: args := by
    intro active called
    rw [mem_activeCalls called]
  have logical : ∀ {wantAnd : Bool},
      call ∈ logicalCalls inner ctx stack wantAnd (splitTopLevel ',' args) →
      call.text <:+: args := by
    intro wantAnd called
    obtain ⟨arg, reached, rfl⟩ := mem_map.mp called
    exact part (mem_of_mem_reachedItems reached)
  have whole : call ∈ [callHere ctx stack args] → call.text <:+: args := by
    intro called
    rw [mem_singleton.mp called]
    exact List.infix_rfl
  cases operator with
  | config => exact matchedUnless _ _ called
  | platformId => exact matchedUnless _ _ called
  | compileLanguage => exact matchedUnless _ _ called
  | buildInterface => exact active called
  | buildLocalInterface => exact active called
  | installInterface => exact active called
  | installPrefix => exact nomatch called
  | linkOnly => exact active called
  | targetFile => exact active called
  | targetFileDir => exact active called
  | targetFileName => exact active called
  | targetLinkerFile => exact active called
  | targetLinkerFileDir => exact active called
  | targetLinkerFileName => exact active called
  | bool => exact whole called
  | not => exact whole called
  | and => exact logical called
  | or => exact logical called
  | strequal =>
    have parts : ∀ arg ∈ splitTopLevel ',' args, arg <:+: args := fun _ split => part split
    unfold operatorCalls strequalCalls at called
    dsimp only at called
    split at called
    · next lhs rhs split =>
      rw [split] at parts
      rcases mem_cons.mp called with rfl | later
      · exact parts lhs (by simp)
      · obtain ⟨-, -, second⟩ := (mem_callsAfter).mp later
        rw [mem_singleton.mp second]
        exact parts rhs (by simp)
    · exact nomatch called
  | ifThenElse =>
    have parts : ∀ arg ∈ splitTopLevel ',' args, arg <:+: args := fun _ split => part split
    unfold operatorCalls ifCalls at called
    dsimp only at called
    split at called
    · next condition yes no split =>
      rw [split] at parts
      rcases mem_cons.mp called with rfl | later
      · exact parts condition (by simp)
      · obtain ⟨value, -, second⟩ := (mem_callsAfter).mp later
        rw [mem_singleton.mp second]
        show (if _ then _ else _) <:+: args
        split
        · exact parts no (by simp)
        · exact parts yes (by simp)
    · exact nomatch called
  | genexEval => exact absurd rfl noEval
  | targetGenexEval =>
    have parts : ∀ arg ∈ splitTopLevel ',' args, arg <:+: args := fun _ split => part split
    unfold operatorCalls targetGenexEvalCalls at called
    dsimp only at called
    split at called
    · next target value split =>
      rw [split] at parts
      rcases mem_cons.mp called with rfl | later
      · exact parts target (by simp)
      · obtain ⟨name, -, second⟩ := (mem_callsAfter).mp later
        split at second
        · exact nomatch second
        · rw [mem_singleton.mp second]
          exact parts value (by simp)
    · exact nomatch called
  | targetProperty => exact absurd rfl noProperty
  | linkLibrary => exact nomatch called
  | linkGroup => exact nomatch called

theorem mem_unnamedCalls {op args : StringView} (called : call ∈ unnamedCalls inner ctx stack op args) :
    call.text = op ∨ call.text = args := by
  unfold unnamedCalls at called
  split at called
  · rw [mem_singleton.mp called]
    exact .inl rfl
  · split at called
    · rcases mem_cons.mp called with rfl | later
      · exact .inl rfl
      · obtain ⟨value, -, second⟩ := (mem_callsAfter).mp later
        split at second
        · exact nomatch second
        · rw [mem_singleton.mp second]
          exact .inr rfl
    · exact nomatch called

/-- A body whose operator evaluates no value again evaluates parts of itself. -/
theorem infix_of_mem_bodyCalls {body : StringView}
    (noEval : findOperator (splitOperator body).1 ≠ some .genexEval)
    (noProperty : findOperator (splitOperator body).1 ≠ some .targetProperty)
    (called : call ∈ bodyCalls inner ctx stack body) : call.text <:+: body := by
  obtain ⟨opInside, argsInside⟩ := splitOperator_parts body
  unfold bodyCalls at called
  dsimp only at called
  split at called
  · next operator named =>
    rw [named] at noEval noProperty
    have inside := infix_of_mem_operatorCalls (fun same => noEval (congrArg some same))
      (fun same => noProperty (congrArg some same)) called
    exact inside.trans argsInside
  · rcases mem_unnamedCalls called with same | same
    · rw [same]
      exact opInside
    · rw [same]
      exact argsInside

/-- What the operator of a body reads: the file of the target that its argument evaluates to. -/
theorem mem_bodyReads {body : StringView} {read : FileRead}
    (listed : read ∈ bodyReads inner ctx stack body) :
    read.body = body ∧ read.name ≠ [] ∧
      (findOperator (splitOperator body).1).bind Operator.linkerFile? = some read.linkerFile ∧
      ∃ name, inner ctx stack (splitOperator body).2 = .ok name ∧ svTrim name = read.name := by
  unfold bodyReads at listed
  dsimp only at listed
  cases reads : (findOperator (splitOperator body).1).bind Operator.linkerFile? with
  | none =>
    rw [reads] at listed
    exact nomatch listed
  | some linkerFile =>
    rw [reads, Option.elim_some, targetFileReads] at listed
    by_cases configured : (if linkerFile then readLinkerFile ctx else ctx.readTargetFile).isSome
    · rw [if_pos configured] at listed
      cases answered : inner ctx stack (splitOperator body).2 with
      | error failure =>
        rw [answered] at listed
        exact nomatch listed
      | ok name =>
        rw [answered] at listed
        dsimp only at listed
        split at listed
        · exact nomatch listed
        · next filled =>
          rw [mem_singleton.mp listed]
          exact ⟨rfl, filled, rfl, name, rfl, rfl⟩
    · rw [if_neg configured] at listed
      exact nomatch listed

end Places

/-- No expression of a text evaluates a value again. -/
def EvaluatesOnce (raw : StringView) : Prop :=
  ∀ body, '$' :: '<' :: (body ++ ['>']) <:+: raw →
    findOperator (splitOperator body).1 ≠ some .genexEval ∧
      findOperator (splitOperator body).1 ≠ some .targetProperty

/-- A file is read through an expression of the text: one whose name stands there, unless it is
itself computed by an expression. -/
structure FileRead.StandsIn (read : FileRead) (raw : StringView) : Prop where
  expression : '$' :: '<' :: (read.body ++ ['>']) <:+: raw
  closes : ∃ rest, ClosesAt read.body rest
  operator : (findOperator (splitOperator read.body).1).bind Operator.linkerFile? =
    some read.linkerFile
  filled : read.name ≠ []
  literal : containsGenex (splitOperator read.body).2 = false →
    svTrim (splitOperator read.body).2 = read.name

/-- The value of a text without expressions. -/
theorem eq_of_evalInner_plain {room : Nat} {ctx : Context} {stack : PropertyStack}
    {text value : StringView} (plain : containsGenex text = false)
    (answered : evalInner room ctx stack text = .ok value) : value = text := by
  cases room with
  | zero => cases answered
  | succ room =>
    rw [evalInner_plain room ctx stack plain] at answered
    exact (Except.ok.inj answered).symm

/-- The files that the parts of a text read are read through expressions of the text. -/
theorem standsIn_of_mem_fileReads {raw : StringView} (once : EvaluatesOnce raw) {room : Nat}
    {ctx : Context} {stack : PropertyStack} {input : StringView} (inside : input <:+: raw)
    {read : FileRead} (listed : read ∈ fileReads room ctx stack input) : read.StandsIn raw := by
  induction room generalizing ctx stack input with
  | zero => exact nomatch listed
  | succ room ih =>
    rw [fileReads] at listed
    split at listed
    · obtain ⟨body, comes, listed⟩ := mem_flatMap.mp listed
      obtain ⟨segment, reached, same⟩ := mem_filterMap.mp comes
      have segmentIsBody : segment = .expression body := by
        cases segment with
        | text value => cases same
        | unclosed rest => cases same
        | expression other => rw [Option.some.inj same]
      rw [segmentIsBody] at reached
      obtain ⟨before, rest, whole, closes⟩ :=
        mem_segmentsGo_expression (mem_of_mem_reachedItems reached)
      have expression : '$' :: '<' :: (body ++ ['>']) <:+: raw := by
        refine List.IsInfix.trans ⟨before, rest, ?_⟩ inside
        rw [whole]
        simp
      rcases mem_append.mp listed with own | nested
      · obtain ⟨rfl, filled, operator, name, answered, trimmed⟩ := mem_bodyReads own
        refine ⟨expression, ⟨rest, closes⟩, operator, filled, fun literal => ?_⟩
        rw [← trimmed, eq_of_evalInner_plain literal answered]
      · obtain ⟨call, called, listed⟩ := mem_flatMap.mp nested
        obtain ⟨noEval, noProperty⟩ := once body expression
        have part : body <:+: '$' :: '<' :: (body ++ ['>']) := ⟨['$', '<'], ['>'], by simp⟩
        exact ih ((infix_of_mem_bodyCalls noEval noProperty called).trans (part.trans expression))
          listed
    · exact nomatch listed

/-- A text that neither opens nor closes an expression, and escapes nothing. -/
theorem neutral_of_clear {plain : StringView}
    (clear : ∀ char ∈ plain, char ≠ '$' ∧ char ≠ '\\' ∧ char ≠ '>') : Neutral true plain := by
  induction plain with
  | nil => exact .nil
  | cons char rest ih =>
    obtain ⟨noDollar, noBackslash, noBracket⟩ := clear char mem_cons_self
    exact .char ⟨noBackslash, noBracket⟩ nofun (noOpening_of_ne noDollar rest)
      (ih fun other listed => clear other (mem_cons_of_mem char listed))

/-- In a body that is closed, the first bracket does not stand behind a plain text. -/
theorem not_closesAt_bracket {plain more rest : StringView}
    (clear : ∀ char ∈ plain, char ≠ '$' ∧ char ≠ '\\' ∧ char ≠ '>') :
    ¬ ClosesAt (plain ++ '>' :: more) rest := by
  intro closes
  have neutral := neutral_of_clear clear
  have apart : ('>' :: (more ++ '>' :: rest)).head? ≠ some '<' := by
    rw [List.head?_cons]
    decide
  have read := (segmentsGo_passes ((plain ++ '>' :: more) ++ '>' :: rest)).neutral neutral
    (fun _ => Nat.one_pos) (le_refl 1) [] apart
  rw [segmentsGo_char (noOpening_bracket _), if_pos ⟨rfl, rfl, Nat.one_pos⟩, if_pos rfl] at read
  rw [ClosesAt, append_assoc, cons_append] at closes
  rw [append_assoc, cons_append] at read
  have bodies := congrArg List.head? (read.symm.trans closes)
  rw [List.head?_cons, List.head?_cons] at bodies
  have same : plain = plain ++ '>' :: more := Segment.expression.inj (Option.some.inj bodies)
  have lengths := congrArg List.length same
  rw [length_append, length_cons] at lengths
  omega

end Nobify.Genex
