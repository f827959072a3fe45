import Nobify.Genex.Parts
import Nobify.Genex.TreeEval

/-!
# Conditions before a value

In `$<C:V>` the text `V` counts when the condition `C` holds. `gx_eval_body` knows the form by its
condition, which is a number or holds an expression, but only behind a test for a bare nested
expression, and that test asks whether there is a value instead of whether there is a colon. With an
empty value the form is taken for a nested expression, or for an operator that does not exist.
-/

namespace Nobify.Genex

variable {condition found : StringView}
  {inner : Context → PropertyStack → StringView → Evaluated StringView} {ctx : Context}
  {stack : PropertyStack}

/-- What stands before the colon is a condition. -/
def IsCondition (condition : StringView) : Prop :=
  containsGenex condition = true ∨ condition = sv "0" ∨ condition = sv "1"

/-- A body is that of a conditional expression, with the text of its condition and of its value. -/
def ConditionalBody (body condition value : StringView) : Prop :=
  (∃ before, topLevelColonGo false 0 [] body = some (before, value) ∧ condition = svTrim before) ∧
    IsCondition condition

/-- The form of a nested expression: an opening in front and a bracket at the end. -/
def NestedForm (text : StringView) : Prop :=
  3 ≤ text.length ∧ (sv "$<").isPrefixOf text = true ∧ text.getLast? = some '>'

instance (text : StringView) : Decidable (NestedForm text) :=
  inferInstanceAs (Decidable (_ ∧ _ ∧ _))

/-- The result is that of the value under a condition that holds, and nothing otherwise. -/
def Selects (holds : Bool) (result value : Evaluated StringView) : Prop :=
  (holds = true → result = value) ∧ (holds = false → result = .ok [])

/-- An opening leaves a bracket in a text. -/
theorem bracket_of_containsGenexGo {escaped : Bool} {text : StringView}
    (contains : containsGenexGo escaped text = true) : '<' ∈ text :=
  (opening_of_containsGenexGo contains).subset (List.mem_cons_of_mem '$' List.mem_cons_self)

/-- A condition is the name of no operator. -/
theorem IsCondition.findOperator (conditions : IsCondition condition) :
    findOperator condition = none := by
  rcases conditions with contains | rfl | rfl
  · exact findOperator_bracket (bracket_of_containsGenexGo contains)
  · exact @findOperator_of_mem _ '0' (by decide) (by decide)
  · exact @findOperator_of_mem _ '1' (by decide) (by decide)

/-- The body of a conditional expression is evaluated by its condition. -/
theorem ConditionalBody.evalBody {body value : StringView}
    (form : ConditionalBody body condition value) :
    evalBody inner ctx stack body = evalUnnamed inner ctx stack condition value := by
  obtain ⟨⟨before, colon, rfl⟩, conditions⟩ := form
  have split : splitOperator body = (svTrim before, value) := by
    rw [splitOperator, colon]
  rw [Genex.evalBody, split]
  dsimp only
  rw [conditions.findOperator]

/-- A value that is not empty is evaluated when the condition holds. -/
theorem evalUnnamed_filled {value : StringView} (conditions : IsCondition condition)
    (filled : value ≠ []) (evaluated : inner ctx stack condition = .ok found) :
    Selects (!cmakeStringIsFalse found) (evalUnnamed inner ctx stack condition value)
      (inner ctx stack value) := by
  unfold evalUnnamed
  rw [if_neg (fun nested => filled nested.1), if_pos ⟨filled, conditions⟩, evaluated]
  cases holds : cmakeStringIsFalse found with
  | true => exact ⟨fun none => (by cases none), fun _ => if_pos holds⟩
  | false => exact ⟨fun _ => if_neg (by rw [holds]; decide), fun none => (by cases none)⟩

/-- With no value a nested expression is evaluated to its own value. -/
theorem evalUnnamed_empty (evaluated : inner ctx stack condition = .ok found) :
    evalUnnamed inner ctx stack condition [] =
      if NestedForm condition then .ok found
      else .error ⟨.unsupported, "Unsupported generator expression operator"⟩ := by
  unfold evalUnnamed
  by_cases nested : NestedForm condition
  · rw [if_pos ⟨rfl, nested⟩, if_pos nested, evaluated]
  · rw [if_neg (fun form => nested form.2), if_neg nested, if_neg (fun form => form.1 rfl)]

/-- Nothing evaluates to nothing wherever another text can be evaluated. -/
theorem evalInner_nil {room : Nat} {text : StringView}
    (evaluated : evalInner room ctx stack text = .ok found) :
    evalInner room ctx stack [] = .ok [] := by
  cases room with
  | zero => cases evaluated
  | succ room => rfl

/-- A conditional expression evaluates to its value under its condition, unless the value is empty:
then only a nested expression that evaluates to nothing does. -/
theorem evalBody_condition_iff {room : Nat} {ctx : Context} {stack : PropertyStack}
    {body condition value found : StringView} (form : ConditionalBody body condition value)
    (evaluated : evalInner room ctx stack condition = .ok found) :
    Selects (!cmakeStringIsFalse found) (evalBody (evalInner room) ctx stack body)
        (evalInner room ctx stack value) ↔
      value ≠ [] ∨ NestedForm condition ∧ found = [] := by
  rw [form.evalBody]
  by_cases empty : value = []
  · subst empty
    rw [evalUnnamed_empty evaluated, evalInner_nil evaluated]
    by_cases nested : NestedForm condition
    · rw [if_pos nested]
      constructor
      · intro selects
        refine .inr ⟨nested, ?_⟩
        cases holds : cmakeStringIsFalse found with
        | true =>
          rw [holds] at selects
          exact Except.ok.inj (selects.2 rfl)
        | false =>
          rw [holds] at selects
          exact Except.ok.inj (selects.1 rfl)
      · rintro (filled | ⟨_, rfl⟩)
        · exact absurd rfl filled
        · exact ⟨fun _ => rfl, fun _ => rfl⟩
    · rw [if_neg nested]
      constructor
      · intro selects
        cases holds : cmakeStringIsFalse found with
        | true =>
          rw [holds] at selects
          cases selects.2 rfl
        | false =>
          rw [holds] at selects
          cases selects.1 rfl
      · rintro (filled | ⟨nested', _⟩)
        · exact absurd rfl filled
        · exact absurd nested' nested
  · exact ⟨fun _ => .inl empty, fun _ => evalUnnamed_filled form.2 empty evaluated⟩

/-- A condition that holds before a text. -/
theorem evalBody_condition_iff_one :
    Selects (!cmakeStringIsFalse (sv "1")) (evalBody (evalInner 1) {} [] (sv "1:a"))
      (evalInner 1 {} [] (sv "a")) :=
  (@evalBody_condition_iff 1 {} [] (sv "1:a") (sv "1") (sv "a") (sv "1")
    ⟨⟨sv "1", by decide, by decide⟩, .inr (.inr rfl)⟩ rfl).mpr (.inl (by decide))

/-- A condition that holds before nothing is no operator. -/
theorem evalBody_emptyValue : ¬∀ (room : Nat) (ctx : Context) (stack : PropertyStack)
      (body condition value found : StringView), ConditionalBody body condition value →
      evalInner room ctx stack condition = .ok found →
      Selects (!cmakeStringIsFalse found) (evalBody (evalInner room) ctx stack body)
        (evalInner room ctx stack value) := by
  intro all
  have selects := all 1 {} [] (sv "1:") (sv "1") [] (sv "1") ⟨⟨sv "1", by decide, by decide⟩,
    .inr (.inr rfl)⟩ rfl
  have result := selects.1 (by decide)
  exact absurd result (by decide)

end Nobify.Genex
