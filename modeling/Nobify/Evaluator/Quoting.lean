import Nobify.Evaluator.Formula

/-!
# Quoted operands of conditions

The arguments of a condition know whether they were quoted, but `eval_resolve_args` hands plain
texts to the parser of conditions. A quoted operand is therefore read like any other: at the start
of a test it may be taken for a word, and it is looked up as a variable. Which texts stay what they
are is settled here, for any set of quoted texts.
-/

namespace Nobify.Evaluator

open Prog
open Option

variable {left right text : StringView}

/-! ## What quoting is for -/

/-- An operand of a condition, with whether it was quoted. -/
structure Operand where
  quoted : Bool
  text : StringView

namespace Operand

/-- The truth of an operand when a quoted one is no more than its text. -/
def truth (state : EvalState) (operand : Operand) : Bool :=
  if operand.quoted then (truthyConstantOnly operand.text).getD true
  else evalTruthy state operand.text

/-- The text that an operand stands for when a quoted one stands for itself. -/
def lookup (state : EvalState) (operand : Operand) : StringView :=
  if operand.quoted then operand.text else svLookupIfVar state operand.text

/-- A quoted operand has one of the texts. -/
def QuotedIn (texts : StringView → Prop) (operand : Operand) : Prop :=
  operand.quoted = true → texts operand.text

/-- A quoted operand has one of the texts, and any other is no word of the parser. -/
def WrittenIn (texts : StringView → Prop) (operand : Operand) : Prop :=
  operand.QuotedIn texts ∧ (operand.quoted = false → Formula.isOperatorWord operand.text = false)

end Operand

/-- What the parser of conditions sees of a formula: the texts. -/
def Formula.flatten (formula : Formula Operand) : Formula StringView := formula.map Operand.text

/-- The meaning of a formula in which quoted operands are plain texts. -/
def Formula.plainDenote (host : Host) (formula : Formula Operand) : Prog Bool :=
  formula.denoteWith host Operand.truth Operand.text Operand.lookup

/-- A single test of a condition. -/
def Formula.IsTest {ω : Type} : Formula ω → Prop
  | .operand _ | .test _ _ | .compare _ _ _ => True
  | _ => False

/-- What a name is bound to, as a parameter of a macro or as a visible variable. -/
def boundValue (state : EvalState) (name : StringView) : Option StringView :=
  (macroBindGet state name).or
    (if state.varDefinedVisible name then some (state.varGetVisible name) else none)

/-- The name of no binding, or of one to the same text that is a constant. -/
def StandsForItself (state : EvalState) (text : StringView) : Prop :=
  text = [] ∨ ∀ value, boundValue state text = some value →
    value = text ∧ (truthyConstantOnly text).isSome = true

/-! ## Looking up -/

/-- The lookup of a name goes through its binding. -/
theorem svLookupIfVar_eq (state : EvalState) (some : text ≠ []) :
    svLookupIfVar state text = (boundValue state text).getD text := by
  unfold svLookupIfVar boundValue
  rw [if_neg some]
  cases macroBindGet state text with
  | some value => rfl
  | none =>
    show (if state.varDefinedVisible text = true then _ else _) = _
    by_cases defined : state.varDefinedVisible text = true
    · rw [if_pos defined, if_pos defined]
      rfl
    · rw [if_neg defined, if_neg defined]
      rfl

/-- The truth of a text that is no constant goes through its binding. -/
theorem evalTruthy_eq (state : EvalState) (unknown : truthyConstantOnly text = none) :
    evalTruthy state text =
      ((boundValue state text).map fun value => (truthyConstantOnly value).getD false).getD true := by
  unfold evalTruthy boundValue
  rw [unknown]
  cases macroBindGet state text with
  | some value => rfl
  | none =>
    show (if state.varDefinedVisible text = true then _ else _) = _
    by_cases defined : state.varDefinedVisible text = true
    · rw [if_pos defined, if_pos defined]
      rfl
    · rw [if_neg defined, if_neg defined]
      rfl

/-- A text stands for itself when neither its lookup nor its truth sees a binding. -/
theorem standsForItself_iff (state : EvalState) (text : StringView) : StandsForItself state text ↔
      svLookupIfVar state text = text ∧
        evalTruthy state text = (truthyConstantOnly text).getD true := by
  by_cases empty : text = []
  · subst empty
    exact ⟨fun _ => ⟨rfl, rfl⟩, fun _ => .inl rfl⟩
  rw [svLookupIfVar_eq state empty]
  cases known : truthyConstantOnly text with
  | some holds =>
    have constant : evalTruthy state text = holds := by
      unfold evalTruthy
      rw [known]
    constructor
    · rintro (isEmpty | itself)
      · exact absurd isEmpty empty
      · refine ⟨?_, constant⟩
        cases bound : boundValue state text with
        | none => rfl
        | some value => exact (itself value bound).1
    · rintro ⟨same, _⟩
      refine .inr ?_
      intro value bound
      rw [bound] at same
      exact ⟨same, by rw [known]; rfl⟩
  | none =>
    rw [evalTruthy_eq state known]
    constructor
    · rintro (isEmpty | itself)
      · exact absurd isEmpty empty
      · cases bound : boundValue state text with
        | none => exact ⟨rfl, rfl⟩
        | some value =>
          have constant := (itself value bound).2
          rw [known] at constant
          exact Bool.noConfusion constant
    · rintro ⟨same, truth⟩
      refine .inr ?_
      intro value bound
      rw [bound] at same truth
      have isText : value = text := same
      rw [isText] at truth
      have isFalse : (truthyConstantOnly text).getD false = true := truth
      rw [known] at isFalse
      exact Bool.noConfusion isFalse

/-! ## Words at the start of a test -/

variable (same : svEqCi left right = true)

include same

/-- Comparing with a word only depends on the letters. -/
theorem svEqCi_congr (other : StringView) : svEqCi left other = svEqCi right other := by
  have letters : left.map Char.toUpper = right.map Char.toUpper := eq_of_beq same
  unfold svEqCi
  rw [letters]

theorem findUnary_congr : findUnary left = findUnary right := by
  unfold findUnary
  simp only [svEqCi_congr same]

theorem findComparison_congr : findComparison left = findComparison right := by
  unfold findComparison
  simp only [svEqCi_congr same]

omit same

/-- A token of which `parse_cmp` reads no more than itself, and what it takes for granted of a word
at which it turns: it is neither a comparison nor a word that continues a test. -/
theorem head_facts {token : StringView} (head : isCmpHead token = true) :
    findComparison token = none ∧ svEqCi token (sv ")") = false ∧
      svEqCi token (sv "AND") = false ∧ svEqCi token (sv "OR") = false ∧
      (svEqCi token (sv "NOT") = true ∨ (findUnary token).isSome = true ∨
        svEqCi token (sv "(") = true) := by
  have each : ∀ word ∈ cmpHeadWords, findComparison (sv word) = none ∧
      svEqCi (sv word) (sv ")") = false ∧ svEqCi (sv word) (sv "AND") = false ∧
      svEqCi (sv word) (sv "OR") = false ∧
      (svEqCi (sv word) (sv "NOT") = true ∨ (findUnary (sv word)).isSome = true ∨
        svEqCi (sv word) (sv "(") = true) := by decide +kernel
  obtain ⟨word, mem, same⟩ := List.any_eq_true.mp head
  rw [findComparison_congr same, findUnary_congr same, svEqCi_congr same, svEqCi_congr same,
    svEqCi_congr same, svEqCi_congr same, svEqCi_congr same]
  exact each word mem

/-- The tokens of `text STREQUAL text`. -/
def sameTextTokens (text : StringView) : List StringView := [text, sv "STREQUAL", text]

/-- A test that starts with the word of a test is read as that test. -/
theorem parseCmp_sameText (host : Host) (head : isCmpHead text = true) (fuel : Nat) :
    (parseCmp host (fuel + 2) (sameTextTokens text)).Gives fun parsed => parsed.2 = [text] := by
  obtain ⟨noComparison, noCloser, noAnd, noOr, kind⟩ := head_facts head
  have inner : ∀ fuel, parseCmp host (fuel + 1) [sv "STREQUAL", text] = (do
        let ctx ← context
        pure (evalTruthy ctx.state (sv "STREQUAL"), [text])) := by
    intro fuel
    show parseCmpWith host _ _ [sv "STREQUAL", text] = _
    unfold parseCmpWith
    dsimp only
    rw [if_neg (by decide), noComparison]
  have stops : ∀ (word : String) (combine : Bool → Bool → Bool)
      (operand : List StringView → Prog Parsed) (fuel : Nat) (value : Bool),
      svEqCi text (sv word) = false →
      parseChain word combine operand fuel (value, [text]) = pure (value, [text]) := by
    intro word combine operand fuel value other
    apply Formula.parseChain_stop
    intro token here
    cases here
    exact other
  show (parseCmpWith host _ _ (sameTextTokens text)).Gives _
  unfold parseCmpWith sameTextTokens
  dsimp only
  rw [if_pos head]
  unfold parseUnary
  dsimp only
  by_cases isNot : svEqCi text (sv "NOT") = true
  · rw [if_pos isNot, inner]
    exact fun ctx => rfl
  rw [if_neg isNot]
  cases found : findUnary text with
  | some unary => exact fun ctx => rfl
  | none =>
    rw [found] at kind
    have isParen : svEqCi text (sv "(") = true := by
      rcases kind with isWord | isTest | isParen
      · exact absurd isWord isNot
      · exact Bool.noConfusion isTest
      · exact isParen
    unfold parsePrimary
    dsimp only
    rw [if_pos isParen]
    have expr : parseExprWith (parseAnd (parseCmp host (fuel + 1)) (fuel + 1)) (fuel + 1)
        [sv "STREQUAL", text] = (do
          let ctx ← context
          pure (evalTruthy ctx.state (sv "STREQUAL"), [text])) := by
      unfold parseExprWith parseAnd
      rw [inner]
      show (Prog.read fun ctx => _) = Prog.read fun ctx => _
      congr 1
      funext ctx
      show (parseChain "AND" Bool.and (parseCmp host (fuel + 1)) (fuel + 1) (_, [text])) >>= _ = _
      rw [stops "AND" _ _ _ _ noAnd]
      exact stops "OR" _ _ _ _ noOr
    rw [expr]
    intro ctx
    show (closeParen (evalTruthy ctx.state (sv "STREQUAL"), [text])).Gives _
    unfold closeParen
    dsimp only
    rw [if_neg (by rw [noCloser]; exact Bool.false_ne_true)]
    exact (Gives.all _).bind fun _ _ => rfl

/-- A condition that compares such a text with itself is taken for another one, with a token left
over. -/
theorem evalTokens_sameText (host : Host) (head : isCmpHead text = true) :
    (evalTokens host (sameTextTokens text)).Gives fun value => value = false := by
  obtain ⟨_, _, noAnd, noOr, _⟩ := head_facts head
  have chainStops : ∀ (word : String) (combine : Bool → Bool → Bool)
      (operand : List StringView → Prog Parsed) (fuel : Nat) (parsed : Parsed),
      parsed.2 = [text] → svEqCi text (sv word) = false →
      (parseChain word combine operand fuel parsed).Gives fun last => last.2 = [text] := by
    intro word combine operand fuel parsed left other
    obtain ⟨value, rest⟩ := parsed
    cases left
    rw [Formula.parseChain_stop (by intro token here; cases here; exact other)]
    rfl
  have expr : (parseExpr host 4 (sameTextTokens text)).Gives fun parsed => parsed.2 = [text] := by
    apply @Gives.bind _ _ _ _ (fun parsed : Parsed => parsed.2 = [text])
    · apply (parseCmp_sameText host head 2).bind
      intro parsed left
      exact chainStops _ _ _ _ parsed left noAnd
    · intro parsed left
      exact chainStops _ _ _ _ parsed left noOr
  apply expr.bind
  intro parsed left
  show (if parsed.2 ≠ [] then _ else _ : Prog Bool).Gives _
  rw [if_pos (by rw [left]; exact List.cons_ne_nil _ _)]
  exact (Gives.all _).bind fun _ _ => rfl

/-! ## Which texts stay what they are -/

/-- The operands at the start of a test are plain when the quoted texts are. -/
theorem headsPlain_flatten {texts : StringView → Prop} {formula : Formula Operand}
    (plain : ∀ text, texts text → isCmpHead text = false)
    (written : formula.AllOperands (Operand.WrittenIn texts)) : formula.flatten.HeadsPlain := by
  have each : ∀ operand : Operand, operand.WrittenIn texts → isCmpHead operand.text = false := by
    intro operand written
    cases quoted : operand.quoted with
    | true => exact plain _ (written.1 quoted)
    | false => exact Formula.isCmpHead_of_not_word (written.2 quoted)
  induction formula with
  | operand value => exact each value written
  | test kind name => trivial
  | compare kind lhs rhs => exact each lhs written.1
  | negation body ih => exact ih written
  | conjunction left right ihLeft ihRight | disjunction left right ihLeft ihRight =>
    exact ⟨ihLeft written.1, ihRight written.2⟩
  | group body ih => exact ih written

section Tests

variable (host : Host) (ctx : EvalExecContext)
  (dispatch : Nat → Nat → StringView → List Arg → EvalExecContext → Option (Run EvalResult))

theorem exec_operand (operand : Operand) :
    ((Formula.operand operand).flatten.denote host).exec dispatch ctx =
      some ⟨evalTruthy ctx.state operand.text, ctx, []⟩ := rfl

theorem exec_plainOperand (operand : Operand) :
    ((Formula.operand operand).plainDenote host).exec dispatch ctx =
      some ⟨operand.truth ctx.state, ctx, []⟩ := rfl

theorem exec_compare (kind : Comparison) (lhs rhs : Operand) :
    ((Formula.compare kind lhs rhs).flatten.denote host).exec dispatch ctx =
      (kind.run host (svLookupIfVar ctx.state lhs.text) (svLookupIfVar ctx.state rhs.text)).exec
        dispatch ctx := rfl

theorem exec_plainCompare (kind : Comparison) (lhs rhs : Operand) :
    ((Formula.compare kind lhs rhs).plainDenote host).exec dispatch ctx =
      (kind.run host (lhs.lookup ctx.state) (rhs.lookup ctx.state)).exec dispatch ctx := rfl

end Tests

/-- A condition with quoted operands of these texts is grouped as it is written, and in this state
every test of it treats them as plain strings, exactly when no text is a word at which `parse_cmp`
turns, and each stands for itself. -/
theorem quotedOperands_plain_iff (host : Host) (ctx : EvalExecContext) (texts : StringView → Prop) :
    ((∀ formula : Formula Operand, formula.AllOperands (Operand.WrittenIn texts) →
        evalTokens host formula.flatten.render = formula.flatten.denote host) ∧
      ∀ test : Formula Operand, test.IsTest → test.AllOperands (Operand.QuotedIn texts) →
        ∀ dispatch, (test.flatten.denote host).exec dispatch ctx =
          (test.plainDenote host).exec dispatch ctx) ↔
      ∀ text, texts text → isCmpHead text = false ∧ StandsForItself ctx.state text := by
  constructor
  · rintro ⟨grouped, tested⟩ text mem
    constructor
    · apply Bool.eq_false_iff.mpr
      intro head
      -- compared with itself the text would have to be equal
      have written : (Formula.compare .strequal ⟨true, text⟩ ⟨true, text⟩).AllOperands
          (Operand.WrittenIn texts) :=
        ⟨⟨fun _ => mem, fun quoted => Bool.noConfusion quoted⟩,
          ⟨fun _ => mem, fun quoted => Bool.noConfusion quoted⟩⟩
      have tokens : (Formula.compare .strequal (Operand.mk true text)
          ⟨true, text⟩).flatten.render = sameTextTokens text := rfl
      have meaning : (Formula.compare .strequal (Operand.mk true text)
          ⟨true, text⟩).flatten.denote host = (context >>= fun ctx =>
            pure (svLookupIfVar ctx.state text == svLookupIfVar ctx.state text)) := rfl
      have same := grouped _ written
      rw [tokens, meaning] at same
      have isFalse := evalTokens_sameText host head
      rw [same] at isFalse
      have refuted : (svLookupIfVar ctx.state text == svLookupIfVar ctx.state text) = false :=
        isFalse ctx
      rw [beq_self_eq_true] at refuted
      exact Bool.noConfusion refuted
    · rw [standsForItself_iff]
      constructor
      · -- compared with the variable of its name the text would have to differ from another value
        have ran := tested (.compare .strequal ⟨true, text⟩ ⟨false, text⟩) trivial
          ⟨fun _ => mem, fun quoted => Bool.noConfusion quoted⟩ noCommands
        rw [exec_compare, exec_plainCompare] at ran
        have values := congrArg (Option.map Run.value) ran
        have same : some (svLookupIfVar ctx.state text == svLookupIfVar ctx.state text) =
            some (text == svLookupIfVar ctx.state text) := values
        rw [some.injEq, beq_self_eq_true] at same
        exact (eq_of_beq same.symm).symm
      · have ran := tested (.operand ⟨true, text⟩) trivial (fun _ => mem) noCommands
        rw [exec_operand, exec_plainOperand, some.injEq, Run.mk.injEq] at ran
        exact ran.1
  · intro plain
    constructor
    · intro formula written
      exact evalTokens_render host (headsPlain_flatten (fun text mem => (plain text mem).1) written)
    · intro test isTest quoted dispatch
      have looked : ∀ operand : Operand, operand.QuotedIn texts →
          svLookupIfVar ctx.state operand.text = operand.lookup ctx.state ∧
            evalTruthy ctx.state operand.text = operand.truth ctx.state := by
        intro operand inTexts
        cases operand with
        | mk isQuoted text =>
          cases isQuoted with
          | false => exact ⟨rfl, rfl⟩
          | true => exact (standsForItself_iff ctx.state text).mp (plain text (inTexts rfl)).2
      cases test with
      | operand value => rw [exec_operand, exec_plainOperand, (looked value quoted).2]
      | test kind name => rfl
      | compare kind lhs rhs =>
        rw [exec_compare, exec_plainCompare, (looked lhs quoted.1).1, (looked rhs quoted.2).1]
      | negation body | conjunction left right | disjunction left right | group body =>
        exact isTest.elim

/-! ## Texts that do not -/

/-- A quoted argument as the parser keeps it. -/
def quotedArg (text : String) : Arg := ⟨.quoted, [sv ("\"" ++ text ++ "\"")]⟩

/-- The fresh context in which a variable is set. -/
def contextWith (name value : String) : EvalExecContext :=
  { freshContext with state := freshState.setCurrent (sv name) (sv value) }

/-- `if("NOT" STREQUAL "NOT")` is no comparison and reports its syntax, and
`if("X" STREQUAL "hello")` holds once the variable `X` is `hello`. -/
theorem quotedOperands_misread :
    ((evalCondition bareHost [quotedArg "NOT", wordArg "STREQUAL", quotedArg "NOT"]).exec
        noCommands freshContext).map Run.value = some false ∧
      ((evalCondition bareHost [quotedArg "NOT", wordArg "STREQUAL", quotedArg "NOT"]).exec
        noCommands freshContext).map (fun run => run.ctx.runtime.runReport.errorCount) = some 1 ∧
      ((evalCondition bareHost [quotedArg "X", wordArg "STREQUAL", quotedArg "hello"]).exec
        noCommands (contextWith "X" "hello")).map Run.value = some true := by
  decide

end Nobify.Evaluator
