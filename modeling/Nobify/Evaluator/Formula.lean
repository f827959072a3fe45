import Nobify.Evaluator.Condition
import Nobify.Evaluator.Handlers

/-!
# The formulas of conditions

A condition is written as the tokens of a formula. Its meaning is a program that is read off the
formula alone: the operands are tested from left to right, and every one of them is. The parser of
conditions, which never sees the formula, runs the same program on the tokens, as long as no
operand is a word that the parser knows.
-/

namespace Nobify.Evaluator

open Prog
open List

/-! ## Formulas -/

/-- A formula over operands. `group` is a pair of parentheses that is written out. -/
inductive Formula (ω : Type) where
  | operand (value : ω)
  | test (kind : UnaryTest) (name : ω)
  | compare (kind : Comparison) (lhs rhs : ω)
  | negation (body : Formula ω)
  | conjunction (left right : Formula ω)
  | disjunction (left right : Formula ω)
  | group (body : Formula ω)

variable {formula : Formula StringView} {rest : List StringView} {fuel : Nat}

/-- The levels of the parser, from the tightest. -/
inductive Level where
  | cmp
  | and
  | or
  deriving DecidableEq

/-- The word of a test. -/
def UnaryTest.word : UnaryTest → StringView
  | .defined => sv "DEFINED"
  | .target => sv "TARGET"
  | .command => sv "COMMAND"
  | .policy => sv "POLICY"
  | .exists => sv "EXISTS"
  | .isDirectory => sv "IS_DIRECTORY"
  | .isSymlink => sv "IS_SYMLINK"
  | .isAbsolute => sv "IS_ABSOLUTE"
  | .isReadable => sv "IS_READABLE"
  | .isWritable => sv "IS_WRITABLE"
  | .isExecutable => sv "IS_EXECUTABLE"
  | .test => sv "TEST"

/-- The ending of a word for an order. -/
def OrderTest.word : OrderTest → StringView
  | .less => sv "LESS"
  | .greater => sv "GREATER"
  | .lessEqual => sv "LESS_EQUAL"
  | .greaterEqual => sv "GREATER_EQUAL"

/-- The word of a comparison. -/
def Comparison.word : Comparison → StringView
  | .strequal => sv "STREQUAL"
  | .equal => sv "EQUAL"
  | .versionEqual => sv "VERSION_EQUAL"
  | .number test => test.word
  | .text test => sv "STR" ++ test.word
  | .version test => sv "VERSION_" ++ test.word
  | .regex => sv "MATCHES"
  | .inList => sv "IN_LIST"
  | .pathEqual => sv "PATH_EQUAL"
  | .isNewerThan => sv "IS_NEWER_THAN"

namespace Formula

variable {ω : Type}

/-- Tokens in parentheses. -/
def parens (tokens : List StringView) : List StringView := sv "(" :: (tokens ++ [sv ")"])

/-- The tokens of a formula where the parser reads at a level. `AND` and `OR` associate to the
left, and parentheses stand only where a looser formula is written at a tighter level. -/
def renderAt (level : Level) : Formula StringView → List StringView
  | .operand value => [value]
  | .test kind name => [kind.word, name]
  | .compare kind lhs rhs => [lhs, kind.word, rhs]
  | .negation body => sv "NOT" :: body.renderAt .cmp
  | .conjunction left right =>
    let tokens := left.renderAt .and ++ sv "AND" :: right.renderAt .cmp
    if level = .cmp then parens tokens else tokens
  | .disjunction left right =>
    let tokens := left.renderAt .or ++ sv "OR" :: right.renderAt .and
    if level = .or then tokens else parens tokens
  | .group body => parens (body.renderAt .or)

/-- The tokens of a formula. -/
def render (formula : Formula StringView) : List StringView := formula.renderAt .or

/-- The formula over other operands. -/
def map {υ : Type} (function : ω → υ) : Formula ω → Formula υ
  | .operand value => .operand (function value)
  | .test kind name => .test kind (function name)
  | .compare kind lhs rhs => .compare kind (function lhs) (function rhs)
  | .negation body => .negation (body.map function)
  | .conjunction left right => .conjunction (left.map function) (right.map function)
  | .disjunction left right => .disjunction (left.map function) (right.map function)
  | .group body => .group (body.map function)

/-- The meaning of a formula over operands that are looked up and tested by these functions. -/
def denoteWith (host : Host) (truth : EvalState → ω → Bool) (name : ω → StringView)
    (lookup : EvalState → ω → StringView) : Formula ω → Prog Bool
  | .operand value => do
    let ctx ← context
    pure (truth ctx.state value)
  | .test kind subject => do
    let ctx ← context
    pure (kind.holds host ctx (name subject))
  | .compare kind lhs rhs => do
    let ctx ← context
    kind.run host (lookup ctx.state lhs) (lookup ctx.state rhs)
  | .negation body => do
    let value ← body.denoteWith host truth name lookup
    pure (!value)
  | .conjunction left right => do
    let value ← left.denoteWith host truth name lookup
    let next ← right.denoteWith host truth name lookup
    pure (value && next)
  | .disjunction left right => do
    let value ← left.denoteWith host truth name lookup
    let next ← right.denoteWith host truth name lookup
    pure (value || next)
  | .group body => body.denoteWith host truth name lookup

/-- The meaning of a formula whose operands are texts as a list file writes them. -/
def denote (host : Host) (formula : Formula StringView) : Prog Bool :=
  formula.denoteWith host evalTruthy id svLookupIfVar

/-! ## Operands that are no words -/

/-- The words that the parser compares tokens with. -/
def operatorWords : List String :=
  ["(", ")", "NOT", "AND", "OR"] ++ unaryWords.map Prod.fst ++ comparisonWords.map Prod.fst

/-- Whether a token is one of the words. -/
def isOperatorWord (token : StringView) : Bool :=
  operatorWords.any fun word => svEqCi token (sv word)

/-- Every operand satisfies this. -/
def AllOperands (holds : ω → Prop) : Formula ω → Prop
  | .operand value => holds value
  | .test _ name => holds name
  | .compare _ lhs rhs => holds lhs ∧ holds rhs
  | .negation body => body.AllOperands holds
  | .conjunction left right => left.AllOperands holds ∧ right.AllOperands holds
  | .disjunction left right => left.AllOperands holds ∧ right.AllOperands holds
  | .group body => body.AllOperands holds

/-- No operand at the start of a truth test or a comparison is a word at which `parse_cmp` turns to
`parse_unary`. -/
def HeadsPlain : Formula StringView → Prop
  | .operand value => isCmpHead value = false
  | .test _ _ => True
  | .compare _ lhs _ => isCmpHead lhs = false
  | .negation body => body.HeadsPlain
  | .conjunction left right => left.HeadsPlain ∧ right.HeadsPlain
  | .disjunction left right => left.HeadsPlain ∧ right.HeadsPlain
  | .group body => body.HeadsPlain

/-- The words at which `parse_cmp` turns are among the words. -/
theorem isCmpHead_of_not_word {token : StringView} (plain : isOperatorWord token = false) :
    isCmpHead token = false := by
  have contained : ∀ word ∈ cmpHeadWords, word ∈ operatorWords := by decide
  apply Bool.eq_false_iff.mpr
  intro head
  obtain ⟨word, mem, same⟩ := any_eq_true.mp head
  have isWord : isOperatorWord token = true :=
    any_eq_true.mpr ⟨word, contained word mem, same⟩
  rw [isWord] at plain
  exact Bool.noConfusion plain

/-- Operands that are no words are none at a start either. -/
theorem headsPlain_of_allOperands
    (plain : formula.AllOperands fun value => isOperatorWord value = false) :
    formula.HeadsPlain := by
  induction formula with
  | operand value => exact isCmpHead_of_not_word plain
  | test kind name => trivial
  | compare kind lhs rhs => exact isCmpHead_of_not_word plain.1
  | negation body ih => exact ih plain
  | conjunction left right ihLeft ihRight => exact ⟨ihLeft plain.1, ihRight plain.2⟩
  | disjunction left right ihLeft ihRight => exact ⟨ihLeft plain.1, ihRight plain.2⟩
  | group body ih => exact ih plain

/-! ## The levels of the parser -/

/-- No comparison stands at the front: an operand before these tokens is tested by itself. -/
def Closes (rest : List StringView) : Prop :=
  ∀ token, rest.head? = some token → findComparison token = none

/-- The word does not stand at the front. -/
def NoWord (word : String) (rest : List StringView) : Prop :=
  ∀ token, rest.head? = some token → svEqCi token (sv word) = false

/-- The loop of `parse_and` in `parse_expr host fuel`. -/
abbrev andChain (host : Host) (fuel : Nat) : Nat → Parsed → Prog Parsed :=
  parseChain "AND" Bool.and (parseCmp host fuel)

/-- The loop of `parse_expr host fuel`. -/
abbrev orChain (host : Host) (fuel : Nat) : Nat → Parsed → Prog Parsed :=
  parseChain "OR" Bool.or (parseAnd (parseCmp host fuel) fuel)

/-- The operands that a chain of `AND` adds to its first one. -/
def ands : Formula ω → Nat
  | .conjunction left _ => left.ands + 1
  | _ => 0

/-- The operands that a chain of `OR` adds to its first one. -/
def ors : Formula ω → Nat
  | .disjunction left _ => left.ors + 1
  | _ => 0

variable (host : Host)

/-- `parse_cmp` reads the formula. -/
def ParsesCmp (formula : Formula StringView) : Prop :=
  ∀ fuel rest, (formula.renderAt .cmp).length ≤ fuel → Closes rest →
    parseCmp host fuel (formula.renderAt .cmp ++ rest) =
      formula.denote host >>= fun value => pure (value, rest)

/-- The loop of `parse_and` reads the formula and goes on with the rest. -/
def ParsesAnd (formula : Formula StringView) : Prop :=
  ∀ fuel rest more, (formula.renderAt .and).length ≤ fuel → Closes rest →
    (parseCmp host fuel (formula.renderAt .and ++ rest) >>=
        andChain host fuel (formula.ands + more)) =
      formula.denote host >>= fun value => andChain host fuel more (value, rest)

/-- The loop of `parse_expr` reads the formula and goes on with the rest. -/
def ParsesOr (formula : Formula StringView) : Prop :=
  ∀ fuel rest more, (formula.renderAt .or).length ≤ fuel → Closes rest → NoWord "AND" rest →
    (parseAnd (parseCmp host fuel) fuel (formula.renderAt .or ++ rest) >>=
        orChain host fuel (formula.ors + more)) =
      formula.denote host >>= fun value => orChain host fuel more (value, rest)

variable {word : String} {combine : Bool → Bool → Bool} {operand : List StringView → Prog Parsed}

/-- A loop that meets no further word gives back what it has. -/
theorem parseChain_stop (stops : NoWord word rest) (fuel : Nat) (value : Bool) :
    parseChain word combine operand fuel (value, rest) = pure (value, rest) := by
  cases fuel with
  | zero => rfl
  | succ fuel =>
    cases rest with
    | nil => rfl
    | cons token after =>
      have other : svEqCi token (sv word) = false := stops token rfl
      unfold parseChain
      simp only [other]
      rfl

/-- A loop that meets its word evaluates one more operand. -/
theorem parseChain_more (fuel : Nat) (value : Bool) (after : List StringView) :
    parseChain word combine operand (fuel + 1) (value, sv word :: after) =
      operand after >>= fun parsed =>
        parseChain word combine operand fuel (combine value parsed.1, parsed.2) := by
  have same : svEqCi (sv word) (sv word) = true := beq_self_eq_true _
  show (if svEqCi (sv word) (sv word) = true then _ else _) = _
  rw [if_pos same]

/-! ## Chains -/

/-- The length of a chain is bounded by its tokens. -/
theorem ands_le (formula : Formula StringView) : formula.ands ≤ (formula.renderAt .and).length := by
  induction formula with
  | conjunction left right ihLeft _ =>
    show left.ands + 1 ≤ (left.renderAt .and ++ sv "AND" :: right.renderAt .cmp).length
    rw [length_append, length_cons]
    omega
  | _ => exact Nat.zero_le _

theorem ors_le (formula : Formula StringView) : formula.ors ≤ (formula.renderAt .or).length := by
  induction formula with
  | disjunction left right ihLeft _ =>
    show left.ors + 1 ≤ (left.renderAt .or ++ sv "OR" :: right.renderAt .and).length
    rw [length_append, length_cons]
    omega
  | _ => exact Nat.zero_le _

/-- A formula that is no conjunction is a chain of one. -/
theorem ParsesAnd.of_cmp (parses : formula.ParsesCmp host)
    (same : formula.renderAt .and = formula.renderAt .cmp) (single : formula.ands = 0) :
    formula.ParsesAnd host := by
  intro fuel rest more enough closes
  rw [same] at enough ⊢
  rw [parses fuel rest enough closes, single, Nat.zero_add, bind_assoc]
  rfl

/-- A conjunction continues the chain of its left side. -/
theorem ParsesAnd.conjunction {left right : Formula StringView} (parsesLeft : left.ParsesAnd host)
    (parsesRight : right.ParsesCmp host) : (Formula.conjunction left right).ParsesAnd host := by
  intro fuel rest more enough closes
  have tokens : (Formula.conjunction left right).renderAt .and ++ rest =
      left.renderAt .and ++ (sv "AND" :: (right.renderAt .cmp ++ rest)) :=
    append_assoc _ _ _
  have lengths : (left.renderAt .and ++ sv "AND" :: right.renderAt .cmp).length ≤ fuel := enough
  rw [length_append, length_cons] at lengths
  have closesWord : Closes (sv "AND" :: (right.renderAt .cmp ++ rest)) := by
    intro token here
    cases here
    decide
  have count : (Formula.conjunction left right).ands + more = left.ands + (more + 1) := by
    show left.ands + 1 + more = _
    omega
  rw [tokens, count, parsesLeft fuel _ (more + 1) (by omega) closesWord]
  have meaning : (Formula.conjunction left right).denote host =
      left.denote host >>= fun value => right.denote host >>= fun next => pure (value && next) :=
    rfl
  rw [meaning, bind_assoc]
  congr 1
  funext value
  unfold andChain
  rw [parseChain_more, parsesRight fuel rest (by omega) closes, bind_assoc, bind_assoc]
  rfl

/-- `parse_and` reads a formula of its level. -/
theorem parseAnd_eq (parses : formula.ParsesAnd host)
    (enough : (formula.renderAt .and).length ≤ fuel) (closes : Closes rest)
    (stops : NoWord "AND" rest) :
    parseAnd (parseCmp host fuel) fuel (formula.renderAt .and ++ rest) =
      formula.denote host >>= fun value => pure (value, rest) := by
  have chain := parses fuel rest (fuel - formula.ands) enough closes
  have bounded := formula.ands_le
  rw [show formula.ands + (fuel - formula.ands) = fuel by omega] at chain
  show (parseCmp host fuel (formula.renderAt .and ++ rest) >>= andChain host fuel fuel) = _
  rw [chain]
  congr 1
  funext value
  exact parseChain_stop stops _ value

/-- A formula that is no disjunction is a chain of one. -/
theorem ParsesOr.of_and (parses : formula.ParsesAnd host)
    (same : formula.renderAt .or = formula.renderAt .and) (single : formula.ors = 0) :
    formula.ParsesOr host := by
  intro fuel rest more enough closes stops
  rw [same] at enough ⊢
  rw [parseAnd_eq host parses enough closes stops, single, Nat.zero_add, bind_assoc]
  rfl

/-- A disjunction continues the chain of its left side. -/
theorem ParsesOr.disjunction {left right : Formula StringView} (parsesLeft : left.ParsesOr host)
    (parsesRight : right.ParsesAnd host) : (Formula.disjunction left right).ParsesOr host := by
  intro fuel rest more enough closes stops
  have tokens : (Formula.disjunction left right).renderAt .or ++ rest =
      left.renderAt .or ++ (sv "OR" :: (right.renderAt .and ++ rest)) :=
    append_assoc _ _ _
  have lengths : (left.renderAt .or ++ sv "OR" :: right.renderAt .and).length ≤ fuel := enough
  rw [length_append, length_cons] at lengths
  have closesWord : Closes (sv "OR" :: (right.renderAt .and ++ rest)) := by
    intro token here
    cases here
    decide
  have stopsWord : NoWord "AND" (sv "OR" :: (right.renderAt .and ++ rest)) := by
    intro token here
    cases here
    decide
  have count : (Formula.disjunction left right).ors + more = left.ors + (more + 1) := by
    show left.ors + 1 + more = _
    omega
  rw [tokens, count, parsesLeft fuel _ (more + 1) (by omega) closesWord stopsWord]
  have meaning : (Formula.disjunction left right).denote host =
      left.denote host >>= fun value => right.denote host >>= fun next => pure (value || next) :=
    rfl
  rw [meaning, bind_assoc]
  congr 1
  funext value
  unfold orChain
  rw [parseChain_more, parseAnd_eq host parsesRight (by omega) closes stops, bind_assoc, bind_assoc]
  rfl

/-- `parse_expr` reads a formula. -/
theorem parseExpr_eq (parses : formula.ParsesOr host)
    (enough : (formula.renderAt .or).length ≤ fuel) (closes : Closes rest)
    (stopsAnd : NoWord "AND" rest) (stopsOr : NoWord "OR" rest) :
    parseExpr host fuel (formula.renderAt .or ++ rest) =
      formula.denote host >>= fun value => pure (value, rest) := by
  have chain := parses fuel rest (fuel - formula.ors) enough closes stopsAnd
  have bounded := formula.ors_le
  rw [show formula.ors + (fuel - formula.ors) = fuel by omega] at chain
  show (parseAnd (parseCmp host fuel) fuel (formula.renderAt .or ++ rest) >>=
    orChain host fuel fuel) = _
  rw [chain]
  congr 1
  funext value
  exact parseChain_stop stopsOr _ value

/-! ## Single tests -/

/-- `parse_cmp` reads a formula in parentheses. -/
theorem parseCmp_parens (parses : formula.ParsesOr host)
    (enough : (parens (formula.renderAt .or)).length ≤ fuel) :
    parseCmp host fuel (parens (formula.renderAt .or) ++ rest) =
      formula.denote host >>= fun value => pure (value, rest) := by
  cases fuel with
  | zero => exact absurd enough (Nat.not_succ_le_zero _)
  | succ fuel =>
    have lengths : (formula.renderAt .or).length ≤ fuel := by
      unfold parens at enough
      rw [length_cons, length_append] at enough
      omega
    have tokens : parens (formula.renderAt .or) ++ rest =
        sv "(" :: (formula.renderAt .or ++ (sv ")" :: rest)) := by
      unfold parens
      rw [cons_append, append_assoc]
      rfl
    have closes : Closes (sv ")" :: rest) := by
      intro token here
      cases here
      decide
    have stopsAnd : NoWord "AND" (sv ")" :: rest) := by
      intro token here
      cases here
      decide
    have stopsOr : NoWord "OR" (sv ")" :: rest) := by
      intro token here
      cases here
      decide
    have inner := parseExpr_eq host parses lengths closes stopsAnd stopsOr
    have entered : parseCmp host (fuel + 1) (sv "(" :: (formula.renderAt .or ++ (sv ")" :: rest))) =
        parseExpr host fuel (formula.renderAt .or ++ (sv ")" :: rest)) >>= fun parsed =>
          closeParen parsed := rfl
    rw [tokens, entered, inner, bind_assoc]
    rfl

/-- The words of the tests are found again. -/
theorem findUnary_word (kind : UnaryTest) : findUnary kind.word = some kind := by
  cases kind <;> decide

/-- The words of the comparisons are found again. -/
theorem findComparison_word (kind : Comparison) : findComparison kind.word = some kind := by
  cases kind with
  | number test | text test | version test => cases test <;> decide
  | _ => decide

theorem isCmpHead_word (kind : UnaryTest) : isCmpHead kind.word = true := by
  cases kind <;> decide

theorem word_ne_not (kind : UnaryTest) : svEqCi kind.word (sv "NOT") = false := by
  cases kind <;> decide

/-- An operand that no comparison follows is tested by itself. -/
theorem parsesCmp_operand {value : StringView} (plain : isCmpHead value = false) :
    (Formula.operand value).ParsesCmp host := by
  intro fuel rest enough closes
  cases fuel with
  | zero => exact absurd enough (Nat.not_succ_le_zero _)
  | succ fuel =>
    show parseCmpWith host _ _ (value :: rest) = _
    unfold parseCmpWith
    simp only [plain, Bool.false_eq_true, if_false]
    cases rest with
    | nil => rfl
    | cons op operands =>
      have alone : findComparison op = none := closes op rfl
      simp only [alone]
      rfl

theorem parsesCmp_test (kind : UnaryTest) (name : StringView) :
    (Formula.test kind name).ParsesCmp host := by
  intro fuel rest enough _
  cases fuel with
  | zero => exact absurd enough (Nat.not_succ_le_zero _)
  | succ fuel =>
    show parseCmpWith host _ _ (kind.word :: name :: rest) = _
    unfold parseCmpWith
    simp only [isCmpHead_word, if_true]
    unfold parseUnary
    simp only [word_ne_not, findUnary_word, Bool.false_eq_true, if_false]
    rfl

theorem parsesCmp_compare (kind : Comparison) {lhs : StringView} (rhs : StringView)
    (plain : isCmpHead lhs = false) : (Formula.compare kind lhs rhs).ParsesCmp host := by
  intro fuel rest enough _
  cases fuel with
  | zero => exact absurd enough (Nat.not_succ_le_zero _)
  | succ fuel =>
    show parseCmpWith host _ _ (lhs :: kind.word :: rhs :: rest) = _
    unfold parseCmpWith
    simp only [plain, findComparison_word, Bool.false_eq_true, if_false]
    rfl

theorem parsesCmp_not {body : Formula StringView} (parses : body.ParsesCmp host) :
    (Formula.negation body).ParsesCmp host := by
  intro fuel rest enough closes
  cases fuel with
  | zero => exact absurd enough (Nat.not_succ_le_zero _)
  | succ fuel =>
    have lengths : (body.renderAt .cmp).length ≤ fuel := Nat.le_of_succ_le_succ enough
    have entered : parseCmp host (fuel + 1) (sv "NOT" :: (body.renderAt .cmp ++ rest)) =
        parseCmp host fuel (body.renderAt .cmp ++ rest) >>= fun parsed =>
          pure (!parsed.1, parsed.2) := rfl
    show parseCmp host (fuel + 1) (sv "NOT" :: (body.renderAt .cmp ++ rest)) = _
    have meaning : (Formula.negation body).denote host =
        body.denote host >>= fun value => pure (!value) := rfl
    rw [entered, parses fuel rest lengths closes, meaning, bind_assoc, bind_assoc]
    rfl

/-! ## Formulas -/

/-- Every level reads the formulas that are written for it. -/
theorem parses_all (plain : formula.HeadsPlain) :
    formula.ParsesCmp host ∧ formula.ParsesAnd host ∧ formula.ParsesOr host := by
  have single : ∀ formula : Formula StringView, formula.ParsesCmp host →
      formula.renderAt .and = formula.renderAt .cmp → formula.ands = 0 →
      formula.renderAt .or = formula.renderAt .and → formula.ors = 0 →
      formula.ParsesCmp host ∧ formula.ParsesAnd host ∧ formula.ParsesOr host := by
    intro formula cmp sameAnd noAnds sameOr noOrs
    have and := ParsesAnd.of_cmp host cmp sameAnd noAnds
    exact ⟨cmp, and, ParsesOr.of_and host and sameOr noOrs⟩
  induction formula with
  | operand value => exact single _ (parsesCmp_operand host plain) rfl rfl rfl rfl
  | test kind name => exact single _ (parsesCmp_test host kind name) rfl rfl rfl rfl
  | compare kind lhs rhs => exact single _ (parsesCmp_compare host kind rhs plain) rfl rfl rfl rfl
  | negation body ih => exact single _ (parsesCmp_not host (ih plain).1) rfl rfl rfl rfl
  | conjunction left right ihLeft ihRight =>
    have and := ParsesAnd.conjunction host (ihLeft plain.1).2.1 (ihRight plain.2).1
    have or := ParsesOr.of_and host and rfl rfl
    exact ⟨fun fuel rest enough _ => parseCmp_parens host or enough, and, or⟩
  | disjunction left right ihLeft ihRight =>
    have or := ParsesOr.disjunction host (ihLeft plain.1).2.2 (ihRight plain.2).2.1
    have cmp : (Formula.disjunction left right).ParsesCmp host :=
      fun fuel rest enough _ => parseCmp_parens host or enough
    exact ⟨cmp, ParsesAnd.of_cmp host cmp rfl rfl, or⟩
  | group body ih =>
    have cmp : (Formula.group body).ParsesCmp host :=
      fun fuel rest enough _ => parseCmp_parens host (ih plain).2.2 enough
    exact single _ cmp rfl rfl rfl rfl

end Formula

/-! ## What a formula performs -/

/-- One of the two diagnostics of a condition that is not well formed. -/
def Op.IsSyntaxDiag (op : Op) : Prop := op = .emitDiag missingParen ∨ op = .emitDiag invalidSyntax

/-- No diagnostic of the parser of conditions. -/
abbrev NoSyntaxDiag (op : Op) : Prop := ¬ op.IsSyntaxDiag

/-- A diagnostic for another command is none of the two. -/
theorem noSyntaxDiag_emitDiag {request : DiagRequest} (other : request.command ≠ sv "if") :
    NoSyntaxDiag (.emitDiag request) := by
  rintro (same | same)
  · cases same
    exact other rfl
  · cases same
    exact other rfl

theorem modifyState_performs (change : StateChange) :
    (modifyState change).Performs NoSyntaxDiag := by
  apply Performs.perform
  rintro (same | same)
  · cases same
  · cases same

theorem variableWatchNotify_performs (key action value : StringView) :
    (variableWatchNotify key action value).Performs NoSyntaxDiag := by
  have watching : ∀ active, (perform (.setWatching active)).Performs NoSyntaxDiag := by
    intro active
    apply Performs.perform
    rintro (same | same)
    · cases same
    · cases same
  have noted : ∀ name value, (modifyState (setCurrentChange name value)).Performs NoSyntaxDiag :=
    fun name value => modifyState_performs _
  have other : sv "variable_watch" ≠ sv "if" := by decide
  unfold variableWatchNotify
  apply Performs.context.bind
  intro ctx
  apply Performs.ite (Performs.pure _)
  cases ctx.state.command.watchedVariables.idxOf? key with
  | none => exact Performs.pure _
  | some index =>
    apply (watching true).bind
    intro _
    apply (noted _ _).bind
    intro _
    apply (noted _ _).bind
    intro _
    apply (noted _ _).bind
    intro _
    have reported : ∀ request : DiagRequest, request.command ≠ sv "if" → (do
          let result ← emitDiag request
          perform (.setWatching false)
          return result != .fatal : Prog Bool).Performs NoSyntaxDiag := by
      intro request other
      apply (emitDiag_performs (noSyntaxDiag_emitDiag other)).bind
      intro result
      apply (watching false).bind
      intro _
      exact Performs.pure _
    apply Performs.ite
    · apply (noted _ _).bind
      intro _
      exact reported _ other
    · exact reported _ other

theorem varSetCurrent_performs (key value : StringView) :
    (varSetCurrent key value).Performs NoSyntaxDiag := by
  unfold varSetCurrent
  apply Performs.context.bind
  intro ctx
  apply Performs.ite (Performs.pure _)
  apply (modifyState_performs _).bind
  intro _
  exact variableWatchNotify_performs key _ value

theorem setMatchVars_performs (vars : List (StringView × StringView)) :
    (setMatchVars vars).Performs NoSyntaxDiag := by
  induction vars with
  | nil => exact Performs.pure _
  | cons entry rest ih =>
    apply (varSetCurrent_performs entry.1 entry.2).bind
    intro written
    exact Performs.ite (Performs.pure _) ih

/-- No comparison reports a syntax error. -/
theorem Comparison.run_performs (host : Host) (kind : Comparison) (lhs rhs : StringView) :
    (kind.run host lhs rhs).Performs NoSyntaxDiag := by
  cases kind with
  | regex =>
    show (matchesTest host lhs rhs).Performs NoSyntaxDiag
    unfold matchesTest
    cases host.compileRegex rhs with
    | none => exact Performs.pure _
    | some search =>
      apply (setMatchVars_performs _).bind
      intro written
      exact Performs.ite (Performs.pure _) (Performs.pure _)
  | pathEqual =>
    apply (Performs.context.bind fun _ => Performs.pure _).bind
    intro stopped
    exact Performs.ite (Performs.pure _) (Performs.pure _)
  | strequal | equal | number test | text test | version test | versionEqual | inList
  | isNewerThan => exact Performs.pure _

/-- No formula reports a syntax error. -/
theorem Formula.denoteWith_performs {ω : Type} (host : Host) (truth : EvalState → ω → Bool)
    (name : ω → StringView) (lookup : EvalState → ω → StringView) (formula : Formula ω) :
    (formula.denoteWith host truth name lookup).Performs NoSyntaxDiag := by
  induction formula with
  | operand value => exact Performs.context.bind fun _ => Performs.pure _
  | test kind subject => exact Performs.context.bind fun _ => Performs.pure _
  | compare kind lhs rhs => exact Performs.context.bind fun _ => kind.run_performs host _ _
  | negation body ih => exact ih.bind fun _ => Performs.pure _
  | conjunction left right ihLeft ihRight | disjunction left right ihLeft ihRight =>
    apply ihLeft.bind
    intro value
    exact ihRight.bind fun next => Performs.pure _
  | group body ih => exact ih

/-! ## Evaluating a condition -/

theorem Formula.render_ne_nil (formula : Formula StringView) : formula.render ≠ [] := by
  have shape : ∀ level, formula.renderAt level ≠ [] := by
    induction formula with
    | operand value | test kind subject | compare kind lhs rhs | negation body ih
    | group body ih => exact fun level => cons_ne_nil _ _
    | conjunction left right ihLeft _ =>
      intro level
      show (if level = .cmp then Formula.parens _ else _) ≠ []
      by_cases tight : level = .cmp
      · rw [if_pos tight]
        exact cons_ne_nil _ _
      · rw [if_neg tight]
        exact append_ne_nil_of_left_ne_nil (ihLeft .and) _
    | disjunction left right ihLeft _ =>
      intro level
      show (if level = .or then _ else Formula.parens _) ≠ []
      by_cases loose : level = .or
      · rw [if_pos loose]
        exact append_ne_nil_of_left_ne_nil (ihLeft .or) _
      · rw [if_neg loose]
        exact cons_ne_nil _ _
  exact shape .or

/-- `parse_expr` reads all tokens of a formula and means what the formula means. -/
theorem parseExpr_render (host : Host) (plain : formula.HeadsPlain) :
    parseExpr host (formula.render.length + 1) formula.render =
      formula.denote host >>= fun value => pure (value, []) := by
  have ends : ∀ word, Formula.NoWord word [] := by
    intro word token here
    cases here
  have closes : Formula.Closes [] := by
    intro token here
    cases here
  have parsed := Formula.parseExpr_eq host (Formula.parses_all host plain).2.2
    (Nat.le_succ formula.render.length) closes (ends "AND") (ends "OR")
  rw [append_nil] at parsed
  exact parsed

/-- The tokens of a formula run as the formula. -/
theorem evalTokens_render (host : Host) (plain : formula.HeadsPlain) :
    evalTokens host formula.render = formula.denote host := by
  unfold evalTokens
  rw [parseExpr_render host plain, bind_assoc]
  show (formula.denote host >>= fun value => pure value) = _
  exact bind_pure _

/-- Evaluating a condition whose arguments resolve to the tokens of a formula, from any state of
the evaluator: every token is consumed, no syntax diagnostic is emitted, and the value, the state
that is left and the steps are those of the formula's meaning. -/
theorem evalCondition_denotes (host : Host)
    (dispatch : Nat → Nat → StringView → List Arg → EvalExecContext → Option (Run EvalResult))
    (ctx : EvalExecContext) (condition : List Arg) (formula : Formula StringView)
    (resolved : Run (List StringView))
    (plain : formula.AllOperands fun value => Formula.isOperatorWord value = false)
    (resolves : (resolveArgs host condition).exec dispatch ctx = some resolved)
    (tokens : resolved.value = formula.render) (running : resolved.ctx.shouldStop = false) :
    parseExpr host (formula.render.length + 1) formula.render =
        formula.denote host >>= (fun value => pure (value, [])) ∧
      ∃ meaning, (formula.denote host).exec dispatch resolved.ctx = some meaning ∧
        (evalCondition host condition).exec dispatch ctx =
          some ⟨meaning.value, meaning.ctx, resolved.trace ++ meaning.trace⟩ ∧
        ∀ action ∈ resolved.trace ++ meaning.trace,
          action ≠ .op (.emitDiag missingParen) ∧ action ≠ .op (.emitDiag invalidSyntax) := by
  have heads := Formula.headsPlain_of_allOperands plain
  refine ⟨parseExpr_render host heads, ?_⟩
  have performs : (formula.denote host).Performs NoSyntaxDiag :=
    formula.denoteWith_performs host evalTruthy id svLookupIfVar
  obtain ⟨meaning, went, fine⟩ := performs.exec dispatch resolved.ctx
  obtain ⟨again, resolvesAgain, fineBefore⟩ :=
    (resolveArgs_performs (fun _ own => noSyntaxDiag_emitDiag (by rw [own]; decide)) host
      condition).exec dispatch ctx
  have sameRun : again = resolved := Option.some.inj (resolvesAgain.symm.trans resolves)
  rw [sameRun] at fineBefore
  refine ⟨meaning, went, ?_, ?_⟩
  · have nonempty : formula.render.isEmpty = false := by
      rw [isEmpty_eq_false_iff]
      exact formula.render_ne_nil
    have continued : (do
        if (← Prog.shouldStop) || resolved.value.isEmpty then return false
        evalTokens host resolved.value : Prog Bool).exec dispatch resolved.ctx = some meaning := by
      show (if (resolved.ctx.shouldStop || resolved.value.isEmpty) = true then pure false
        else evalTokens host resolved.value : Prog Bool).exec dispatch resolved.ctx = _
      rw [tokens, running, nonempty, Bool.or_false, if_neg Bool.false_ne_true,
        evalTokens_render host heads]
      exact went
    exact exec_bind dispatch resolves continued
  · intro action mem
    have isSilent : ∃ op, action = .op op ∧ NoSyntaxDiag op := by
      rcases mem_append.mp mem with before | after
      · exact fineBefore action before
      · exact fine action after
    obtain ⟨op, isOp, silent⟩ := isSilent
    constructor
    · intro same
      rw [isOp, Action.op.injEq] at same
      exact silent (.inl same)
    · intro same
      rw [isOp, Action.op.injEq] at same
      exact silent (.inr same)

/-- A host without an environment, files and regular expressions. -/
def bareHost : Host where
  envGet _ := none
  sourceDir := []
  nativeCommands := []
  pathExists _ := false
  pathIsDir _ := false
  pathIsSymlink _ := false
  pathIsReadable _ := false
  pathIsWritable _ := false
  pathIsExecutable _ := false
  modifiedAt _ := none
  compileRegex _ := none

/-- Commands that a condition never calls. -/
def noCommands : Nat → Nat → StringView → List Arg → EvalExecContext → Option (Run EvalResult) :=
  fun _ _ _ _ _ => none

/-- `NOT A STREQUAL B AND ON`. -/
def notEqualFormula : Formula StringView :=
  .conjunction (.negation (.compare .strequal (sv "A") (sv "B"))) (.operand (sv "ON"))

/-- The condition `if(NOT A STREQUAL B AND ON)` in a fresh context. -/
theorem evalCondition_denotes_notEqual :
    ∃ meaning, (notEqualFormula.denote bareHost).exec noCommands freshContext = some meaning ∧
      (evalCondition bareHost (["NOT", "A", "STREQUAL", "B", "AND", "ON"].map wordArg)).exec
        noCommands freshContext = some ⟨meaning.value, meaning.ctx, meaning.trace⟩ := by
  have plain : ∀ word ∈ ["A", "B", "ON"], Formula.isOperatorWord (sv word) = false := by decide
  obtain ⟨meaning, went, evaluated, _⟩ := (evalCondition_denotes bareHost noCommands freshContext
    (["NOT", "A", "STREQUAL", "B", "AND", "ON"].map wordArg) notEqualFormula
    ⟨notEqualFormula.render, freshContext, []⟩
    ⟨⟨plain "A" (by decide), plain "B" (by decide)⟩, plain "ON" (by decide)⟩ rfl rfl rfl).2
  exact ⟨meaning, went, evaluated⟩

end Nobify.Evaluator
