import Nobify.Evaluator.Formula

/-!
# Which conditions are diagnosed

The parser of conditions evaluates while it parses, and it reports in two places: where a
parenthesis is not closed, and where tokens are left over. A list of tokens that stops where one
more operand is wanted reaches neither, unless it stops between parentheses.

What the parser does with the tokens does not depend on the values. `scanCmp` and its companions
are the parser without the values, and the grammar of conditions is compared with them.
-/

namespace Nobify.Evaluator

open Prog
open List

variable {rest tokens : List StringView} {outcome : Outcome} {token : StringView} {word : String}
  {bound fuel more : Nat} {combine : Bool → Bool → Bool} {ctx : EvalExecContext}
  {program : Prog Parsed}

/-! ## The grammar -/

/-- The grammar of conditions at each level. Words are compared as the parser does, without regard
to case, and `admits` says which tokens may be operands. A token at which a parenthesis, a `NOT` or
a test begins is none at the front. -/
inductive Derives (admits : StringView → Prop) : Level → List StringView → Prop
  | operand {value : StringView} (admitted : admits value) (plain : isCmpHead value = false) :
    Derives admits .cmp [value]
  | test {word name : StringView} {kind : UnaryTest} (isTest : findUnary word = some kind)
    (admitted : admits name) : Derives admits .cmp [word, name]
  | compare {lhs op rhs : StringView} {kind : Comparison}
    (isComparison : findComparison op = some kind) (admittedLeft : admits lhs)
    (plain : isCmpHead lhs = false) (admittedRight : admits rhs) :
    Derives admits .cmp [lhs, op, rhs]
  | negation {word : StringView} {body : List StringView}
    (isNot : svEqCi word (sv "NOT") = true) (derives : Derives admits .cmp body) :
    Derives admits .cmp (word :: body)
  | group {opener closer : StringView} {body : List StringView}
    (opens : svEqCi opener (sv "(") = true) (closes : svEqCi closer (sv ")") = true)
    (derives : Derives admits .or body) : Derives admits .cmp (opener :: (body ++ [closer]))
  | cmp {tokens : List StringView} (derives : Derives admits .cmp tokens) :
    Derives admits .and tokens
  | conjunction {word : StringView} {left right : List StringView}
    (isAnd : svEqCi word (sv "AND") = true) (derivesLeft : Derives admits .cmp left)
    (derivesRight : Derives admits .and right) : Derives admits .and (left ++ word :: right)
  | and {tokens : List StringView} (derives : Derives admits .and tokens) :
    Derives admits .or tokens
  | disjunction {word : StringView} {left right : List StringView}
    (isOr : svEqCi word (sv "OR") = true) (derivesLeft : Derives admits .and left)
    (derivesRight : Derives admits .or right) : Derives admits .or (left ++ word :: right)

/-- Every token may be an operand. -/
abbrev anyOperand : StringView → Prop := fun _ => True

/-- A grammar with more operands derives more. -/
theorem Derives.mono {admits others : StringView → Prop}
    (implies : ∀ value, admits value → others value) {level : Level}
    (derives : Derives admits level tokens) : Derives others level tokens := by
  induction derives with
  | operand admitted plain => exact .operand (implies _ admitted) plain
  | test isTest admitted => exact .test isTest (implies _ admitted)
  | compare isComparison admittedLeft plain admittedRight =>
    exact .compare isComparison (implies _ admittedLeft) plain (implies _ admittedRight)
  | negation isNot derives ih => exact .negation isNot ih
  | group opens closes derives ih => exact .group opens closes ih
  | cmp derives ih => exact .cmp ih
  | conjunction isAnd left right ihLeft ihRight => exact .conjunction isAnd ihLeft ihRight
  | and derives ih => exact .and ih
  | disjunction isOr left right ihLeft ihRight => exact .disjunction isOr ihLeft ihRight

/-! ## The parser without values -/

/-- Where the parser gets to: before these tokens, to the end of the tokens while it wants one more
operand, or to a parenthesis that is not closed, which it reports. -/
inductive Outcome where
  | done (rest : List StringView)
  | wants
  | missed
  deriving DecidableEq

namespace Outcome

/-- Go on with the tokens that are left. -/
def andThen : Outcome → (List StringView → Outcome) → Outcome
  | .done rest, next => next rest
  | .wants, _ => .wants
  | .missed, _ => .missed

/-- The end of a pair of parentheses. -/
def close : Outcome → Outcome
  | .done (closer :: after) => if svEqCi closer (sv ")") then .done after else .missed
  | _ => .missed

/-- The tokens that are left where nothing has been reported. -/
def left : Outcome → Option (List StringView)
  | .done rest => some rest
  | .wants => some []
  | .missed => none

/-- The outcome when one more operand stands behind the tokens. -/
def push (operand : StringView) : Outcome → Outcome
  | .done rest => .done (rest ++ [operand])
  | .wants => .done []
  | .missed => .missed

theorem andThen_eq_done {next : List StringView → Outcome}
    (ended : outcome.andThen next = .done rest) :
    ∃ middle, outcome = .done middle ∧ next middle = .done rest := by
  cases outcome with
  | done middle => exact ⟨middle, rfl, ended⟩
  | wants => cases ended
  | missed => cases ended

end Outcome

section Scans

variable (cmp expr : List StringView → Outcome)

/-- `parse_primary` without values. -/
def scanPrimary : List StringView → Outcome
  | [] => .wants
  | token :: rest => if svEqCi token (sv "(") then (expr rest).close else .done rest

/-- `parse_unary` without values. -/
def scanUnary : List StringView → Outcome
  | [] => .wants
  | token :: rest =>
    if svEqCi token (sv "NOT") then cmp rest
    else
      match findUnary token with
      | some _ =>
        match rest with
        | [] => .wants
        | _ :: rest => .done rest
      | none => scanPrimary expr (token :: rest)

/-- `parse_cmp` without values. -/
def scanCmpWith : List StringView → Outcome
  | [] => .wants
  | first :: rest =>
    if isCmpHead first then scanUnary cmp expr (first :: rest)
    else
      match rest with
      | [] => .done []
      | op :: operands =>
        match findComparison op with
        | some _ =>
          match operands with
          | [] => .wants
          | _ :: rest => .done rest
        | none => .done (op :: operands)

end Scans

/-- The loops of `parse_and` and `parse_expr` without values. -/
def scanChain (word : String) (operand : List StringView → Outcome) :
    Nat → List StringView → Outcome
  | 0, rest => .done rest
  | fuel + 1, rest =>
    match rest with
    | token :: after =>
      if svEqCi token (sv word) then (operand after).andThen (scanChain word operand fuel)
      else .done (token :: after)
    | [] => .done []

/-- `parse_and` and `parse_expr` without values. -/
def scanLevel (word : String) (operand : List StringView → Outcome) (fuel : Nat)
    (tokens : List StringView) : Outcome :=
  (operand tokens).andThen (scanChain word operand fuel)

/-- `parse_cmp` without values, with fuel for the nesting. -/
def scanCmp : Nat → List StringView → Outcome
  | 0, _ => .wants
  | fuel + 1, tokens =>
    scanCmpWith (scanCmp fuel) (scanLevel "OR" (scanLevel "AND" (scanCmp fuel) fuel) fuel) tokens

/-- `parse_expr` without values, with fuel for the nesting. -/
def scanExpr (fuel : Nat) : List StringView → Outcome :=
  scanLevel "OR" (scanLevel "AND" (scanCmp fuel) fuel) fuel

/-! ## Words -/

section

variable {word : StringView} (same : svEqCi token word = true)

include same

/-- A token that equals a word is compared with other words as the word is. -/
theorem svEqCi_word (other : StringView) : svEqCi token other = svEqCi word other := by
  have upper : token.map Char.toUpper = word.map Char.toUpper := beq_iff_eq.mp same
  rw [svEqCi, svEqCi, upper]

theorem findComparison_word_eq : findComparison token = findComparison word := by
  simp only [findComparison, svEqCi_word same]

theorem findUnary_word_eq : findUnary token = findUnary word := by
  simp only [findUnary, svEqCi_word same]

theorem isCmpHead_word_eq : isCmpHead token = isCmpHead word := by
  simp only [isCmpHead, svEqCi_word same]

end

/-- A test word is a head and no `NOT`. -/
theorem findUnary_head {word : StringView} {kind : UnaryTest} (isTest : findUnary word = some kind)
    : isCmpHead word = true ∧ svEqCi word (sv "NOT") = false := by
  obtain ⟨entry, found, _⟩ := Option.map_eq_some_iff.mp isTest
  have same : svEqCi word (sv entry.1) = true := by
    have chosen := List.find?_some found
    exact chosen
  have listed : entry ∈ unaryWords := mem_of_find?_eq_some found
  have words : ∀ entry ∈ unaryWords, isCmpHead (sv entry.1) = true ∧
      svEqCi (sv entry.1) (sv "NOT") = false := by decide
  rw [isCmpHead_word_eq same, svEqCi_word same]
  exact words entry listed

/-- A head is a parenthesis, a `NOT` or the word of a test. -/
theorem head_cases {word : StringView} (head : isCmpHead word = true) :
    svEqCi word (sv "NOT") = true ∨ (∃ kind, findUnary word = some kind) ∨
      svEqCi word (sv "(") = true := by
  obtain ⟨entry, listed, same⟩ := any_eq_true.mp head
  have words : ∀ entry ∈ cmpHeadWords, svEqCi (sv entry) (sv "NOT") = true ∨
      (findUnary (sv entry)).isSome = true ∨ svEqCi (sv entry) (sv "(") = true := by decide
  rw [svEqCi_word same, svEqCi_word same, findUnary_word_eq same, ← Option.isSome_iff_exists]
  exact words entry listed

/-! ## The scan and the grammar -/

/-- One level read by a scan is read by the grammar. -/
theorem scanLevel_sound {operand : List StringView → Outcome} {inner outer : List StringView → Prop}
    (each : ∀ tokens rest, operand tokens = .done rest → ∃ front, tokens = front ++ rest ∧ inner front)
    (single : ∀ front, inner front → outer front)
    (chained : ∀ left token right, inner left → svEqCi token (sv word) = true → outer right → outer (left ++ token :: right))
    (ended : scanLevel word operand fuel tokens = .done rest) :
    ∃ front, tokens = front ++ rest ∧ outer front := by
  induction fuel generalizing tokens with
  | zero =>
    obtain ⟨middle, first, last⟩ := Outcome.andThen_eq_done ended
    cases last
    obtain ⟨front, shape, derives⟩ := each tokens rest first
    exact ⟨front, shape, single front derives⟩
  | succ fuel ih =>
    obtain ⟨middle, first, last⟩ := Outcome.andThen_eq_done ended
    obtain ⟨front, shape, derives⟩ := each tokens middle first
    have alone : middle = rest → ∃ front, tokens = front ++ rest ∧ outer front := by
      intro same
      rw [← same]
      exact ⟨front, shape, single front derives⟩
    cases middle with
    | nil =>
      cases last
      exact alone rfl
    | cons token after =>
      rw [scanChain] at last
      by_cases more : svEqCi token (sv word) = true
      · rw [if_pos more] at last
        obtain ⟨behind, shapeBehind, derivesBehind⟩ := @ih after last
        refine ⟨front ++ token :: behind, ?_, chained front token behind derives more derivesBehind⟩
        rw [shape, shapeBehind, append_assoc, cons_append]
      · rw [if_neg more] at last
        cases last
        exact alone rfl

/-- What the scan reads the grammar derives. -/
theorem scanCmp_sound (ended : scanCmp fuel tokens = .done rest) :
    ∃ front, tokens = front ++ rest ∧ Derives anyOperand .cmp front := by
  induction fuel generalizing tokens rest with
  | zero => cases ended
  | succ fuel ih =>
    have conjunctions : ∀ tokens rest, scanLevel "AND" (scanCmp fuel) fuel tokens = .done rest →
        ∃ front, tokens = front ++ rest ∧ Derives anyOperand .and front :=
      fun _ _ => scanLevel_sound (fun _ _ => ih) (fun _ => .cmp) fun _ _ _ =>
        fun left isAnd right => .conjunction isAnd left right
    cases tokens with
    | nil => cases ended
    | cons first after =>
      rw [scanCmp] at ended
      unfold scanCmpWith at ended
      dsimp only at ended
      by_cases head : isCmpHead first = true
      · rw [if_pos head] at ended
        unfold scanUnary at ended
        dsimp only at ended
        by_cases isNot : svEqCi first (sv "NOT") = true
        · rw [if_pos isNot] at ended
          obtain ⟨front, shape, derives⟩ := ih ended
          exact ⟨first :: front, congrArg (List.cons first) shape, .negation isNot derives⟩
        rw [if_neg isNot] at ended
        cases isTest : findUnary first with
        | some kind =>
          rw [isTest] at ended
          cases after with
          | nil => cases ended
          | cons name rest =>
            cases ended
            exact ⟨[first, name], rfl, .test isTest trivial⟩
        | none =>
          rw [isTest] at ended
          dsimp only at ended
          have opens : svEqCi first (sv "(") = true := by
            rcases head_cases head with other | ⟨kind, other⟩ | opens
            · exact absurd other isNot
            · rw [isTest] at other
              cases other
            · exact opens
          rw [scanPrimary, if_pos opens] at ended
          cases inside : scanLevel "OR" (scanLevel "AND" (scanCmp fuel) fuel) fuel after with
          | wants =>
            rw [inside] at ended
            cases ended
          | missed =>
            rw [inside] at ended
            cases ended
          | done middle =>
            obtain ⟨front, shape, derives⟩ := scanLevel_sound conjunctions (fun _ => .and)
              (fun _ _ _ left isOr right => Derives.disjunction isOr left right) inside
            rw [inside] at ended
            cases middle with
            | nil => cases ended
            | cons closer behind =>
              rw [Outcome.close] at ended
              by_cases closes : svEqCi closer (sv ")") = true
              · rw [if_pos closes] at ended
                cases ended
                refine ⟨first :: (front ++ [closer]), ?_, .group opens closes derives⟩
                rw [shape, cons_append, append_assoc, singleton_append]
              · rw [if_neg closes] at ended
                cases ended
      · rw [if_neg head] at ended
        have plain : isCmpHead first = false := Bool.eq_false_iff.mpr head
        cases after with
        | nil =>
          cases ended
          exact ⟨[first], rfl, .operand trivial plain⟩
        | cons op operands =>
          dsimp only at ended
          cases isComparison : findComparison op with
          | none =>
            rw [isComparison] at ended
            cases ended
            exact ⟨[first], rfl, .operand trivial plain⟩
          | some kind =>
            rw [isComparison] at ended
            cases operands with
            | nil => cases ended
            | cons rhs rest =>
              cases ended
              exact ⟨[first, op, rhs], rfl, .compare isComparison trivial plain trivial⟩

/-- No scan leaves more tokens than there were. -/
theorem scanCmp_shorter (ended : scanCmp fuel tokens = .done rest) :
    rest.length ≤ tokens.length := by
  obtain ⟨front, shape, _⟩ := scanCmp_sound ended
  rw [shape, length_append]
  omega

/-- A level leaves no more tokens than there were either. -/
theorem scanLevel_shorter {operand : List StringView → Outcome}
    (each : ∀ tokens rest : List StringView, operand tokens = .done rest → ∃ front, tokens = front ++ rest)
    (ended : scanLevel word operand fuel tokens = .done rest) : rest.length ≤ tokens.length := by
  obtain ⟨front, shape, _⟩ := @scanLevel_sound rest tokens word fuel operand (fun _ => True)
    (fun _ => True)
    (fun tokens rest ended => (each tokens rest ended).imp fun _ shape => ⟨shape, trivial⟩)
    (fun _ _ => trivial) (fun _ _ _ _ _ _ => trivial) ended
  rw [shape, length_append]
  omega

/-- The scan reads these tokens at a level, whatever follows that does not go on with them. -/
def ScansOver : Level → List StringView → Prop
  | .cmp, front => ∀ fuel rest, front.length ≤ fuel → Formula.Closes rest →
    scanCmp fuel (front ++ rest) = .done rest
  | .and, front => ∀ fuel more rest, front.length ≤ fuel → front.length ≤ more →
    Formula.Closes rest → Formula.NoWord "AND" rest →
    (scanCmp fuel (front ++ rest)).andThen (scanChain "AND" (scanCmp fuel) more) = .done rest
  | .or, front => ∀ fuel more rest, front.length ≤ fuel → front.length ≤ more →
    Formula.Closes rest → Formula.NoWord "AND" rest → Formula.NoWord "OR" rest →
    (scanLevel "AND" (scanCmp fuel) fuel (front ++ rest)).andThen
      (scanChain "OR" (scanLevel "AND" (scanCmp fuel) fuel) more) = .done rest

/-- Behind the last token stands no word. -/
theorem noWord_nil (word : String) : Formula.NoWord word [] := by
  intro token here
  cases here

/-- A chain stops before a token that is not its word. -/
theorem scanChain_stop {operand : List StringView → Outcome} (stops : Formula.NoWord word rest)
    (fuel : Nat) : scanChain word operand fuel rest = .done rest := by
  cases fuel with
  | zero => rfl
  | succ fuel =>
    cases rest with
    | nil => rfl
    | cons token after =>
      rw [scanChain, stops token rfl, if_neg Bool.false_ne_true]

/-- A word that is none of the comparisons closes what stands before it. -/
theorem closes_word {word : StringView} (same : svEqCi token word = true)
    (other : findComparison word = none) (rest : List StringView) :
    Formula.Closes (token :: rest) := by
  intro first here
  cases here
  rw [findComparison_word_eq same]
  exact other

theorem noWord_word {word : StringView} (same : svEqCi token word = true) {other : String}
    (differs : svEqCi word (sv other) = false) (rest : List StringView) :
    Formula.NoWord other (token :: rest) := by
  intro first here
  cases here
  rw [svEqCi_word same]
  exact differs

/-- What the grammar derives the scan reads. -/
theorem Derives.scansOver {admits : StringView → Prop} {level : Level} {front : List StringView}
    (derives : Derives admits level front) : ScansOver level front := by
  induction derives with
  | operand admitted plain =>
    intro fuel rest enough closes
    obtain ⟨fuel, rfl⟩ : ∃ fewer, fuel = fewer + 1 := ⟨fuel - 1, by simp at enough; omega⟩
    rw [scanCmp]
    unfold scanCmpWith
    cases rest with
    | nil => exact if_neg (by rw [plain]; exact Bool.false_ne_true)
    | cons token after =>
      have none : findComparison token = none := closes token rfl
      simp only [cons_append, nil_append, plain, Bool.false_eq_true, if_false, none]
  | @test word name kind isTest admitted =>
    intro fuel rest enough closes
    obtain ⟨fuel, rfl⟩ : ∃ fewer, fuel = fewer + 1 := ⟨fuel - 1, by simp at enough; omega⟩
    obtain ⟨head, other⟩ := findUnary_head isTest
    rw [scanCmp]
    unfold scanCmpWith scanUnary
    simp only [cons_append, nil_append, head, if_true, other, Bool.false_eq_true, if_false, isTest]
  | @compare lhs op rhs kind isComparison admittedLeft plain admittedRight =>
    intro fuel rest enough closes
    obtain ⟨fuel, rfl⟩ : ∃ fewer, fuel = fewer + 1 := ⟨fuel - 1, by simp at enough; omega⟩
    rw [scanCmp]
    unfold scanCmpWith
    simp only [cons_append, nil_append, plain, Bool.false_eq_true, if_false, isComparison]
  | @negation word body isNot derives ih =>
    intro fuel rest enough closes
    have length : body.length + 1 ≤ fuel := enough
    obtain ⟨fuel, rfl⟩ : ∃ fewer, fuel = fewer + 1 := ⟨fuel - 1, by omega⟩
    have head : isCmpHead word = true := by
      rw [isCmpHead_word_eq isNot]
      decide
    rw [scanCmp]
    unfold scanCmpWith scanUnary
    simp only [cons_append, head, if_true, isNot]
    exact ih fuel rest (by omega) closes
  | @group opener closer body opens closes derives ih =>
    intro fuel rest enough ends
    have length : body.length + 2 ≤ fuel := by
      rw [length_cons, length_append, length_singleton] at enough
      omega
    obtain ⟨fuel, rfl⟩ : ∃ fewer, fuel = fewer + 1 := ⟨fuel - 1, by omega⟩
    have inside : scanLevel "OR" (scanLevel "AND" (scanCmp fuel) fuel) fuel
        (body ++ closer :: rest) = .done (closer :: rest) :=
      ih fuel fuel (closer :: rest) (by omega) (by omega) (closes_word closes (by decide) rest)
        (noWord_word closes (by decide) rest) (noWord_word closes (by decide) rest)
    have head : isCmpHead opener = true := by
      rw [isCmpHead_word_eq opens]
      decide
    have isNot : svEqCi opener (sv "NOT") = false := by
      rw [svEqCi_word opens]
      decide
    have isTest : findUnary opener = none := by
      rw [findUnary_word_eq opens]
      decide
    rw [scanCmp]
    unfold scanCmpWith scanUnary scanPrimary
    simp only [cons_append, append_assoc, nil_append, head, if_true, isNot,
      Bool.false_eq_true, if_false, isTest, opens, inside, Outcome.close, closes]
  | cmp derives ih =>
    intro fuel more rest enough enoughMore closes noAnd
    rw [ih fuel rest enough closes]
    exact scanChain_stop noAnd more
  | @conjunction word left right isAnd derivesLeft derivesRight ihLeft ihRight =>
    intro fuel more rest enough enoughMore closes noAnd
    rw [length_append, length_cons] at enough enoughMore
    obtain ⟨more, rfl⟩ : ∃ fewer, more = fewer + 1 := ⟨more - 1, by omega⟩
    rw [append_assoc, cons_append,
      ihLeft fuel _ (by omega) (closes_word isAnd (by decide) _), Outcome.andThen, scanChain,
      if_pos isAnd]
    exact ihRight fuel more rest (by omega) (by omega) closes noAnd
  | and derives ih =>
    intro fuel more rest enough enoughMore closes noAnd noOr
    have first : scanLevel "AND" (scanCmp fuel) fuel (_ ++ rest) = .done rest :=
      ih fuel fuel rest enough enough closes noAnd
    rw [first]
    exact scanChain_stop noOr more
  | @disjunction word left right isOr derivesLeft derivesRight ihLeft ihRight =>
    intro fuel more rest enough enoughMore closes noAnd noOr
    rw [length_append, length_cons] at enough enoughMore
    obtain ⟨more, rfl⟩ : ∃ fewer, more = fewer + 1 := ⟨more - 1, by omega⟩
    have first : scanLevel "AND" (scanCmp fuel) fuel (left ++ word :: (right ++ rest)) =
        .done (word :: (right ++ rest)) :=
      ihLeft fuel fuel _ (by omega) (by omega) (closes_word isOr (by decide) _)
        (noWord_word isOr (by decide) _)
    rw [append_assoc, cons_append, first, Outcome.andThen, scanChain, if_pos isOr]
    exact ihRight fuel more rest (by omega) (by omega) closes noAnd noOr

/-- The scan reads a list to its end exactly when the grammar derives it. -/
theorem scanExpr_done_iff (enough : tokens.length ≤ fuel) :
    scanExpr fuel tokens = .done [] ↔ Derives anyOperand .or tokens := by
  constructor
  · intro ended
    have conjunctions : ∀ tokens rest, scanLevel "AND" (scanCmp fuel) fuel tokens = .done rest →
        ∃ front, tokens = front ++ rest ∧ Derives anyOperand .and front :=
      fun _ _ => scanLevel_sound (fun _ _ => scanCmp_sound) (fun _ => .cmp)
        fun _ _ _ left isAnd right => .conjunction isAnd left right
    obtain ⟨front, shape, derives⟩ := scanLevel_sound conjunctions (fun _ => .and)
      (fun _ _ _ left isOr right => Derives.disjunction isOr left right) ended
    rw [shape, append_nil]
    exact derives
  · intro derives
    have closes : Formula.Closes [] := by
      intro token here
      cases here
    have read := derives.scansOver fuel fuel [] enough enough closes (noWord_nil "AND")
      (noWord_nil "OR")
    rw [append_nil] at read
    exact read

/-! ## One more operand -/

section Push

variable {operand : StringView}

variable {inner inner' : List StringView → Outcome}

/-- A chain goes on over one more operand as its parser does. -/
theorem scanChain_push (differs : svEqCi operand (sv word) = false)
    (each : ∀ tokens : List StringView, tokens.length ≤ bound → inner' (tokens ++ [operand]) =
      (inner tokens).push operand)
    (shorter : ∀ tokens rest : List StringView, inner tokens = .done rest → rest.length ≤
      tokens.length) (fits : rest.length ≤ bound) (enough : rest.length ≤ fuel)
    (enoughMore : rest.length + 1 ≤ more) :
    scanChain word inner' more (rest ++ [operand]) =
      (scanChain word inner fuel rest).push operand := by
  have stops : ∀ fuel, scanChain word inner fuel [] = .done [] :=
    fun fuel => scanChain_stop (noWord_nil word) fuel
  have stops' : ∀ fuel, scanChain word inner' fuel [] = .done [] :=
    fun fuel => scanChain_stop (noWord_nil word) fuel
  induction fuel generalizing more rest with
  | zero =>
    have empty : rest = [] := length_eq_zero_iff.mp (by omega)
    rw [empty, stops]
    apply scanChain_stop
    intro token here
    cases here
    exact differs
  | succ fuel ih =>
    obtain ⟨more, rfl⟩ : ∃ fewer, more = fewer + 1 := ⟨more - 1, by omega⟩
    cases rest with
    | nil =>
      rw [stops, nil_append, scanChain, differs, if_neg Bool.false_ne_true]
      rfl
    | cons token after =>
      rw [length_cons] at fits enough enoughMore
      rw [cons_append, scanChain, scanChain]
      by_cases more : svEqCi token (sv word) = true
      · rw [if_pos more, if_pos more, each after (by omega)]
        cases ended : inner after with
        | done middle =>
          have length := shorter after middle ended
          exact ih (by omega) (by omega) (by omega)
        | wants => exact stops' _
        | missed => rfl
      · rw [if_neg more, if_neg more]
        rfl

theorem scanLevel_push (differs : svEqCi operand (sv word) = false)
    (each : ∀ tokens : List StringView, tokens.length ≤ bound → inner' (tokens ++ [operand]) =
      (inner tokens).push operand)
    (shorter : ∀ tokens rest : List StringView, inner tokens = .done rest → rest.length ≤
      tokens.length) (enough : bound ≤ fuel) (enoughMore : bound + 1 ≤ more)
    (fits : tokens.length ≤ bound) :
    scanLevel word inner' more (tokens ++ [operand]) =
      (scanLevel word inner fuel tokens).push operand := by
  unfold scanLevel
  rw [each tokens fits]
  cases ended : inner tokens with
  | done middle =>
    have length := shorter tokens middle ended
    exact scanChain_push differs each shorter (by omega) (by omega) (by omega)
  | wants => exact scanChain_stop (noWord_nil word) more
  | missed => rfl

/-- What `scanExpr` does with one more operand follows from what `scanCmp` does. -/
theorem scanExpr_push_of (noAnd : svEqCi operand (sv "AND") = false)
    (noOr : svEqCi operand (sv "OR") = false)
    (each : ∀ tokens : List StringView, tokens.length ≤ bound → scanCmp more (tokens ++ [operand]) = (scanCmp fuel tokens).push operand)
    (enough : bound ≤ fuel) (enoughMore : bound + 1 ≤ more) (fits : tokens.length ≤ bound) :
    scanExpr more (tokens ++ [operand]) = (scanExpr fuel tokens).push operand := by
  have conjunctions : ∀ tokens : List StringView, tokens.length ≤ bound →
      scanLevel "AND" (scanCmp more) more (tokens ++ [operand]) =
        (scanLevel "AND" (scanCmp fuel) fuel tokens).push operand :=
    fun _ => scanLevel_push noAnd each (fun _ _ => scanCmp_shorter) enough enoughMore
  have shorter : ∀ tokens rest : List StringView,
      scanLevel "AND" (scanCmp fuel) fuel tokens = .done rest → rest.length ≤ tokens.length :=
    fun _ _ => scanLevel_shorter fun _ _ ended => (scanCmp_sound ended).imp fun _ both => both.1
  exact scanLevel_push noOr conjunctions shorter enough enoughMore fits

variable (plain : Formula.isOperatorWord operand = false)

include plain

/-- An operand that is no word is none of the words. -/
theorem noWord_of_plain (listed : word ∈ Formula.operatorWords) :
    svEqCi operand (sv word) = false :=
  Bool.eq_false_iff.mpr fun same =>
    absurd (any_eq_true.mpr ⟨word, listed, same⟩) (Bool.eq_false_iff.mp plain)

/-- One more operand behind the tokens. -/
theorem scanCmp_push (enough : tokens.length ≤ fuel) (enoughMore : tokens.length + 1 ≤ more) :
    scanCmp more (tokens ++ [operand]) = (scanCmp fuel tokens).push operand := by
  have head : isCmpHead operand = false := Formula.isCmpHead_of_not_word plain
  have noWord : ∀ word ∈ Formula.operatorWords, svEqCi operand (sv word) = false :=
    fun _ => noWord_of_plain plain
  have noComparison : findComparison operand = none := by
    have none : comparisonWords.find? (fun entry => svEqCi operand (sv entry.1)) = none := by
      refine List.find?_eq_none.mpr fun entry listed => ?_
      rw [noWord entry.1 (mem_append_right _ (mem_map_of_mem listed))]
      exact Bool.false_ne_true
    rw [findComparison, none]
    rfl
  have notCloser : svEqCi operand (sv ")") = false := noWord ")" (by decide)
  induction fuel generalizing more tokens with
  | zero =>
    obtain ⟨more, rfl⟩ : ∃ fewer, more = fewer + 1 := ⟨more - 1, by omega⟩
    have empty : tokens = [] := length_eq_zero_iff.mp (by omega)
    rw [empty, nil_append]
    simp only [scanCmp, scanCmpWith, head, Bool.false_eq_true, if_false]
    rfl
  | succ fuel ih =>
    obtain ⟨more, rfl⟩ : ∃ fewer, more = fewer + 1 := ⟨more - 1, by omega⟩
    rw [scanCmp, scanCmp]
    unfold scanCmpWith
    cases tokens with
    | nil =>
      rw [nil_append]
      dsimp only
      rw [head, if_neg Bool.false_ne_true]
      rfl
    | cons first after =>
      rw [length_cons] at enough enoughMore
      rw [cons_append]
      dsimp only
      by_cases isHead : isCmpHead first = true
      · rw [if_pos isHead, if_pos isHead]
        unfold scanUnary
        dsimp only
        by_cases isNot : svEqCi first (sv "NOT") = true
        · rw [if_pos isNot, if_pos isNot]
          exact ih (by omega) (by omega)
        rw [if_neg isNot, if_neg isNot]
        cases isTest : findUnary first with
        | some kind =>
          cases after with
          | nil => rfl
          | cons name rest => rfl
        | none =>
          unfold scanPrimary
          dsimp only
          have opens : svEqCi first (sv "(") = true := by
            rcases head_cases isHead with other | ⟨kind, other⟩ | opens
            · exact absurd other isNot
            · rw [isTest] at other
              cases other
            · exact opens
          rw [if_pos opens, if_pos opens]
          have inside : scanLevel "OR" (scanLevel "AND" (scanCmp more) more) more
              (after ++ [operand]) =
                (scanLevel "OR" (scanLevel "AND" (scanCmp fuel) fuel) fuel after).push operand :=
            scanExpr_push_of (noWord "AND" (by decide)) (noWord "OR" (by decide))
              (fun tokens fits => ih (by omega) (by omega)) (by omega) (by omega) (Nat.le_refl _)
          rw [inside]
          cases scanLevel "OR" (scanLevel "AND" (scanCmp fuel) fuel) fuel after with
          | wants => rfl
          | missed => rfl
          | done middle =>
            cases middle with
            | nil =>
              show (if svEqCi operand (sv ")") then _ else _ : Outcome) = _
              rw [notCloser, if_neg Bool.false_ne_true]
              rfl
            | cons closer behind =>
              show (if svEqCi closer (sv ")") then Outcome.done (behind ++ [operand])
                else .missed) = (if svEqCi closer (sv ")") then Outcome.done behind
                  else .missed).push operand
              by_cases closes : svEqCi closer (sv ")") = true
              · rw [if_pos closes, if_pos closes]
                rfl
              · rw [if_neg closes, if_neg closes]
                rfl
      · rw [if_neg isHead, if_neg isHead]
        cases after with
        | nil =>
          dsimp only [nil_append]
          rw [noComparison]
          rfl
        | cons op operands =>
          rw [cons_append]
          dsimp only
          cases findComparison op with
          | none => rfl
          | some kind =>
            cases operands with
            | nil => rfl
            | cons rhs rest => rfl

/-- One more operand makes a list derivable exactly when the scan stops at its end and wants one. -/
theorem scanExpr_wants_iff (enough : tokens.length ≤ fuel) :
    scanExpr fuel tokens = .wants ↔ Derives anyOperand .or (tokens ++ [operand]) := by
  have length : (tokens ++ [operand]).length ≤ fuel + 1 := by
    rw [length_append, length_singleton]
    omega
  have pushed : scanExpr (fuel + 1) (tokens ++ [operand]) = (scanExpr fuel tokens).push operand :=
    scanExpr_push_of (noWord_of_plain plain (by decide)) (noWord_of_plain plain (by decide))
      (fun tokens fits => scanCmp_push plain fits (by omega)) (Nat.le_refl fuel) (Nat.le_refl _)
      enough
  rw [← scanExpr_done_iff length, pushed]
  cases scanExpr fuel tokens with
  | wants => exact ⟨fun _ => rfl, fun _ => rfl⟩
  | missed => exact ⟨nofun, nofun⟩
  | done rest =>
    refine ⟨nofun, fun ended => ?_⟩
    have empty : rest ++ [operand] = [] := Outcome.done.inj ended
    exact absurd empty (append_ne_nil_of_right_ne_nil _ (cons_ne_nil _ _))

end Push

/-! ## The parser ends -/

section Ends

variable {host : Host} {allowed : Op → Prop}

/-- The parser calls no command. -/
theorem parseChain_performs {operand : List StringView → Prog Parsed}
    (each : ∀ tokens, (operand tokens).Performs allowed) (fuel : Nat) (parsed : Parsed) :
    (parseChain word combine operand fuel parsed).Performs allowed := by
  induction fuel generalizing parsed with
  | zero => exact Performs.pure _
  | succ fuel ih =>
    obtain ⟨value, rest⟩ := parsed
    cases rest with
    | nil => exact Performs.pure _
    | cons token after =>
      unfold parseChain
      dsimp only
      apply Performs.ite
      · exact (each after).bind fun next => ih _
      · exact Performs.pure _

theorem parseExprWith_performs {cmp : List StringView → Prog Parsed}
    (each : ∀ tokens, (cmp tokens).Performs allowed) (fuel : Nat) (tokens : List StringView) :
    (parseExprWith (parseAnd cmp fuel) fuel tokens).Performs allowed := by
  have conjunctions : ∀ tokens, (parseAnd cmp fuel tokens).Performs allowed :=
    fun tokens => (each tokens).bind fun _ => parseChain_performs each fuel _
  exact (conjunctions tokens).bind fun _ => parseChain_performs conjunctions fuel _

theorem closeParen_performs (fine : allowed (.emitDiag missingParen)) (parsed : Parsed) :
    (closeParen parsed).Performs allowed := by
  unfold closeParen
  split
  · apply Performs.ite (Performs.pure _)
    exact (emitDiag_performs fine).bind fun _ => Performs.pure _
  · exact (emitDiag_performs fine).bind fun _ => Performs.pure _

theorem parseCmp_performs (fine : ∀ op, allowed op) (fuel : Nat) (tokens : List StringView) :
    (parseCmp host fuel tokens).Performs allowed := by
  induction fuel generalizing tokens with
  | zero => exact Performs.pure _
  | succ fuel ih =>
    have looked : ∀ look : EvalExecContext → Parsed,
        (do let ctx ← context; pure (look ctx) : Prog Parsed).Performs allowed :=
      fun look => Performs.context.bind fun _ => Performs.pure _
    cases tokens with
    | nil => exact Performs.pure _
    | cons first rest =>
      show (parseCmpWith host _ _ (first :: rest)).Performs allowed
      unfold parseCmpWith parseUnary parsePrimary
      dsimp only
      apply Performs.ite
      · apply Performs.ite
        · exact (ih rest).bind fun _ => Performs.pure _
        cases findUnary first with
        | some kind =>
          cases rest with
          | nil => exact Performs.pure _
          | cons name rest => exact looked _
        | none =>
          apply Performs.ite
          · exact (parseExprWith_performs ih fuel rest).bind fun _ =>
              closeParen_performs (fine _) _
          · exact looked _
      · cases rest with
        | nil => exact looked _
        | cons op operands =>
          dsimp only
          cases findComparison op with
          | none => exact looked _
          | some kind =>
            cases operands with
            | nil => exact Performs.pure _
            | cons rhs rest =>
              apply Performs.context.bind
              intro ctx
              apply ((kind.run_performs host _ _).mono fun op _ => fine op).bind
              intro value
              exact Performs.pure _

end Ends

/-! ## The parser follows the scan -/

/-- A syntax diagnostic of a condition is among the steps. -/
def Diagnoses (trace : List Action) : Prop := ∃ op, op.IsSyntaxDiag ∧ .op op ∈ trace

theorem diagnoses_append {first second : List Action} :
    Diagnoses (first ++ second) ↔ Diagnoses first ∨ Diagnoses second := by
  simp only [Diagnoses, mem_append, and_or_left, exists_or]

/-- The names of the variables that a match writes. -/
def matchNames : List StringView := (matchVars [] none).map Prod.fst

/-- Every match writes the same variables. -/
theorem matchVars_names (subject : StringView) (found : Option (List (Option (Nat × Nat)))) :
    (matchVars subject found).map Prod.fst = matchNames := by
  have names : ∀ (subject : StringView) (groups : List (Option (Nat × Nat))),
      groups.length = maxRegexMatches →
      ((List.range maxRegexMatches).zip groups).map (fun entry =>
        (sv "CMAKE_MATCH_" ++ Nat.toDigits 10 entry.1, groupText subject entry.2).1) =
          (List.range maxRegexMatches).map fun index => sv "CMAKE_MATCH_" ++ Nat.toDigits 10 index := by
    intro subject groups length
    have firsts : ((List.range maxRegexMatches).zip groups).map Prod.fst =
        List.range maxRegexMatches :=
        map_fst_zip (Nat.le_of_eq (by rw [length_range, length]))
    conv_rhs => rw [← firsts, List.map_map]
    rfl
  have counted : ∀ groups : Nat → Option (Nat × Nat),
      ((List.range maxRegexMatches).map groups).length = maxRegexMatches := by
    intro groups
    rw [length_map, length_range]
  unfold matchNames matchVars
  rw [map_append, map_append, List.map_map, List.map_map]
  exact congrArg₂ (· ++ ·) ((names subject _ (counted _)).trans (names [] _ (counted _)).symm) rfl

/-- Nothing has stopped the evaluation, and no variable that a match writes is watched. -/
structure Attentive (ctx : EvalExecContext) : Prop where
  running : ctx.shouldStop = false
  unwatched : ∀ name ∈ matchNames, name ∉ ctx.state.command.watchedVariables

section Follows

variable {dispatch : Nat → Nat → StringView → List Arg → EvalExecContext → Option (Run EvalResult)}

/-- A write of a match leaves the context attentive. -/
theorem varSetCurrent_attentive (attentive : Attentive ctx) {name : StringView}
    (listed : name ∈ matchNames) (value : StringView) :
    Ends dispatch (varSetCurrent name value) ctx fun _ after => Attentive after := by
  unfold varSetCurrent
  apply Ends.context
  split
  · exact Ends.pure attentive
  have written : Attentive ((Op.modify (setCurrentChange name value)).apply ctx) := by
    refine ⟨attentive.running, ?_⟩
    have same : (ctx.state.setCurrent name value).command = ctx.state.command := by
      unfold EvalState.setCurrent
      split
      · rfl
      · rfl
    show ∀ name ∈ matchNames, name ∉ (ctx.state.setCurrent _ value).command.watchedVariables
    rw [same]
    exact attentive.unwatched
  apply Ends.perform
  unfold variableWatchNotify
  apply Ends.context
  split
  · exact Ends.pure written
  have unknown := List.idxOf?_eq_none_iff.mpr (written.unwatched name listed)
  rw [unknown]
  exact Ends.pure written

theorem setMatchVars_attentive {vars : List (StringView × StringView)}
    (listed : ∀ name ∈ vars.map Prod.fst, name ∈ matchNames) (attentive : Attentive ctx) :
    Ends dispatch (setMatchVars vars) ctx fun _ after => Attentive after := by
  induction vars generalizing ctx with
  | nil => exact Ends.pure attentive
  | cons entry rest ih =>
    have first := listed entry.1 mem_cons_self
    apply (varSetCurrent_attentive attentive first entry.2).bind
    intro written after still
    split
    · exact Ends.pure still
    · exact ih (fun name later => listed name (mem_cons_of_mem _ later)) still

/-- A comparison leaves the context attentive. -/
theorem Comparison.run_attentive (host : Host) (kind : Comparison) (lhs rhs : StringView)
    (attentive : Attentive ctx) :
    Ends dispatch (kind.run host lhs rhs) ctx fun _ after => Attentive after := by
  cases kind with
  | regex =>
    show Ends dispatch (matchesTest host lhs rhs) ctx _
    unfold matchesTest
    cases host.compileRegex rhs with
    | none => exact Ends.pure attentive
    | some search =>
      have listed : ∀ name ∈ (matchVars lhs (search lhs)).map Prod.fst, name ∈ matchNames := by
        rw [matchVars_names]
        exact fun _ => id
      apply (setMatchVars_attentive listed attentive).bind
      intro written after still
      split
      · exact Ends.pure still
      · exact Ends.pure still
  | pathEqual =>
    show Ends dispatch (context >>= fun ctx => if ctx.shouldStop then pure false
      else pure (svPathNormalize lhs == svPathNormalize rhs) : Prog Bool) ctx _
    apply Ends.context
    rw [attentive.running, if_neg Bool.false_ne_true]
    exact Ends.pure attentive
  | strequal | equal | number test | text test | version test | versionEqual | inList
  | isNewerThan => exact Ends.pure attentive

/-- The program gets to where the scan does, and it reports when the scan misses a parenthesis and
not before. -/
def Follows (program : Prog Parsed) (outcome : Outcome) : Prop :=
  ∀ dispatch (ctx : EvalExecContext), Attentive ctx → ∃ run, program.exec dispatch ctx = some run ∧
      (∀ rest, outcome.left = some rest →
        run.value.2 = rest ∧ Attentive run.ctx ∧ ¬ Diagnoses run.trace) ∧
      (outcome.left = none → Diagnoses run.trace)

/-- A program without steps. -/
theorem Follows.pure {value : Bool} (left : outcome.left = some rest) :
    Follows (Pure.pure (value, rest)) outcome := by
  intro dispatch ctx attentive
  refine ⟨⟨(value, rest), ctx, []⟩, rfl, fun other same => ?_, fun none => ?_⟩
  · rw [left] at same
    cases same
    exact ⟨rfl, attentive, fun ⟨op, _, listed⟩ => nomatch listed⟩
  · rw [left] at none
    cases none

/-- A value that is looked up. -/
theorem Follows.look {look : EvalExecContext → Bool} (left : outcome.left = some rest) :
    Follows (do let ctx ← context; Pure.pure (look ctx, rest)) outcome :=
  fun dispatch ctx attentive => Follows.pure left dispatch ctx attentive

/-- A program and what follows it. -/
theorem Follows.bind {next : Parsed → Prog Parsed} {last : Outcome}
    (first : Follows program outcome) (ends : ∀ parsed, (next parsed).Performs fun _ => True)
    (onward : ∀ value rest, outcome.left = some rest → Follows (next (value, rest)) last)
    (missed : outcome.left = none → last.left = none) : Follows (program >>= next) last := by
  intro dispatch ctx attentive
  obtain ⟨run, went, quiet, noisy⟩ := first dispatch ctx attentive
  cases left : outcome.left with
  | some rest =>
    obtain ⟨same, still, silent⟩ := quiet rest left
    obtain ⟨⟨value, tokens⟩, after, trace⟩ := run
    cases same
    obtain ⟨later, wentOn, quietLater, noisyLater⟩ := onward value _ left dispatch after still
    refine ⟨_, exec_bind dispatch went wentOn, fun rest here => ?_, fun none => ?_⟩
    · obtain ⟨same, attentive, silentLater⟩ := quietLater rest here
      exact ⟨same, attentive, fun reported =>
        (diagnoses_append.mp reported).elim silent silentLater⟩
    · exact (diagnoses_append).mpr (Or.inr (noisyLater none))
  | none =>
    obtain ⟨later, wentOn, _⟩ := (ends run.value).exec dispatch run.ctx
    refine ⟨_, exec_bind dispatch went wentOn, fun rest here => ?_, fun _ => ?_⟩
    · rw [missed left] at here
      cases here
    · exact (diagnoses_append).mpr (Or.inl (noisy left))

/-- Two outcomes that leave the same tokens are followed by the same programs. -/
theorem Follows.congr {other : Outcome} (follows : Follows program outcome)
    (same : outcome.left = other.left) : Follows program other := by
  unfold Follows at follows ⊢
  rw [← same]
  exact follows

/-- A program that goes on with the tokens that are left, where at their end nothing is left to
do. -/
theorem Follows.andThen {next : Parsed → Prog Parsed} {scan : List StringView → Outcome}
    (first : Follows program outcome) (ends : ∀ parsed, (next parsed).Performs fun _ => True)
    (onward : ∀ value rest, outcome = .done rest ∨ rest = [] → Follows (next (value, rest)) (scan rest))
    (stops : scan [] = .done []) : Follows (program >>= next) (outcome.andThen scan) := by
  cases outcome with
  | done tokens =>
    apply first.bind ends
    · intro value rest left
      cases left
      exact onward value tokens (Or.inl rfl)
    · intro missed
      cases missed
  | wants =>
    apply first.bind ends
    · intro value rest left
      cases left
      exact (onward value [] (Or.inr rfl)).congr (by rw [stops]; rfl)
    · intro missed
      cases missed
  | missed =>
    apply first.bind ends
    · intro value rest left
      cases left
    · exact fun _ => rfl

/-- A diagnostic is reported where nothing has stopped the evaluation. -/
theorem emitDiag_diagnoses {α : Type} {request : DiagRequest}
    (own : (Op.emitDiag request).IsSyntaxDiag) {next : EvalResult → Prog α}
    (ends : ∀ result, (next result).Performs fun _ => True) (running : ctx.shouldStop = false) :
    ∃ run, (emitDiag request >>= next).exec dispatch ctx = some run ∧ Diagnoses run.trace := by
  let reported : Prog EvalResult := do
    if ← Prog.shouldStop then return .fatal
    return if (effectiveSeverities ctx.runtime request.severity request.code).2 = .error
      then .softError else .ok
  have performs : reported.Performs fun _ => True := by
    apply (Performs.context.bind fun _ => Performs.pure _).bind
    intro stopped
    exact Performs.ite (Performs.pure _) (Performs.pure _)
  obtain ⟨run, went, _⟩ := (performs.bind ends).exec dispatch ((Op.emitDiag request).apply ctx)
  refine ⟨{ run with trace := .op (.emitDiag request) :: run.trace }, ?_, _, own, mem_cons_self⟩
  show ((if ctx.shouldStop = true then (Pure.pure .fatal : Prog EvalResult)
    else perform (.emitDiag request) >>= fun _ => reported) >>= next).exec dispatch ctx = _
  rw [running, if_neg Bool.false_ne_true]
  show ((reported >>= next).exec dispatch ((Op.emitDiag request).apply ctx)).map _ = _
  rw [went]
  rfl

/-- The end of a pair of parentheses reports unless the closing one is there. -/
theorem closeParen_follows (value : Bool) (left : outcome.left = some rest) :
    Follows (closeParen (value, rest)) outcome.close := by
  have missed : Follows (do
      let _ ← emitDiag missingParen
      Pure.pure (value, rest)) .missed := by
    intro dispatch ctx attentive
    obtain ⟨run, went, reported⟩ := emitDiag_diagnoses (Or.inl rfl)
      (fun _ => Performs.pure (value, rest)) attentive.running
    refine ⟨run, went, fun rest here => ?_, fun _ => reported⟩
    cases here
  cases outcome with
  | missed => cases left
  | wants =>
    cases left
    exact missed
  | done tokens =>
    cases left
    cases rest with
    | nil => exact missed
    | cons closer after =>
      unfold closeParen Outcome.close
      dsimp only
      by_cases closes : svEqCi closer (sv ")") = true
      · rw [if_pos closes, if_pos closes]
        exact Follows.pure rfl
      · rw [if_neg closes, if_neg closes]
        exact missed

variable {scanned : List StringView → Outcome}

/-- A loop of the parser follows the loop of the scan. -/
theorem parseChain_follows {operand : List StringView → Prog Parsed}
    (each : ∀ tokens : List StringView, tokens.length ≤ bound → Follows (operand tokens) (scanned
      tokens)) (ends : ∀ tokens, (operand tokens).Performs fun _ => True)
    (shorter : ∀ tokens rest : List StringView, scanned tokens = .done rest → rest.length ≤
      tokens.length) (fuel : Nat) (value : Bool) (fits : rest.length ≤ bound) :
    Follows (parseChain word combine operand fuel (value, rest))
      (scanChain word scanned fuel rest) := by
  induction fuel generalizing value rest with
  | zero => exact Follows.pure rfl
  | succ fuel ih =>
    cases rest with
    | nil => exact Follows.pure rfl
    | cons token after =>
      rw [length_cons] at fits
      unfold parseChain scanChain
      dsimp only
      by_cases more : svEqCi token (sv word) = true
      · rw [if_pos more, if_pos more]
        apply (each after (by omega)).andThen (fun _ => parseChain_performs ends fuel _) ?_
          (scanChain_stop (noWord_nil word) fuel)
        intro next rest reached
        show Follows (parseChain word combine operand fuel (combine value next, rest)) _
        rcases reached with left | empty
        · have length := shorter after rest left
          exact ih (combine value next) (by omega)
        · exact ih (combine value next) (by rw [empty]; exact Nat.zero_le _)
      · rw [if_neg more, if_neg more]
        exact Follows.pure rfl

/-- A level of the parser follows the level of the scan. -/
theorem parseLevel_follows {operand : List StringView → Prog Parsed}
    (each : ∀ tokens : List StringView, tokens.length ≤ bound → Follows (operand tokens) (scanned
      tokens)) (ends : ∀ tokens, (operand tokens).Performs fun _ => True)
    (shorter : ∀ tokens rest : List StringView, scanned tokens = .done rest → rest.length ≤
      tokens.length) (fuel : Nat) (fits : tokens.length ≤ bound) :
    Follows (operand tokens >>= parseChain word combine operand fuel)
      (scanLevel word scanned fuel tokens) := by
  apply (each tokens fits).andThen (fun _ => parseChain_performs ends fuel _) ?_
    (scanChain_stop (noWord_nil word) fuel)
  rintro value rest (left | empty)
  · have length := shorter tokens rest left
    exact parseChain_follows each ends shorter fuel value (by omega)
  · exact parseChain_follows each ends shorter fuel value (by rw [empty]; exact Nat.zero_le _)

/-- `parse_expr` follows its scan where `parse_cmp` does. -/
theorem parseExpr_follows_of {host : Host}
    (each : ∀ tokens : List StringView, tokens.length ≤ bound → Follows (parseCmp host fuel tokens) (scanCmp fuel tokens))
    (fits : tokens.length ≤ bound) :
    Follows (parseExpr host fuel tokens) (scanExpr fuel tokens) := by
  have ends : ∀ tokens, (parseCmp host fuel tokens).Performs fun _ => True :=
    parseCmp_performs (fun _ => trivial) fuel
  have conjunctions : ∀ tokens : List StringView, tokens.length ≤ bound →
      Follows (parseAnd (parseCmp host fuel) fuel tokens)
        (scanLevel "AND" (scanCmp fuel) fuel tokens) :=
    fun _ fits => parseLevel_follows each ends (fun _ _ => scanCmp_shorter) fuel fits
  have endsAnd : ∀ tokens, (parseAnd (parseCmp host fuel) fuel tokens).Performs fun _ => True :=
    fun tokens => (ends tokens).bind fun _ => parseChain_performs ends fuel _
  have shorter : ∀ tokens rest : List StringView,
      scanLevel "AND" (scanCmp fuel) fuel tokens = .done rest → rest.length ≤ tokens.length :=
    fun _ _ => scanLevel_shorter fun _ _ ended => (scanCmp_sound ended).imp fun _ both => both.1
  exact parseLevel_follows conjunctions endsAnd shorter fuel fits

/-- A comparison reports nothing and leaves the tokens behind it. -/
theorem compare_follows (host : Host) (kind : Comparison) (lhs rhs : StringView)
    (rest : List StringView) :
    Follows (do
      let ctx ← context
      let value ← kind.run host (svLookupIfVar ctx.state lhs) (svLookupIfVar ctx.state rhs)
      Pure.pure (value, rest)) (.done rest) := by
  intro dispatch ctx attentive
  obtain ⟨run, went, still⟩ := kind.run_attentive host (svLookupIfVar ctx.state lhs)
    (svLookupIfVar ctx.state rhs) attentive
  obtain ⟨again, wentAgain, quiet⟩ := (kind.run_performs host (svLookupIfVar ctx.state lhs)
    (svLookupIfVar ctx.state rhs)).exec dispatch ctx
  rw [went] at wentAgain
  cases wentAgain
  refine ⟨_, exec_bind_pure dispatch (fun value => (value, rest)) went, fun other here => ?_,
    fun none => ?_⟩
  · cases here
    refine ⟨rfl, still, ?_⟩
    rintro ⟨op, own, listed⟩
    obtain ⟨other, same, silent⟩ := quiet (.op op) listed
    cases same
    exact silent own
  · cases none

/-- The parser follows the scan. -/
theorem parseCmp_follows (host : Host) (enough : tokens.length ≤ fuel) :
    Follows (parseCmp host fuel tokens) (scanCmp fuel tokens) := by
  induction fuel generalizing tokens with
  | zero =>
    rw [length_eq_zero_iff.mp (Nat.le_zero.mp enough)]
    exact Follows.pure rfl
  | succ fuel ih =>
    cases tokens with
    | nil => exact Follows.pure rfl
    | cons first rest =>
      rw [length_cons] at enough
      show Follows (parseCmpWith host (parseCmp host fuel) (parseExpr host fuel) (first :: rest))
        (scanCmpWith (scanCmp fuel) (scanExpr fuel) (first :: rest))
      unfold parseCmpWith scanCmpWith
      dsimp only
      by_cases head : isCmpHead first = true
      · rw [if_pos head, if_pos head]
        unfold parseUnary scanUnary parsePrimary scanPrimary
        dsimp only
        by_cases isNot : svEqCi first (sv "NOT") = true
        · rw [if_pos isNot, if_pos isNot]
          apply (ih (by omega)).bind (fun _ => Performs.pure _) ?_ id
          intro value rest left
          exact Follows.pure left
        rw [if_neg isNot, if_neg isNot]
        cases findUnary first with
        | some kind =>
          cases rest with
          | nil => exact Follows.pure rfl
          | cons name rest => exact Follows.look rfl
        | none =>
          dsimp only
          by_cases opens : svEqCi first (sv "(") = true
          · rw [if_pos opens, if_pos opens]
            have inside : Follows (parseExpr host fuel rest) (scanExpr fuel rest) :=
              parseExpr_follows_of (fun _ => ih) (by omega)
            apply inside.bind (closeParen_performs trivial)
              (fun value rest => closeParen_follows value)
            intro missed
            cases ended : scanExpr fuel rest with
            | done tokens =>
              rw [ended] at missed
              cases missed
            | wants => rfl
            | missed => rfl
          · rw [if_neg opens, if_neg opens]
            exact Follows.look rfl
      · rw [if_neg head, if_neg head]
        cases rest with
        | nil => exact Follows.look rfl
        | cons op operands =>
          dsimp only
          cases findComparison op with
          | none => exact Follows.look rfl
          | some kind =>
            cases operands with
            | nil => exact Follows.pure rfl
            | cons rhs rest => exact compare_follows host kind first rhs rest

/-- The parser of whole conditions follows its scan. -/
theorem parseExpr_follows (host : Host) (enough : tokens.length ≤ fuel) :
    Follows (parseExpr host fuel tokens) (scanExpr fuel tokens) :=
  parseExpr_follows_of (fun _ => parseCmp_follows host) enough

end Follows

/-! ## What is diagnosed -/

section Diagnosed

variable (host : Host)
  (dispatch : Nat → Nat → StringView → List Arg → EvalExecContext → Option (Run EvalResult))
  {operand : StringView}

variable (plain : Formula.isOperatorWord operand = false)

include plain

/-- A list of tokens is diagnosed when neither it nor the list with one more operand is derivable. -/
theorem evalTokens_diagnoses (tokens : List StringView) (attentive : Attentive ctx) :
    ∃ run, (evalTokens host tokens).exec dispatch ctx = some run ∧
      (Diagnoses run.trace ↔ ¬ Derives anyOperand .or tokens ∧
        ¬ Derives anyOperand .or (tokens ++ [operand])) := by
  have enough : tokens.length ≤ tokens.length + 1 := Nat.le_succ _
  rw [← scanExpr_done_iff enough, ← scanExpr_wants_iff plain enough]
  obtain ⟨run, went, quiet, noisy⟩ := parseExpr_follows host enough dispatch ctx attentive
  let finish : Parsed → Prog Bool := fun parsed =>
    if parsed.2 ≠ [] then do
      let _ ← emitDiag invalidSyntax
      pure false
    else pure parsed.1
  have whole : evalTokens host tokens = parseExpr host (tokens.length + 1) tokens >>= finish := rfl
  have ends : ∀ parsed, (finish parsed).Performs fun _ => True := fun parsed =>
    Performs.ite ((emitDiag_performs trivial).bind fun _ => Performs.pure _) (Performs.pure _)
  have silent : run.value.2 = [] → ¬ Diagnoses run.trace →
      ∃ later, (evalTokens host tokens).exec dispatch ctx = some later ∧
        ¬ Diagnoses later.trace := by
    intro empty unreported
    have last : (finish run.value).exec dispatch run.ctx = some ⟨run.value.1, run.ctx, []⟩ := by
      show (if run.value.2 ≠ [] then _ else _ : Prog Bool).exec dispatch run.ctx = _
      rw [if_neg (not_not_intro empty)]
      rfl
    refine ⟨_, whole ▸ exec_bind dispatch went last, fun reported => ?_⟩
    rcases diagnoses_append.mp reported with before | ⟨op, _, listed⟩
    · exact unreported before
    · exact nomatch listed
  cases ended : scanExpr (tokens.length + 1) tokens with
  | missed =>
    obtain ⟨later, wentOn, _⟩ := (ends run.value).exec dispatch run.ctx
    refine ⟨_, whole ▸ exec_bind dispatch went wentOn, fun _ => ⟨nofun, nofun⟩, fun _ => ?_⟩
    exact diagnoses_append.mpr (Or.inl (noisy (by rw [ended]; rfl)))
  | wants =>
    obtain ⟨empty, _, unreported⟩ := quiet [] (by rw [ended]; rfl)
    obtain ⟨later, wentOn, quietly⟩ := silent empty unreported
    exact ⟨later, wentOn, fun reported => absurd reported quietly, fun both => absurd rfl both.2⟩
  | done rest =>
    obtain ⟨left, still, unreported⟩ := quiet rest (by rw [ended]; rfl)
    cases rest with
    | nil =>
      obtain ⟨later, wentOn, quietly⟩ := silent left unreported
      exact ⟨later, wentOn, fun reported => absurd reported quietly, fun both => absurd rfl both.1⟩
    | cons token rest =>
      obtain ⟨later, wentOn, reported⟩ := @emitDiag_diagnoses run.ctx dispatch Bool
        invalidSyntax (Or.inr rfl) (fun _ => pure false) (fun _ => Performs.pure _) still.running
      have last : (finish run.value).exec dispatch run.ctx = some later := by
        show (if run.value.2 ≠ [] then _ else _ : Prog Bool).exec dispatch run.ctx = _
        rw [left, if_pos (cons_ne_nil token rest)]
        exact wentOn
      refine ⟨_, whole ▸ exec_bind dispatch went last, fun _ => ⟨nofun, nofun⟩, fun _ => ?_⟩
      exact diagnoses_append.mpr (Or.inr reported)

/-- No operand goes on with a list that the grammar derives. -/
theorem Derives.not_push (derives : Derives anyOperand .or tokens) :
    ¬ Derives anyOperand .or (tokens ++ [operand]) := by
  have enough : tokens.length ≤ tokens.length := Nat.le_refl _
  intro pushed
  have ended := (scanExpr_done_iff enough).mpr derives
  have wants := (scanExpr_wants_iff plain enough).mpr pushed
  rw [ended] at wants
  cases wants

/-- Evaluating a condition reports a syntax diagnostic when neither its tokens nor its tokens with
one more operand are derivable. -/
theorem evalCondition_diagnoses {condition : List Arg} {resolved : Run (List StringView)}
    (resolves : (resolveArgs host condition).exec dispatch ctx = some resolved)
    (attentive : Attentive resolved.ctx) :
    ∃ run, (evalCondition host condition).exec dispatch ctx = some run ∧
      (Diagnoses run.trace ↔ ¬ Derives anyOperand .or resolved.value ∧
        ¬ Derives anyOperand .or (resolved.value ++ [operand])) := by
  obtain ⟨again, resolvesAgain, fine⟩ :=
    (resolveArgs_performs (fun _ own => noSyntaxDiag_emitDiag (by rw [own]; decide)) host
      condition).exec dispatch ctx
  have sameRun : again = resolved := Option.some.inj (resolvesAgain.symm.trans resolves)
  rw [sameRun] at fine
  have before : ¬ Diagnoses resolved.trace := by
    rintro ⟨op, own, listed⟩
    obtain ⟨other, same, silent⟩ := fine (.op op) listed
    cases same
    exact silent own
  by_cases empty : resolved.value = []
  · have stopped : (if (resolved.ctx.shouldStop || resolved.value.isEmpty) = true then pure false
        else evalTokens host resolved.value : Prog Bool).exec dispatch resolved.ctx =
          some ⟨false, resolved.ctx, []⟩ := by
      rw [empty, isEmpty_nil, Bool.or_true, if_pos rfl]
      rfl
    refine ⟨_, exec_bind dispatch resolves stopped, ?_⟩
    have single : Derives anyOperand .or (resolved.value ++ [operand]) := by
      rw [empty]
      exact .and (.cmp (.operand trivial (Formula.isCmpHead_of_not_word plain)))
    rw [append_nil]
    exact ⟨fun reported => absurd reported before, fun both => absurd single both.2⟩
  · obtain ⟨run, went, reports⟩ := evalTokens_diagnoses host dispatch plain resolved.value attentive
    have continued : (if (resolved.ctx.shouldStop || resolved.value.isEmpty) = true then pure false
        else evalTokens host resolved.value : Prog Bool).exec dispatch resolved.ctx = some run := by
      rw [attentive.running, isEmpty_eq_false_iff.mpr empty, Bool.or_false,
        if_neg Bool.false_ne_true]
      exact went
    refine ⟨_, exec_bind dispatch resolves continued, ?_⟩
    rw [← reports]
    exact ⟨fun reported => (diagnoses_append.mp reported).resolve_left before,
      fun reported => diagnoses_append.mpr (Or.inr reported)⟩

omit plain

/-- Evaluating a condition reports a syntax diagnostic exactly when the grammar does not derive the
tokens, for those lists of tokens that one more operand does not make derivable, and in which no
token stands as an operand that the grammar does not admit. -/
theorem evalCondition_diagnoses_iff (admits : StringView → Prop)
    (plain : Formula.isOperatorWord operand = false) {ctx : EvalExecContext} {condition : List Arg}
    {resolved : Run (List StringView)}
    (resolves : (resolveArgs host condition).exec dispatch ctx = some resolved)
    (running : resolved.ctx.shouldStop = false)
    (unwatched : ∀ name ∈ matchNames, name ∉ resolved.ctx.state.command.watchedVariables) :
    ∃ run, (evalCondition host condition).exec dispatch ctx = some run ∧
      ((Diagnoses run.trace ↔ ¬ Derives admits .or resolved.value) ↔
        ¬ Derives anyOperand .or (resolved.value ++ [operand]) ∧
          (Derives anyOperand .or resolved.value → Derives admits .or resolved.value)) := by
  obtain ⟨run, went, reports⟩ :=
    evalCondition_diagnoses host dispatch plain resolves ⟨running, unwatched⟩
  have weaker : Derives admits .or resolved.value → Derives anyOperand .or resolved.value :=
    Derives.mono fun _ _ => trivial
  refine ⟨run, went, fun meets => ⟨fun wants => ?_, fun derives => ?_⟩, fun holds => ?_⟩
  · -- the list stops where an operand is wanted: nothing is reported
    have quiet : ¬ Diagnoses run.trace := fun reported => (reports.mp reported).2 wants
    have admitted : Derives admits .or resolved.value :=
      Classical.not_not.mp fun underived => quiet (meets.mpr underived)
    exact (weaker admitted).not_push plain wants
  · exact Classical.not_not.mp fun underived => (reports.mp (meets.mpr underived)).1 derives
  · constructor
    · exact fun reported derives => (reports.mp reported).1 (weaker derives)
    · exact fun underived => reports.mpr ⟨fun derives => underived (holds.2 derives), holds.1⟩

/-- `if(( A )`, where the parenthesis is not closed. -/
theorem evalCondition_diagnoses_iff_open :
    ∃ run, (evalCondition bareHost (["(", "A"].map wordArg)).exec noCommands freshContext =
        some run ∧
      ((Diagnoses run.trace ↔ ¬ Derives anyOperand .or [sv "(", sv "A"]) ↔
        ¬ Derives anyOperand .or [sv "(", sv "A", sv "x"] ∧
          (Derives anyOperand .or [sv "(", sv "A"] → Derives anyOperand .or [sv "(", sv "A"])) :=
  @evalCondition_diagnoses_iff bareHost noCommands (sv "x") anyOperand (by decide) freshContext
    (["(", "A"].map wordArg) ⟨[sv "(", sv "A"], freshContext, []⟩ rfl rfl
    (fun _ _ => not_mem_nil)

/-- `if(A AND)` is false without a diagnostic, and no grammar of conditions derives it. -/
theorem evalCondition_silent :
    ∃ run, (evalCondition bareHost (["A", "AND"].map wordArg)).exec noCommands freshContext =
        some run ∧ run.value = false ∧
      ¬ (Diagnoses run.trace ↔ ¬ Derives anyOperand .or [sv "A", sv "AND"]) := by
  refine ⟨⟨false, freshContext, []⟩, rfl, rfl, fun same => ?_⟩
  have underived : ¬ Derives anyOperand .or [sv "A", sv "AND"] := by
    rw [← scanExpr_done_iff (Nat.le_refl _)]
    decide
  obtain ⟨op, _, listed⟩ := same.mpr underived
  exact not_mem_nil listed

end Diagnosed

end Nobify.Evaluator
