import Nobify.Genex.TreeText

/-!
# Evaluating the text of a tree

`gx_eval_root` on the text of a tree gives the denotation of the tree. The scanners find the
expressions of the text, and the operator and arguments of each, at every level as the tree has
them; what an operator does with its arguments is then what it denotes, because the arguments are
evaluated by the same function.
-/

namespace Nobify.Genex

open BuildModel (splitTopLevel)
open List

variable {text : List Piece} {setting : Setting}

/-! ## Denotations -/

/-- The characters of names are letters and underscores. -/
def isNameChar (char : Char) : Bool := ('A' ≤ char && char ≤ 'Z') || char == '_'

/-- The names of the operators are such names, and without regard to case they differ. -/
theorem operatorNames_plain :
    (operatorNames.Pairwise fun early late => svEqCi (sv late.1) (sv early.1) = false) ∧
      ∀ entry ∈ operatorNames, ((sv entry.1).map Char.toUpper).all isNameChar = true := by
  decide +kernel

/-- The operators of trees are found by their names. -/
theorem findOperator_name (op : Operator) : findOperator op.name = some op := by
  have listed : (operatorNames.find? fun entry => entry.2 = op).isSome = true := by
    cases op <;> rfl
  obtain ⟨entry, found⟩ := Option.isSome_iff_exists.mp listed
  have named : op.name = sv entry.1 := by rw [Operator.name, found, Option.map_some, Option.getD_some]
  have own : entry.2 = op := by simpa using List.find?_some found
  obtain ⟨before, after, split⟩ := append_of_mem (mem_of_find?_eq_some found)
  have apart := (operatorNames_plain).1
  rw [split, pairwise_append] at apart
  have first : operatorNames.find? (fun other => svEqCi (sv entry.1) (sv other.1)) = some entry := by
    rw [List.find?_eq_some_iff_append]
    refine ⟨beq_self_eq_true _, before, after, split, fun other early => ?_⟩
    rw [apart.2.2 other early entry mem_cons_self]
    rfl
  rw [named, findOperator, first, Option.map_some, own]

/-- A tree of literals denotes its text. -/
theorem textDenotes_literals (setting : Setting) (literals : text.any (!·.isLiteral) = false) :
    textDenotes setting text = renderText text := by
  induction text with
  | nil => rfl
  | cons piece rest ih =>
    rw [any_cons, Bool.or_eq_false_iff] at literals
    cases piece with
    | literal text => rw [textDenotes, renderText, ih literals.2, Piece.denotes, Piece.render]
    | expression op args => cases literals.1
    | conditional condition value => cases literals.1

/-- The values of the setting can be made C strings. -/
def Setting.NulFree (setting : Setting) : Prop :=
  '\x00' ∉ setting.config ∧ '\x00' ∉ setting.platformId

theorem truthValue_nulFree (holds : Bool) : '\x00' ∉ truthValue holds := by
  cases holds <;> decide

/-- An operator denotes a value of the setting, a truth value, or what an argument denotes. -/
theorem operatorValue_nulFree (clean : setting.NulFree) (op : Operator) {values : List StringView}
    (free : ∀ value ∈ values, '\x00' ∉ value) : '\x00' ∉ operatorValue setting op values := by
  have one : ∀ {holds : Bool} {left right : StringView}, '\x00' ∉ left → '\x00' ∉ right →
      '\x00' ∉ if holds = true then left else right := by
    intro holds left right first second
    cases holds
    · exact second
    · exact first
  unfold operatorValue
  split
  · exact clean.1
  · exact truthValue_nulFree _
  · exact clean.2
  · exact truthValue_nulFree _
  · exact truthValue_nulFree _
  · exact one (free _ mem_cons_self) not_mem_nil
  · exact one (free _ mem_cons_self) not_mem_nil
  · exact truthValue_nulFree _
  · exact truthValue_nulFree _
  · exact truthValue_nulFree _
  · exact truthValue_nulFree _
  · exact truthValue_nulFree _
  · exact one (free _ (by simp)) (free _ (by simp))
  · exact free _ mem_cons_self
  · exact not_mem_nil

/-- A tree that fits denotes a text that can be made a C string. -/
theorem textDenotes_nulFree (clean : setting.NulFree) (fits : textFits text = true) :
    '\x00' ∉ textDenotes setting text := by
  induction text using tree_induction with
  | nil => exact not_mem_nil
  | literal text rest ih =>
    have parts := textFits_cons fits
    have own : literalFits text = true := parts.1
    simp only [literalFits, Bool.and_eq_true, Bool.not_eq_true', contains_eq_mem,
      decide_eq_false_iff_not] at own
    rw [textDenotes, mem_append]
    exact not_or.mpr ⟨own.2, ih parts.2⟩
  | expression op args rest argsIh ih =>
    have parts := textFits_cons fits
    have fine := (expression_fits parts.1).2
    have own : '\x00' ∉ operatorValue setting op (argsDenote setting args) := by
      apply operatorValue_nulFree clean
      rw [argsDenote_eq_map]
      intro value listed
      obtain ⟨arg, member, same⟩ := mem_map.mp listed
      rw [← same]
      exact argsIh arg member (fine arg member)
    rw [textDenotes, mem_append]
    exact not_or.mpr ⟨own, ih parts.2⟩
  | conditional condition value rest conditionIh valueIh ih =>
    have parts := textFits_cons fits
    have fine := (conditional_fits parts.1).2.2
    have own : '\x00' ∉ (Piece.conditional condition value).denotes setting := by
      rw [Piece.denotes]
      by_cases holds : truthy (textDenotes setting condition) = true
      · rw [if_pos holds]
        exact valueIh fine.2
      · rw [if_neg holds]
        exact not_mem_nil
    rw [textDenotes, mem_append]
    exact not_or.mpr ⟨own, ih parts.2⟩

/-! ## Operators -/

section Operators

variable {inner : Context → PropertyStack → StringView → Evaluated StringView} {ctx : Context}
  {stack : PropertyStack}

/-- An argument without an expression is not evaluated, and denotes its text. -/
theorem evalArgFast_tree {arg : List Piece} (fits : textFits arg = true)
    (known : inner ctx stack (renderText arg) = .ok (textDenotes ctx.setting arg)) :
    evalArgFast inner ctx stack (renderText arg) = .ok (textDenotes ctx.setting arg) := by
  unfold evalArgFast
  rw [svTrim_renderText fits, containsGenex_renderText fits]
  by_cases nested : arg.any (!·.isLiteral) = true
  · rw [if_pos nested]
    exact known
  · rw [if_neg nested, textDenotes_literals ctx.setting (Bool.eq_false_iff.mpr nested)]

section Args

variable {args : List (List Piece)}
  (known : ∀ arg ∈ args, inner ctx stack (renderText arg) = .ok (textDenotes ctx.setting arg))

include known

/-- The loops of `CONFIG`, `PLATFORM_ID` and `COMPILE_LANGUAGE`. -/
theorem matchesAny_trees (needle : StringView) (fits : ∀ arg ∈ args, textFits arg = true) :
    matchesAny inner ctx stack needle (renderArgs args) =
      .ok (truthValue ((argsDenote ctx.setting args).any (listMatchesValueCi · needle))) := by
  induction args with
  | nil => rfl
  | cons arg rest ih =>
    have first := evalArgFast_tree (fits arg mem_cons_self) (known arg mem_cons_self)
    have later := ih (fun other listed => known other (mem_cons_of_mem arg listed))
      (fun other listed => fits other (mem_cons_of_mem arg listed))
    rw [renderArgs, matchesAny, first, argsDenote, any_cons]
    by_cases here : listMatchesValueCi (textDenotes ctx.setting arg) needle = true
    · show (if _ then _ else _ : Evaluated StringView) = _
      rw [if_pos here, here, Bool.true_or]
    · show (if _ then _ else _ : Evaluated StringView) = _
      rw [if_neg here, later, Bool.eq_false_iff.mpr here, Bool.false_or]

/-- The loop of `AND` and `OR`. -/
theorem evalLogical_trees (wantAnd : Bool) : evalLogical inner ctx stack wantAnd (renderArgs args) =
      .ok (truthValue (if wantAnd then (argsDenote ctx.setting args).all truthy
        else (argsDenote ctx.setting args).any truthy)) := by
  induction args with
  | nil => cases wantAnd <;> rfl
  | cons arg rest ih =>
    have first := known arg mem_cons_self
    have later := ih fun other listed => known other (mem_cons_of_mem arg listed)
    rw [renderArgs, evalLogical, first, argsDenote, any_cons, all_cons]
    show (if _ then _ else _ : Evaluated StringView) = _
    rw [later, truthy]
    cases wantAnd <;> cases cmakeStringIsFalse (textDenotes ctx.setting arg) <;> rfl

end Args

/-- Only no text and an empty text are joined to nothing. -/
theorem joinCommas_eq_nil {args : List StringView} (empty : joinCommas args = []) :
    args = [] ∨ args = [[]] := by
  cases args with
  | nil => exact .inl rfl
  | cons arg rest =>
    cases rest with
    | nil => exact .inr (congrArg (fun text => [text]) empty)
    | cons next rest => simp [joinCommas] at empty

theorem renderArgs_length (args : List (List Piece)) : (renderArgs args).length = args.length := by
  rw [renderArgs_eq_map, length_map]

/-- No entry of a list is an empty name. -/
theorem listMatchesValueCi_nil (entries : StringView) : listMatchesValueCi entries [] = false := by
  unfold listMatchesValueCi
  rw [any_eq_false]
  intro entry _ found
  rw [Bool.and_eq_true] at found
  cases trimmed : svTrim entry with
  | nil =>
    rw [trimmed] at found
    cases found.1
  | cons char rest =>
    rw [trimmed] at found
    cases found.2

/-- A query of a name against a list that is empty, or the name, fails. -/
theorem compileLanguage_unmatched {args : List (List Piece)}
    (fits : ∀ arg ∈ args, textFits arg = true)
    (unset : setting.compileLanguage = [] ∨ joinCommas (renderArgs args) = []) :
    (argsDenote setting args).any (listMatchesValueCi · setting.compileLanguage) = false := by
  rcases unset with unset | empty
  · rw [unset, any_eq_false]
    intro value _ found
    rw [listMatchesValueCi_nil] at found
    cases found
  · rcases joinCommas_eq_nil empty with none | blank
    · rw [renderArgs_eq_map, map_eq_nil_iff] at none
      rw [none]
      rfl
    · rw [renderArgs_eq_map] at blank
      obtain ⟨arg, one, text⟩ := map_eq_singleton_iff.mp blank
      have own := fits arg (by rw [one]; exact mem_singleton_self arg)
      have literals := containsGenex_renderText own
      rw [text] at literals
      rw [one, argsDenote, argsDenote, textDenotes_literals setting literals.symm, text]
      rfl

/-- The only argument of an operator that takes one. -/
theorem single_argument {args : List (List Piece)} (one : (renderArgs args).length = 1) :
    ∃ arg, args = [arg] := by
  rw [renderArgs_length] at one
  exact length_eq_one_iff.mp one

section Tree

variable {args : List (List Piece)} (fits : ∀ arg ∈ args, textFits arg = true)
  (known : ∀ arg ∈ args, inner ctx stack (renderText arg) = .ok (textDenotes ctx.setting arg))

include fits known

/-- `CONFIG` and `PLATFORM_ID`: a value without arguments, a comparison with them otherwise. -/
theorem evalQuery_tree (accepts : renderArgs args ≠ [[]]) (value : StringView) :
    (if joinCommas (renderArgs args) = [] then .ok value
      else matchesAny inner ctx stack value (splitTopLevel ',' (joinCommas (renderArgs args))) :
        Evaluated StringView) =
      .ok (if args = [] then value
        else truthValue ((argsDenote ctx.setting args).any (listMatchesValueCi · value))) := by
  by_cases none : args = []
  · rw [none]
    rfl
  · have some : joinCommas (renderArgs args) ≠ [] := by
      intro empty
      rcases joinCommas_eq_nil empty with nothing | blank
      · rw [renderArgs_eq_map, map_eq_nil_iff] at nothing
        exact none nothing
      · exact accepts blank
    rw [if_neg some, if_neg none, splitTopLevel_renderArgs none fits,
      matchesAny_trees known value fits]

/-- An operator of a tree does with its arguments what it denotes. -/
theorem evalOperator_tree {op : Operator} (raw : StringView)
    (accepts : op.accepts (renderArgs args) = true)
    (again : op = .genexEval → ∀ arg ∈ args,
      inner ctx stack (textDenotes ctx.setting arg) = .ok (textDenotes ctx.setting arg)) :
    evalOperator inner ctx stack raw (joinCommas (renderArgs args)) op =
      .ok (operatorValue ctx.setting op (argsDenote ctx.setting args)) := by
  -- The operators that split their arguments take at least one.
  have apart : args ≠ [] → splitTopLevel ',' (joinCommas (renderArgs args)) = renderArgs args :=
    fun some => splitTopLevel_renderArgs some fits
  cases op with
  | config =>
    have query := evalQuery_tree fits known (bne_iff_ne.mp accepts) ctx.config
    rw [evalOperator, query]
    cases args <;> rfl
  | platformId =>
    have query := evalQuery_tree fits known (bne_iff_ne.mp accepts) ctx.platformId
    rw [evalOperator, query]
    cases args <;> rfl
  | compileLanguage =>
    rw [evalOperator]
    by_cases unset : svTrim ctx.compileLanguage = [] ∨ joinCommas (renderArgs args) = []
    · have unmatched : (argsDenote ctx.setting args).any
          (listMatchesValueCi · ctx.setting.compileLanguage) = false :=
        compileLanguage_unmatched fits unset
      rw [if_pos unset, operatorValue, unmatched]
    · have some : args ≠ [] := fun none => unset (.inr (by rw [none]; rfl))
      rw [if_neg unset, apart some, matchesAny_trees known _ fits]
      rfl
  | buildInterface =>
    obtain ⟨arg, rfl⟩ := single_argument (beq_iff_eq.mp accepts)
    have value := known arg (mem_singleton_self arg)
    rw [evalOperator, evalActive]
    show (if _ then inner ctx stack (renderText arg) else _ : Evaluated StringView) = _
    rw [value]
    cases active : ctx.buildInterfaceActive <;>
      simp [operatorValue, argsDenote, Context.setting, active]
  | installInterface =>
    obtain ⟨arg, rfl⟩ := single_argument (beq_iff_eq.mp accepts)
    have value := known arg (mem_singleton_self arg)
    rw [evalOperator, evalActive]
    show (if _ then inner ctx stack (renderText arg) else _ : Evaluated StringView) = _
    rw [value]
    cases active : ctx.installInterfaceActive <;>
      simp [operatorValue, argsDenote, Context.setting, active]
  | bool =>
    obtain ⟨arg, rfl⟩ := single_argument (beq_iff_eq.mp accepts)
    have value := known arg (mem_singleton_self arg)
    rw [evalOperator]
    show (inner ctx stack (renderText arg)).map _ = _
    rw [value]
    rfl
  | not =>
    obtain ⟨arg, rfl⟩ := single_argument (beq_iff_eq.mp accepts)
    have value := known arg (mem_singleton_self arg)
    rw [evalOperator]
    show (inner ctx stack (renderText arg)).map _ = _
    rw [value]
    show Except.ok (truthValue (cmakeStringIsFalse _)) = .ok (truthValue !!cmakeStringIsFalse _)
    rw [Bool.not_not]
  | and =>
    have some : args ≠ [] := fun none => by
      rw [none] at accepts
      cases accepts
    rw [evalOperator, apart some, evalLogical_trees known]
    rfl
  | or =>
    have some : args ≠ [] := fun none => by
      rw [none] at accepts
      cases accepts
    rw [evalOperator, apart some, evalLogical_trees known]
    rfl
  | strequal =>
    have two := (renderArgs_length args).symm.trans (beq_iff_eq.mp accepts)
    obtain ⟨left, right, rfl⟩ := length_eq_two.mp two
    have first := known left (by simp)
    have second := known right (by simp)
    rw [evalOperator, apart (cons_ne_nil _ _)]
    show (inner ctx stack (renderText left)).bind _ = _
    rw [first]
    show (inner ctx stack (renderText right)).bind _ = _
    rw [second]
    rfl
  | ifThenElse =>
    have three := (renderArgs_length args).symm.trans (beq_iff_eq.mp accepts)
    obtain ⟨condition, yes, no, rfl⟩ := length_eq_three.mp three
    have first := known condition (by simp)
    have second := known yes (by simp)
    have third := known no (by simp)
    rw [evalOperator, apart (cons_ne_nil _ _)]
    show (inner ctx stack (renderText condition)).bind _ = _
    rw [first]
    show inner ctx stack (if cmakeStringIsFalse (textDenotes ctx.setting condition) = true
      then renderText no else renderText yes) = .ok (if truthy (textDenotes ctx.setting condition)
        then textDenotes ctx.setting yes else textDenotes ctx.setting no)
    rw [truthy]
    cases cmakeStringIsFalse (textDenotes ctx.setting condition) with
    | true => exact third
    | false => exact second
  | genexEval =>
    obtain ⟨arg, rfl⟩ := single_argument (beq_iff_eq.mp accepts)
    have value := known arg (mem_singleton_self arg)
    rw [evalOperator]
    show (inner ctx stack (renderText arg)).bind _ = _
    rw [value]
    exact again rfl arg (mem_singleton_self arg)
  | _ => cases accepts

end Tree

/-- A text with a character that is not one of names is no operator. -/
theorem findOperator_of_mem {op : StringView} {char : Char} (inside : char ∈ op)
    (foreign : isNameChar char.toUpper = false) : findOperator op = none := by
  rw [findOperator, Option.map_eq_none_iff, List.find?_eq_none]
  intro entry listed same
  have upper : char.toUpper ∈ op.map Char.toUpper := mem_map_of_mem inside
  rw [beq_iff_eq.mp same] at upper
  have named := all_eq_true.mp (operatorNames_plain.2 entry listed) char.toUpper upper
  rw [foreign] at named
  cases named

/-- The name of no operator holds a bracket. -/
theorem findOperator_bracket {op : StringView} (bracket : '<' ∈ op) : findOperator op = none :=
  findOperator_of_mem bracket (by decide)

/-- An expression in a tree leaves a bracket in its text. -/
theorem bracket_mem_renderText (nested : text.any (!·.isLiteral) = true) :
    '<' ∈ renderText text := by
  induction text with
  | nil => cases nested
  | cons piece rest ih =>
    rw [renderText, mem_append]
    cases kind : piece.isLiteral with
    | false =>
      rw [piece.render_eq kind]
      exact .inl (mem_cons_of_mem '$' mem_cons_self)
    | true =>
      rw [any_cons, kind, Bool.not_true, Bool.false_or] at nested
      exact .inr (ih nested)

/-- What stands before the colon of a condition is no name. -/
theorem findOperator_condition {condition : List Piece}
    (conditions : isCondition condition = true) : findOperator (renderText condition) = none := by
  simp only [isCondition, Bool.or_eq_true, beq_iff_eq] at conditions
  rcases conditions with (nested | zero) | one
  · exact findOperator_bracket (bracket_mem_renderText nested)
  · rw [zero]
    exact @findOperator_of_mem _ '0' (by decide) (by decide)
  · rw [one]
    exact @findOperator_of_mem _ '1' (by decide) (by decide)

/-- A condition before a value evaluates to what it denotes. -/
theorem evalBody_conditional {condition value : List Piece}
    (fits : (Piece.conditional condition value).fits = true)
    (first : inner ctx stack (renderText condition) = .ok (textDenotes ctx.setting condition))
    (second : inner ctx stack (renderText value) = .ok (textDenotes ctx.setting value)) :
    evalBody inner ctx stack (Piece.conditional condition value).body =
      .ok ((Piece.conditional condition value).denotes ctx.setting) := by
  have parts := conditional_fits fits
  have opens : renderText value ≠ [] ∧ (containsGenex (renderText condition) = true ∨
      renderText condition = sv "0" ∨ renderText condition = sv "1") := by
    refine ⟨parts.2.1, ?_⟩
    rw [containsGenex_renderText parts.2.2.1]
    have conditions := parts.1
    simp only [isCondition, Bool.or_eq_true, beq_iff_eq] at conditions
    exact or_assoc.mp conditions
  unfold evalBody
  rw [Piece.body, splitOperator_conditional parts.2.2.1]
  dsimp only
  rw [findOperator_condition parts.1]
  dsimp only
  unfold evalUnnamed
  rw [if_neg (fun nested => parts.2.1 nested.1), if_pos opens]
  show (inner ctx stack (renderText condition)).bind _ = _
  rw [first]
  show (if cmakeStringIsFalse (textDenotes ctx.setting condition) = true then .ok []
    else inner ctx stack (renderText value) : Evaluated StringView) = .ok
      (if truthy (textDenotes ctx.setting condition) then textDenotes ctx.setting value else [])
  rw [second, truthy]
  cases cmakeStringIsFalse (textDenotes ctx.setting condition) <;> rfl

end Operators

/-! ## Levels -/

/-- The bodies of the expressions of a tree evaluate to what the expressions denote, wherever the
tree is not deeper than the levels that are left. -/
def BodiesEvaluate (ctx : Context) (text : List Piece) : Prop :=
  ∀ room stack, textFits text = true → textDepth text ≤ room →
    textSettled ctx.setting text = true → ∀ piece ∈ text, piece.isLiteral = false →
      evalBody (evalInner room) ctx stack piece.body = .ok (piece.denotes ctx.setting)

/-- The stretches of a text evaluate to what the pieces denote. -/
theorem mapM_segmentsOf {inner : Context → PropertyStack → StringView → Evaluated StringView}
    {ctx : Context} {stack : PropertyStack}
    (bodies : ∀ piece ∈ text, piece.isLiteral = false → evalBody inner ctx stack piece.body =
      .ok (piece.denotes ctx.setting))
    (before : StringView) :
    ∃ parts, (segmentsOf before text).mapM (evalSegment inner ctx stack) = .ok parts ∧
      parts.flatten = before ++ textDenotes ctx.setting text := by
  induction text generalizing before with
  | nil => exact ⟨[before], rfl, by simp [textDenotes]⟩
  | cons piece rest ih =>
    have later := @ih fun other listed => bodies other (mem_cons_of_mem piece listed)
    cases kind : piece.isLiteral with
    | true =>
      cases piece with
      | literal text =>
        obtain ⟨parts, evaluated, whole⟩ := later (before ++ text)
        refine ⟨parts, evaluated, ?_⟩
        rw [whole, textDenotes, Piece.denotes, append_assoc]
      | expression op args => cases kind
      | conditional condition value => cases kind
    | false =>
      have own := bodies piece mem_cons_self kind
      obtain ⟨parts, evaluated, whole⟩ := later []
      have listed : segmentsOf before (piece :: rest) =
          .text before :: .expression piece.body :: segmentsOf [] rest := by
        cases piece with
        | literal text => cases kind
        | expression op args => rfl
        | conditional condition value => rfl
      refine ⟨before :: piece.denotes ctx.setting :: parts, ?_, ?_⟩
      · rw [listed, mapM_cons, mapM_cons, evaluated, evalSegment, evalSegment, own]
        rfl
      · rw [flatten_cons, flatten_cons, whole, textDenotes, nil_append]

/-- A text without an expression evaluates to itself. -/
theorem evalInner_plain (room : Nat) (ctx : Context) (stack : PropertyStack) {text : StringView}
    (plain : containsGenex text = false) : evalInner (room + 1) ctx stack text = .ok text := by
  rw [evalInner, if_neg (by rw [plain]; exact Bool.false_ne_true)]

/-- A tree whose bodies evaluate evaluates. -/
theorem BodiesEvaluate.evaluates {ctx : Context} (clean : ctx.setting.NulFree)
    (bodies : BodiesEvaluate ctx text) {room : Nat} (stack : PropertyStack)
    (fits : textFits text = true) (deep : textDepth text ≤ room)
    (settled : textSettled ctx.setting text = true) :
    evalInner (room + 1) ctx stack (renderText text) = .ok (textDenotes ctx.setting text) := by
  by_cases nested : containsGenex (renderText text) = true
  · obtain ⟨parts, evaluated, whole⟩ := mapM_segmentsOf (bodies room stack fits deep settled) []
    rw [evalInner, if_pos nested, segments_renderText fits, evaluated]
    show Except.ok (svToCstr parts.flatten) = _
    rw [whole, nil_append, svToCstr_eq_self (textDenotes_nulFree clean fits)]
  · have literals := Bool.eq_false_iff.mpr nested
    rw [evalInner_plain room ctx stack literals]
    rw [containsGenex_renderText fits] at literals
    rw [textDenotes_literals ctx.setting literals]

/-- The bodies of every tree evaluate: the arguments of an expression have a level less left, and
are no deeper than that. -/
theorem bodiesEvaluate {ctx : Context} (clean : ctx.setting.NulFree) (text : List Piece) :
    BodiesEvaluate ctx text := by
  induction text using tree_induction with
  | nil => exact fun _ _ _ _ _ piece listed => nomatch listed
  | literal text rest ih =>
    intro room stack fits deep settled piece listed kind
    have parts := textFits_cons fits
    rw [textDepth, Nat.max_le] at deep
    rw [textSettled, Bool.and_eq_true] at settled
    rcases mem_cons.mp listed with rfl | later
    · cases kind
    · exact ih room stack parts.2 deep.2 settled.2 piece later kind
  | expression op args rest argsIh ih =>
    intro room stack fits deep settled piece listed kind
    have parts := textFits_cons fits
    rw [textDepth, Nat.max_le] at deep
    rw [textSettled, Bool.and_eq_true] at settled
    rcases mem_cons.mp listed with rfl | later
    · have fine := expression_fits parts.1
      have shallow := argsDepth_le_iff.mp deep.1
      have own := settled.1
      rw [Piece.settled, Bool.and_eq_true, argsSettled_iff] at own
      have known : ∀ arg ∈ args,
          evalInner room ctx stack (renderText arg) = .ok (textDenotes ctx.setting arg) := by
        intro arg member
        have below := shallow arg member
        obtain ⟨less, rfl⟩ : ∃ less, room = less + 1 := ⟨room - 1, by omega⟩
        exact (argsIh arg member).evaluates clean stack (fine.2 arg member) (by omega)
          (own.2 arg member)
      have again : op = .genexEval → ∀ arg ∈ args,
          evalInner room ctx stack (textDenotes ctx.setting arg) =
            .ok (textDenotes ctx.setting arg) := by
        intro rereads arg member
        have below := shallow arg member
        obtain ⟨less, rfl⟩ : ∃ less, room = less + 1 := ⟨room - 1, by omega⟩
        have plain := own.1
        rw [rereads, argsDenote_eq_map] at plain
        have each := all_eq_true.mp plain (textDenotes ctx.setting arg)
          (mem_map.mpr ⟨arg, member, rfl⟩)
        exact evalInner_plain less ctx stack (by simpa using each)
      unfold evalBody
      rw [Piece.body, splitOperator_operatorBody]
      dsimp only
      rw [findOperator_name]
      exact evalOperator_tree fine.2 known _ fine.1 again
    · exact ih room stack parts.2 deep.2 settled.2 piece later kind
  | conditional condition value rest conditionIh valueIh ih =>
    intro room stack fits deep settled piece listed kind
    have parts := textFits_cons fits
    rw [textDepth, Nat.max_le] at deep
    rw [textSettled, Bool.and_eq_true] at settled
    rcases mem_cons.mp listed with rfl | later
    · have fine := (conditional_fits parts.1).2.2
      have shallow := deep.1
      have own := settled.1
      rw [Piece.depth] at shallow
      rw [Piece.settled, Bool.and_eq_true] at own
      obtain ⟨less, rfl⟩ : ∃ less, room = less + 1 := ⟨room - 1, by omega⟩
      have first : evalInner (less + 1) ctx stack (renderText condition) =
          .ok (textDenotes ctx.setting condition) :=
        conditionIh.evaluates clean stack fine.1 (by omega) own.1
      have second : evalInner (less + 1) ctx stack (renderText value) =
          .ok (textDenotes ctx.setting value) :=
        valueIh.evaluates clean stack fine.2 (by omega) own.2
      exact evalBody_conditional parts.1 first second
    · exact ih room stack parts.2 deep.2 settled.2 piece later kind

/-- A tree that is no deeper than the levels that are left evaluates to what it denotes. -/
theorem evalInner_tree {ctx : Context} (clean : ctx.setting.NulFree) {tree : List Piece}
    {room : Nat} (stack : PropertyStack) (fits : textFits tree = true)
    (deep : textDepth tree ≤ room) (settled : textSettled ctx.setting tree = true) :
    evalInner (room + 1) ctx stack (renderText tree) = .ok (textDenotes ctx.setting tree) :=
  (bodiesEvaluate clean tree).evaluates clean stack fits deep settled

/-! ## Every level -/

/-- The texts nested in a tree, at any level. -/
inductive Level (tree : List Piece) : List Piece → Prop
  | whole : Level tree tree
  | arg {text arg : List Piece} {op : Operator} {args : List (List Piece)}
      (level : Level tree text) (here : .expression op args ∈ text) (listed : arg ∈ args) :
      Level tree arg
  | condition {text condition value : List Piece} (level : Level tree text)
      (here : .conditional condition value ∈ text) : Level tree condition
  | value {text condition value : List Piece} (level : Level tree text)
      (here : .conditional condition value ∈ text) : Level tree value

/-- The scanners find the structure of a text. -/
structure LevelRead (text : List Piece) : Prop where
  /-- `gx_find_matching_genex_end`. -/
  expressions : segments (renderText text) = segmentsOf [] text
  /-- `gx_find_top_level_colon` at an operator. -/
  operators : ∀ op args, .expression op args ∈ text →
    splitOperator (operatorBody op (renderArgs args)) = (op.name, joinCommas (renderArgs args))
  /-- `gx_split_top_level_alloc`. -/
  arguments : ∀ op args, .expression op args ∈ text → args ≠ [] →
    splitTopLevel ',' (joinCommas (renderArgs args)) = renderArgs args
  /-- `gx_find_top_level_colon` at a condition. -/
  conditions : ∀ condition value, .conditional condition value ∈ text →
    splitOperator (renderText condition ++ ':' :: renderText value) =
      (renderText condition, renderText value)

/-- A piece of a tree that fits. -/
theorem fits_of_mem (fits : textFits text = true) {piece : Piece} (listed : piece ∈ text) :
    piece.fits = true := by
  induction text with
  | nil => exact nomatch listed
  | cons first rest ih =>
    have parts := textFits_cons fits
    rcases mem_cons.mp listed with rfl | later
    · exact parts.1
    · exact ih parts.2 later

/-- Every text nested in a tree that fits does. -/
theorem Level.fits {tree : List Piece} (level : Level tree text) (whole : textFits tree = true) :
    textFits text = true := by
  induction level with
  | whole => exact whole
  | arg _ here listed ih => exact (expression_fits (fits_of_mem ih here)).2 _ listed
  | condition _ here ih => exact (conditional_fits (fits_of_mem ih here)).2.2.1
  | value _ here ih => exact (conditional_fits (fits_of_mem ih here)).2.2.2

theorem levelRead (fits : textFits text = true) : LevelRead text where
  expressions := segments_renderText fits
  operators op args _ := splitOperator_operatorBody op (renderArgs args)
  arguments _ _ here some :=
    splitTopLevel_renderArgs some (expression_fits (fits_of_mem fits here)).2
  conditions _ value here :=
    splitOperator_conditional (conditional_fits (fits_of_mem fits here)).2.2.1 (renderText value)

/-- `gx_eval_root` gives what a tree denotes, for every tree that fits and is within the depth, and
at every level the scanners find the structure of the tree. -/
theorem evalRoot_tree (ctx : Context) (clean : ctx.setting.NulFree) {tree : List Piece}
    (fits : textFits tree = true)
    (deep : textDepth tree ≤ if ctx.maxDepth = 0 then 64 else ctx.maxDepth)
    (settled : textSettled ctx.setting tree = true) :
    evalRoot ctx (renderText tree) = .ok (textDenotes ctx.setting tree) ∧
      ∀ text, Level tree text → LevelRead text := by
  have evaluated := @evalInner_tree
    { ctx with
      maxDepth := if ctx.maxDepth = 0 then 64 else ctx.maxDepth
      maxTargetPropertyDepth :=
        if ctx.maxTargetPropertyDepth = 0 then 64 else ctx.maxTargetPropertyDepth }
    clean tree _ [] fits deep settled
  exact ⟨evaluated, fun text level => levelRead (level.fits fits)⟩

/-- Nested operators, escapes and a condition before a value. -/
def nestedTree : List Piece :=
  [.literal (sv "a\\,b"),
    .expression .ifThenElse [[.expression .config [[.literal (sv "Debug")], [.literal (sv "Rel")]]],
      [.literal (sv "x\\:\\\\"), .expression .genexEval [[.expression .config []]]], []],
    .expression .and [[.literal (sv "1")],
      [.conditional [.expression .not [[.literal (sv "0")]]] [.literal (sv "yes")]]]]

/-- The text of `nestedTree` and what it gives. -/
theorem evalRoot_nestedTree : renderText nestedTree =
        sv ("a\\,b$<IF:$<CONFIG:Debug,Rel>,x\\:\\\\$<GENEX_EVAL:$<CONFIG>>,>" ++
          "$<AND:1,$<$<NOT:0>:yes>>") ∧
      evalRoot { config := sv "debug", maxDepth := 3 } (renderText nestedTree) =
        .ok (sv "a\\,bx\\:\\\\debug1") := by
  have read := evalRoot_tree { config := sv "debug", maxDepth := 3 } ⟨by decide, by decide⟩
    (show textFits nestedTree = true by decide +kernel) (by decide +kernel) (by decide +kernel)
  exact ⟨by decide +kernel, read.1⟩

/-- A backslash at the end of a literal escapes what stands behind it, a literal that ends in a
dollar sign opens an expression with the next literal, what follows a NUL is cut off, a single
empty argument of `CONFIG` is none, `AND` without arguments is read as one with an empty argument,
a condition may be no other word than `0` or `1`, and `GENEX_EVAL` reads what the configuration
holds. -/
theorem evalRoot_differs :
    let gives := fun (ctx : Context) (tree : List Piece) =>
      evalRoot ctx (renderText tree) = .ok (textDenotes ctx.setting tree)
    ¬ gives {} [.expression .bool [[.literal (sv "a\\")]]] ∧
      ¬ gives {} [.literal (sv "$"), .literal (sv "<")] ∧
      ¬ gives {} [.literal (sv "a\x00b"), .expression .bool [[.literal (sv "1")]]] ∧
      ¬ gives { config := sv "Debug" } [.expression .config [[]]] ∧
      ¬ gives {} [.expression .and []] ∧
      ¬ gives {} [.conditional [.literal (sv "yes")] [.literal (sv "a")]] ∧
      ¬ gives { config := sv "$<" } [.expression .genexEval [[.expression .config []]]] := by
  decide +kernel

end Nobify.Genex
