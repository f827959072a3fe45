import Nobify.Genex.Neutral

/-!
# Reading the text of a tree

What the three scanners find in the text of a tree that fits: the expressions of the text with
their bodies, the operator of a body and its arguments, and the texts of the arguments. None of
them looks into what is nested deeper, because the text of a tree is neutral.
-/

namespace Nobify.Genex

open BuildModel (splitTopLevel splitTopLevelGo)
open List

variable {args : List (List Piece)} {text : StringView} {piece : Piece}

/-! ## Induction on trees -/

/-- What holds of the empty tree and is passed on from the rest of a tree, and from the arguments
of its first piece, to the tree, holds of every tree. -/
theorem tree_induction {motive : List Piece → Prop} (nil : motive [])
    (literal : ∀ text rest, motive rest → motive (.literal text :: rest))
    (expression : ∀ op args rest, (∀ arg ∈ args, motive arg) → motive rest →
      motive (.expression op args :: rest))
    (conditional : ∀ condition value rest, motive condition → motive value → motive rest →
      motive (.conditional condition value :: rest)) :
    ∀ text, motive text
  | [] => nil
  | .literal text :: rest =>
    literal text rest (tree_induction nil literal expression conditional rest)
  | .expression op args :: rest =>
    expression op args rest (fun arg _ => tree_induction nil literal expression conditional arg)
      (tree_induction nil literal expression conditional rest)
  | .conditional condition value :: rest =>
    conditional condition value rest (tree_induction nil literal expression conditional condition)
      (tree_induction nil literal expression conditional value)
      (tree_induction nil literal expression conditional rest)
termination_by text => sizeOf text
decreasing_by
  all_goals simp only [List.cons.sizeOf_spec, Piece.literal.sizeOf_spec,
    Piece.expression.sizeOf_spec, Piece.conditional.sizeOf_spec]
  all_goals try have smaller := sizeOf_lt_of_mem ‹_ ∈ _›
  all_goals omega

theorem renderArgs_eq_map (args : List (List Piece)) : renderArgs args = args.map renderText := by
  induction args with
  | nil => rfl
  | cons arg rest ih => rw [renderArgs, map_cons, ih]

theorem argsDenote_eq_map (setting : Setting) (args : List (List Piece)) :
    argsDenote setting args = args.map (textDenotes setting) := by
  induction args with
  | nil => rfl
  | cons arg rest ih => rw [argsDenote, map_cons, ih]

theorem argsFit_iff : argsFit args = true ↔ ∀ arg ∈ args, textFits arg = true := by
  induction args with
  | nil => exact ⟨fun _ _ listed => absurd listed not_mem_nil, fun _ => rfl⟩
  | cons arg rest ih => rw [argsFit, Bool.and_eq_true, ih, forall_mem_cons]

theorem argsSettled_iff {setting : Setting} :
    argsSettled setting args = true ↔ ∀ arg ∈ args, textSettled setting arg = true := by
  induction args with
  | nil => exact ⟨fun _ _ listed => absurd listed not_mem_nil, fun _ => rfl⟩
  | cons arg rest ih => rw [argsSettled, Bool.and_eq_true, ih, forall_mem_cons]

theorem argsDepth_le_iff {bound : Nat} :
    argsDepth args ≤ bound ↔ ∀ arg ∈ args, textDepth arg < bound := by
  induction args with
  | nil => exact ⟨fun _ _ listed => absurd listed not_mem_nil, fun _ => Nat.zero_le _⟩
  | cons arg rest ih => rw [argsDepth, Nat.max_le, ih, forall_mem_cons, Nat.succ_le_iff]

/-! ## Blanks -/

/-- No blank stands at an end. -/
def Trimmed (text : StringView) : Prop :=
  (∀ char ∈ text.head?, isSpace char = false) ∧ ∀ char ∈ text.getLast?, isSpace char = false

theorem dropWhile_eq_self_iff_head :
    text.dropWhile isSpace = text ↔ ∀ char ∈ text.head?, isSpace char = false := by
  cases text with
  | nil => simp
  | cons char rest =>
    rw [dropWhile_cons]
    by_cases blank : isSpace char = true
    · have shorter := (dropWhile_suffix isSpace (l := rest)).length_le
      rw [if_pos blank]
      constructor
      · intro same
        rw [same, length_cons] at shorter
        omega
      · intro plain
        exact absurd (plain char rfl) (by rw [blank]; decide)
    · rw [if_neg blank]
      constructor
      · intro _ other listed
        cases listed
        exact Bool.eq_false_iff.mpr blank
      · exact fun _ => rfl

theorem svTrim_eq_self_iff : svTrim text = text ↔ Trimmed text := by
  have front := dropWhile_suffix isSpace (l := text)
  have back := dropWhile_suffix isSpace (l := (text.dropWhile isSpace).reverse)
  constructor
  · intro same
    have lengths := congrArg List.length same
    have one := front.length_le
    have two := back.length_le
    rw [svTrim, length_reverse] at lengths
    rw [length_reverse] at two
    have whole : text.dropWhile isSpace = text := front.eq_of_length (by omega)
    rw [whole] at back lengths
    have reversed : text.reverse.dropWhile isSpace = text.reverse :=
      back.eq_of_length (by rw [length_reverse]; omega)
    have last := (dropWhile_eq_self_iff_head).mp reversed
    rw [List.head?_reverse] at last
    exact ⟨(dropWhile_eq_self_iff_head).mp whole, last⟩
  · intro trimmed
    have last : ∀ char ∈ text.reverse.head?, isSpace char = false := by
      rw [List.head?_reverse]
      exact trimmed.2
    rw [svTrim, (dropWhile_eq_self_iff_head).mpr trimmed.1, (dropWhile_eq_self_iff_head).mpr last,
      reverse_reverse]

theorem Trimmed.append {behind : StringView} (front : Trimmed text) (back : Trimmed behind) :
    Trimmed (text ++ behind) := by
  constructor
  · intro char listed
    rw [List.head?_append] at listed
    cases first : text.head? with
    | none =>
      rw [first] at listed
      exact back.1 char listed
    | some other =>
      rw [first] at listed
      exact front.1 char (by rw [first]; exact listed)
  · intro char listed
    rw [List.getLast?_append] at listed
    cases last : behind.getLast? with
    | none =>
      rw [last] at listed
      exact front.2 char listed
    | some other =>
      rw [last] at listed
      exact back.2 char (by rw [last]; exact listed)

/-- An expression has no blanks at its ends. -/
theorem trimmed_wrapBody (body : StringView) : Trimmed (wrapBody body) := by
  constructor
  · intro char listed
    cases listed
    decide
  · intro char listed
    have last : (wrapBody body).getLast? = some '>' := by
      rw [wrapBody, ← cons_append, ← cons_append, List.getLast?_append]
      rfl
    rw [last] at listed
    cases listed
    decide

/-! ## The text of a tree is neutral -/

/-- The body of an expression. -/
def Piece.body : Piece → StringView
  | .literal _ => []
  | .expression op args => operatorBody op (renderArgs args)
  | .conditional condition value => renderText condition ++ ':' :: renderText value

/-- The text of a piece that is no literal. -/
theorem Piece.render_eq (expression : piece.isLiteral = false) :
    piece.render = wrapBody piece.body := by
  cases piece with
  | literal text => cases expression
  | expression op args => rfl
  | conditional condition value => rfl

theorem Operator.name_neutral (op : Operator) : Neutral false op.name :=
  neutral_of_escapeAfter (by cases op <;> decide +kernel)

/-- A comma or a colon within an expression. -/
theorem Neutral.separator {char : Char} {rest : StringView} (separates : char = ',' ∨ char = ':')
    (later : Neutral true rest) : Neutral true (char :: rest) := by
  rcases separates with rfl | rfl
  · exact .char (by decide) nofun (noOpening_of_ne (by decide) rest) later
  · exact .char (by decide) nofun (noOpening_of_ne (by decide) rest) later

theorem joinCommas_neutral {args : List StringView} (neutral : ∀ arg ∈ args, Neutral true arg) :
    Neutral true (joinCommas args) := by
  induction args with
  | nil => exact .nil
  | cons arg rest ih =>
    have first := neutral arg mem_cons_self
    have later := ih fun other listed => neutral other (mem_cons_of_mem arg listed)
    cases rest with
    | nil => exact first
    | cons next rest => exact first.append (later.separator (.inl rfl)) (by simp)

theorem operatorBody_neutral (op : Operator) {args : List StringView}
    (neutral : ∀ arg ∈ args, Neutral true arg) : Neutral true (operatorBody op args) := by
  unfold operatorBody
  by_cases none : args = []
  · rw [if_pos none]
    exact op.name_neutral.within
  · rw [if_neg none]
    exact op.name_neutral.within.append ((joinCommas_neutral neutral).separator (.inr rfl))
      (by simp)

theorem operatorBody_trees (op : Operator) (neutral : ∀ arg ∈ args, Neutral false (renderText arg))
    : Neutral true (operatorBody op (renderArgs args)) := by
  apply operatorBody_neutral
  rw [renderArgs_eq_map]
  intro arg listed
  obtain ⟨tree, member, same⟩ := mem_map.mp listed
  rw [← same]
  exact (neutral tree member).within

theorem conditionalBody_neutral {condition value : StringView} (before : Neutral false condition)
    (behind : Neutral false value) : Neutral true (condition ++ ':' :: value) :=
  before.within.append (behind.within.separator (.inr rfl)) (by simp)

/-- Behind a literal stands no opening bracket. -/
theorem literal_apart {rest : List Piece} (fits : textFits (.literal text :: rest) = true) :
    (renderText rest).head? ≠ some '<' := by
  cases rest with
  | nil => simp [renderText]
  | cons piece rest =>
    cases piece with
    | literal other => simp [textFits, Piece.isLiteral] at fits
    | expression op args => simp [renderText, Piece.render, wrapBody]
    | conditional condition value => simp [renderText, Piece.render, wrapBody]

theorem literalFits_escapeAfter (fits : literalFits text = true) :
    escapeAfter false text = some false := by
  unfold literalFits at fits
  simp only [Bool.and_eq_true, beq_iff_eq] at fits
  exact fits.1.1

/-- The parts of a tree that fits. -/
theorem textFits_cons {rest : List Piece} (fits : textFits (piece :: rest) = true) :
    piece.fits = true ∧ textFits rest = true := by
  simp only [textFits, Bool.and_eq_true] at fits
  exact ⟨fits.1.1, fits.2⟩

/-- The arguments of an operator that fits. -/
theorem expression_fits {op : Operator} (fits : (Piece.expression op args).fits = true) :
    op.accepts (renderArgs args) = true ∧ ∀ arg ∈ args, textFits arg = true := by
  rw [Piece.fits, Bool.and_eq_true, argsFit_iff] at fits
  exact fits

/-- The parts of a condition that fits. -/
theorem conditional_fits {condition value : List Piece}
    (fits : (Piece.conditional condition value).fits = true) :
    isCondition condition = true ∧ renderText value ≠ [] ∧ textFits condition = true ∧
      textFits value = true := by
  simp only [Piece.fits, Bool.and_eq_true, bne_iff_ne] at fits
  exact ⟨fits.1.1.1, fits.1.1.2, fits.1.2, fits.2⟩

/-- The scanners pass over the text of a tree that fits. -/
theorem renderText_neutral {text : List Piece} (fits : textFits text = true) :
    Neutral false (renderText text) := by
  induction text using tree_induction with
  | nil => exact .nil
  | literal text rest ih =>
    have parts := textFits_cons fits
    have first := neutral_of_escapeAfter (literalFits_escapeAfter parts.1)
    exact first.append (ih parts.2) (literal_apart fits)
  | expression op args rest argsIh ih =>
    have parts := textFits_cons fits
    have fine := (expression_fits parts.1).2
    have body := operatorBody_trees op fun arg listed => argsIh arg listed (fine arg listed)
    have whole : Neutral false ('$' :: '<' :: (operatorBody op (renderArgs args) ++
        '>' :: renderText rest)) := .expression body (ih parts.2)
    simpa [renderText, Piece.render, wrapBody] using whole
  | conditional condition value rest conditionIh valueIh ih =>
    have parts := textFits_cons fits
    have fine := (conditional_fits parts.1).2.2
    have body := conditionalBody_neutral (conditionIh fine.1) (valueIh fine.2)
    have whole : Neutral false ('$' :: '<' :: ((renderText condition ++ ':' :: renderText value) ++
        '>' :: renderText rest)) := .expression body (ih parts.2)
    simpa [renderText, Piece.render, wrapBody] using whole

/-- So is the body of an expression that fits. -/
theorem Piece.body_neutral (fits : piece.fits = true) : Neutral true piece.body := by
  cases piece with
  | literal text => exact .nil
  | expression op args =>
    have fine := (expression_fits fits).2
    exact operatorBody_trees op fun arg listed => renderText_neutral (fine arg listed)
  | conditional condition value =>
    have fine := (conditional_fits fits).2.2
    exact conditionalBody_neutral (renderText_neutral fine.1) (renderText_neutral fine.2)

/-- A tree that fits has no blanks at its ends. -/
theorem svTrim_renderText {text : List Piece} (fits : textFits text = true) :
    svTrim (renderText text) = renderText text := by
  rw [svTrim_eq_self_iff]
  induction text with
  | nil => exact ⟨nofun, nofun⟩
  | cons piece rest ih =>
    have parts := textFits_cons fits
    apply Trimmed.append _ (ih parts.2)
    cases kind : piece.isLiteral with
    | false =>
      rw [piece.render_eq kind]
      exact trimmed_wrapBody piece.body
    | true =>
      cases piece with
      | literal text =>
        have own : literalFits text = true := parts.1
        simp only [literalFits, Bool.and_eq_true, beq_iff_eq] at own
        exact svTrim_eq_self_iff.mp own.1.2
      | expression op args => cases kind
      | conditional condition value => cases kind

/-! ## What the scanners find -/

/-- The stretches of a tree, behind characters that were read before. -/
def segmentsOf (before : StringView) : List Piece → List Segment
  | [] => [.text before]
  | .literal text :: rest => segmentsOf (before ++ text) rest
  | piece :: rest => .text before :: .expression piece.body :: segmentsOf [] rest

/-- At the opening of an expression with a neutral body its end is found. -/
theorem segmentsGo_wrapBody {body : StringView} (neutral : Neutral true body)
    (before opened behind : StringView) :
    segmentsGo false 0 before opened (wrapBody body ++ behind) =
      .text before :: .expression body :: segmentsGo false 0 [] [] behind := by
  have bracket : ('>' :: behind : StringView).head? ≠ some '<' := by simp
  show segmentsGo false 0 before opened ('$' :: '<' :: ((body ++ ['>']) ++ behind)) = _
  rw [segmentsGo, if_neg Bool.false_ne_true, if_pos rfl, append_assoc, singleton_append,
    (segmentsGo_passes _).neutral neutral (fun _ => Nat.one_pos) (le_refl 1) _ bracket,
    segmentsGo_char (noOpening_bracket _), if_pos ⟨rfl, rfl, Nat.one_pos⟩, if_pos rfl, nil_append]

/-- `gx_find_matching_genex_end` finds the bodies of the expressions of a tree. -/
theorem segments_renderText {text : List Piece} (fits : textFits text = true) :
    segments (renderText text) = segmentsOf [] text := by
  have found : ∀ before opened,
      segmentsGo false 0 before opened (renderText text) = segmentsOf before text := by
    induction text with
    | nil => exact fun before opened => rfl
    | cons piece rest ih =>
      intro before opened
      have parts := textFits_cons fits
      cases kind : piece.isLiteral with
      | true =>
        cases piece with
        | literal text =>
          have own := literalFits_escapeAfter parts.1
          rw [renderText, Piece.render, segmentsGo_literal own _ _ (literal_apart fits), ih parts.2]
          rfl
        | expression op args => cases kind
        | conditional condition value => cases kind
      | false =>
        have listed : segmentsOf before (piece :: rest) =
            .text before :: .expression piece.body :: segmentsOf [] rest := by
          cases piece with
          | literal text => cases kind
          | expression op args => rfl
          | conditional condition value => rfl
        rw [renderText, piece.render_eq kind, segmentsGo_wrapBody (piece.body_neutral parts.1),
          ih parts.2, listed]
  exact found [] []

/-- A text opens an expression when its tree holds one. -/
theorem containsGenex_renderText {text : List Piece} (fits : textFits text = true) :
    containsGenex (renderText text) = text.any (!·.isLiteral) := by
  unfold containsGenex
  induction text with
  | nil => rfl
  | cons piece rest ih =>
    have parts := textFits_cons fits
    rw [renderText, any_cons]
    cases kind : piece.isLiteral with
    | true =>
      cases piece with
      | literal text =>
        have own := literalFits_escapeAfter parts.1
        rw [Piece.render, containsGenexGo_literal own (literal_apart fits), ih parts.2]
        rfl
      | expression op args => cases kind
      | conditional condition value => cases kind
    | false =>
      rw [piece.render_eq kind]
      rfl

/-- `gx_find_top_level_colon` finds the colon behind the name of an operator. -/
theorem splitOperator_operatorBody (op : Operator) (args : List StringView) :
    splitOperator (operatorBody op args) = (op.name, joinCommas args) := by
  have name : svTrim op.name = op.name := by cases op <;> decide +kernel
  unfold splitOperator operatorBody
  by_cases none : args = []
  · have found : topLevelColonGo false 0 [] (op.name ++ []) = topLevelColonGo false 0 op.name [] :=
      topLevelColonGo_passes.neutral op.name_neutral nofun (le_refl 0) [] (by simp)
    rw [append_nil, topLevelColonGo] at found
    rw [if_pos none, found, none]
    exact congrArg (·, []) name
  · have found : topLevelColonGo false 0 [] (op.name ++ ':' :: joinCommas args) =
        topLevelColonGo false 0 op.name (':' :: joinCommas args) :=
      topLevelColonGo_passes.neutral op.name_neutral nofun (le_refl 0) [] (by simp)
    rw [topLevelColonGo_char (noOpening_of_ne (by decide) _),
      if_neg (fun ends => absurd ends.1 (by decide)), if_pos ⟨rfl, rfl, rfl⟩] at found
    rw [if_neg none, found]
    exact congrArg (·, joinCommas args) name

/-- `gx_find_top_level_colon` finds the colon behind a condition. -/
theorem splitOperator_conditional {condition : List Piece} (fits : textFits condition = true)
    (value : StringView) :
    splitOperator (renderText condition ++ ':' :: value) = (renderText condition, value) := by
  have found : topLevelColonGo false 0 [] (renderText condition ++ ':' :: value) =
      topLevelColonGo false 0 (renderText condition) (':' :: value) :=
    topLevelColonGo_passes.neutral (renderText_neutral fits) nofun (le_refl 0) [] (by simp)
  rw [topLevelColonGo_char (noOpening_of_ne (by decide) _),
    if_neg (fun ends => absurd ends.1 (by decide)), if_pos ⟨rfl, rfl, rfl⟩] at found
  unfold splitOperator
  rw [found]
  exact congrArg (·, value) (svTrim_renderText fits)

/-- `gx_split_top_level_alloc` finds the texts between commas. -/
theorem splitTopLevel_joinCommas {args : List StringView} (nonempty : args ≠ [])
    (neutral : ∀ arg ∈ args, Neutral false arg) :
    splitTopLevel ',' (joinCommas args) = args.map svTrim := by
  unfold splitTopLevel
  induction args with
  | nil => exact absurd rfl nonempty
  | cons arg rest ih =>
    have first := neutral arg mem_cons_self
    cases rest with
    | nil =>
      have found : splitTopLevelGo ',' false 0 [] (arg ++ []) =
          splitTopLevelGo ',' false 0 arg [] :=
        splitTopLevelGo_passes.neutral first nofun (le_refl 0) [] (by simp)
      rw [append_nil, splitTopLevelGo] at found
      exact found
    | cons next rest =>
      have later := ih (cons_ne_nil next rest) fun other listed =>
        neutral other (mem_cons_of_mem arg listed)
      have found : splitTopLevelGo ',' false 0 [] (arg ++ ',' :: joinCommas (next :: rest)) =
          splitTopLevelGo ',' false 0 arg (',' :: joinCommas (next :: rest)) :=
        splitTopLevelGo_passes.neutral first nofun (le_refl 0) [] (by simp)
      rw [splitTopLevelGo_char (noOpening_of_ne (by decide) _),
        if_neg (fun ends => absurd ends.1 (by decide)), if_pos ⟨rfl, rfl, rfl⟩, later] at found
      exact found

/-- The arguments of an operator are found. -/
theorem splitTopLevel_renderArgs (nonempty : args ≠ []) (fits : ∀ arg ∈ args, textFits arg = true) :
    splitTopLevel ',' (joinCommas (renderArgs args)) = renderArgs args := by
  rw [renderArgs_eq_map]
  have neutral : ∀ arg ∈ args.map renderText, Neutral false arg := by
    intro arg listed
    obtain ⟨tree, member, same⟩ := mem_map.mp listed
    rw [← same]
    exact renderText_neutral (fits tree member)
  rw [splitTopLevel_joinCommas (by simpa using nonempty) neutral, List.map_map]
  exact map_congr_left fun arg listed => svTrim_renderText (fits arg listed)

end Nobify.Genex
