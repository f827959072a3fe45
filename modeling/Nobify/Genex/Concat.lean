import Mathlib.Data.List.Induction
import Nobify.Lib.ExceptLoop
import Nobify.Genex.Parts
import Nobify.Genex.Spans
import Nobify.Genex.TreeEval

/-!
# Texts side by side

The loop of `gx_eval_inner` keeps text and replaces expressions, so a text that is cut between two
expressions evaluates to what its parts evaluate to, side by side. The cut must not take the dollar
sign of an opening or a backslash from what stands behind it. What the loop puts together is made a
C string; for that to change nothing, no value may hold a NUL.
-/

namespace Nobify.Genex

open BuildModel (splitTopLevel)
open Lib
open List

variable {escaped : Bool} {args behind opened piece text : StringView} {char : Char}

/-! ## Segments -/

/-- Whether the character behind a text is escaped. -/
def escapedBehind : Bool → StringView → Bool
  | escaped, [] => escaped
  | escaped, char :: rest => escapedBehind (char = '\\' && !escaped) rest

/-- Backslashes that were counted from the back. -/
theorem escapedBehind_append (escaped : Bool) (text : StringView) (char : Char) :
    escapedBehind escaped (text ++ [char]) =
      (decide (char = '\\') && !escapedBehind escaped text) := by
  induction text generalizing escaped with
  | nil => rfl
  | cons first text ih => exact ih _

theorem escapedBehind_eq (text : StringView) : escapedBehind false text = oddBackslashes text := by
  induction text using List.reverseRecOn with
  | nil => rfl
  | append_singleton text char ih => rw [escapedBehind_append, oddBackslashes_append, ih]

/-- Outside of expressions a text starts with a stretch that goes on from what was read before. -/
theorem segmentsGo_ground (escaped : Bool) (text : StringView) : ∃ first later, ∀ kept opened,
      segmentsGo escaped 0 kept opened text = .text (kept ++ first) :: later := by
  induction escaped, text using containsGenexGo.induct with
  | case1 escaped => exact ⟨[], [], fun kept _ => by rw [segmentsGo, if_pos rfl, append_nil]⟩
  | case2 escaped rest ih =>
    cases escaped with
    | true =>
      obtain ⟨first, later, same⟩ := ih
      refine ⟨'$' :: '<' :: first, later, fun kept opened => ?_⟩
      rw [segmentsGo, if_pos rfl, same, append_assoc]
      rfl
    | false =>
      refine ⟨[], segmentsGo false 1 [] rest rest, fun kept opened => ?_⟩
      rw [segmentsGo, if_neg Bool.false_ne_true, if_pos rfl, append_nil]
  | case3 escaped char rest closed ih =>
    obtain ⟨first, later, same⟩ := ih
    refine ⟨char :: first, later, fun kept opened => ?_⟩
    rw [segmentsGo_char closed, if_neg (fun closing => Nat.lt_irrefl 0 closing.2.2), same,
      append_assoc]
    rfl

/-- A text in which every expression is closed ends outside of expressions. What stands behind it is
read on from there. -/
theorem segmentsGo_append {depth : Nat} (last : text.getLast? ≠ some '$')
    (closed : ∀ rest, Segment.unclosed rest ∉ segmentsGo escaped depth piece opened text)
    (behind : StringView) :
    ∃ found kept, segmentsGo escaped depth piece opened text = found ++ [.text kept] ∧
      ∀ other, ∃ outer, segmentsGo escaped depth piece other (text ++ behind) =
        found ++ segmentsGo (escapedBehind escaped text) 0 kept outer behind := by
  have later : ∀ {char : Char} {rest : StringView}, (char :: rest).getLast? ≠ some '$' →
      rest.getLast? ≠ some '$' ∧ (NoOpening char rest → NoOpening char (rest ++ behind)) := by
    intro char rest last
    cases rest with
    | nil => exact ⟨by simp, fun _ => noOpening_of_ne (fun dollar => last (by rw [dollar]; rfl)) _⟩
    | cons next rest =>
      rw [List.getLast?_cons_cons] at last
      refine ⟨last, fun none after dollar same => ?_⟩
      rw [cons_append, List.cons.injEq] at same
      exact none rest dollar (by rw [same.1])
  fun_induction segmentsGo escaped depth piece opened text with
  | case1 escaped piece opened => exact ⟨[], piece, rfl, fun other => ⟨other, rfl⟩⟩
  | case2 escaped depth piece opened deep => exact absurd mem_cons_self (closed opened)
  | case3 depth piece opened rest ih =>
    obtain ⟨found, kept, own, whole⟩ := ih (later (later last).1).1 closed
    refine ⟨found, kept, own, fun other => ?_⟩
    obtain ⟨outer, same⟩ := whole other
    refine ⟨outer, ?_⟩
    rw [cons_append, cons_append, segmentsGo, if_pos rfl, same]
    rfl
  | case4 escaped piece opened rest unescaped ih =>
    have within : ∀ after, Segment.unclosed after ∉ segmentsGo false 1 [] rest rest :=
      fun after listed => closed after (mem_cons_of_mem _ listed)
    obtain ⟨found, kept, own, whole⟩ := ih (later (later last).1).1 within
    refine ⟨.text piece :: found, kept, by rw [own]; rfl, fun other => ?_⟩
    obtain ⟨outer, same⟩ := whole (rest ++ behind)
    refine ⟨outer, ?_⟩
    rw [cons_append, cons_append, segmentsGo, if_neg unescaped, if_pos rfl, same]
    rfl
  | case5 escaped depth piece opened rest unescaped deep ih =>
    obtain ⟨found, kept, own, whole⟩ := ih (later (later last).1).1 closed
    refine ⟨found, kept, own, fun other => ?_⟩
    obtain ⟨outer, same⟩ := whole other
    refine ⟨outer, ?_⟩
    rw [cons_append, cons_append, segmentsGo, if_neg unescaped, if_neg deep, same]
    rfl
  | case6 escaped piece opened char rest shape closing ih =>
    have after : ∀ behind', Segment.unclosed behind' ∉ segmentsGo false 0 [] [] rest :=
      fun behind' listed => closed behind' (mem_cons_of_mem _ listed)
    obtain ⟨found, kept, own, whole⟩ := ih (later last).1 after
    refine ⟨.expression piece :: found, kept, by rw [own]; rfl, fun other => ?_⟩
    obtain ⟨outer, same⟩ := whole []
    refine ⟨outer, ?_⟩
    rw [cons_append, segmentsGo_char ((later last).2 shape), if_pos closing, if_pos rfl, same,
      closing.1]
    rfl
  | case7 escaped depth piece opened char rest shape closing outside ih =>
    obtain ⟨found, kept, own, whole⟩ := ih (later last).1 closed
    refine ⟨found, kept, own, fun other => ?_⟩
    obtain ⟨outer, same⟩ := whole other
    refine ⟨outer, ?_⟩
    rw [cons_append, segmentsGo_char ((later last).2 shape), if_pos closing, if_neg outside,
      same, closing.1]
    rfl
  | case8 escaped depth piece opened char rest shape closing ih =>
    obtain ⟨found, kept, own, whole⟩ := ih (later last).1 closed
    refine ⟨found, kept, own, fun other => ?_⟩
    obtain ⟨outer, same⟩ := whole other
    refine ⟨outer, ?_⟩
    rw [cons_append, segmentsGo_char ((later last).2 shape), if_neg closing, same]
    rfl

/-- The segments of two texts side by side: the last stretch of the first goes on with the first
stretch of the second. -/
theorem segments_append (last : text.getLast? ≠ some '$')
    (backslashes : oddBackslashes text = false)
    (closed : ∀ rest, Segment.unclosed rest ∉ segments text) :
    ∃ found kept first later, segments text = found ++ [.text kept] ∧
      segments behind = .text first :: later ∧
      segments (text ++ behind) = found ++ .text (kept ++ first) :: later := by
  obtain ⟨found, kept, own, whole⟩ := segmentsGo_append last closed behind
  obtain ⟨first, later, ground⟩ := segmentsGo_ground false behind
  obtain ⟨outer, same⟩ := whole []
  rw [escapedBehind_eq, backslashes, ground] at same
  exact ⟨found, kept, first, later, own, ground [] [], same⟩

/-- A text without an expression is one stretch. -/
theorem segmentsGo_plain (plain : containsGenexGo escaped text = false) :
    segmentsGo escaped 0 piece opened text = [.text (piece ++ text)] := by
  induction escaped, text using containsGenexGo.induct generalizing piece with
  | case1 escaped => rw [segmentsGo, if_pos rfl, append_nil]
  | case2 escaped rest ih =>
    rw [containsGenexGo, Bool.or_eq_false_iff] at plain
    have hidden : escaped = true := by simpa using plain.1
    rw [segmentsGo, if_pos hidden, ih plain.2, append_assoc]
    rfl
  | case3 escaped char rest closed ih =>
    rw [containsGenexGo_char closed] at plain
    rw [segmentsGo_char closed, if_neg (fun closing => Nat.lt_irrefl 0 closing.2.2), ih plain,
      append_assoc]
    rfl

/-! ## Values -/

section Values

variable {inner : Context → PropertyStack → StringView → Evaluated StringView} {ctx : Context}
  {stack : PropertyStack}

/-- What the loop of `gx_eval_inner` puts together, before it is made a C string. -/
def spread (inner : Context → PropertyStack → StringView → Evaluated StringView) (ctx : Context)
    (stack : PropertyStack) (input : StringView) : Evaluated StringView :=
  joinM (evalSegment inner ctx stack) (segments input)

/-- Two texts side by side give their values side by side. -/
theorem spread_append {left right : StringView} (last : text.getLast? ≠ some '$')
    (backslashes : oddBackslashes text = false) (first : spread inner ctx stack text = .ok left)
    (second : spread inner ctx stack behind = .ok right) :
    spread inner ctx stack (text ++ behind) = .ok (left ++ right) := by
  have closed : ∀ rest, Segment.unclosed rest ∉ segments text := by
    intro rest listed
    obtain ⟨value, made⟩ := joinM_round first listed
    cases made
  obtain ⟨found, kept, start, later, own, other, whole⟩ := segments_append last backslashes closed
  unfold spread at *
  rw [own] at first
  rw [other] at second
  obtain ⟨front, stretch, frontMade, stretchMade, rfl⟩ := joinM_append_eq_ok.mp first
  obtain ⟨keptMade, none, keptText, nothing, rfl⟩ := joinM_cons_eq_ok.mp stretchMade
  obtain ⟨startMade, more, startText, moreMade, rfl⟩ := joinM_cons_eq_ok.mp second
  cases nothing
  cases keptText
  cases startText
  rw [whole, joinM_append_eq_ok]
  refine ⟨front, _, frontMade, joinM_cons_eq_ok.mpr ⟨kept ++ start, more, rfl, moreMade, rfl⟩, ?_⟩
  simp only [append_nil, append_assoc]

end Values

/-- A text that can be made a C string is evaluated by its segments, expressions or not. -/
theorem evalInner_spread {room : Nat} {ctx : Context} {stack : PropertyStack} {input : StringView}
    (nulFree : '\x00' ∉ input) :
    evalInner (room + 1) ctx stack input =
      (spread (evalInner room) ctx stack input).map svToCstr := by
  rw [evalInner, spread, ← map_flatten_mapM]
  by_cases nested : containsGenex input = true
  · rw [if_pos nested]
    cases (segments input).mapM (evalSegment (evalInner room) ctx stack) with
    | error failure => rfl
    | ok parts => rfl
  · have plain : containsGenexGo false input = false := Bool.eq_false_iff.mpr nested
    have whole : segments input = [.text input] := segmentsGo_plain plain
    rw [if_neg nested, whole]
    show Except.ok input = Except.ok (svToCstr (input ++ []))
    rw [append_nil, svToCstr_eq_self nulFree]

/-! ## Characters of segments -/

/-- What a scan has moved to its piece was in the text. -/
theorem mem_of_moved {moved rest : StringView} (found : char ∈ piece ++ moved ∨ char ∈ rest) :
    char ∈ piece ∨ char ∈ moved ++ rest := by
  rcases found with before | behind
  · exact (mem_append.mp before).imp_right (mem_append_left rest)
  · exact .inr (mem_append_right moved behind)

/-- The characters of a stretch of text or of the body of an expression. -/
def Segment.chars : Segment → StringView
  | .text value => value
  | .expression body => body
  | .unclosed _ => []

theorem mem_of_mem_segmentsGo {depth : Nat} {segment : Segment}
    (listed : segment ∈ segmentsGo escaped depth piece opened text) (found : char ∈ segment.chars) :
    char ∈ piece ∨ char ∈ text := by
  fun_induction segmentsGo escaped depth piece opened text with
  | case1 escaped piece opened =>
    rw [mem_singleton.mp listed] at found
    exact .inl found
  | case2 escaped depth piece opened deep =>
    rw [mem_singleton.mp listed] at found
    cases found
  | case3 depth piece opened rest ih =>
    have inner := mem_of_moved (ih listed)
    exact inner
  | case4 escaped piece opened rest unescaped ih =>
    rcases mem_cons.mp listed with rfl | later
    · exact .inl found
    · have inner := (ih later).resolve_left not_mem_nil
      exact .inr (mem_cons_of_mem _ (mem_cons_of_mem _ inner))
  | case5 escaped depth piece opened rest unescaped deep ih =>
    have inner := mem_of_moved (ih listed)
    exact inner
  | case6 escaped piece opened char' rest shape closing ih =>
    rcases mem_cons.mp listed with rfl | later
    · exact .inl found
    · have inner := (ih later).resolve_left not_mem_nil
      exact .inr (mem_cons_of_mem _ inner)
  | case7 escaped depth piece opened char' rest shape closing outside ih =>
    have inner := mem_of_moved (ih listed)
    exact inner
  | case8 escaped depth piece opened char' rest shape closing ih =>
    have inner := mem_of_moved (ih listed)
    exact inner

/-! ## Values without a NUL -/

/-- The values that a context gives can be made C strings. -/
structure Context.ValuesNulFree (ctx : Context) : Prop where
  config : '\x00' ∉ ctx.config
  platformId : '\x00' ∉ ctx.platformId
  installPrefix : '\x00' ∉ ctx.installPrefix
  targetProperty : ∀ read ∈ ctx.readTargetProperty, ∀ target property, '\x00' ∉ read target property
  targetFile : ∀ read ∈ ctx.readTargetFile, ∀ target, '\x00' ∉ read target
  targetLinkerFile : ∀ read ∈ ctx.readTargetLinkerFile, ∀ target, '\x00' ∉ read target

/-- A value, if there is one, can be made a C string. -/
def NulFree (result : Evaluated StringView) : Prop := ∀ value, result = .ok value → '\x00' ∉ value

theorem nulFree_ok {value : StringView} (free : '\x00' ∉ value) : NulFree (.ok value) := by
  intro other same
  cases same
  exact free

theorem nulFree_error (failure : Failure) : NulFree (.error failure) := fun _ same => by cases same

theorem nulFree_bind {α : Type} {first : Evaluated α} {next : α → Evaluated StringView}
    (free : ∀ value, first = .ok value → NulFree (next value)) : NulFree (first.bind next) := by
  intro value made
  obtain ⟨middle, head, tail⟩ := bind_eq_ok.mp made
  exact free middle head value tail

theorem nulFree_map {α : Type} {first : Evaluated α} {change : α → StringView}
    (free : ∀ value, first = .ok value → '\x00' ∉ change value) : NulFree (first.map change) := by
  intro value made
  cases first with
  | error failure => cases made
  | ok middle =>
    cases made
    exact free middle rfl

theorem nulFree_truth (holds : Bool) : NulFree (.ok (truthValue holds)) :=
  nulFree_ok (truthValue_nulFree holds)

theorem mem_of_pathDirname {path : StringView} (found : char ∈ pathDirname path) : char ∈ path := by
  have behind : ∀ {other : Char}, other ∈ path.reverse.dropWhile (!isSeparator ·) →
      other ∈ path := fun inside => mem_reverse.mp ((dropWhile_sublist _).mem inside)
  unfold pathDirname at found
  split at found
  · exact nomatch found
  · rename_i separator same
    exact behind (same ▸ found)
  · rename_i separator before _ same
    exact behind (same ▸ mem_cons_of_mem _ (mem_reverse.mp found))

theorem mem_of_pathBasename {path : StringView} (found : char ∈ pathBasename path) : char ∈ path :=
  mem_reverse.mp ((takeWhile_sublist _).mem (mem_reverse.mp found))

section Bodies

variable {inner : Context → PropertyStack → StringView → Evaluated StringView} {ctx : Context}
  {stack : PropertyStack}

theorem matchesAny_nulFree (needle : StringView) (args : List StringView) :
    NulFree (matchesAny inner ctx stack needle args) := by
  induction args with
  | nil => exact nulFree_truth false
  | cons arg rest ih =>
    rw [matchesAny]
    refine nulFree_bind fun value _ => ?_
    split
    · exact nulFree_truth true
    · exact ih

theorem evalLogical_nulFree (wantAnd : Bool) (args : List StringView) :
    NulFree (evalLogical inner ctx stack wantAnd args) := by
  induction args with
  | nil => exact nulFree_truth wantAnd
  | cons arg rest ih =>
    rw [evalLogical]
    refine nulFree_bind fun value _ => ?_
    split
    · exact nulFree_truth _
    · exact ih

theorem evalStrequal_nulFree (args : List StringView) :
    NulFree (evalStrequal inner ctx stack args) := by
  unfold evalStrequal
  split
  · exact nulFree_bind fun left _ => nulFree_bind fun right _ => nulFree_truth _
  · exact nulFree_error _

/-- A part of what a callback gives. -/
theorem evalTargetFile_nulFree {read : Option (StringView → StringView)}
    (clean : ∀ found ∈ read, ∀ target, '\x00' ∉ found target) (missing tooLarge : String)
    {part : StringView → StringView} (inside : ∀ path, ∀ char ∈ part path, char ∈ path)
    (args : StringView) :
    NulFree (evalTargetFile inner ctx stack read missing tooLarge part args) := by
  unfold evalTargetFile
  split
  · exact nulFree_error _
  · rename_i found
    refine nulFree_bind fun name _ => ?_
    split
    · exact nulFree_ok not_mem_nil
    · refine nulFree_map fun value made nul => ?_
      unfold Context.validateCallbackValue at made
      split at made
      · cases made
      · cases made
        exact clean found rfl _ (inside _ _ nul)

variable (keeps : ∀ ctx stack text, '\x00' ∉ text → NulFree (inner ctx stack text))

include keeps

theorem evalActive_nulFree (active : Bool) (free : '\x00' ∉ args) :
    NulFree (evalActive inner ctx stack active args) := by
  unfold evalActive
  split
  · exact keeps _ _ _ free
  · exact nulFree_ok not_mem_nil

theorem evalIf_nulFree {args : List StringView} (free : ∀ arg ∈ args, '\x00' ∉ arg) :
    NulFree (evalIf inner ctx stack args) := by
  unfold evalIf
  split
  · refine nulFree_bind fun value _ => keeps _ _ _ ?_
    split
    · exact free _ (by simp)
    · exact free _ (by simp)
  · exact nulFree_error _

theorem evalTargetGenexEval_nulFree {args : List StringView}
    (free : ∀ arg ∈ args, '\x00' ∉ arg) : NulFree (evalTargetGenexEval inner ctx stack args) := by
  unfold evalTargetGenexEval
  split
  · refine nulFree_bind fun name _ => ?_
    split
    · exact nulFree_ok not_mem_nil
    · exact keeps _ _ _ (free _ (by simp))
  · exact nulFree_error _

variable (clean : ctx.ValuesNulFree)

include clean

theorem evalPropertyOf_nulFree (target property : StringView) :
    NulFree (evalPropertyOf inner ctx stack target property) := by
  unfold evalPropertyOf
  split
  · exact nulFree_ok not_mem_nil
  · split
    · exact nulFree_error _
    · rename_i read given
      split
      · exact nulFree_error _
      · split
        · exact nulFree_error _
        · split
          · exact nulFree_error _
          · refine nulFree_bind fun value made => keeps _ _ _ ?_
            unfold Context.validateCallbackValue at made
            split at made
            · cases made
            · cases made
              exact clean.targetProperty read given _ _

theorem evalTargetProperty_nulFree (args : List StringView) :
    NulFree (evalTargetProperty inner ctx stack args) := by
  unfold evalTargetProperty
  split
  · refine nulFree_bind fun name _ => ?_
    split
    · exact nulFree_error _
    · exact evalPropertyOf_nulFree keeps clean _ _
  · exact nulFree_bind fun name _ => nulFree_bind fun propertyName _ =>
      evalPropertyOf_nulFree keeps clean _ _
  · exact nulFree_error _

omit clean

theorem evalUnnamed_nulFree {op : StringView} (opFree : '\x00' ∉ op) (argsFree : '\x00' ∉ args) :
    NulFree (evalUnnamed inner ctx stack op args) := by
  unfold evalUnnamed
  split
  · exact keeps _ _ _ opFree
  · split
    · refine nulFree_bind fun value _ => ?_
      split
      · exact nulFree_ok not_mem_nil
      · exact keeps _ _ _ argsFree
    · exact nulFree_error _

include clean

/-- An operator gives a value of the context, a truth value, its own text, or what its arguments
evaluate to. -/
theorem evalOperator_nulFree {raw : StringView} (rawFree : '\x00' ∉ raw) (argsFree : '\x00' ∉ args)
    (operator : Operator) :
    NulFree (evalOperator inner ctx stack raw args operator) := by
  have parts : ∀ arg ∈ splitTopLevel ',' args, '\x00' ∉ arg :=
    fun arg split nul => argsFree ((infix_of_mem_splitTopLevel split).subset nul)
  have linker : ∀ read ∈ readLinkerFile ctx, ∀ target, '\x00' ∉ read target := by
    intro read given
    rcases Option.or_eq_some_iff.mp given with own | ⟨_, other⟩
    · exact clean.targetLinkerFile read own
    · exact clean.targetFile read other
  have dirname : ∀ path, ∀ char ∈ pathDirname path, char ∈ path := fun _ _ => mem_of_pathDirname
  have basename : ∀ path, ∀ char ∈ pathBasename path, char ∈ path :=
    fun _ _ => mem_of_pathBasename
  unfold evalOperator
  cases operator with
  | config =>
    dsimp only
    split
    · exact nulFree_ok clean.config
    · exact matchesAny_nulFree _ _
  | platformId =>
    dsimp only
    split
    · exact nulFree_ok clean.platformId
    · exact matchesAny_nulFree _ _
  | compileLanguage =>
    dsimp only
    split
    · exact nulFree_truth false
    · exact matchesAny_nulFree _ _
  | buildInterface => exact evalActive_nulFree keeps _ argsFree
  | buildLocalInterface => exact evalActive_nulFree keeps _ argsFree
  | installInterface => exact evalActive_nulFree keeps _ argsFree
  | installPrefix =>
    dsimp only
    split
    · exact nulFree_error _
    · exact nulFree_ok clean.installPrefix
  | linkOnly => exact evalActive_nulFree keeps _ argsFree
  | targetFile => exact evalTargetFile_nulFree clean.targetFile _ _ (fun _ _ => id) args
  | targetFileDir => exact evalTargetFile_nulFree clean.targetFile _ _ dirname args
  | targetFileName => exact evalTargetFile_nulFree clean.targetFile _ _ basename args
  | targetLinkerFile => exact evalTargetFile_nulFree linker _ _ (fun _ _ => id) args
  | targetLinkerFileDir => exact evalTargetFile_nulFree linker _ _ dirname args
  | targetLinkerFileName => exact evalTargetFile_nulFree linker _ _ basename args
  | bool => exact nulFree_map fun value _ => truthValue_nulFree _
  | not => exact nulFree_map fun value _ => truthValue_nulFree _
  | and => exact evalLogical_nulFree true _
  | or => exact evalLogical_nulFree false _
  | strequal => exact evalStrequal_nulFree _
  | ifThenElse => exact evalIf_nulFree keeps parts
  | genexEval => exact nulFree_bind fun value made => keeps _ _ _ (keeps _ _ _ argsFree value made)
  | targetGenexEval => exact evalTargetGenexEval_nulFree keeps parts
  | targetProperty => exact evalTargetProperty_nulFree keeps clean _
  | linkLibrary => exact nulFree_ok rawFree
  | linkGroup => exact nulFree_ok rawFree

theorem evalBody_nulFree {body : StringView} (free : '\x00' ∉ body) :
    NulFree (evalBody inner ctx stack body) := by
  have opFree : '\x00' ∉ (splitOperator body).1 :=
    fun nul => free ((splitOperator_parts body).1.subset nul)
  have argsFree : '\x00' ∉ (splitOperator body).2 :=
    fun nul => free ((splitOperator_parts body).2.subset nul)
  have rawFree : '\x00' ∉ sv "$<" ++ body ++ sv ">" := by
    simp only [mem_append, not_or]
    exact ⟨⟨by decide, free⟩, by decide⟩
  unfold evalBody
  dsimp only
  split
  · exact evalOperator_nulFree keeps clean rawFree argsFree _
  · exact evalUnnamed_nulFree keeps opFree argsFree

/-- What the loop puts together can be made a C string. -/
theorem spread_nulFree {input : StringView} (free : '\x00' ∉ input) :
    NulFree (spread inner ctx stack input) := by
  intro value made nul
  have chars : ∀ segment ∈ segments input, '\x00' ∉ segment.chars := by
    intro segment listed found
    rcases mem_of_mem_segmentsGo listed found with none | inside
    · exact nomatch none
    · exact free inside
  refine joinM_forall (p := (· ≠ '\x00')) made ?_ _ nul rfl
  intro segment listed first round other member same
  rw [same] at member
  cases segment with
  | text value =>
    cases round
    exact chars _ listed member
  | expression body => exact evalBody_nulFree keeps clean (chars _ listed) first round member
  | unclosed rest => cases round

end Bodies

/-- A text without a NUL evaluates to one, in any context: what is put together is a C string. -/
theorem evalInner_nulFree (room : Nat) (ctx : Context) (stack : PropertyStack) (text : StringView)
    (free : '\x00' ∉ text) : NulFree (evalInner room ctx stack text) := by
  cases room with
  | zero => exact nulFree_error _
  | succ room =>
    rw [evalInner]
    split
    · exact nulFree_map fun parts _ => nul_not_mem_svToCstr _
    · exact nulFree_ok free

/-! ## The law of concatenation -/

/-- Two texts of which the first ends between expressions evaluate side by side. -/
theorem evalInner_append {room : Nat} {ctx : Context} {stack : PropertyStack}
    (clean : ctx.ValuesNulFree) {left right : StringView} (textFree : '\x00' ∉ text)
    (behindFree : '\x00' ∉ behind) (dollar : text.getLast? ≠ some '$')
    (backslashes : oddBackslashes text = false)
    (first : evalInner (room + 1) ctx stack text = .ok left)
    (second : evalInner (room + 1) ctx stack behind = .ok right) :
    evalInner (room + 1) ctx stack (text ++ behind) = .ok (left ++ right) := by
  have bothFree : '\x00' ∉ text ++ behind := by
    rw [mem_append]
    exact not_or.mpr ⟨textFree, behindFree⟩
  rw [evalInner_spread textFree] at first
  rw [evalInner_spread behindFree] at second
  rw [evalInner_spread bothFree]
  cases leftMade : spread (evalInner room) ctx stack text with
  | error failure =>
    rw [leftMade] at first
    cases first
  | ok front =>
    cases rightMade : spread (evalInner room) ctx stack behind with
    | error failure =>
      rw [rightMade] at second
      cases second
    | ok back =>
      rw [leftMade] at first
      rw [rightMade] at second
      have free := spread_nulFree (evalInner_nulFree room) clean textFree front leftMade
      have own : svToCstr front = left := Except.ok.inj first
      have other : svToCstr back = right := Except.ok.inj second
      rw [spread_append dollar backslashes leftMade rightMade, ← own, ← other,
        svToCstr_eq_self free, ← svToCstr_append free]
      rfl

/-- `gx_eval_root` on two texts side by side. That the expressions of the first are closed is part
of its being evaluated. -/
theorem evalRoot_append (ctx : Context) (clean : ctx.ValuesNulFree)
    {text behind left right : StringView} (textFree : '\x00' ∉ text)
    (behindFree : '\x00' ∉ behind) (dollar : text.getLast? ≠ some '$')
    (backslashes : oddBackslashes text = false) (first : evalRoot ctx text = .ok left)
    (second : evalRoot ctx behind = .ok right) :
    evalRoot ctx (text ++ behind) = .ok (left ++ right) := by
  unfold evalRoot at *
  dsimp only at *
  refine evalInner_append ?_ textFree behindFree dollar backslashes first second
  exact ⟨clean.config, clean.platformId, clean.installPrefix, clean.targetProperty,
    clean.targetFile, clean.targetLinkerFile⟩

/-- A release build. -/
def releaseContext : Context where
  config := sv "Release"

theorem releaseContext_clean : releaseContext.ValuesNulFree where
  config := by decide
  platformId := by decide
  installPrefix := by decide
  targetProperty _ none := by cases none
  targetFile _ none := by cases none
  targetLinkerFile _ none := by cases none

theorem evalRoot_append_release : evalRoot releaseContext (sv "a$<CONFIG>" ++ sv "b$<CONFIG>") =
      .ok (sv "aRelease" ++ sv "bRelease") :=
  evalRoot_append releaseContext releaseContext_clean (by decide) (by decide) (by decide)
    (by decide) (by decide) (by decide)

/-- A configuration that holds a NUL ends the text that is put together. -/
theorem evalRoot_append_nul :
    ¬∀ (ctx : Context) (text behind left right : StringView), '\x00' ∉ text → '\x00' ∉ behind →
      (∀ start < text.length, isGenexOpenAt text start = true →
        findMatchingGenexEnd text start ≠ none) →
      text.getLast? ≠ some '$' → oddBackslashes text = false → evalRoot ctx text = .ok left →
      evalRoot ctx behind = .ok right → evalRoot ctx (text ++ behind) = .ok (left ++ right) := by
  intro all
  have whole := all { config := ['A', '\x00', 'B'] } (sv "$<CONFIG>") (sv "z") (sv "A") (sv "z")
    (by decide) (by decide) (by decide) (by decide) (by decide) (by decide) (by decide)
  exact absurd whole (by decide)

end Nobify.Genex
