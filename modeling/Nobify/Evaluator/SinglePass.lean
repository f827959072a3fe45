import Nobify.Evaluator.BracketContent
import Nobify.Lib.Memo

/-!
# The expansion as a single pass

What a text expands to, said without the loop that does it: a text is read once, from left to right,
as escaped dollar signs, references and characters that stand for themselves. The name in `${...}`
is expanded first, and what a reference is replaced by is not read again.

`eval_expand_vars` gives that, as long as references do not nest deeper than its limit and none of
the bytes is one that it uses itself.
-/

namespace Nobify.Evaluator

open Prog
open List

/-! ## Reading a text -/

/-- Every brace that opens is closed, and none closes that was not opened. -/
def bracesClose : Nat → StringView → Bool
  | depth, [] => depth == 0
  | depth, char :: rest =>
    if char = '{' then bracesClose (depth + 1) rest
    else if char = '}' then depth != 0 && bracesClose (depth - 1) rest
    else bracesClose depth rest

/-- `\$`. -/
def escapedText (rest : StringView) : StringView := sv "\\$" ++ rest

/-- `$ENV{name}`. -/
def envText (name rest : StringView) : StringView := sv "$ENV\x7b" ++ (name ++ '}' :: rest)

/-- `${inner}`. -/
def referenceText (inner rest : StringView) : StringView := sv "$\x7b" ++ (inner ++ '}' :: rest)

/-- An escaped dollar sign or a closed reference stands at the front. -/
def StartsPiece (text : StringView) : Prop :=
  (∃ rest, text = escapedText rest) ∨ (∃ name rest, '}' ∉ name ∧ text = envText name rest) ∨
    ∃ inner rest, bracesClose 0 inner = true ∧ text = referenceText inner rest

/-- The single pass over a text, with the values of the environment and of variables, where
references nest at most this deep. -/
inductive Expands (env value : StringView → StringView) : Nat → StringView → StringView → Prop
  | nil {depth : Nat} : Expands env value depth [] []
  | escape {depth : Nat} {rest out : StringView} (later : Expands env value depth rest out) :
    Expands env value depth (escapedText rest) ('$' :: out)
  | env {depth : Nat} {name rest out : StringView} (closed : '}' ∉ name)
    (later : Expands env value depth rest out) :
    Expands env value depth (envText name rest) (env name ++ out)
  | reference {depth : Nat} {inner name rest out : StringView}
    (closed : bracesClose 0 inner = true) (named : Expands env value depth inner name)
    (later : Expands env value (depth + 1) rest out) :
    Expands env value (depth + 1) (referenceText inner rest) (value name ++ out)
  | literal {depth : Nat} {char : Char} {rest out : StringView}
    (alone : ¬ StartsPiece (char :: rest)) (later : Expands env value depth rest out) :
    Expands env value depth (char :: rest) (char :: out)

/-- Only a backslash or a dollar sign starts a piece. -/
theorem not_startsPiece {char : Char} {rest : StringView} (backslash : char ≠ '\\')
    (dollar : char ≠ '$') : ¬ StartsPiece (char :: rest) := by
  rintro (⟨after, shape⟩ | ⟨name, after, _, shape⟩ | ⟨inner, after, _, shape⟩)
  · exact backslash (List.cons.inj shape).1
  · exact dollar (List.cons.inj shape).1
  · exact dollar (List.cons.inj shape).1

section Expands

variable {env value : StringView → StringView}

end Expands

/-! ## The loop reads the same pieces -/

/-- The scan of the loop stops at the brace that closes a reference. -/
theorem scanBraces_iff {depth : Nat} {inner text found : StringView} :
    scanBraces (depth + 1) inner text = some found ↔
      ∃ part rest, text = part ++ '}' :: rest ∧ found = inner ++ part ∧
        bracesClose depth part = true := by
  induction text generalizing depth inner with
  | nil =>
    constructor
    · intro closed
      cases closed
    · rintro ⟨part, rest, shape, _⟩
      exact absurd shape.symm (append_ne_nil_of_right_ne_nil _ (cons_ne_nil _ _))
  | cons char text ih =>
    have onward : ∀ {next : Nat}, (∀ part, bracesClose depth (char :: part) = bracesClose next part) →
        char ≠ '}' ∨ depth ≠ 0 →
        ((∃ part rest, text = part ++ '}' :: rest ∧ found = inner ++ [char] ++ part ∧
          bracesClose next part = true) ↔
        ∃ part rest, char :: text = part ++ '}' :: rest ∧ found = inner ++ part ∧
          bracesClose depth part = true) := by
      intro next same other
      constructor
      · rintro ⟨part, rest, shape, whole, closed⟩
        refine ⟨char :: part, rest, congrArg (List.cons char) shape, ?_, (same part).trans closed⟩
        rw [whole, append_assoc, singleton_append]
      · rintro ⟨part, rest, shape, whole, closed⟩
        cases part with
        | nil =>
          cases shape
          have outer : depth = 0 := beq_iff_eq.mp closed
          exact absurd outer (other.resolve_left (not_not_intro rfl))
        | cons first part =>
          cases shape
          refine ⟨part, rest, rfl, ?_, (same part).symm.trans closed⟩
          rw [whole, append_assoc, singleton_append]
    rw [scanBraces]
    by_cases opens : char = '{'
    · rw [if_pos opens, ih]
      refine onward (fun part => ?_) (Or.inl ?_)
      · rw [bracesClose, if_pos opens]
      · rw [opens]
        decide
    rw [if_neg opens]
    by_cases closes : char = '}'
    · rw [if_pos closes]
      cases depth with
      | zero =>
        rw [if_pos rfl]
        constructor
        · intro same
          cases same
          exact ⟨[], text, by rw [closes]; rfl, (append_nil _).symm, rfl⟩
        · rintro ⟨part, rest, shape, whole, closed⟩
          cases part with
          | nil => rw [whole, append_nil]
          | cons first part =>
            cases shape
            rw [bracesClose, if_neg opens, if_pos closes] at closed
            cases closed
      | succ depth =>
        rw [if_neg (by omega), Nat.add_sub_cancel, ih]
        refine onward (fun part => ?_) (Or.inr (Nat.succ_ne_zero depth))
        rw [bracesClose, if_neg opens, if_pos closes]
        rfl
    · rw [if_neg closes, ih]
      refine onward (fun part => ?_) (Or.inl closes)
      rw [bracesClose, if_neg opens, if_neg closes]

/-- Characters that belong to the piece before are skipped. -/
theorem expandPieces_skip (front rest : StringView) :
    expandPieces front.length (front ++ rest) = expandPieces 0 rest := by
  induction front with
  | nil => rfl
  | cons char front ih => exact ih

theorem expandPieces_escaped (rest : StringView) :
    expandPieces 0 (escapedText rest) = .escapedDollar :: expandPieces 0 rest := rfl

/-- A piece is taken whole, and what stands behind it is cut on its own. -/
theorem expandPieces_piece {piece : ExpandPiece} {text rest : StringView}
    (here : pieceAt '$' (text ++ rest) = (piece, text.length)) :
    expandPieces 0 ('$' :: (text ++ rest)) = piece :: expandPieces 0 rest := by
  rw [expandPieces, here]
  exact congrArg (piece :: ·) (expandPieces_skip text rest)

theorem expandPieces_env {name : StringView} (closed : '}' ∉ name) (rest : StringView) :
    expandPieces 0 (envText name rest) = .env name :: expandPieces 0 rest := by
  have taken : (name ++ '}' :: rest).takeWhile (· != '}') = name := by
    have inside : ∀ char ∈ name, (char != '}') = true := by
      intro char listed
      refine bne_iff_ne.mpr fun same => ?_
      rw [same] at listed
      exact closed listed
    rw [takeWhile_append_of_pos inside]
    exact (congrArg (name ++ ·) (takeWhile_cons_of_neg (by decide))).trans (append_nil name)
  have listed : '}' ∈ name ++ '}' :: rest := mem_append_right _ mem_cons_self
  have front : sv "ENV\x7b" ++ (name ++ ['}']) ++ rest = sv "ENV\x7b" ++ (name ++ '}' :: rest) := by
    rw [append_assoc, append_assoc, singleton_append]
  have text : envText name rest = '$' :: (sv "ENV\x7b" ++ (name ++ ['}']) ++ rest) := by
    rw [front]
    rfl
  rw [text]
  apply expandPieces_piece
  rw [front, length_append, length_append, length_singleton]
  unfold pieceAt
  rw [if_neg fun escape => absurd escape.1 (by decide), if_pos ⟨rfl, rfl, listed⟩]
  have same := congrArg (fun name : StringView => (ExpandPiece.env name, name.length + 5)) taken
  refine same.trans (Prod.ext rfl ?_)
  show name.length + 5 = 4 + (name.length + 1)
  omega

theorem expandPieces_reference {inner : StringView} (closed : bracesClose 0 inner = true)
    (rest : StringView) :
    expandPieces 0 (referenceText inner rest) = .reference inner :: expandPieces 0 rest := by
  have found : scanBraces 1 [] (inner ++ '}' :: rest) = some inner :=
    (scanBraces_iff).mpr ⟨inner, rest, rfl, rfl, closed⟩
  have front : '{' :: (inner ++ ['}']) ++ rest = '{' :: (inner ++ '}' :: rest) := by
    rw [cons_append, append_assoc, singleton_append]
  have text : referenceText inner rest = '$' :: ('{' :: (inner ++ ['}']) ++ rest) := by
    rw [front]
    rfl
  rw [text]
  apply expandPieces_piece
  rw [front, length_cons, length_append, length_singleton]
  unfold pieceAt
  rw [if_neg fun escape => absurd escape.1 (by decide),
    if_neg fun env => Bool.false_ne_true env.2.1, if_pos ⟨rfl, rfl⟩, tail_cons, found]

/-- Where no piece starts a character stands for itself. -/
theorem expandPieces_literal {char : Char} {rest : StringView}
    (alone : ¬ StartsPiece (char :: rest)) :
    expandPieces 0 (char :: rest) = .plain char :: expandPieces 0 rest := by
  have here : pieceAt char rest = (.plain char, 0) := by
    unfold pieceAt
    rw [if_neg, if_neg]
    · by_cases reference : char = '$' ∧ rest.head? = some '{'
      · rw [if_pos reference]
        obtain ⟨after, shape⟩ := List.head?_eq_some_iff.mp reference.2
        rw [shape, tail_cons]
        cases found : scanBraces 1 [] after with
        | none => rfl
        | some inner =>
          obtain ⟨part, behind, whole, same, closed⟩ := (scanBraces_iff).mp found
          refine absurd (Or.inr (Or.inr ⟨part, behind, closed, ?_⟩)) alone
          rw [reference.1, shape, whole]
          rfl
      · rw [if_neg reference]
    · rintro ⟨dollar, front, closer⟩
      obtain ⟨after, shape⟩ := List.isPrefixOf_iff_prefix.mp front
      have dropped : rest.drop 4 = after := by
        rw [← shape]
        rfl
      rw [dropped] at closer
      obtain ⟨name, later, split, closed⟩ := eq_append_cons_of_mem closer
      refine alone (Or.inr (Or.inl ⟨name, later, closed, ?_⟩))
      rw [dollar, ← shape, split]
      rfl
    · rintro ⟨backslash, dollar⟩
      obtain ⟨after, shape⟩ := List.head?_eq_some_iff.mp dollar
      refine alone (Or.inl ⟨after, ?_⟩)
      rw [backslash, shape]
      rfl
  rw [expandPieces, here]

/-! ## The values of a context -/

/-- What `$ENV{name}` is replaced by. -/
def envValue (host : Host) (ctx : EvalExecContext) (name : StringView) : StringView :=
  (getenvTemp host ctx name).getD []

/-- What a reference to the name is replaced by: a macro binding comes before a variable. -/
def referenceValue (ctx : EvalExecContext) (name : StringView) : StringView :=
  (macroBindGet ctx.state name).getD (ctx.state.varGetVisible name)

/-- No byte of the text is one that the expansion uses itself: the mark of an escaped dollar sign or
the end of a C string. -/
def Unmarked (text : StringView) : Prop := escapedDollarSentinel ∉ text ∧ '\x00' ∉ text

/-- A text that is read as it stands. Without a dollar sign it is not made a C string. -/
def Readable (text : StringView) : Prop :=
  escapedDollarSentinel ∉ text ∧ ('$' ∈ text → '\x00' ∉ text)

/-- No value of the context holds such a byte. -/
def UnmarkedValues (host : Host) (ctx : EvalExecContext) : Prop :=
  ∀ name, Unmarked (envValue host ctx name) ∧ Unmarked (referenceValue ctx name)

variable {text : StringView}

theorem Unmarked.readable (unmarked : Unmarked text) : Readable text :=
  ⟨unmarked.1, fun _ => unmarked.2⟩

theorem Unmarked.subset {text part : StringView} (unmarked : Unmarked text) (inside : part ⊆ text) :
    Unmarked part :=
  ⟨fun listed => unmarked.1 (inside listed), fun listed => unmarked.2 (inside listed)⟩

theorem Readable.unmarked (readable : Readable text) (dollar : '$' ∈ text) :
    Unmarked text := ⟨readable.1, readable.2 dollar⟩

theorem Readable.tail {char : Char} {rest : StringView} (readable : Readable (char :: rest)) :
    Readable rest :=
  ⟨fun listed => readable.1 (mem_cons_of_mem char listed), fun dollar listed =>
    readable.2 (mem_cons_of_mem char dollar) (mem_cons_of_mem char listed)⟩

theorem Unmarked.restored (unmarked : Unmarked text) :
    restoreEscapedDollar text = text := restoreEscapedDollar_eq_self_iff.mpr unmarked.1

theorem restoreEscapedDollar_append (front rest : StringView) :
    restoreEscapedDollar (front ++ rest) =
      restoreEscapedDollar front ++ restoreEscapedDollar rest := map_append

/-- A value in front of what follows it. -/
theorem Unmarked.front {value raw out : StringView} (unmarked : Unmarked value)
    (back : restoreEscapedDollar raw = out) :
    restoreEscapedDollar (value ++ raw) = value ++ out := by
  rw [restoreEscapedDollar_append, unmarked.restored, back]

/-! ## The expansion is the single pass -/

section Pass

variable (host : Host)
  (dispatch : Nat → Nat → StringView → List Arg → EvalExecContext → Option (Run EvalResult))
  {ctx : EvalExecContext}

/-- Within the limit a call of `eval_expand_vars_depth` is its loop. -/
theorem exec_expandVarsDepth_within {fuel depth : Nat} {text raw : StringView}
    (running : ctx.shouldStop = false) (within : depth ≤ expandLimit host ctx)
    (went : (expandOnce host (expandVarsDepth host fuel (depth + 1)) (expandPieces 0 text) []).exec
      dispatch ctx = some ⟨raw, ctx, []⟩)
    (uncut : '$' ∈ text → '\x00' ∉ raw) :
    (expandVarsDepth host (fuel + 1) depth text).exec dispatch ctx =
      some ⟨restoreEscapedDollar raw, ctx, []⟩ := by
  have built := exec_bind_pure dispatch (fun raw => restoreEscapedDollar (sbBuild text raw)) went
  show (if ctx.shouldStop = true then _ else _ : Prog StringView).exec dispatch ctx = _
  rw [if_neg (by rw [running]; exact Bool.false_ne_true), if_neg (by omega)]
  refine built.trans ?_
  show some _ = _
  rw [sbBuild_eq_self uncut]

/-- The loop adds what the single pass adds, with escaped dollar signs still marked. -/
theorem exec_expandOnce_singlePass (running : ctx.shouldStop = false)
    (values : UnmarkedValues host ctx) {nesting : Nat} {text out : StringView}
    (reads : Expands (envValue host ctx) (referenceValue ctx) nesting text out)
    {fuel depth : Nat} (enough : text.length ≤ fuel)
    (within : depth + nesting ≤ expandLimit host ctx) (readable : Readable text)
    (done : StringView) :
    ∃ raw, (expandOnce host (expandVarsDepth host fuel (depth + 1)) (expandPieces 0 text) done).exec
        dispatch ctx = some ⟨done ++ raw, ctx, []⟩ ∧
      restoreEscapedDollar raw = out ∧ ('\x00' ∉ text → '\x00' ∉ raw) := by
  induction reads generalizing fuel depth done with
  | nil =>
    refine ⟨[], ?_, rfl, id⟩
    rw [append_nil]
    rfl
  | @escape nesting rest out later ih =>
    have behind : rest <:+ escapedText rest := suffix_append _ _
    have clean : Unmarked (escapedText rest) :=
      readable.unmarked (mem_cons_of_mem '\\' mem_cons_self)
    have cleanRest : Unmarked rest := clean.subset behind.subset
    have shorter : rest.length ≤ fuel := le_trans behind.length_le enough
    obtain ⟨raw, went, back, uncut⟩ := ih shorter within cleanRest.readable
      (done ++ [escapedDollarSentinel])
    refine ⟨escapedDollarSentinel :: raw, ?_, ?_, fun _ listed => ?_⟩
    · rw [expandPieces_escaped, append_cons]
      exact went
    · rw [← back]
      rfl
    · rcases mem_cons.mp listed with same | inside
      · exact absurd same (by decide)
      · exact uncut cleanRest.2 inside
  | @env nesting name rest out closed later ih =>
    have behind : rest <:+ envText name rest :=
      (suffix_cons '}' rest).trans ((suffix_append _ _).trans (suffix_append _ _))
    have clean : Unmarked (envText name rest) := readable.unmarked mem_cons_self
    have cleanRest : Unmarked rest := clean.subset behind.subset
    have shorter : rest.length ≤ fuel := le_trans behind.length_le enough
    have value : Unmarked (envValue host ctx name) := (values name).1
    obtain ⟨raw, went, back, uncut⟩ := ih shorter within cleanRest.readable
      (done ++ envValue host ctx name)
    refine ⟨envValue host ctx name ++ raw, ?_, value.front back, fun _ listed => ?_⟩
    · rw [expandPieces_env closed, ← append_assoc]
      show (if ctx.shouldStop = true then _ else _ : Prog StringView).exec dispatch ctx = _
      rw [if_neg (by rw [running]; exact Bool.false_ne_true)]
      exact went
    · rcases mem_append.mp listed with inValue | inside
      · exact value.2 inValue
      · exact uncut cleanRest.2 inside
  | @reference nesting inner name rest out closed named later namedIh ih =>
    have front : inner ++ '}' :: rest <:+ referenceText inner rest := suffix_append _ _
    have behind : rest <:+ referenceText inner rest :=
      (suffix_cons '}' rest).trans ((suffix_append _ _).trans front)
    have withinInner : depth + 1 + nesting ≤ expandLimit host ctx := by omega
    have clean : Unmarked (referenceText inner rest) := readable.unmarked mem_cons_self
    have cleanRest : Unmarked rest := clean.subset behind.subset
    have cleanInner : Unmarked inner :=
      clean.subset (List.Subset.trans (subset_append_left inner _) front.subset)
    have shorter : rest.length ≤ fuel := le_trans behind.length_le enough
    have value : Unmarked (referenceValue ctx name) := (values name).2
    have size : (referenceText inner rest).length = inner.length + rest.length + 3 := by
      show (inner ++ '}' :: rest).length + 2 = _
      rw [length_append, length_cons]
      omega
    obtain ⟨less, rfl⟩ : ∃ less, fuel = less + 1 := ⟨fuel - 1, by omega⟩
    obtain ⟨text, read, expanded, whole⟩ := @namedIh less (depth + 1) (by omega) withinInner
      cleanInner.readable []
    have inside : (expandVarsDepth host (less + 1) (depth + 1) inner).exec dispatch ctx =
        some ⟨name, ctx, []⟩ := by
      rw [← expanded]
      exact exec_expandVarsDepth_within host dispatch running (by omega) read
        fun _ => whole cleanInner.2
    obtain ⟨raw, went, back, uncut⟩ := ih shorter within cleanRest.readable
      (done ++ referenceValue ctx name)
    refine ⟨referenceValue ctx name ++ raw, ?_, value.front back, fun _ listed => ?_⟩
    · rw [expandPieces_reference closed, ← append_assoc]
      exact exec_bind_quiet dispatch inside went
    · rcases mem_append.mp listed with inValue | inside
      · exact value.2 inValue
      · exact uncut cleanRest.2 inside
  | @literal nesting char rest out alone later ih =>
    have shorter : rest.length ≤ fuel := by
      rw [length_cons] at enough
      omega
    obtain ⟨raw, went, back, uncut⟩ := ih shorter within readable.tail (done ++ [char])
    refine ⟨char :: raw, ?_, ?_, fun nulFree listed => ?_⟩
    · rw [expandPieces_literal alone, append_cons]
      exact went
    · have other : char ≠ escapedDollarSentinel := fun same =>
        readable.1 (by rw [same]; exact mem_cons_self)
      rw [← back]
      exact congrArg (· :: restoreEscapedDollar raw) (if_neg other)
    · rcases mem_cons.mp listed with same | inside
      · exact nulFree (by rw [same]; exact mem_cons_self)
      · exact uncut (fun found => nulFree (mem_cons_of_mem char found)) inside

end Pass

/-- In a context with one variable no value holds a byte that the value of the variable does not
hold. -/
theorem unmarkedValues_contextWith {name value : String} (unmarked : Unmarked (sv value)) :
    UnmarkedValues bareHost (contextWith name value) := by
  have empty : Unmarked [] := ⟨not_mem_nil, not_mem_nil⟩
  intro key
  constructor
  · have unset : envValue bareHost (contextWith name value) key = [] := by
      unfold envValue getenvTemp
      dsimp only
      by_cases unnamed : svToCstr key = []
      · rw [if_pos unnamed]
        rfl
      · rw [if_neg unnamed]
        show (if (contextWith name value).shouldStop = true then none
          else none : Option StringView).getD [] = []
        rw [ite_self]
        rfl
    rw [unset]
    exact empty
  · have look : EvalState.lookupVisible ((contextWith name value).state.scope.scopes.take
        (contextWith name value).state.scope.visibleScopeDepth) key =
        ([Lib.Table.empty.put (svToCstr (sv name)) (sv value)] : List VarTable).findSome?
          fun table => table.get? (svToCstr key) := rfl
    have inView : ¬ (contextWith name value).state.scope.visibleScopeDepth = 0 := Nat.one_ne_zero
    show Unmarked ((contextWith name value).state.varGetVisible key)
    unfold EvalState.varGetVisible
    rw [if_neg inView, look, List.findSome?_cons, Lib.Table.get?_put]
    by_cases same : svToCstr key = svToCstr (sv name)
    · rw [if_pos same]
      exact unmarked
    · rw [if_neg same]
      exact empty

/-- The expansion gives what the single pass gives, however deep references nest. -/
def GivesSinglePass (host : Host)
    (dispatch : Nat → Nat → StringView → List Arg → EvalExecContext → Option (Run EvalResult))
    (ctx : EvalExecContext) (text : StringView) : Prop :=
  ∀ nesting out, Expands (envValue host ctx) (referenceValue ctx) nesting text out →
    ((expandVars host text).exec dispatch ctx).map Run.value = some out

/-- The context in which `A` is `x` and references may nest once. -/
def shallowContext : EvalExecContext :=
  let ctx := contextWith "A" "x"
  { ctx with state := ctx.state.setCurrent (sv "CMAKE_NOBIFY_EXPAND_MAX_RECURSION") (sv "1") }

end Nobify.Evaluator
