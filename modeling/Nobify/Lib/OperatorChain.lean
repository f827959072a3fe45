import Nobify.Lib.ExceptLoop

/-!
# Chains of operators

One level of a grammar of expressions: operands with operators of one precedence between them, each
of which is applied to what came before it. The parser of a level is made from the parser of its
operands, so the levels of a grammar are such parsers on top of each other. A loop with as many
rounds as the text has characters never runs out of them.
-/

namespace Nobify.Lib

variable {ε χ α ω : Type}

/-- What follows a sequence's first part only matters on its value. -/
theorem bind_congr_ok {β γ : Type} {first : Except ε β} {next other : β → Except ε γ}
    (same : ∀ value, first = .ok value → next value = other value) :
    first >>= next = first >>= other := by
  cases first with
  | error fault => rfl
  | ok value => exact same value rfl

/-- A parser: a value and the text behind it, or a fault. -/
abbrev Parser (ε χ α : Type) := List χ → Except ε (α × List χ)

/-- The text behind a value is not longer than the text. -/
def Parser.Shortens (parser : Parser ε χ α) : Prop :=
  ∀ text value rest, parser text = .ok (value, rest) → rest.length ≤ text.length

/-- How the operators of a level are read, after what may stand between two tokens. -/
structure Operators (χ ω : Type) where
  skip : List χ → List χ
  read : List χ → Option (ω × List χ)
  skip_length : ∀ text, (skip text).length ≤ text.length
  skip_skip : ∀ text, skip (skip text) = skip text
  read_length : ∀ text op rest, read text = some (op, rest) → rest.length < text.length

namespace Operators

variable (operators : Operators χ ω) (apply : ω → α → α → Except ε α) (operand : Parser ε χ α)
  (exhausted : ε)

/-- Operators and their right operands, for so many rounds. -/
def loop : Nat → α → Parser ε χ α
  | rounds, value, text =>
    match operators.read (operators.skip text) with
    | none => .ok (value, operators.skip text)
    | some (op, rest) =>
      match rounds with
      | 0 => .error exhausted
      | rounds + 1 =>
        operand rest >>= fun right =>
          apply op value right.1 >>= fun value => loop rounds value right.2

/-- An operand, and what follows it on its level. -/
def chain : Parser ε χ α := fun text =>
  operand text >>= fun first =>
    operators.loop apply operand exhausted first.2.length first.1 first.2

variable {operators apply operand exhausted}

/-- Behind an operator the text is shorter. -/
theorem read_skip_length {text rest : List χ} {op : ω}
    (read : operators.read (operators.skip text) = some (op, rest)) : rest.length < text.length :=
  Nat.lt_of_lt_of_le (operators.read_length _ op rest read) (operators.skip_length text)

variable {text : List χ}

/-- Without an operator the loop ends. -/
theorem loop_stop (none : operators.read (operators.skip text) = none) (rounds : Nat) (value : α) :
    operators.loop apply operand exhausted rounds value text =
      .ok (value, operators.skip text) := by
  unfold loop
  rw [none]

theorem loop_succ {text rest : List χ} {op : ω}
    (read : operators.read (operators.skip text) = some (op, rest)) (rounds : Nat) (value : α) :
    operators.loop apply operand exhausted (rounds + 1) value text = operand rest >>= fun right =>
        apply op value right.1 >>= fun value =>
          operators.loop apply operand exhausted rounds value right.2 := by
  conv_lhs => unfold loop
  rw [read]

/-- More rounds than characters make no difference. -/
theorem loop_rounds (shortens : operand.Shortens) {rounds : Nat} {value : α}
    (enough : text.length ≤ rounds) :
    operators.loop apply operand exhausted rounds value text =
      operators.loop apply operand exhausted text.length value text := by
  induction rounds using Nat.strongRecOn generalizing value text with
  | ind rounds ih =>
    cases read : operators.read (operators.skip text) with
    | none => rw [loop_stop read, loop_stop read]
    | some found =>
      obtain ⟨op, rest⟩ := found
      have shorter := read_skip_length read
      obtain ⟨many, rfl⟩ : ∃ many, rounds = many + 1 := ⟨rounds - 1, by omega⟩
      obtain ⟨length, same⟩ : ∃ length, text.length = length + 1 := ⟨text.length - 1, by omega⟩
      rw [same, loop_succ read, loop_succ read]
      apply bind_congr_ok
      intro right parsed
      apply bind_congr_ok
      intro result _
      have bound := shortens rest right.1 right.2 parsed
      rw [ih many (by omega) (by omega)]
      by_cases fewer : length < many + 1
      · rw [ih length fewer (by omega)]
      · omega

/-- An operator is applied to its right operand, and the loop goes on. -/
theorem loop_read (shortens : operand.Shortens) {text rest : List χ} {op : ω}
    (read : operators.read (operators.skip text) = some (op, rest)) (value : α) :
    operators.loop apply operand exhausted text.length value text = operand rest >>= fun right =>
        apply op value right.1 >>= fun value =>
          operators.loop apply operand exhausted right.2.length value right.2 := by
  have shorter := read_skip_length read
  obtain ⟨length, same⟩ : ∃ length, text.length = length + 1 := ⟨text.length - 1, by omega⟩
  rw [same, loop_succ read]
  apply bind_congr_ok
  intro right parsed
  apply bind_congr_ok
  intro result _
  have bound := shortens rest right.1 right.2 parsed
  exact loop_rounds shortens (by omega)

/-- What is skipped in front makes no difference. -/
theorem loop_skip (shortens : operand.Shortens) (value : α) (text : List χ) :
    operators.loop apply operand exhausted (operators.skip text).length value
        (operators.skip text) =
      operators.loop apply operand exhausted text.length value text := by
  cases read : operators.read (operators.skip text) with
  | none =>
    have again : operators.read (operators.skip (operators.skip text)) = none := by
      rw [operators.skip_skip, read]
    rw [loop_stop read, loop_stop again, operators.skip_skip]
  | some found =>
    have again : operators.read (operators.skip (operators.skip text)) = some found := by
      rw [operators.skip_skip, read]
    rw [loop_read shortens read, loop_read shortens again]

theorem loop_shortens (shortens : operand.Shortens) (rounds : Nat) (value : α) :
    Parser.Shortens (operators.loop apply operand exhausted rounds value) := by
  induction rounds generalizing value with
  | zero =>
    intro text result behind parsed
    cases read : operators.read (operators.skip text) with
    | none =>
      rw [loop_stop read] at parsed
      cases parsed
      exact operators.skip_length text
    | some found =>
      unfold loop at parsed
      rw [read] at parsed
      cases parsed
  | succ rounds ih =>
    intro text result behind parsed
    cases read : operators.read (operators.skip text) with
    | none =>
      rw [loop_stop read] at parsed
      cases parsed
      exact operators.skip_length text
    | some found =>
      obtain ⟨op, rest⟩ := found
      rw [loop_succ read] at parsed
      obtain ⟨right, here, parsed⟩ := bind_eq_ok.mp parsed
      obtain ⟨applied, _, parsed⟩ := bind_eq_ok.mp parsed
      have first := shortens rest right.1 right.2 here
      have later := ih applied right.2 result behind parsed
      have shorter := read_skip_length read
      omega

theorem chain_shortens (shortens : operand.Shortens) :
    Parser.Shortens (operators.chain apply operand exhausted) := by
  intro text result behind parsed
  obtain ⟨first, here, parsed⟩ := bind_eq_ok.mp parsed
  have start := shortens text first.1 first.2 here
  have rest := loop_shortens shortens _ _ first.2 result behind parsed
  omega

/-! ## What values and faults satisfy -/

/-- A value satisfies the one condition and a fault the other. -/
def Meets {β : Type} (holds : β → Prop) (allowed : ε → Prop) : Except ε β → Prop
  | .ok value => holds value
  | .error fault => allowed fault

theorem Meets.bind {β γ : Type} {holds : β → Prop} {later : γ → Prop} {allowed : ε → Prop}
    {first : Except ε β} {next : β → Except ε γ} (meets : Meets holds allowed first)
    (rest : ∀ value, first = .ok value → holds value → Meets later allowed (next value)) :
    Meets later allowed (first >>= next) := by
  cases first with
  | error fault => exact meets
  | ok value => exact rest value rfl meets

section Meets

variable {holds : α → Prop} {allowed : ε → Prop} {bound : Nat}

theorem loop_meets (shortens : operand.Shortens)
    (operands : ∀ text, text.length ≤ bound → Meets (fun found => holds found.1) allowed (operand
      text))
    (applies : ∀ op left right, holds left → holds right → Meets holds allowed (apply op left
      right)) {value : α} (here : holds value) (short : text.length ≤ bound) :
    Meets (fun found => holds found.1) allowed
      (operators.loop apply operand exhausted text.length value text) := by
  induction length_eq : text.length using Nat.strongRecOn generalizing value text with
  | ind length ih =>
    rw [← length_eq]
    cases read : operators.read (operators.skip text) with
    | none =>
      rw [loop_stop read]
      exact here
    | some found =>
      obtain ⟨op, rest⟩ := found
      have shorter := read_skip_length read
      rw [loop_read shortens read]
      refine (operands rest (by omega)).bind ?_
      intro right parsed holdsRight
      refine (applies op value right.1 here holdsRight).bind ?_
      intro result _ holdsResult
      have behind := shortens rest right.1 right.2 parsed
      exact ih right.2.length (by omega) holdsResult (by omega) rfl

/-- A chain meets what its operands and its operators meet; its rounds do not run out. -/
theorem chain_meets (shortens : operand.Shortens)
    (operands : ∀ text, text.length ≤ bound → Meets (fun found => holds found.1) allowed (operand
      text))
    (applies : ∀ op left right, holds left → holds right → Meets holds allowed (apply op left
      right)) (short : text.length ≤ bound) :
    Meets (fun found => holds found.1) allowed (operators.chain apply operand exhausted text) := by
  refine (operands text short).bind ?_
  intro first parsed here
  have behind := shortens text first.1 first.2 parsed
  exact loop_meets shortens operands applies here (by omega)

end Meets

end Operators

end Nobify.Lib
