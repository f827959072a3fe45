import Nobify.Genex.Parse

/-!
# Expressions by position

The predicates of `genex_parse.c` as the source has them, on positions of a text: each looks back
over the backslashes that stand before a position. `gx_find_matching_genex_end` finds the end of
the expression that opens at a position, and a position is in a span when some expression that is
closed opens before it and closes behind it.
-/

namespace Nobify.Genex

open List

/-- The number of backslashes at the end of a text is odd. -/
def oddBackslashes (before : StringView) : Bool :=
  (before.reverse.takeWhile (· == '\\')).length % 2 == 1

/-- `gx_is_escaped`. -/
def isEscaped (input : StringView) (idx : Nat) : Bool :=
  if idx = 0 ∨ input.length < idx then false else oddBackslashes (input.take idx)

/-- `gx_is_genex_open_at`. -/
def isGenexOpenAt (input : StringView) (i : Nat) : Bool :=
  if input.length ≤ i + 1 then false
  else if input[i]? ≠ some '$' ∨ input[i + 1]? ≠ some '<' then false
  else !isEscaped input i

/-- `gx_is_unescaped_char_at`. -/
def isUnescapedCharAt (input : StringView) (i : Nat) (ch : Char) : Bool :=
  if input.length ≤ i ∨ input[i]? ≠ some ch then false else !isEscaped input i

/-- The loop of `gx_find_matching_genex_end` at a position, for at most so many rounds. -/
def matchingGenexEndFrom (input : StringView) : Nat → Nat → Nat → Option Nat
  | 0, _, _ => none
  | rounds + 1, depth, i =>
    if input.length ≤ i then none
    else if isGenexOpenAt input i then matchingGenexEndFrom input rounds (depth + 1) (i + 2)
    else if isUnescapedCharAt input i '>' then
      if depth = 0 then none
      else if depth - 1 = 0 then some i
      else matchingGenexEndFrom input rounds (depth - 1) (i + 1)
    else matchingGenexEndFrom input rounds depth (i + 1)

/-- `gx_find_matching_genex_end`. Each round goes on by a character at least. -/
def findMatchingGenexEnd (input : StringView) (startDollar : Nat) : Option Nat :=
  if input.length ≤ startDollar + 1 then none
  else if !isGenexOpenAt input startDollar then none
  else matchingGenexEndFrom input input.length 1 (startDollar + 2)

/-- A position lies in a span that `gx_find_matching_genex_end` recognises. -/
def inSpan (input : StringView) (position : Nat) : Bool :=
  (List.range position).any fun start =>
    (findMatchingGenexEnd input start).any fun finish => position < finish

/-- Backslashes counted from the front: one more turns the answer over, anything else ends it. -/
theorem oddBackslashes_append (before : StringView) (char : Char) :
    oddBackslashes (before ++ [char]) = (decide (char = '\\') && !oddBackslashes before) := by
  unfold oddBackslashes
  rw [reverse_append, reverse_singleton, singleton_append]
  by_cases backslash : char = '\\'
  · rw [takeWhile_cons_of_pos (by simpa using backslash), length_cons]
    rcases Nat.mod_two_eq_zero_or_one (before.reverse.takeWhile (· == '\\')).length with even | odd
    · have next : ((before.reverse.takeWhile (· == '\\')).length + 1) % 2 = 1 := by omega
      simp [backslash, even, next]
    · have next : ((before.reverse.takeWhile (· == '\\')).length + 1) % 2 = 0 := by omega
      simp [backslash, odd, next]
  · rw [takeWhile_cons_of_neg (by simpa using backslash)]
    simp [backslash]

/-- A position of the text is escaped when an odd number of backslashes stands before it. -/
theorem isEscaped_eq {input : StringView} {idx : Nat} (inside : idx ≤ input.length) :
    isEscaped input idx = oddBackslashes (input.take idx) := by
  unfold isEscaped
  by_cases first : idx = 0
  · subst first
    rfl
  · rw [if_neg (by omega)]

theorem isUnescapedCharAt_iff {input : StringView} {i : Nat} {ch : Char} :
    isUnescapedCharAt input i ch = true ↔
      input[i]? = some ch ∧ oddBackslashes (input.take i) = false := by
  unfold isUnescapedCharAt
  by_cases there : input[i]? = some ch
  · have inside : i < input.length := (List.getElem?_eq_some_iff.mp there).1
    rw [if_neg (not_or.mpr ⟨Nat.not_le.mpr inside, not_not.mpr there⟩),
      isEscaped_eq (Nat.le_of_lt inside)]
    simp [there]
  · rw [if_pos (.inr there)]
    simp [there]

end Nobify.Genex
