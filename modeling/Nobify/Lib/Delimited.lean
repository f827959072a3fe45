import Mathlib.Data.List.Basic

/-!
# Delimited codes

A code is delimited when an encoding can be read off the front of a text: two texts that start
with encodings and are equal start with encodings of the same value and go on in the same way.
Fields written one after the other in delimited codes can therefore not run into each other.

Two codes are used: a decimal number closed by a separator that is no digit, and a text after
its own length.
-/

namespace Nobify.Lib

open List

variable {α : Type}

/-- Equal texts that start with encodings have the same value in front and the same rest. -/
def Delimited (code : α → List Char) : Prop :=
  ∀ ⦃left right : α⦄ ⦃rest other : List Char⦄,
    code left ++ rest = code right ++ other → left = right ∧ rest = other

/-- A delimited code is injective. -/
theorem Delimited.injective {code : α → List Char} (delimited : Delimited code) :
    Function.Injective code := by
  intro left right same
  have padded : code left ++ [] = code right ++ [] := by rw [same]
  exact (delimited padded).1

/-- A delimited code of an injective image is delimited. -/
theorem Delimited.comp {β : Type} {code : α → List Char} (delimited : Delimited code)
    {image : β → α} (injective : Function.Injective image) :
    Delimited fun value => code (image value) := by
  intro left right rest other same
  obtain ⟨images, rests⟩ := delimited same
  exact ⟨injective images, rests⟩

variable {separator : Char}

/-- Texts up to the first separator are determined. -/
theorem append_separator_inj {left right rest other : List Char} (outside : separator ∉ left)
    (outside' : separator ∉ right)
    (same : left ++ separator :: rest = right ++ separator :: other) :
    left = right ∧ rest = other := by
  induction left generalizing right with
  | nil =>
    cases right with
    | nil => simpa using same
    | cons first later =>
      rw [nil_append, cons_append, List.cons.injEq] at same
      exact absurd (same.1 ▸ mem_cons_self) outside'
  | cons first later ih =>
    cases right with
    | nil =>
      rw [nil_append, cons_append, List.cons.injEq] at same
      exact absurd (same.1 ▸ mem_cons_self) outside
    | cons first' later' =>
      rw [cons_append, cons_append, List.cons.injEq] at same
      obtain ⟨laters, rests⟩ := ih (fun found => outside (mem_cons_of_mem _ found))
        (fun found => outside' (mem_cons_of_mem _ found)) same.2
      rw [same.1, laters]
      exact ⟨rfl, rests⟩

/-- Decimal digits determine the number. -/
theorem toDigits_injective : Function.Injective (Nat.toDigits 10) := by
  intro left right same
  have read := congrArg (fun digits => Nat.ofDigitChars 10 digits 0) same
  simpa using read

variable (separates : separator.isDigit = false)

include separates

/-- A character that is no digit does not occur in a decimal number. -/
theorem notMem_toDigits (number : Nat) : separator ∉ Nat.toDigits 10 number := by
  intro found
  have digit := Nat.isDigit_of_mem_toDigits (by decide) (by decide) found
  rw [separates] at digit
  cases digit

/-- A decimal number closed by a separator that is no digit. -/
theorem delimited_toDigits : Delimited fun number => Nat.toDigits 10 number ++ [separator] := by
  intro left right rest other same
  rw [append_assoc, append_assoc, singleton_append, singleton_append] at same
  obtain ⟨digits, rests⟩ := append_separator_inj (notMem_toDigits separates left)
    (notMem_toDigits separates right) same
  exact ⟨toDigits_injective digits, rests⟩

/-- A text after its length, closed by one more character. The text may hold any characters. -/
theorem delimited_counted (closing : Char) : Delimited fun text : List Char =>
      Nat.toDigits 10 text.length ++ [separator] ++ text ++ [closing] := by
  intro left right rest other same
  have shaped : (Nat.toDigits 10 left.length ++ [separator]) ++ (left ++ closing :: rest) =
      (Nat.toDigits 10 right.length ++ [separator]) ++ (right ++ closing :: other) := by
    simpa using same
  obtain ⟨lengths, texts⟩ := delimited_toDigits separates shaped
  obtain ⟨bodies, closings⟩ := append_inj texts lengths
  exact ⟨bodies, (List.cons.inj closings).2⟩

end Nobify.Lib
