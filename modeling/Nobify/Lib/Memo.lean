import Nobify.Lib.Table

/-!
# Memo tables

A memo table answers a request from the entry under its key, and otherwise computes the answer
and writes it. The table tells the truth as long as requests with one key have one answer, and
as long as a key is only written when it is absent, no entry ever changes.
-/

namespace Nobify.Lib.Table

variable {κ α ρ : Type} [DecidableEq κ]

/-- Nothing is found in the empty table. -/
theorem get?_empty (key : κ) : (empty : Table κ α).get? key = none := rfl

/-- A write is found under its key, and nothing else changes. -/
theorem get?_put (table : Table κ α) (key : κ) (value : α) (other : κ) :
    (table.put key value).get? other = if other = key then some value else table.get? other := by
  unfold get? put
  simp only
  induction table.entries with
  | nil =>
    by_cases same : other = key
    · simp [putEntries, same]
    · simp [putEntries, same, Ne.symm same]
  | cons entry rest ih =>
    unfold putEntries
    by_cases written : entry.1 = key
    · rw [if_pos written]
      by_cases same : other = key
      · simp [same]
      · have passed : ¬ key = other := Ne.symm same
        have passed' : ¬ entry.1 = other := written ▸ passed
        simp [same, passed, passed']
    · rw [if_neg written]
      by_cases found : entry.1 = other
      · have kept : ¬ other = key := found ▸ written
        simp [found, kept]
      · rw [List.find?_cons_of_neg (by simpa using found),
          List.find?_cons_of_neg (by simpa using found)]
        exact ih

/-- Every entry under the key of a request holds the answer to that request. -/
def Answers (table : Table κ α) (key : ρ → κ) (answer : ρ → Option α) : Prop :=
  ∀ request value, table.get? (key request) = some value → answer request = some value

/-- The empty table holds no wrong answer. -/
theorem Answers.empty (key : ρ → κ) (answer : ρ → Option α) :
    (empty : Table κ α).Answers key answer := by
  intro request value found
  rw [get?_empty] at found
  cases found

/-- Writing the answer to a request is right when requests with its key have its answer. -/
theorem Answers.put {table : Table κ α} {key : ρ → κ} {answer : ρ → Option α}
    (answers : table.Answers key answer) (request : ρ) {value : α}
    (shared : ∀ other, key other = key request → answer other = answer request)
    (answered : answer request = some value) :
    (table.put (key request) value).Answers key answer := by
  intro other found same
  rw [get?_put] at same
  by_cases collides : key other = key request
  · rw [if_pos collides] at same
    rw [shared other collides, answered, same]
  · rw [if_neg collides] at same
    exact answers other found same

/-- Every entry of one table is an entry of the other. -/
def Keeps (before after : Table κ α) : Prop :=
  ∀ key value, before.get? key = some value → after.get? key = some value

/-- Nothing is lost by doing nothing. -/
theorem Keeps.refl (table : Table κ α) : table.Keeps table := fun _ _ found => found

/-- Entries kept twice are kept. -/
theorem Keeps.trans {before between after : Table κ α} (first : before.Keeps between)
    (second : between.Keeps after) : before.Keeps after :=
  fun key value found => second key value (first key value found)

/-- Writing an absent key keeps every entry. -/
theorem Keeps.put {table : Table κ α} {key : κ} (absent : table.get? key = none) (value : α) :
    table.Keeps (table.put key value) := by
  intro other found same
  rw [get?_put]
  by_cases collides : other = key
  · rw [collides, absent] at same
    cases same
  · rw [if_neg collides]
    exact same

end Nobify.Lib.Table
