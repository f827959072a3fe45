import Mathlib.Data.List.Nodup

/-!
# Insertion-ordered tables

A table keeps its entries in insertion order and holds each key once; the second fact is a
field, so no table with a repeated key exists. Writing an existing key keeps its position.
Copying the entries out and writing them back one by one into an empty table returns the
same table, which is what a snapshot of a table relies on.
-/

namespace Nobify.Lib

open List

/-- Entries in insertion order under distinct keys. -/
structure Table (κ α : Type) where
  /-- Entries, oldest first. -/
  entries : List (κ × α)
  /-- Each key occurs once. -/
  nodup : (entries.map Prod.fst).Nodup

namespace Table

variable {κ α : Type} [DecidableEq κ]

instance [DecidableEq α] : DecidableEq (Table κ α) := fun left right =>
  decidable_of_iff (left.entries = right.entries) (by cases left; cases right; simp)

/-- The table without entries. -/
def empty : Table κ α := ⟨[], nodup_nil⟩

/-- Replace the value of a key where it stands, or append the key. -/
def putEntries (key : κ) (value : α) : List (κ × α) → List (κ × α)
  | [] => [(key, value)]
  | entry :: rest =>
    if entry.1 = key then (key, value) :: rest else entry :: putEntries key value rest

section

variable (key : κ) (value : α) (entries : List (κ × α))

/-- The keys after a write are the old ones and the written one. -/
theorem mem_putEntries_keys (other : κ) : other ∈ (putEntries key value entries).map Prod.fst ↔
      other = key ∨ other ∈ entries.map Prod.fst := by
  induction entries with
  | nil => simp [putEntries]
  | cons entry rest ih =>
    unfold putEntries
    split
    · rename_i same
      simp [same]
    · simp only [map_cons, mem_cons, ih]
      tauto

/-- A write keeps the keys distinct. -/
theorem putEntries_nodup (nodup : (entries.map Prod.fst).Nodup) :
    ((putEntries key value entries).map Prod.fst).Nodup := by
  induction entries with
  | nil => simp [putEntries]
  | cons entry rest ih =>
    obtain ⟨fresh, tail⟩ := nodup_cons.mp nodup
    unfold putEntries
    split
    · rename_i same
      exact nodup_cons.mpr ⟨same ▸ fresh, tail⟩
    · rename_i different
      refine nodup_cons.mpr ⟨fun found => ?_, ih tail⟩
      rcases (mem_putEntries_keys key value rest entry.1).mp found with same | old
      · exact different same
      · exact fresh old

/-- Write a key. -/
def put (table : Table κ α) (key : κ) (value : α) : Table κ α :=
  ⟨putEntries key value table.entries, putEntries_nodup key value table.entries table.nodup⟩

/-- Read a key. -/
def get? (table : Table κ α) (key : κ) : Option α :=
  (table.entries.find? fun entry => entry.1 = key).map Prod.snd

/-- Whether a key is present. -/
def contains (table : Table κ α) (key : κ) : Bool :=
  table.entries.any fun entry => entry.1 = key

/-- Remove a key. -/
def erase (table : Table κ α) (key : κ) : Table κ α :=
  ⟨table.entries.filter fun entry => entry.1 ≠ key, (filter_sublist.map Prod.fst).nodup table.nodup⟩

/-- Write entries one by one into an empty table. -/
def ofEntries (entries : List (κ × α)) : Table κ α :=
  entries.foldl (fun table entry => table.put entry.1 entry.2) empty

/-- Writing a key that is not present appends it. -/
theorem putEntries_fresh (fresh : key ∉ entries.map Prod.fst) :
    putEntries key value entries = entries ++ [(key, value)] := by
  induction entries with
  | nil => rfl
  | cons entry rest ih =>
    rw [map_cons, mem_cons, not_or] at fresh
    rw [putEntries, if_neg (Ne.symm fresh.1), ih fresh.2]
    rfl

end

/-- Writing fresh entries in order appends them in order. -/
theorem foldl_put_entries (table : Table κ α) (entries : List (κ × α))
    (distinct : ((table.entries ++ entries).map Prod.fst).Nodup) :
    (entries.foldl (fun table entry => table.put entry.1 entry.2) table).entries =
      table.entries ++ entries := by
  induction entries generalizing table with
  | nil => simp
  | cons entry rest ih =>
    have fresh : entry.1 ∉ table.entries.map Prod.fst := by
      rw [map_append, map_cons, nodup_append] at distinct
      exact fun found => distinct.2.2 _ found _ mem_cons_self rfl
    have written : (table.put entry.1 entry.2).entries = table.entries ++ [entry] :=
      putEntries_fresh entry.1 entry.2 table.entries fresh
    rw [foldl_cons, ih (table.put entry.1 entry.2) (by simpa [written] using distinct),
      written, append_assoc]
    rfl

omit [DecidableEq κ] in
/-- Tables with the same entries are the same table. -/
theorem ext_entries {left right : Table κ α} (same : left.entries = right.entries) :
    left = right := by
  cases left
  cases right
  simpa using same

/-- A table is recovered from its entries. -/
theorem ofEntries_entries (table : Table κ α) : ofEntries table.entries = table :=
  ext_entries (foldl_put_entries empty table.entries table.nodup)

end Table

end Nobify.Lib
