import Mathlib.Data.List.Basic

/-!
# Records in a list

Records are kept in a list and named by their positions. A new record goes to the end; a record
is changed in place. These lemmas say which record is at a position afterwards, and what of the
records stays the same.
-/

namespace Nobify.Lib

open List Option

variable {α : Type} {records : List α} {position : Nat} {record : α}

variable {index : Nat} {change : α → α}

/-- A record after a change at one index. -/
theorem of_getElem?_modify (found : (records.modify index change)[position]? = some record) :
    ∃ before, records[position]? = some before ∧
      (record = before ∨ (position = index ∧ record = change before)) := by
  rw [List.getElem?_modify] at found
  obtain ⟨before, here, same⟩ := map_eq_some_iff.mp found
  refine ⟨before, here, ?_⟩
  by_cases at_ : index = position
  · exact .inr ⟨at_.symm, by simpa [at_] using same.symm⟩
  · exact .inl (by simpa [at_] using same.symm)

/-- A record of a list with a new last one. -/
theorem of_getElem?_concat {added : α} (found : (records ++ [added])[position]? = some record) :
    records[position]? = some record ∨ (position = records.length ∧ record = added) := by
  by_cases early : position < records.length
  · rw [List.getElem?_append_left early] at found
    exact .inl found
  · rw [List.getElem?_append_right (by omega)] at found
    have zero : position - records.length = 0 := by
      by_contra later
      rw [List.getElem?_eq_none (by simp; omega)] at found
      cases found
    rw [zero] at found
    exact .inr ⟨by omega, by simpa using found.symm⟩

/-- What holds of every record before a change at one index, and of the changed one, holds of
every record. -/
theorem forall_mem_modify {holds : α → Prop} (before : ∀ record ∈ records, holds record)
    (changed : ∀ record, records[index]? = some record → holds record → holds (change record)) :
    ∀ record ∈ records.modify index change, holds record := by
  intro record mem
  obtain ⟨position, found⟩ := List.getElem?_of_mem mem
  obtain ⟨old, here, rfl | ⟨rfl, rfl⟩⟩ := of_getElem?_modify found
  · exact before record (mem_of_getElem? here)
  · exact changed old here (before old (mem_of_getElem? here))

/-- A field that a change keeps is the same in every record. -/
theorem map_modify_of_eq {β : Type} {field : α → β}
    (kept : ∀ record, records[index]? = some record → field (change record) = field record) :
    (records.modify index change).map field = records.map field := by
  refine ext_getElem? fun position => ?_
  rw [List.getElem?_map, List.getElem?_map, List.getElem?_modify]
  cases here : records[position]? with
  | none => rfl
  | some record =>
    by_cases at_ : index = position
    · have same := kept record (at_ ▸ here)
      simp [at_, same]
    · simp [at_]

/-- Lists that agree in a field have records of the same field at the same positions. -/
theorem getElem?_of_map_eq {β : Type} {field : α → β} {others : List α}
    (same : others.map field = records.map field) (here : records[position]? = some record) :
    ∃ other, others[position]? = some other ∧ field other = field record := by
  have mapped : (others.map field)[position]? = some (field record) := by
    rw [same, List.getElem?_map, here]
    rfl
  rw [List.getElem?_map] at mapped
  exact map_eq_some_iff.mp mapped

/-- A record of a list that agrees with another one in a field. -/
theorem mem_of_map_eq {β : Type} {field : α → β} {others : List α}
    (same : others.map field = records.map field) (mem : record ∈ records) :
    ∃ other ∈ others, field other = field record := by
  obtain ⟨position, here⟩ := List.getElem?_of_mem mem
  obtain ⟨other, there, agrees⟩ := getElem?_of_map_eq same here
  exact ⟨other, mem_of_getElem? there, agrees⟩

end Nobify.Lib
