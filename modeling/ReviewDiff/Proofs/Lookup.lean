import Mathlib.Data.List.Nodup

/-!
# Lookups

In a list of keys with their values the first value of a key is found.
-/

namespace ReviewDiff

variable {α β : Type} [BEq α] [LawfulBEq α] {key : α} {fields : List (α × β)}

theorem lookup_cons_eq
    [DecidableEq α] (key searched : α) (value : β) (fields : List (α × β)) :
    ((key, value) :: fields).lookup searched =
      if searched = key then some value else fields.lookup searched := by
  rw [List.lookup_cons]
  by_cases same : searched = key
  · rw [if_pos same, beq_iff_eq.mpr same]
  · rw [if_neg same, beq_eq_false_iff_ne.mpr same]

theorem lookup_eq_none (absent : key ∉ fields.map Prod.fst) : fields.lookup key = none := by
  rw [List.lookup_eq_none_iff]
  intro field member
  rw [bne_iff_ne]
  rintro rfl
  exact absent (List.mem_map_of_mem member)

theorem lookup_filter_ne
    [DecidableEq α] {searched : α} (different : searched ≠ key) (fields : List (α × β)) :
    (fields.filter (·.1 ≠ key)).lookup searched = fields.lookup searched := by
  induction fields with
  | nil => rfl
  | cons field fields inductionHypothesis =>
      obtain ⟨k, v⟩ := field
      by_cases same : k = key
      · have skipped : ¬ searched = k := same ▸ different
        rw [List.filter_cons_of_neg (by simpa using same), inductionHypothesis,
          lookup_cons_eq, if_neg skipped]
      · rw [List.filter_cons_of_pos (by simpa using same), lookup_cons_eq, lookup_cons_eq,
          inductionHypothesis]

/-- If no key is there twice, every value is found. -/
theorem lookup_of_mem
    (distinct : (fields.map Prod.fst).Nodup) {value : β} (member : (key, value) ∈ fields) :
    fields.lookup key = some value := by
  obtain ⟨front, back, rfl⟩ := List.append_of_mem member
  rw [List.map_append, List.nodup_append] at distinct
  refine List.lookup_eq_some_iff.mpr ⟨front, back, rfl, fun field before => ?_⟩
  have different := distinct.2.2 field.1 (List.mem_map_of_mem before) key List.mem_cons_self
  exact bne_iff_ne.mpr different.symm

end ReviewDiff
