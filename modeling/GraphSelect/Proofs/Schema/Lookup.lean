import GraphSelect.Proofs.Lists
import GraphSelect.Proofs.Text.Lowercase
import GraphSelect.Schema.Table

/-!
# Tables by their labels

A label is looked for twice among the tables of a schema: as it is spelled, and then up to the case
of ASCII letters. Nothing is asked of the schema here, whose labels may be repeated or differ in
case only. A table that is found is the first with its own label, so it is found again by that; and
nothing is found exactly if no label fits up to case.
-/

set_option autoImplicit false

namespace GraphSelect

/-- A table that is found is found again by its own label. -/
theorem Schema.table?_label {schema : Schema} {label : String} {t : Table}
    (h : schema.table? label = some t) : schema.table? t.label = some t := by
  unfold Schema.table? at h ⊢
  rcases Option.or_eq_some_iff.1 h with h | ⟨-, h⟩
  · have hlabel := List.find?_some h
    rw [beq_iff_eq.1 hlabel, h]
    rfl
  · have hfound := List.find?_some h
    rw [find?_eq_some_of_imp h (by simp)]
    · rfl
    · intro b hb
      rwa [beq_iff_eq.1 hb]

theorem Schema.table?_eq_none_iff {schema : Schema} {label : String} :
    schema.table? label = none ↔
      ∀ t ∈ schema.tables, t.label.toList.map Char.toLower ≠ label.toList.map Char.toLower := by
  rw [table?, Option.or_eq_none_iff, List.find?_eq_none, List.find?_eq_none]
  simp only [beq_iff_eq, Text.eqIgnoringCase_iff]
  constructor
  · rintro ⟨-, hcase⟩
    exact hcase
  · intro hcase
    refine ⟨?_, hcase⟩
    intro t ht hlabel
    exact hcase t ht (by rw [hlabel])

end GraphSelect
