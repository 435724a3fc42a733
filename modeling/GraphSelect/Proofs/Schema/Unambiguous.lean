import GraphSelect.Proofs.Registry.Runs
import GraphSelect.Proofs.Schema.Built

/-!
# Labels are unambiguous

Labels are kept apart by their Unicode lowercase forms and looked up by the case of ASCII letters,
first as they are spelled and then up to case. The two notions differ: labels may be refused as the
same that no lookup confuses. But texts that are equal up to the case of ASCII letters have the same
lowercase form, so that in a built schema at most one table fits a label, and the two passes of a
lookup find the same one. Which of the spellings of a label a query uses makes no difference.
-/

set_option autoImplicit false

namespace GraphSelect

namespace Schema

variable {schema : Schema} {label spelling : String} {t t' : Table}

/-- A table that is found fits the label. -/
theorem fits_of_table? (h : schema.table? label = some t) :
    t ∈ schema.tables ∧ Text.eqIgnoringCase t.label label = true := by
  rw [table?] at h
  rcases Option.or_eq_some_iff.1 h with hexact | ⟨-, hcase⟩
  · have hlabel := List.find?_some hexact
    refine ⟨List.mem_of_find?_eq_some hexact, ?_⟩
    rw [Text.eqIgnoringCase_iff, beq_iff_eq.1 hlabel]
  · have hfits := List.find?_some hcase
    exact ⟨List.mem_of_find?_eq_some hcase, hfits⟩

/-- No two tables fit the same label. -/
theorem WellFormed.eq_of_fits (h : schema.WellFormed) (ht : t ∈ schema.tables)
    (ht' : t' ∈ schema.tables) (hfits : Text.eqIgnoringCase t.label label = true)
    (hfits' : Text.eqIgnoringCase t'.label label = true) : t = t' := by
  have hkey : t.key = t'.key := by
    rw [Table.key, Table.key, Text.lower_eq_of_eqIgnoringCase hfits,
      Text.lower_eq_of_eqIgnoringCase hfits']
  exact List.inj_on_of_nodup_map h.labels ht ht' hkey

theorem WellFormed.table?_eq_some_iff (h : schema.WellFormed) :
    schema.table? label = some t ↔
      t ∈ schema.tables ∧ Text.eqIgnoringCase t.label label = true := by
  constructor
  · exact fits_of_table?
  · rintro ⟨ht, hfits⟩
    cases hfound : schema.table? label with
    | none =>
      have hno := table?_eq_none_iff.1 hfound t ht
      exact absurd (Text.eqIgnoringCase_iff.1 hfits) hno
    | some t' =>
      obtain ⟨ht', hfits'⟩ := fits_of_table? hfound
      rw [h.eq_of_fits ht ht' hfits hfits']

/-- All tables that fit a label have one key, and no two tables share theirs. -/
theorem WellFormed.length_fitting_le (h : schema.WellFormed) (label : String) :
    (schema.tables.filter fun t => Text.eqIgnoringCase t.label label).length ≤ 1 := by
  have hkeys : ∀ key ∈ (schema.tables.filter fun t => Text.eqIgnoringCase t.label label).map
      Table.key, key = Text.lower label := by
    intro key hkey
    obtain ⟨t, ht, rfl⟩ := List.mem_map.1 hkey
    exact Text.lower_eq_of_eqIgnoringCase (List.mem_filter.1 ht).2
  have hnodup := h.labels.sublist ((List.filter_sublist (p := fun t =>
    Text.eqIgnoringCase t.label label)).map Table.key)
  rw [List.eq_replicate_of_mem hkeys, List.nodup_replicate, List.length_map] at hnodup
  exact hnodup

/-- Spellings of a label that differ in the case of ASCII letters find the same table. -/
theorem WellFormed.table?_spelling (h : schema.WellFormed)
    (hcase : Text.eqIgnoringCase spelling label = true) :
    schema.table? spelling = schema.table? label := by
  refine Option.ext fun t => ?_
  rw [h.table?_eq_some_iff, h.table?_eq_some_iff, Text.eqIgnoringCase_iff, Text.eqIgnoringCase_iff,
    Text.eqIgnoringCase_iff.1 hcase]

end Schema

/-! ## Registering -/

namespace Registry

/-- The label and the kind of the table that registering a label gives. -/
def registered (r : Registry) (label name : String) :
    Except RegistryError (String × TableKind) := do
  let (answer, r') := r.registerTable label name
  let t ← r'.table (← answer)
  return (t.label, t.kind)

/-- What is registered is the table that the schema has under the label, whether the pair is new or
not. -/
theorem Sound.registered_eq {r : Registry} (h : r.Sound) (label name : String) :
    (r.registered label name).toOption =
      (r.schema.table? label).map fun t => (t.label, t.kind) := by
  cases ht : r.schema.table? label with
  | none =>
    rw [registered, registerTable_unknown name ht]
    rfl
  | some t =>
    obtain ⟨id, r', hr'⟩ := registerTable_isOk name ht
    suffices hat : ∃ found, r'.tables[id]? = some found ∧ found.label = t.label ∧
        found.kind = t.kind by
      obtain ⟨found, hfound, hlabel, hkind⟩ := hat
      simp only [registered, hr', table_ok_iff.2 hfound, bind, Except.bind, Option.map_some,
        ← hlabel, ← hkind]
      rfl
    obtain ⟨t', ht', ⟨rfl, found, hmem, hid, hlabel, -⟩ | ⟨-, rfl, rfl⟩⟩ := registerTable_ok hr'
    all_goals cases ht.symm.trans ht'
    · -- A pair that is known was registered from the table that its label finds, which is this one.
      obtain ⟨place, hplace⟩ := List.mem_iff_getElem?.1 hmem
      obtain rfl : place = id := (h.numbered hplace).symm.trans hid
      obtain ⟨table, htable, -, hkind⟩ := h.found found hmem
      rw [hlabel, Schema.table?_label ht] at htable
      cases htable
      exact ⟨found, hplace, hlabel, hkind.symm⟩
    · exact ⟨t.registeredAs r.tables.length name, List.getElem?_concat_length, rfl, rfl⟩

end Registry

/-! ## Labels of a built schema -/

/-- **Labels are unambiguous in a built schema.** A label finds the tables that it fits up to the
case of ASCII letters, of which there is one at most. So spellings of a label that differ in case
only find the same table, and registering either of them, on a registry after any calls and under
whatever names, gives the label and the kind of that table. -/
theorem labels_unambiguous {builder : SchemaBuilder} {schema : Schema}
    (h : builder.build = .ok schema) (label : String) :
    (∀ t, schema.table? label = some t ↔
      t ∈ schema.tables ∧ Text.eqIgnoringCase t.label label = true) ∧
    (schema.tables.filter fun t => Text.eqIgnoringCase t.label label).length ≤ 1 ∧
    ∀ spelling, Text.eqIgnoringCase spelling label = true →
      schema.table? spelling = schema.table? label ∧
      ∀ (calls : List Registry.Call) (name name' : String),
        (((Registry.empty schema).run calls).registered spelling name').toOption =
            (((Registry.empty schema).run calls).registered label name).toOption ∧
          (((Registry.empty schema).run calls).registered label name).toOption =
            (schema.table? label).map fun t => (t.label, t.kind) := by
  have hschema := SchemaBuilder.build_wellFormed h
  refine ⟨fun t => hschema.table?_eq_some_iff, hschema.length_fitting_le label, ?_⟩
  intro spelling hcase
  have hsame : schema.table? spelling = schema.table? label := hschema.table?_spelling hcase
  refine ⟨hsame, fun calls name name' => ?_⟩
  have hsound : ((Registry.empty schema).run calls).Sound := (Registry.Sound.empty schema).run calls
  have hkept : ((Registry.empty schema).run calls).schema = schema := Registry.schema_run _ calls
  rw [hsound.registered_eq, hsound.registered_eq, hkept, hsame]
  exact ⟨rfl, rfl⟩

/-- Streets, with a label that ends in a sigma, and what joins them. -/
def streetBuilder : SchemaBuilder :=
  (SchemaBuilder.empty.vertex "ΟΔΟΣ" .integer []).edge "Joins" .string "ΟΔΟΣ" "ΟΔΟΣ" []

def streetTable : Table :=
  ⟨"ΟΔΟΣ", .vertex, .integer, [], none⟩

def joinTable : Table :=
  ⟨"Joins", .edge "ΟΔΟΣ" "ΟΔΟΣ", .string, [], some (.integer, .integer)⟩

/-- Two spellings of a label, none of them the one in the schema, on a registry that has the table
already. A label whose letters are not ASCII is found by one spelling only. -/
theorem labels_unambiguous_streets :
    streetBuilder.build = .ok ⟨[streetTable, joinTable]⟩ ∧
      Text.eqIgnoringCase "jOINS" "JOINS" = true ∧
      (⟨[streetTable, joinTable]⟩ : Schema).table? "jOINS" = some joinTable ∧
      (((Registry.empty ⟨[streetTable, joinTable]⟩).run [.register "Joins" "j"]).registered
        "jOINS" "j").toOption = some ("Joins", .edge "ΟΔΟΣ" "ΟΔΟΣ") ∧
      (⟨[streetTable, joinTable]⟩ : Schema).table? "οδος" = none := by
  have h : streetBuilder.build = .ok ⟨[streetTable, joinTable]⟩ := by decide +kernel
  have hcase : Text.eqIgnoringCase "jOINS" "JOINS" = true := by decide
  obtain ⟨hfinds, -, hspelling⟩ := labels_unambiguous h "JOINS"
  obtain ⟨hsame, hregister⟩ := hspelling "jOINS" hcase
  have hfound : (⟨[streetTable, joinTable]⟩ : Schema).table? "JOINS" = some joinTable :=
    (hfinds joinTable).2 ⟨by simp, by decide⟩
  obtain ⟨hsame', hkind⟩ := hregister [.register "Joins" "j"] "" "j"
  rw [hfound] at hsame hkind
  exact ⟨h, hcase, hsame, hsame'.trans hkind, rfl⟩

end GraphSelect
