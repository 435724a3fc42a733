import GraphSelect.Proofs.Schema.Built

/-!
# Columns by their names

A table lists its columns in one order and looks for them in another, and the names are made up each
time: `<label>_ID` for the id, `<in>_IN_ID` and `<out>_OUT_ID` for the endpoints of an edge. What is
checked when a schema is built keeps properties apart from all of these. It does not keep the id
apart from the endpoints: the edge `city_IN` into the vertex `city` has two columns that are called
`city_IN_ID`, and looking for the name finds the id. `Table.SpellsEndpoint` says when this happens,
and the main statement is that lookup and list agree in all tables but these.
-/

set_option autoImplicit false

namespace GraphSelect

/-- The edges of a built schema have the id types of their endpoints. -/
theorem SchemaBuilder.endpointTypes_of_build {builder : SchemaBuilder} {schema : Schema}
    (h : builder.build = .ok schema) {t : Table} (ht : t ∈ schema.tables)
    {inVertex outVertex : String} (hkind : t.kind = .edge inVertex outVertex) :
    t.endpointTypes.isSome = true := by
  obtain ⟨vertices, edges, rfl⟩ := builder.exists_eq_of
  obtain ⟨-, edges, hedges, htables⟩ := build_ok_iff.1 h
  rw [htables, List.mem_append] at ht
  rcases ht with ht | ht
  · obtain ⟨v, -, rfl⟩ := List.mem_map.1 ht
    cases hkind
  · obtain ⟨e, -, i, -, o, -, -, -, rfl⟩ := exists_of_mem_forall₂ hedges.flip ht
    rfl

namespace Table

variable {t : Table}

/-- Looking for columns and listing them comes to the same. -/
structure Consistent (t : Table) : Prop where
  distinct : (t.allColumns.map TableColumn.name).Nodup
  found : ∀ c ∈ t.allColumns, t.column? c.name = some c
  listed : ∀ name c, t.column? name = some c → c.name = name ∧ c ∈ t.allColumns

/-- The id column of an edge is spelled like the column of one of its endpoints. -/
def SpellsEndpoint (t : Table) : Prop :=
  ∃ inVertex outVertex, t.kind = .edge inVertex outVertex ∧
    (t.label = inVertex ++ "_IN" ∨ t.label = outVertex ++ "_OUT")

/-! ## Names -/

theorem endpointName_eq_iff (vertex ending label : String) :
    vertex ++ (ending ++ "_ID") = label ++ "_ID" ↔ label = vertex ++ ending := by
  rw [← String.append_assoc, ← String.toList_inj, ← String.toList_inj]
  simp only [String.toList_append, List.append_left_inj]
  exact eq_comm

theorem spellsEndpoint_iff
    (htypes : ∀ inVertex outVertex, t.kind = .edge inVertex outVertex →
      t.endpointTypes.isSome = true) :
    t.SpellsEndpoint ↔ ∃ c ∈ t.endpointColumns, c.name = t.idColumnName := by
  unfold endpointColumns SpellsEndpoint
  cases hkind : t.kind with
  | vertex => simp
  | edge inVertex outVertex =>
    obtain ⟨⟨inType, outType⟩, hsome⟩ := Option.isSome_iff_exists.1 (htypes _ _ hkind)
    have hin := endpointName_eq_iff inVertex "_IN" t.label
    have hout := endpointName_eq_iff outVertex "_OUT" t.label
    simp [hsome, idColumnName, ← hin, ← hout]

/-! ## Lookup -/

/-- What is found has the name that was looked for, and is listed. -/
theorem listed_of_column? {name : String} {c : TableColumn} (h : t.column? name = some c) :
    c.name = name ∧ c ∈ t.allColumns := by
  have hname := List.find?_some h
  exact ⟨beq_iff_eq.1 hname, mem_allColumns h⟩

/-- The id is found before everything else. -/
theorem column?_idColumnName (t : Table) : t.column? t.idColumnName = some t.idColumn := by
  simp [column?, idColumn]

theorem source_ne_id {c : TableColumn}
    (hc : c ∈ t.endpointColumns ++ t.columns.map Column.asTableColumn) : c.source ≠ .id := by
  intro hid
  rcases List.mem_append.1 hc with hc | hc
  · unfold endpointColumns at hc
    split at hc
    · rcases List.mem_pair.1 hc with rfl | rfl
      · cases hid
      · cases hid
    · cases hc
  · obtain ⟨p, -, rfl⟩ := List.mem_map.1 hc
    cases hid

/-- A column is found by its name, unless the id has this name and the column is another one. -/
theorem WellFormed.column?_eq_some_iff (h : t.WellFormed) {c : TableColumn}
    (hc : c ∈ t.allColumns) :
    t.column? c.name = some c ↔ c.source = .id ∨ c.name ≠ t.idColumnName := by
  have hmem := t.perm_allColumns.mem_iff.2 hc
  rw [List.mem_cons] at hmem
  rcases hmem with rfl | hrest
  · exact ⟨fun _ => .inl rfl, fun _ => t.column?_idColumnName⟩
  · have hsource := source_ne_id hrest
    constructor
    · intro hfound
      right
      intro hname
      rw [hname, column?_idColumnName] at hfound
      exact hsource (congrArg TableColumn.source (Option.some.inj hfound)).symm
    · rintro (hid | hname)
      · exact absurd hid hsource
      · -- Past the id no two columns share a name.
        have hnodup : ((t.endpointColumns ++ t.columns.map Column.asTableColumn).map
            TableColumn.name).Nodup := by
          rw [List.map_append, map_name_asTableColumn, List.nodup_append_comm]
          exact h.nodup_past_id
        rw [column?, List.find?_cons_of_neg (by simpa [idColumn] using hname.symm)]
        exact (find?_key_iff hnodup).2 ⟨hrest, rfl⟩

theorem WellFormed.consistent_iff (h : t.WellFormed) :
    t.Consistent ↔ ∀ c ∈ t.endpointColumns, c.name ≠ t.idColumnName := by
  rw [← h.allColumns_nodup_iff]
  constructor
  · exact Consistent.distinct
  · intro hnodup
    exact ⟨hnodup, fun c hc => column?_name hnodup hc, fun _ _ hfound => listed_of_column? hfound⟩

end Table

section

variable {builder : SchemaBuilder} {schema : Schema} {t : Table}

/-- **Columns are found by their names, unless the id hides an endpoint.** In every table of a
built schema what is found has the name that was looked for and is listed, and a listed column is
found by its name exactly if it is the id or the id has another name. So lookup and list agree
exactly in those tables whose id is not spelled like one of their endpoints. -/
theorem columns_agree_iff_id_apart (hbuild : builder.build = .ok schema)
    (hmem : t ∈ schema.tables) :
    (∀ name c, t.column? name = some c → c.name = name ∧ c ∈ t.allColumns) ∧
      (∀ c ∈ t.allColumns,
        (t.column? c.name = some c ↔ c.source = .id ∨ c.name ≠ t.label ++ "_ID")) ∧
      ((t.allColumns.map TableColumn.name).Nodup ↔ ¬ t.SpellsEndpoint) ∧
      (t.Consistent ↔ ¬ t.SpellsEndpoint) := by
  have hw := (builder.build_wellFormed hbuild).tables t hmem
  have hapart : (∀ c ∈ t.endpointColumns, c.name ≠ t.idColumnName) ↔ ¬ t.SpellsEndpoint := by
    rw [Table.spellsEndpoint_iff fun _ _ hkind =>
      SchemaBuilder.endpointTypes_of_build hbuild hmem hkind]
    simp only [not_exists, not_and, ne_eq]
  refine ⟨fun _ _ hfound => Table.listed_of_column? hfound,
    fun c hc => hw.column?_eq_some_iff hc, ?_, ?_⟩
  · rw [hw.allColumns_nodup_iff, hapart]
  · rw [hw.consistent_iff, hapart]

end

/-- People who know each other, and an edge into people whose label ends like an endpoint. -/
def arrivalsBuilder : SchemaBuilder :=
  ((SchemaBuilder.empty.vertex "person" .integer [⟨"name", .string⟩]).edge
    "knows" .string "person" "person" [⟨"since", .datetime⟩]).edge
    "person_IN" .string "person" "person" []

def acquaintanceTable : Table :=
  ⟨"knows", .edge "person" "person", .string, [⟨"since", .datetime⟩], some (.integer, .integer)⟩

def arrivalTable : Table :=
  ⟨"person_IN", .edge "person" "person", .string, [], some (.integer, .integer)⟩

def arrivalsSchema : Schema :=
  ⟨[⟨"person", .vertex, .integer, [⟨"name", .string⟩], none⟩, acquaintanceTable, arrivalTable]⟩

theorem columns_agree_iff_id_apart_arrivals :
    arrivalsBuilder.build = .ok arrivalsSchema ∧ acquaintanceTable ∈ arrivalsSchema.tables ∧
      acquaintanceTable.Consistent ∧ arrivalTable ∈ arrivalsSchema.tables ∧
      ¬ arrivalTable.Consistent := by
  have hbuild : arrivalsBuilder.build = .ok arrivalsSchema := rfl
  have hknows : acquaintanceTable ∈ arrivalsSchema.tables := by simp [arrivalsSchema]
  have harrival : arrivalTable ∈ arrivalsSchema.tables := by simp [arrivalsSchema]
  obtain ⟨-, -, -, hknown⟩ := columns_agree_iff_id_apart hbuild hknows
  obtain ⟨-, -, -, harrived⟩ := columns_agree_iff_id_apart hbuild harrival
  refine ⟨hbuild, hknows, hknown.2 ?_, harrival, ?_⟩
  · rintro ⟨inVertex, outVertex, hkind, hlabel⟩
    cases hkind
    revert hlabel
    decide
  · rw [harrived, not_not]
    exact ⟨"person", "person", rfl, .inl rfl⟩

/-- Two columns of a built schema share a name, and looking for it does not find the second. -/
theorem id_hides_endpoint :
    ∃ schema, arrivalsBuilder.build = .ok schema ∧ arrivalTable ∈ schema.tables ∧
      ¬ (arrivalTable.allColumns.map TableColumn.name).Nodup ∧
      (⟨"person_IN_ID", .integer, .inVertexId⟩ : TableColumn) ∈ arrivalTable.allColumns ∧
      arrivalTable.column? "person_IN_ID" = some ⟨"person_IN_ID", .string, .id⟩ := by
  refine ⟨arrivalsSchema, rfl, by simp [arrivalsSchema], ?_, ?_, ?_⟩
  · decide
  · decide
  · decide

end GraphSelect
