import GraphSelect.Proofs.Query.Outline
import GraphSelect.Proofs.Row.Cells
import GraphSelect.Stream.Run
import Mathlib

/-!
# What the compiler and the decoder agree on

A compiled query says three times which columns its rows have: in the step that builds the raw
result, in the registry, and in the list that the decoder goes by. Here it is shown that they are
one list of names, that it is not empty and that no name stands in it twice. So a raw result that
has these fields, in any order, is always a row to the decoder, up to the types of its values, and
the marker for a missing value is never held against a type.
-/

set_option autoImplicit false

namespace GraphSelect

open Sql

/-! ## Decoding -/

namespace RowDecoder

/-- A column is decoded from the field of its name. -/
def Decodes (fields : List (String × Json)) (column : String × ColumnType) (cell : Scalar) : Prop :=
  ∃ v, Json.field? column.1 fields = some v ∧ decodeValue column.1 column.2 v = .ok cell

/-- The field of a column holds a value of another type, which the fault quotes. -/
def Refuses (fields : List (String × Json)) (column : String × ColumnType) (fault : Fault) : Prop :=
  ∃ v, Json.field? column.1 fields = some v ∧ isNullValue v = false ∧
    typedValue? column.2 v = none ∧ fault = .typeMismatch column.1 column.2 (quotation v)

variable {fields : List (String × Json)} {columns : List (String × ColumnType)}

theorem decodes_or_refuses {column : String × ColumnType} {v : Json}
    (h : Json.field? column.1 fields = some v) :
    (∃ cell, Decodes fields column cell ∧ decodeValue column.1 column.2 v = .ok cell) ∨
      ∃ fault, Refuses fields column fault ∧ decodeValue column.1 column.2 v = .error fault := by
  cases hnull : isNullValue v with
  | true =>
    have hvalue : decodeValue column.1 column.2 v = .ok .null := by
      rw [decodeValue, hnull]
      rfl
    exact .inl ⟨.null, ⟨v, h, hvalue⟩, hvalue⟩
  | false =>
    cases htyped : typedValue? column.2 v with
    | some cell =>
      have hvalue : decodeValue column.1 column.2 v = .ok cell := by
        rw [decodeValue, hnull, htyped]
        rfl
      exact .inl ⟨cell, ⟨v, h, hvalue⟩, hvalue⟩
    | none =>
      refine .inr ⟨_, ⟨v, h, hnull, htyped, rfl⟩, ?_⟩
      rw [decodeValue, hnull, htyped]
      rfl

/-- If there is a field for every column, the columns are all decoded or one of them is refused. -/
theorem decodeColumns_cases (h : ∀ column ∈ columns, ∃ v, Json.field? column.1 fields = some v) :
    (∃ cells, decodeColumns fields columns = .ok cells ∧
      List.Forall₂ (Decodes fields) columns cells) ∨
    ∃ column ∈ columns, ∃ fault, Refuses fields column fault ∧
      decodeColumns fields columns = .error fault := by
  induction columns with
  | nil => exact .inl ⟨[], rfl, .nil⟩
  | cons column rest ih =>
    obtain ⟨name, type⟩ := column
    rw [List.forall_mem_cons] at h
    obtain ⟨v, hv⟩ := h.1
    simp only [decodeColumns, hv, bind, Except.bind]
    rcases decodes_or_refuses hv with ⟨cell, hcell, hvalue⟩ | ⟨fault, hfault, hvalue⟩
    · rw [hvalue]
      rcases ih h.2 with ⟨cells, hcells, hall⟩ | ⟨other, hmem, fault, hfault, herror⟩
      · exact .inl ⟨cell :: cells, by rw [hcells]; rfl, .cons hcell hall⟩
      · exact .inr ⟨other, .tail _ hmem, fault, hfault, by rw [herror]⟩
    · exact .inr ⟨_, List.mem_cons_self, fault, hfault, by rw [hvalue]⟩

end RowDecoder

/-- The cell of a column in a row that was built column by column. -/
theorem Row.get?_of_forall₂ {P : String × ColumnType → Scalar → Prop}
    {columns : List (String × ColumnType)} {cells : List Scalar} (h : List.Forall₂ P columns cells)
    {name : String} (hname : name ∈ columns.map Prod.fst) :
    ∃ type cell, P (name, type) cell ∧
      Row.get? ⟨columns.map Prod.fst, cells⟩ name = some cell := by
  induction h with
  | nil => cases hname
  | @cons column cell rest cells hcell _ ih =>
    rw [List.map_cons] at hname ⊢
    by_cases heq : column.1 = name
    · subst heq
      exact ⟨column.2, cell, hcell, by simp [Row.get?, List.findIdx?_cons]⟩
    · have hrest : name ∈ rest.map Prod.fst :=
        (List.mem_cons.1 hname).resolve_left fun h => heq h.symm
      obtain ⟨type, found, hfound, hget⟩ := ih hrest
      refine ⟨type, found, hfound, ?_⟩
      have hskip : (column.1 == name) = false := beq_eq_false_iff_ne.2 heq
      rw [← hget, Row.get?, Row.get?, List.findIdx?_cons, hskip]
      cases (rest.map Prod.fst).findIdx? fun c => c == name with
      | none => rfl
      | some i => rfl

/-- **Decoding a raw result that has a field for each column.** It is decoded to a row, in which the
marker has become a null, or the value of some column has another type and is not the marker. -/
theorem RowDecoder.decode_cases {columns : List (String × ColumnType)}
    (hnodup : (columns.map Prod.fst).Nodup) {fields : List (String × Json)}
    (hfields : (fields.map Prod.fst).Perm (columns.map Prod.fst)) :
    (∃ row, RowDecoder.decode ⟨columns.map Prod.fst, columns.map Prod.snd⟩ (.obj fields) = .ok row ∧
      row.columns = columns.map Prod.fst ∧
      ∀ c, (c, .str nullMarker) ∈ fields → row.get? c = some .null) ∨
    ∃ c v type, (c, v) ∈ fields ∧ (c, type) ∈ columns ∧ RowDecoder.isNullValue v = false ∧
      RowDecoder.typedValue? type v = none ∧
      RowDecoder.decode ⟨columns.map Prod.fst, columns.map Prod.snd⟩ (.obj fields) =
        .error (.typeMismatch c type (quotation v)) := by
  have hkeys : (fields.map Prod.fst).Nodup := hfields.nodup_iff.2 hnodup
  have hfield : ∀ column ∈ columns, ∃ v, (column.1, v) ∈ fields ∧
      Json.field? column.1 fields = some v := by
    intro column hcolumn
    obtain ⟨f, hf, hname⟩ :=
      List.mem_map.1 (hfields.symm.subset (List.mem_map_of_mem hcolumn))
    rw [← hname]
    exact ⟨f.2, hf, field?_of_mem hkeys hf⟩
  have hlength : fields.length = (columns.map Prod.fst).length := by
    rw [← hfields.length_eq, List.length_map]
  have hzip : (columns.map Prod.fst).zip (columns.map Prod.snd) = columns := by
    rw [List.zip_map', List.map_id']
  have hdecode : RowDecoder.decode ⟨columns.map Prod.fst, columns.map Prod.snd⟩ (.obj fields) =
      (RowDecoder.decodeColumns fields columns >>= fun cells =>
        .ok ⟨columns.map Prod.fst, cells⟩) := by
    simp only [RowDecoder.decode, hlength, ne_eq, not_true_eq_false, ↓reduceIte, hzip]
    rfl
  rcases RowDecoder.decodeColumns_cases fun column hcolumn => (hfield column hcolumn).imp
    fun _ h => h.2 with ⟨cells, hcells, hall⟩ | ⟨⟨c, type⟩, hcolumn, fault, hfault, herror⟩
  · refine .inl ⟨⟨columns.map Prod.fst, cells⟩, by rw [hdecode, hcells]; rfl, rfl, fun c hc => ?_⟩
    have hname : c ∈ columns.map Prod.fst := hfields.subset (List.mem_map_of_mem hc)
    obtain ⟨type, cell, ⟨v, hv, hvalue⟩, hget⟩ := Row.get?_of_forall₂ hall hname
    cases (field?_of_mem hkeys hc).symm.trans hv
    cases hvalue
    exact hget
  · obtain ⟨v, hv, hnull, htyped, rfl⟩ := hfault
    obtain ⟨w, hw, hfound⟩ := hfield _ hcolumn
    cases hv.symm.trans hfound
    exact .inr ⟨c, v, type, hw, hcolumn, hnull, htyped, by rw [hdecode, herror]; rfl⟩

/-! ## The shape of compiled queries -/

section

variable {schema : Schema} {placement : FilterPlacement} {s : Select} {q : CompiledQuery}

/-- The returned columns are the recorded ones, under the names that are listed for them, and they
have the names of the items. -/
theorem CompileRun.columns (run : CompileRun schema placement s q) :
    q.registry.renamedColumns = q.columnNames ∧ q.columns ≠ [] ∧
      q.columnNames = run.items.map ProjectionItem.name ∧ q.columnNames.Nodup := by
  obtain ⟨drafts⟩ := emitStages_drafts run.emits
  obtain ⟨columns, hcolumns, hne, hnone, hfinal⟩ := recordProjection_ok drafts.records
  have houtputs : run.final.registry.outputs = [(0, columns)] := by
    rw [hfinal, Registry.withOutputs, hnone, List.nil_append]
  have hreturns := run.returns
  rw [Registry.outputColumns, houtputs] at hreturns
  cases hreturns
  have hnames : run.items.map ProjectionItem.name = q.columnNames :=
    map_eq_map_of_forall₂ ((outputsOf_ok hcolumns).imp fun _ _ hc => hc.1.symm)
  obtain ⟨-, hcheck⟩ := projectionItems_ok run.lists
  exact ⟨by rw [run.registry, hfinal]; rfl, hne, hnames.symm,
    hnames ▸ (checkNames_nodup hcheck).1⟩

/-- Everything before the projection of an outline. -/
def Outline.beforeProjection (o : Outline) : List Step :=
  o.elementSteps ++ .group :: (o.bucketing.modifiers ++ .unfold :: .selectValues ::
    (o.bucketSteps ++ filterSteps .bucket o.late))

theorem Outline.steps_eq (o : Outline) : o.steps = o.beforeProjection ++ o.projection := by
  simp [Outline.steps, Outline.beforeProjection]

/-- Only the projection of an outline projects. -/
theorem Outline.project_not_mem (o : Outline) (keys : List String) :
    .project keys ∉ o.beforeProjection := by
  have hsource : .project keys ∉ sourceSteps o.source := by
    unfold sourceSteps
    cases o.source.kind with
    | vertex => simp
    | edge source target => simp
  have hfilter : ∀ scope conditions, .project keys ∉ filterSteps scope conditions := by
    simp [filterSteps]
  have hkey : .project keys ∉ o.bucketing.modifiers := by
    cases o.bucketing with
    | byValues atoms => simp [Bucketing.modifiers]
    | single => simp [Bucketing.modifiers]
    | perElement => simp [Bucketing.modifiers]
  have hsort : .project keys ∉ sortSteps o.sorting := by
    cases o.sorting with
    | nil => simp [sortSteps]
    | cons k rest => simp [sortSteps, sortModifiers]
  simp [Outline.beforeProjection, Outline.elementSteps, Outline.bucketSteps, hsource, hfilter, hkey,
    hsort]

theorem Outlines.columnNames {items : List ProjectionItem} {found : Bool} {r : Registry}
    {o : Outline} (h : Outlines placement s items found r o) :
    items.map ProjectionItem.name = o.columns.map Prod.fst :=
  map_eq_map_of_forall₂ (h.columns.imp fun _ _ hc => hc.1)

/-- **The row format.** The traversal ends with its only projection, which has a modifier for each
key that falls back to the marker. Its keys are the names of the returned columns, in the registry
and for the decoder too; there is at least one, and none is repeated. A raw result with a field for
each key, in whatever order, is decoded to a row in which the marker has become a null, or it is
refused for a value that has not the type of its column and is not the marker. -/
theorem compiled_row_format (h : compile schema placement s = .ok q) :
    (∃ (before : List Step) (values : List Traversal),
      q.traversal = .root (before ++ .project q.columnNames ::
        values.map fun value => .by (orMarker value) none) ∧
      (∀ keys, .project keys ∉ before) ∧ values.length = q.columnNames.length) ∧
    q.registry.renamedColumns = q.columnNames ∧ q.decoder.columns = q.columnNames ∧
    q.columnNames ≠ [] ∧ q.columnNames.Nodup ∧
    ∀ fields : List (String × Json), (fields.map Prod.fst).Perm q.columnNames →
      (∃ row, q.decoder.decode (.obj fields) = .ok row ∧ row.columns = q.columnNames ∧
        ∀ c, (c, .str nullMarker) ∈ fields → row.get? c = some .null) ∨
      ∃ c v type, (c, v) ∈ fields ∧ ⟨c, type⟩ ∈ q.columns ∧ RowDecoder.isNullValue v = false ∧
        RowDecoder.typedValue? type v = none ∧
        q.decoder.decode (.obj fields) = .error (.typeMismatch c type (quotation v)) := by
  obtain ⟨run⟩ := compile_run h
  obtain ⟨o, htraversal, ho⟩ := run.outline
  obtain ⟨hrenamed, hne, hnames, hnodup⟩ := run.columns
  have hkeys : o.columns.map Prod.fst = q.columnNames := ho.columnNames.symm.trans hnames.symm
  refine ⟨⟨o.beforeProjection,
    o.columns.map fun c => .anonymous (c.2.fragment .bucket), ?_, o.project_not_mem, ?_⟩, hrenamed,
    rfl, ?_, hnodup, fun fields hfields => ?_⟩
  · rw [htraversal, o.steps_eq, Outline.projection, hkeys, itemModifiers, List.map_map,
      List.map_map]
    rfl
  · rw [← hkeys, List.length_map, List.length_map]
  · rw [CompiledQuery.columnNames, ne_eq, List.map_eq_nil_iff]
    exact hne
  · -- Names and types, as the pairs that the decoder goes through.
    have hfst : (q.columns.map fun c => (c.name, c.type)).map Prod.fst = q.columnNames := by
      rw [List.map_map]
      rfl
    have hdecoder : q.decoder =
        ⟨(q.columns.map fun c => (c.name, c.type)).map Prod.fst,
          (q.columns.map fun c => (c.name, c.type)).map Prod.snd⟩ := by
      rw [List.map_map, List.map_map]
      rfl
    rw [← hfst] at hnodup hfields ⊢
    rw [hdecoder]
    rcases RowDecoder.decode_cases hnodup hfields with hrow | ⟨c, v, type, hv, hc, hfault⟩
    · exact .inl hrow
    · obtain ⟨column, hcolumn, heq⟩ := List.mem_map.1 hc
      cases heq
      exact .inr ⟨_, v, _, hv, hcolumn, hfault⟩

end

def staffTable : Table :=
  ⟨"person", .vertex, .string, [⟨"dept", .string⟩, ⟨"age", .integer⟩], none⟩

/-- `SELECT *, dept AS d, 7 FROM person AS p`. -/
def starAndMore : Select where
  selectList := [.star, .as (.identifier ⟨["dept"]⟩) "d", .int 7]
  source := some (.as (.identifier ⟨["person"]⟩) "p")
  filter := none
  groupBy := none
  having := none
  orderBy := none

/-- A raw result, with its fields in another order, for a person without a department. -/
def starAndMoreFields : List (String × Json) :=
  [("dept", .str nullMarker), ("d", .str nullMarker), ("age", .int 36), ("EXPR$2", .int 7),
    ("person_ID", .str "1")]

theorem compiled_row_format_starAndMore :
    ∃ q, compile ⟨[staffTable]⟩ .beforeGrouping starAndMore = .ok q ∧
      (∃ (before : List Step) (values : List Traversal),
        q.traversal = .root (before ++ .project ["person_ID", "dept", "age", "d", "EXPR$2"] ::
          values.map fun value => .by (orMarker value) none) ∧
        (∀ keys, .project keys ∉ before) ∧ values.length = 5) ∧
      q.registry.renamedColumns = ["person_ID", "dept", "age", "d", "EXPR$2"] ∧
      q.decoder.columns = ["person_ID", "dept", "age", "d", "EXPR$2"] ∧
      ((∃ row, q.decoder.decode (.obj starAndMoreFields) = .ok row ∧
        row.columns = ["person_ID", "dept", "age", "d", "EXPR$2"] ∧
        row.get? "dept" = some .null ∧ row.get? "d" = some .null) ∨
      ∃ c v type, (c, v) ∈ starAndMoreFields ∧ ⟨c, type⟩ ∈ q.columns ∧
        RowDecoder.isNullValue v = false ∧ RowDecoder.typedValue? type v = none ∧
        q.decoder.decode (.obj starAndMoreFields) =
          .error (.typeMismatch c type (quotation v))) := by
  have hcompiles : (compile ⟨[staffTable]⟩ .beforeGrouping starAndMore).map
      CompiledQuery.columnNames = .ok ["person_ID", "dept", "age", "d", "EXPR$2"] := by cbv
  obtain ⟨q, hq, hnames⟩ := ok_of_map hcompiles
  obtain ⟨⟨before, values, htraversal, hbefore, hlength⟩, hrenamed, hdecoder, -, -, hdecode⟩ :=
    compiled_row_format hq
  have hfields : (starAndMoreFields.map Prod.fst).Perm q.columnNames := by
    rw [hnames]
    decide
  have hanswer := hdecode starAndMoreFields hfields
  rw [hnames] at htraversal hlength hrenamed hdecoder hanswer
  refine ⟨q, hq, ⟨before, values, htraversal, hbefore, hlength⟩, hrenamed, hdecoder, ?_⟩
  rcases hanswer with ⟨row, hrow, hcolumns, hnull⟩ | hfault
  · exact .inl ⟨row, hrow, hcolumns, hnull "dept" (by simp [starAndMoreFields]),
      hnull "d" (by simp [starAndMoreFields])⟩
  · exact .inr hfault

end GraphSelect
