import GraphSelect.Proofs.Expr.Inversion
import GraphSelect.Schema.Definition

/-!
# What holds of a schema that has been built

Building a schema checks the names one after the other and adds the tables on the way. Each of its
loops has one lemma that says both when it gets through and what it leaves behind, and
`build_ok_iff` puts them together. In the end no two tables share a lowercase label, no two
properties of a table share a name, and no property is named like an id column, which is what
`Schema.WellFormed` says. So every table is found by its label. For the columns of a table it is not
enough: the id column of an edge may have the name of one of its endpoint columns, and only if it
has not is every column found by its name.

A builder keeps vertices and edges as tuples. They are spoken of here as definitions, whose parts
have names, and `SchemaBuilder.of` is the builder that keeps given ones.
-/

set_option autoImplicit false

namespace GraphSelect

/-- What the labels of tables are compared by. -/
def Table.key (t : Table) : String :=
  Text.lower t.label

def VertexDefinition.key (v : VertexDefinition) : String :=
  Text.lower v.label

def EdgeDefinition.key (e : EdgeDefinition) : String :=
  Text.lower e.label

/-- A vertex as a builder keeps it. -/
def VertexDefinition.entry (v : VertexDefinition) : String × ColumnType × List Column :=
  (v.label, v.idType, v.columns)

/-- An edge as a builder keeps it. -/
def EdgeDefinition.entry (e : EdgeDefinition) :
    String × ColumnType × String × String × List Column :=
  (e.label, e.idType, e.outVertex, e.inVertex, e.columns)

def VertexDefinition.table (v : VertexDefinition) : Table :=
  ⟨v.label, .vertex, v.idType, v.columns, none⟩

/-- What is checked of the properties of a table when its schema is built. -/
structure Table.WellFormed (t : Table) : Prop where
  distinct : (t.columns.map Column.name).Nodup
  unreserved : ∀ c ∈ t.columns, SchemaBuilder.isReserved c.name = false

/-- A table stands for an edge between some vertices: it has the label, the id type and the
properties of the edge, and the id types of the vertices that the edge leads into and comes out of.
-/
def EdgeDefinition.IsTable (vertices : List VertexDefinition) (e : EdgeDefinition) (t : Table) :
    Prop :=
  ∃ i ∈ vertices, ∃ o ∈ vertices, i.label = e.inVertex ∧ o.label = e.outVertex ∧
    t = ⟨e.label, .edge e.inVertex e.outVertex, e.idType, e.columns, some (i.idType, o.idType)⟩

theorem EdgeDefinition.IsTable.key_eq {vertices : List VertexDefinition} {e : EdgeDefinition}
    {t : Table} (h : e.IsTable vertices t) : t.key = e.key := by
  obtain ⟨i, -, o, -, -, -, rfl⟩ := h
  rfl

theorem EdgeDefinition.IsTable.not_vertex {vertices : List VertexDefinition} {e : EdgeDefinition}
    {t : Table} (h : e.IsTable vertices t) : t.isVertex = false := by
  obtain ⟨i, -, o, -, -, -, rfl⟩ := h
  rfl

namespace SchemaBuilder

/-- The builder that keeps these vertices and these edges. -/
def of (vertices : List VertexDefinition) (edges : List EdgeDefinition) : SchemaBuilder :=
  ⟨vertices.map VertexDefinition.entry, edges.map EdgeDefinition.entry⟩

/-- What any builder keeps are vertices and edges. -/
theorem exists_eq_of (b : SchemaBuilder) : ∃ vertices edges, b = of vertices edges := by
  refine ⟨b.vertices.map fun v => ⟨v.1, v.2.1, v.2.2⟩,
    b.edges.map fun e => ⟨e.1, e.2.1, e.2.2.1, e.2.2.2.1, e.2.2.2.2⟩, ?_⟩
  simp [of, VertexDefinition.entry, EdgeDefinition.entry, Function.comp_def]

/-! ## Labels -/

theorem takeLabel_ok_iff {taken taken' : List String} {label : String} :
    takeLabel taken label = .ok taken' ↔
      Text.lower label ∉ taken ∧ taken' = Text.lower label :: taken := by
  simp only [takeLabel]
  split
  · rename_i hused
    rw [List.contains_iff_mem] at hused
    simp [hused]
  · rename_i hfree
    rw [List.contains_iff_mem] at hfree
    simp [hfree, eq_comm]

/-- The vertices get through if their labels are free and differ. Their labels are in use after
them, the last one first. -/
theorem addVertices_ok_iff {taken taken' : List String} {tables tables' : List Table}
    {vertices : List VertexDefinition} (htaken : taken.Nodup) :
    addVertices taken tables (vertices.map VertexDefinition.entry) = .ok (taken', tables') ↔
      taken'.Nodup ∧ taken' = (vertices.map VertexDefinition.key).reverse ++ taken ∧
        tables' = tables ++ vertices.map VertexDefinition.table := by
  induction vertices generalizing taken tables with
  | nil =>
    simp only [List.map_nil, addVertices, Except.ok.injEq, Prod.mk.injEq, List.reverse_nil,
      List.nil_append, List.append_nil]
    constructor
    · rintro ⟨rfl, rfl⟩
      exact ⟨htaken, rfl, rfl⟩
    · rintro ⟨-, rfl, rfl⟩
      exact ⟨rfl, rfl⟩
  | cons v rest ih =>
    simp only [List.map_cons, VertexDefinition.entry, addVertices, bind_eq_ok_iff,
      takeLabel_ok_iff, List.reverse_cons, List.append_assoc, List.singleton_append]
    constructor
    · rintro ⟨labels, ⟨hfree, rfl⟩, hmore⟩
      obtain ⟨hnodup, hlabels, htables⟩ := (ih (List.nodup_cons.2 ⟨hfree, htaken⟩)).1 hmore
      exact ⟨hnodup, hlabels, by rw [htables, List.append_assoc]; rfl⟩
    · rintro ⟨hnodup, hlabels, htables⟩
      have hfree : v.key ∉ taken := by
        rw [hlabels] at hnodup
        exact (List.nodup_cons.1 hnodup.of_append_right).1
      refine ⟨_, ⟨hfree, rfl⟩, (ih (List.nodup_cons.2 ⟨hfree, htaken⟩)).2 ⟨hnodup, hlabels, ?_⟩⟩
      rw [htables, List.append_assoc]
      rfl

/-! ## Endpoints -/

/-- Endpoints are looked for among the tables so far, where they are found because the vertices are
all there. -/
theorem endpointType_ok_iff {tables : List Table} {vertices : List VertexDefinition}
    {edge vertex : String} {type : ColumnType}
    (hvertices : tables.filter Table.isVertex = vertices.map VertexDefinition.table)
    (hlabels : (vertices.map VertexDefinition.label).Nodup) :
    endpointType tables edge vertex = .ok type ↔
      ∃ v ∈ vertices, v.label = vertex ∧ v.idType = type := by
  have hfind : (tables.find? fun t => t.isVertex && t.label == vertex) =
      (vertices.find? fun v => v.label == vertex).map VertexDefinition.table := by
    have hfilter : (tables.filter Table.isVertex).find? (fun t => t.label == vertex) =
        tables.find? fun t => t.isVertex && t.label == vertex := by
      simp only [List.find?_filter, Bool.decide_and, Bool.decide_eq_true]
    rw [← hfilter, hvertices, List.find?_map]
    rfl
  rw [endpointType, hfind]
  constructor
  · intro h
    cases hv : vertices.find? fun v => v.label == vertex with
    | none =>
      rw [hv] at h
      cases h
    | some v =>
      rw [hv] at h
      cases h
      obtain ⟨hmem, hlabel⟩ := (find?_key_iff hlabels).1 hv
      exact ⟨v, hmem, hlabel, rfl⟩
  · rintro ⟨v, hv, hlabel, rfl⟩
    rw [(find?_key_iff hlabels).2 ⟨hv, hlabel⟩]
    rfl

/-- The edges get through if their labels are free and differ and their endpoints are vertices. -/
theorem addEdges_ok_iff {taken : List String} {tables tables' : List Table}
    {vertices : List VertexDefinition} {edges : List EdgeDefinition}
    (hvertices : tables.filter Table.isVertex = vertices.map VertexDefinition.table)
    (hlabels : (vertices.map VertexDefinition.label).Nodup) (htaken : taken.Nodup) :
    addEdges taken tables (edges.map EdgeDefinition.entry) = .ok tables' ↔
      ((edges.map EdgeDefinition.key).reverse ++ taken).Nodup ∧
        ∃ added, List.Forall₂ (EdgeDefinition.IsTable vertices) edges added ∧
          tables' = tables ++ added := by
  induction edges generalizing taken tables with
  | nil =>
    simp only [List.map_nil, addEdges, Except.ok.injEq, List.reverse_nil, List.nil_append, htaken,
      true_and, List.forall₂_nil_left_iff, exists_eq_left, List.append_nil, eq_comm]
  | cons e rest ih =>
    -- An edge is no endpoint of those after it.
    have hkept {t : Table} (ht : e.IsTable vertices t) :
        (tables ++ [t]).filter Table.isVertex = vertices.map VertexDefinition.table := by
      rw [List.filter_append, hvertices, List.filter_singleton, ht.not_vertex]
      exact List.append_nil _
    simp only [List.map_cons, EdgeDefinition.entry, addEdges, bind_eq_ok_iff, takeLabel_ok_iff,
      endpointType_ok_iff hvertices hlabels, List.reverse_cons, List.append_assoc,
      List.singleton_append]
    constructor
    · rintro ⟨_, ⟨hfree, rfl⟩, _, ⟨i, hi, hin, rfl⟩, _, ⟨o, ho, hout, rfl⟩, hmore⟩
      have ht : e.IsTable vertices _ := ⟨i, hi, o, ho, hin, hout, rfl⟩
      obtain ⟨hnodup, added, hadded, rfl⟩ :=
        (ih (hkept ht) (List.nodup_cons.2 ⟨hfree, htaken⟩)).1 hmore
      exact ⟨hnodup, _ :: added, .cons ht hadded, by rw [List.append_assoc]; rfl⟩
    · rintro ⟨hnodup, _, hadded, rfl⟩
      obtain ⟨t, more, ht, hmore, rfl⟩ := List.forall₂_cons_left_iff.1 hadded
      have hfree : e.key ∉ taken := (List.nodup_cons.1 hnodup.of_append_right).1
      have hrest := (ih (hkept ht) (List.nodup_cons.2 ⟨hfree, htaken⟩)).2
        ⟨hnodup, more, hmore, (List.append_assoc tables [t] more).symm⟩
      obtain ⟨i, hi, o, ho, hin, hout, rfl⟩ := ht
      exact ⟨_, ⟨hfree, rfl⟩, _, ⟨i, hi, hin, rfl⟩, _, ⟨o, ho, hout, rfl⟩, hrest⟩

/-! ## Properties -/

theorem checkColumns_ok_iff {table : String} {seen : List String} {columns : List Column} :
    checkColumns table seen columns = .ok () ↔
      (columns.map Column.name).Nodup ∧
        ∀ c ∈ columns, c.name ∉ seen ∧ isReserved c.name = false := by
  induction columns generalizing seen with
  | nil => simp [checkColumns]
  | cons c rest ih =>
    rw [checkColumns, List.map_cons, List.nodup_cons, List.forall_mem_cons]
    split
    · rename_i hseen
      rw [List.contains_iff_mem] at hseen
      simp [hseen]
    · rename_i hseen
      rw [List.contains_iff_mem] at hseen
      split
      · rename_i hreserved
        simp [hreserved]
      · rename_i hfree
        rw [ih, Bool.eq_false_iff]
        constructor
        · rintro ⟨hnodup, hrest⟩
          refine ⟨⟨?_, hnodup⟩, ⟨hseen, hfree⟩, ?_⟩
          · intro hmem
            obtain ⟨other, hother, hname⟩ := List.mem_map.1 hmem
            exact (hrest other hother).1 (hname ▸ List.mem_cons_self)
          · intro other hother
            obtain ⟨hfresh, hnot⟩ := hrest other hother
            exact ⟨fun hmem => hfresh (List.mem_cons_of_mem _ hmem), hnot⟩
        · rintro ⟨⟨hnotin, hnodup⟩, -, hrest⟩
          refine ⟨hnodup, ?_⟩
          intro other hother
          obtain ⟨hfresh, hnot⟩ := hrest other hother
          refine ⟨?_, hnot⟩
          rw [List.mem_cons]
          rintro (hname | hmem)
          · exact hnotin (hname ▸ List.mem_map_of_mem hother)
          · exact hfresh hmem

theorem checkTables_ok_iff {tables : List Table} :
    checkTables tables = .ok () ↔ ∀ t ∈ tables, t.WellFormed := by
  have hcolumns (t : Table) : checkColumns t.label [] t.columns = .ok () ↔ t.WellFormed := by
    rw [checkColumns_ok_iff]
    constructor
    · rintro ⟨hdistinct, hnames⟩
      exact ⟨hdistinct, fun c hc => (hnames c hc).2⟩
    · rintro ⟨hdistinct, hnames⟩
      exact ⟨hdistinct, fun c hc => ⟨List.not_mem_nil, hnames c hc⟩⟩
  induction tables with
  | nil => simp [checkTables]
  | cons t rest ih =>
    rw [checkTables, bind_eq_ok_iff, List.forall_mem_cons, ← hcolumns]
    constructor
    · rintro ⟨⟨⟩, hfirst, hrest⟩
      exact ⟨hfirst, ih.1 hrest⟩
    · rintro ⟨hfirst, hrest⟩
      exact ⟨(), hfirst, ih.2 hrest⟩

end SchemaBuilder

/-! ## Schemas -/

/-- What is checked when a schema is built. -/
structure Schema.WellFormed (schema : Schema) : Prop where
  labels : (schema.tables.map Table.key).Nodup
  tables : ∀ t ∈ schema.tables, t.WellFormed

/-- The labels of the tables are those of the vertices and the edges. -/
theorem map_key_append {vertices : List VertexDefinition} {edges : List EdgeDefinition}
    {tables : List Table} (h : List.Forall₂ (EdgeDefinition.IsTable vertices) edges tables) :
    (vertices.map VertexDefinition.table ++ tables).map Table.key =
      vertices.map VertexDefinition.key ++ edges.map EdgeDefinition.key := by
  rw [List.map_append, List.map_map]
  congr 1
  exact (map_eq_map_of_forall₂ (h.imp fun _ _ ht => ht.key_eq.symm)).symm

namespace SchemaBuilder

variable {vertices : List VertexDefinition} {edges : List EdgeDefinition} {schema : Schema}

/-- **When a schema can be built, and what it is.** -/
theorem build_ok_iff : (of vertices edges).build = .ok schema ↔ schema.WellFormed ∧
    ∃ added, List.Forall₂ (EdgeDefinition.IsTable vertices) edges added ∧
      schema.tables = vertices.map VertexDefinition.table ++ added := by
  -- Labels are taken in reverse order.
  have hswap : ((edges.map EdgeDefinition.key).reverse ++
        (vertices.map VertexDefinition.key).reverse).Nodup ↔
      (vertices.map VertexDefinition.key ++ edges.map EdgeDefinition.key).Nodup := by
    rw [← List.reverse_append, List.nodup_reverse]
  -- Labels that differ when lowercased differ.
  have hlabels (h : (vertices.map VertexDefinition.key).reverse.Nodup) :
      (vertices.map VertexDefinition.label).Nodup := by
    refine .of_map Text.lower ?_
    rwa [List.map_map, ← List.nodup_reverse]
  have hvertices : (vertices.map VertexDefinition.table).filter Table.isVertex =
      vertices.map VertexDefinition.table := by
    rw [List.filter_eq_self, List.forall_mem_map]
    intro v _
    rfl
  simp only [build, of, bind_eq_ok_iff]
  constructor
  · rintro ⟨⟨taken, tables⟩, hadded, all, hedges, ⟨⟩, hcheck, hlast⟩
    cases hlast
    obtain ⟨hnodup, htaken, rfl⟩ := (addVertices_ok_iff .nil).1 hadded
    rw [List.append_nil] at htaken
    subst htaken
    obtain ⟨hall, added, htables, rfl⟩ :=
      (addEdges_ok_iff hvertices (hlabels hnodup) hnodup).1 hedges
    refine ⟨⟨?_, checkTables_ok_iff.1 hcheck⟩, added, htables, rfl⟩
    rw [map_key_append htables]
    exact hswap.1 hall
  · rintro ⟨⟨hall, hcheck⟩, added, hadded, htables⟩
    rw [htables, map_key_append hadded] at hall
    have hnodup : (vertices.map VertexDefinition.key).reverse.Nodup :=
      List.nodup_reverse.2 hall.of_append_left
    have hfirst : addVertices [] [] (vertices.map VertexDefinition.entry) =
        .ok ((vertices.map VertexDefinition.key).reverse, vertices.map VertexDefinition.table) :=
      (addVertices_ok_iff .nil).2 ⟨hnodup, (List.append_nil _).symm, rfl⟩
    have hrest := (addEdges_ok_iff hvertices (hlabels hnodup) hnodup).2
      ⟨hswap.2 hall, added, hadded, rfl⟩
    refine ⟨_, hfirst, _, hrest, (), ?_, ?_⟩
    · rw [checkTables_ok_iff, ← htables]
      exact hcheck
    · rw [← htables]
      rfl

theorem build_wellFormed {builder : SchemaBuilder} (h : builder.build = .ok schema) :
    schema.WellFormed := by
  obtain ⟨vertices, edges, rfl⟩ := builder.exists_eq_of
  exact (build_ok_iff.1 h).1

end SchemaBuilder

/-- Every table is found by its label. -/
theorem Schema.WellFormed.table?_label {schema : Schema} (h : schema.WellFormed) {t : Table}
    (ht : t ∈ schema.tables) : schema.table? t.label = some t := by
  have hlabels : (schema.tables.map Table.label).Nodup := by
    refine .of_map Text.lower ?_
    rw [List.map_map]
    exact h.labels
  rw [Schema.table?, (find?_key_iff hlabels).2 ⟨ht, rfl⟩]
  rfl

/-! ## Columns -/

theorem isReserved_append (s : String) {ending : String}
    (h : SchemaBuilder.isReserved ending = true) :
    SchemaBuilder.isReserved (s ++ ending) = true := by
  rw [SchemaBuilder.isReserved, List.isSuffixOf_iff_suffix] at h ⊢
  rw [String.toList_append]
  exact h.trans (List.suffix_append _ _)

/-- The names of the columns of the two endpoints end differently. -/
theorem inName_ne_outName (inVertex outVertex : String) :
    inVertex ++ "_IN_ID" ≠ outVertex ++ "_OUT_ID" := by
  intro h
  have hreverse := congrArg (fun s => s.toList.reverse) h
  simp at hreverse

namespace Table

variable {t : Table}

theorem isReserved_idColumnName (t : Table) :
    SchemaBuilder.isReserved t.idColumnName = true :=
  isReserved_append t.label rfl

theorem isReserved_endpoint {c : TableColumn} (hc : c ∈ t.endpointColumns) :
    SchemaBuilder.isReserved c.name = true := by
  unfold endpointColumns at hc
  split at hc
  · rcases List.mem_pair.1 hc with rfl | rfl
    · exact isReserved_append _ rfl
    · exact isReserved_append _ rfl
  · cases hc

theorem endpointColumns_nodup (t : Table) : (t.endpointColumns.map TableColumn.name).Nodup := by
  unfold endpointColumns
  split
  · simp [inName_ne_outName]
  · exact .nil

theorem map_name_asTableColumn (columns : List Column) :
    (columns.map Column.asTableColumn).map TableColumn.name = columns.map Column.name := by
  simp [Column.asTableColumn]

/-- All columns but the id have different names. -/
theorem WellFormed.nodup_past_id (h : t.WellFormed) :
    (t.columns.map Column.name ++ t.endpointColumns.map TableColumn.name).Nodup := by
  refine List.nodup_append'.2 ⟨h.distinct, t.endpointColumns_nodup, ?_⟩
  intro name hname hmem
  obtain ⟨c, hc, rfl⟩ := List.mem_map.1 hname
  obtain ⟨e, he, hsame⟩ := List.mem_map.1 hmem
  have hfree := h.unreserved c hc
  rw [← hsame, isReserved_endpoint he] at hfree
  cases hfree

/-- The columns of a table have different names, unless the id column of an edge is named like one
of its endpoint columns. -/
theorem WellFormed.allColumns_nodup_iff (h : t.WellFormed) :
    (t.allColumns.map TableColumn.name).Nodup ↔
      ∀ c ∈ t.endpointColumns, c.name ≠ t.idColumnName := by
  have hproperty : t.idColumnName ∉ t.columns.map Column.name := by
    intro hmem
    obtain ⟨c, hc, hname⟩ := List.mem_map.1 hmem
    have hfree := h.unreserved c hc
    rw [hname, isReserved_idColumnName] at hfree
    cases hfree
  simp only [allColumns, List.map_cons, List.map_append, map_name_asTableColumn, List.nodup_cons,
    h.nodup_past_id, and_true, List.mem_append, hproperty, false_or, List.mem_map, idColumn]
  exact ⟨fun hno c hc hname => hno ⟨c, hc, hname⟩, fun hno ⟨c, hc, hname⟩ => hno c hc hname⟩

/-- Columns are looked for in another order than they are listed in. -/
theorem perm_allColumns (t : Table) :
    (t.idColumn :: (t.endpointColumns ++ t.columns.map Column.asTableColumn)).Perm t.allColumns :=
  List.perm_append_comm.cons t.idColumn

theorem mem_allColumns {name : String} {c : TableColumn} (h : t.column? name = some c) :
    c ∈ t.allColumns :=
  t.perm_allColumns.mem_iff.1 (List.mem_of_find?_eq_some h)

/-- Where no name is repeated, every column is found by its name. -/
theorem column?_name (h : (t.allColumns.map TableColumn.name).Nodup) {c : TableColumn}
    (hc : c ∈ t.allColumns) : t.column? c.name = some c :=
  (find?_key_iff ((t.perm_allColumns.map TableColumn.name).nodup_iff.2 h)).2
    ⟨t.perm_allColumns.mem_iff.2 hc, rfl⟩

/-- The name of the column whose value is found in a certain way. -/
def nameOf (t : Table) : ColumnSource → Option String
  | .property key => some key
  | .id => some t.idColumnName
  | .inVertexId => t.endpointColumns.head?.map TableColumn.name
  | .outVertexId => t.endpointColumns.getLast?.map TableColumn.name

theorem nameOf_source {c : TableColumn} (hc : c ∈ t.allColumns) :
    t.nameOf c.source = some c.name := by
  rw [allColumns, List.mem_cons, List.mem_append] at hc
  rcases hc with rfl | hc | hc
  · rfl
  · obtain ⟨p, -, rfl⟩ := List.mem_map.1 hc
    rfl
  · unfold nameOf
    unfold endpointColumns at hc ⊢
    split at hc
    · rcases List.mem_pair.1 hc with rfl | rfl
      · rfl
      · rfl
    · cases hc

end Table

end GraphSelect
