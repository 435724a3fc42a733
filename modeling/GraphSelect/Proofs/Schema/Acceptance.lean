import GraphSelect.Proofs.Schema.Built

/-!
# Which declarations make a schema

A schema is put together from declarations of vertices and edges, which are added to a builder in
any order: what it keeps are the vertices in their order and the edges in theirs. `Valid` says of
the declarations, without looking at that order, what they have to satisfy, and `Describes` says
which tables they stand for. The main statement is that the builder accepts the valid lists of
declarations and no others, and gives the tables that they stand for; and that a definition, which
adds all its vertices before its edges, comes to the same.
-/

set_option autoImplicit false

namespace GraphSelect

/-- One thing that is added to a builder. -/
inductive Declaration where
  | vertex (v : VertexDefinition)
  | edge (e : EdgeDefinition)
deriving DecidableEq

namespace Declaration

def label : Declaration → String
  | .vertex v => v.label
  | .edge e => e.label

def columns : Declaration → List Column
  | .vertex v => v.columns
  | .edge e => e.columns

def vertex? : Declaration → Option VertexDefinition
  | .vertex v => some v
  | .edge _ => none

def edge? : Declaration → Option EdgeDefinition
  | .vertex _ => none
  | .edge e => some e

/-- Adds a declaration to a builder. -/
def addTo (b : SchemaBuilder) : Declaration → SchemaBuilder
  | .vertex v => b.vertex v.label v.idType v.columns
  | .edge e => b.edge e.label e.idType e.outVertex e.inVertex e.columns

variable {declarations : List Declaration}

theorem mem_vertices {v : VertexDefinition} :
    v ∈ declarations.filterMap vertex? ↔ .vertex v ∈ declarations := by
  rw [List.mem_filterMap]
  constructor
  · rintro ⟨d, hd, hv⟩
    cases d with
    | vertex w =>
      cases hv
      exact hd
    | edge e => cases hv
  · intro hd
    exact ⟨_, hd, rfl⟩

theorem mem_edges {e : EdgeDefinition} :
    e ∈ declarations.filterMap edge? ↔ .edge e ∈ declarations := by
  rw [List.mem_filterMap]
  constructor
  · rintro ⟨d, hd, he⟩
    cases d with
    | vertex v => cases he
    | edge f =>
      cases he
      exact hd
  · intro hd
    exact ⟨_, hd, rfl⟩

end Declaration

open Declaration

namespace SchemaBuilder

/-- The builder to which declarations have been added, one after the other. -/
def ofDeclarations (declarations : List Declaration) : SchemaBuilder :=
  declarations.foldl addTo .empty

/-- Adding keeps vertices and edges apart, each in the order in which they come. -/
theorem foldl_addTo (declarations : List Declaration) (b : SchemaBuilder) :
    declarations.foldl addTo b =
      ⟨b.vertices ++ (declarations.filterMap vertex?).map VertexDefinition.entry,
        b.edges ++ (declarations.filterMap edge?).map EdgeDefinition.entry⟩ := by
  induction declarations generalizing b with
  | nil => simp
  | cons first rest ih =>
    rw [List.foldl_cons, ih]
    cases first with
    | vertex v =>
      simp [addTo, SchemaBuilder.vertex, VertexDefinition.entry, vertex?, edge?,
        List.filterMap_cons]
    | edge e =>
      simp [addTo, SchemaBuilder.edge, EdgeDefinition.entry, vertex?, edge?, List.filterMap_cons]

theorem ofDeclarations_eq (declarations : List Declaration) :
    ofDeclarations declarations =
      of (declarations.filterMap vertex?) (declarations.filterMap edge?) := by
  rw [ofDeclarations, foldl_addTo]
  rfl

theorem foldl_addVertex (vertices : List VertexDefinition) (b : SchemaBuilder) :
    vertices.foldl VertexDefinition.addTo b =
      ⟨b.vertices ++ vertices.map VertexDefinition.entry, b.edges⟩ := by
  induction vertices generalizing b with
  | nil => simp
  | cons v rest ih =>
    rw [List.foldl_cons, ih]
    simp [VertexDefinition.addTo, SchemaBuilder.vertex, VertexDefinition.entry]

theorem foldl_addEdge (edges : List EdgeDefinition) (b : SchemaBuilder) :
    edges.foldl EdgeDefinition.addTo b =
      ⟨b.vertices, b.edges ++ edges.map EdgeDefinition.entry⟩ := by
  induction edges generalizing b with
  | nil => simp
  | cons e rest ih =>
    rw [List.foldl_cons, ih]
    simp [EdgeDefinition.addTo, SchemaBuilder.edge, EdgeDefinition.entry]

end SchemaBuilder

/-- After its two loops, a definition has added its vertices and its edges. -/
theorem SchemaDefinition.resolve_eq (d : SchemaDefinition) :
    d.resolve = (SchemaBuilder.of d.vertices d.edges).build := by
  simp only [resolve, SchemaBuilder.foldl_addVertex, SchemaBuilder.foldl_addEdge]
  rfl

/-! ## What declarations have to satisfy -/

/-- Both endpoints of an edge are labels of declared vertices. -/
def EdgeDefinition.JoinsVertices (declarations : List Declaration) (e : EdgeDefinition) : Prop :=
  (∃ v, .vertex v ∈ declarations ∧ v.label = e.outVertex) ∧
    ∃ v, .vertex v ∈ declarations ∧ v.label = e.inVertex

/-- Declarations of which a schema can be made. -/
structure Valid (declarations : List Declaration) : Prop where
  -- No two labels are the same in lowercase.
  labels : declarations.Pairwise fun a b => Text.lower a.label ≠ Text.lower b.label
  endpoints : ∀ e, .edge e ∈ declarations → e.JoinsVertices declarations
  distinct : ∀ d ∈ declarations, (d.columns.map Column.name).Nodup
  unreserved : ∀ d ∈ declarations, ∀ c ∈ d.columns, ∀ stem, c.name ≠ stem ++ "_ID"

/-- A table stands for a vertex: it has its label, id type and properties, and no endpoints. -/
def VertexDefinition.IsTable (v : VertexDefinition) (t : Table) : Prop :=
  t = ⟨v.label, .vertex, v.idType, v.columns, none⟩

/-- The tables of a schema are those of the declared vertices, in order, and then those of the
declared edges, in order. -/
def Describes (declarations : List Declaration) (schema : Schema) : Prop :=
  ∃ vertices edges, schema.tables = vertices ++ edges ∧
    List.Forall₂ VertexDefinition.IsTable (declarations.filterMap vertex?) vertices ∧
    List.Forall₂ (EdgeDefinition.IsTable (declarations.filterMap vertex?))
      (declarations.filterMap edge?) edges

theorem isReserved_iff {name : String} :
    SchemaBuilder.isReserved name = true ↔ ∃ stem, name = stem ++ "_ID" := by
  rw [SchemaBuilder.isReserved, List.isSuffixOf_iff_suffix]
  constructor
  · rintro ⟨chars, hchars⟩
    refine ⟨String.ofList chars, ?_⟩
    rw [← String.toList_inj, String.toList_append, String.toList_ofList, hchars]
  · rintro ⟨stem, rfl⟩
    rw [String.toList_append]
    exact List.suffix_append _ _

/-! ## The tables -/

theorem forall₂_isTable_iff {vertices : List VertexDefinition} {tables : List Table} :
    List.Forall₂ VertexDefinition.IsTable vertices tables ↔
      tables = vertices.map VertexDefinition.table := by
  constructor
  · intro h
    induction h with
    | nil => rfl
    | cons hfirst _ ih => rw [List.map_cons, hfirst, ih, VertexDefinition.table]
  · rintro rfl
    rw [List.forall₂_map_right_iff, List.forall₂_same]
    intro v _
    rfl

/-- What is checked of a table by itself and against the others. -/
def Table.outline (t : Table) : String × List Column :=
  (t.label, t.columns)

def Declaration.outline (d : Declaration) : String × List Column :=
  (d.label, d.columns)

theorem map_outline_edges {vertices : List VertexDefinition} {edges : List EdgeDefinition}
    {tables : List Table} (h : List.Forall₂ (EdgeDefinition.IsTable vertices) edges tables) :
    tables.map Table.outline = edges.map fun e => (Declaration.edge e).outline := by
  induction h with
  | nil => rfl
  | cons hfirst _ ih =>
    obtain ⟨i, -, o, -, -, -, rfl⟩ := hfirst
    rw [List.map_cons, List.map_cons, ih]
    rfl

/-- Taking vertices and edges apart only moves them. -/
theorem perm_outline (declarations : List Declaration) :
    ((declarations.filterMap vertex?).map (fun v => (Declaration.vertex v).outline) ++
      (declarations.filterMap edge?).map fun e => (Declaration.edge e).outline).Perm
      (declarations.map Declaration.outline) := by
  induction declarations with
  | nil => exact .nil
  | cons first rest ih =>
    cases first with
    | vertex v => exact ih.cons _
    | edge e => exact List.perm_middle.trans (ih.cons _)

theorem Describes.perm {declarations : List Declaration} {schema : Schema}
    (h : Describes declarations schema) :
    (schema.tables.map Table.outline).Perm (declarations.map Declaration.outline) := by
  obtain ⟨vertices, edges, htables, hvertices, hedges⟩ := h
  rw [forall₂_isTable_iff] at hvertices
  subst hvertices
  rw [htables, List.map_append, map_outline_edges hedges, List.map_map]
  exact perm_outline declarations

/-- The schema that declarations describe is well formed if and only if the names in the
declarations are as they have to be. -/
theorem Describes.wellFormed_iff {declarations : List Declaration} {schema : Schema}
    (h : Describes declarations schema) :
    schema.WellFormed ↔
      (declarations.Pairwise fun a b => Text.lower a.label ≠ Text.lower b.label) ∧
        (∀ d ∈ declarations, (d.columns.map Column.name).Nodup) ∧
        ∀ d ∈ declarations, ∀ c ∈ d.columns, ∀ stem, c.name ≠ stem ++ "_ID" := by
  have hperm := h.perm
  have hkeys : (schema.tables.map Table.key).Nodup ↔
      declarations.Pairwise fun a b => Text.lower a.label ≠ Text.lower b.label := by
    have hlower := hperm.map fun o => Text.lower o.1
    rw [List.map_map, List.map_map] at hlower
    exact hlower.nodup_iff.trans List.pairwise_map
  have hcolumns (P : List Column → Prop) :
      (∀ t ∈ schema.tables, P t.columns) ↔ ∀ d ∈ declarations, P d.columns := by
    have hmem (o : String × List Column) := hperm.mem_iff (a := o)
    simp only [List.mem_map] at hmem
    constructor
    · intro hall d hd
      obtain ⟨t, ht, hsame⟩ := (hmem d.outline).2 ⟨d, hd, rfl⟩
      have hsame' : t.columns = d.columns := congrArg Prod.snd hsame
      exact hsame' ▸ hall t ht
    · intro hall t ht
      obtain ⟨d, hd, hsame⟩ := (hmem t.outline).1 ⟨t, ht, rfl⟩
      have hsame' : d.columns = t.columns := congrArg Prod.snd hsame
      exact hsame' ▸ hall d hd
  have hfree (c : Column) : SchemaBuilder.isReserved c.name = false ↔
      ∀ stem, c.name ≠ stem ++ "_ID" := by
    rw [Bool.eq_false_iff, ne_eq, isReserved_iff, not_exists]
  rw [← hkeys, ← hcolumns fun columns => (columns.map Column.name).Nodup,
    ← hcolumns fun columns => ∀ c ∈ columns, ∀ stem, c.name ≠ stem ++ "_ID"]
  constructor
  · intro hw
    refine ⟨hw.labels, fun t ht => (hw.tables t ht).distinct, ?_⟩
    intro t ht c hc
    exact (hfree c).1 ((hw.tables t ht).unreserved c hc)
  · rintro ⟨hlabels, hdistinct, hnames⟩
    refine ⟨hlabels, fun t ht => ⟨hdistinct t ht, ?_⟩⟩
    intro c hc
    exact (hfree c).2 (hnames t ht c hc)

/-- The edges for which there is a table are those that join vertices. -/
theorem joinsVertices_iff {declarations : List Declaration} {e : EdgeDefinition} :
    e.JoinsVertices declarations ↔ ∃ t, e.IsTable (declarations.filterMap vertex?) t := by
  constructor
  · rintro ⟨⟨o, ho, hout⟩, i, hi, hin⟩
    exact ⟨_, i, mem_vertices.2 hi, o, mem_vertices.2 ho, hin, hout, rfl⟩
  · rintro ⟨t, i, hi, o, ho, hin, hout, -⟩
    exact ⟨⟨o, mem_vertices.1 ho, hout⟩, i, mem_vertices.1 hi, hin⟩

theorem Describes.endpoints {declarations : List Declaration} {schema : Schema}
    (h : Describes declarations schema) (e : EdgeDefinition) (he : .edge e ∈ declarations) :
    e.JoinsVertices declarations := by
  obtain ⟨_, edges, -, -, hedges⟩ := h
  obtain ⟨t, -, ht⟩ := exists_of_mem_forall₂ hedges (mem_edges.2 he)
  exact joinsVertices_iff.2 ⟨t, ht⟩

/-- Valid declarations describe a schema. -/
theorem Valid.describes {declarations : List Declaration} (h : Valid declarations) :
    ∃ schema, Describes declarations schema := by
  have hjoins : ∀ e ∈ declarations.filterMap edge?,
      ∃ t, e.IsTable (declarations.filterMap vertex?) t := by
    intro e he
    exact joinsVertices_iff.1 (h.endpoints e (mem_edges.1 he))
  obtain ⟨edges, hedges⟩ := exists_forall₂ hjoins
  exact ⟨⟨_ ++ edges⟩, _, edges, rfl, forall₂_isTable_iff.2 rfl, hedges⟩

/-! ## Acceptance -/

theorem build_ofDeclarations_iff {declarations : List Declaration} {schema : Schema} :
    (SchemaBuilder.ofDeclarations declarations).build = .ok schema ↔
      Valid declarations ∧ Describes declarations schema := by
  rw [SchemaBuilder.ofDeclarations_eq, SchemaBuilder.build_ok_iff]
  constructor
  · rintro ⟨hw, edges, hedges, htables⟩
    have hdescribes : Describes declarations schema :=
      ⟨_, edges, htables, forall₂_isTable_iff.2 rfl, hedges⟩
    obtain ⟨hlabels, hdistinct, hnames⟩ := hdescribes.wellFormed_iff.1 hw
    exact ⟨⟨hlabels, hdescribes.endpoints, hdistinct, hnames⟩, hdescribes⟩
  · rintro ⟨hvalid, hdescribes⟩
    have hw := hdescribes.wellFormed_iff.2 ⟨hvalid.labels, hvalid.distinct, hvalid.unreserved⟩
    obtain ⟨vertices, edges, htables, hvertices, hedges⟩ := hdescribes
    rw [forall₂_isTable_iff] at hvertices
    subst hvertices
    exact ⟨hw, edges, hedges, htables⟩

/-- **A schema is made of valid declarations and of no others.** From declarations of vertices and
edges, added in any order, a schema can be built if and only if they are valid, and then it is the
one that they describe. A definition that lists the same vertices and the same edges resolves to
the same, be it a schema or an error. -/
theorem declarations_build_iff_valid (declarations : List Declaration) :
    ((∃ schema, (SchemaBuilder.ofDeclarations declarations).build = .ok schema) ↔
        Valid declarations) ∧
      (∀ schema, (SchemaBuilder.ofDeclarations declarations).build = .ok schema →
        Describes declarations schema) ∧
      ∀ definition : SchemaDefinition, definition.vertices = declarations.filterMap vertex? →
        definition.edges = declarations.filterMap edge? →
        definition.resolve = (SchemaBuilder.ofDeclarations declarations).build := by
  refine ⟨⟨?_, ?_⟩, ?_, ?_⟩
  · rintro ⟨schema, hschema⟩
    exact (build_ofDeclarations_iff.1 hschema).1
  · intro hvalid
    obtain ⟨schema, hdescribes⟩ := hvalid.describes
    exact ⟨schema, build_ofDeclarations_iff.2 ⟨hvalid, hdescribes⟩⟩
  · intro schema hschema
    exact (build_ofDeclarations_iff.1 hschema).2
  · intro definition hvertices hedges
    rw [definition.resolve_eq, SchemaBuilder.ofDeclarations_eq, hvertices, hedges]

/-- People and companies, declared between the edges that join them. -/
def officeDeclarations : List Declaration :=
  [.edge ⟨"works_at", .string, "person", "company", [⟨"since", .datetime⟩]⟩,
    .vertex ⟨"person", .integer, [⟨"name", .string⟩]⟩,
    .edge ⟨"knows", .float, "person", "person", []⟩,
    .vertex ⟨"company", .string, [⟨"name", .string⟩, ⟨"ID", .string⟩]⟩]

def officeDefinition : SchemaDefinition :=
  ⟨[⟨"person", .integer, [⟨"name", .string⟩]⟩,
      ⟨"company", .string, [⟨"name", .string⟩, ⟨"ID", .string⟩]⟩],
    [⟨"works_at", .string, "person", "company", [⟨"since", .datetime⟩]⟩,
      ⟨"knows", .float, "person", "person", []⟩]⟩

def officeSchema : Schema :=
  ⟨[⟨"person", .vertex, .integer, [⟨"name", .string⟩], none⟩,
    ⟨"company", .vertex, .string, [⟨"name", .string⟩, ⟨"ID", .string⟩], none⟩,
    ⟨"works_at", .edge "company" "person", .string, [⟨"since", .datetime⟩],
      some (.string, .integer)⟩,
    ⟨"knows", .edge "person" "person", .float, [], some (.integer, .integer)⟩]⟩

theorem declarations_build_iff_valid_office :
    (SchemaBuilder.ofDeclarations officeDeclarations).build = .ok officeSchema ∧
      Valid officeDeclarations ∧ Describes officeDeclarations officeSchema ∧
      officeDefinition.vertices = officeDeclarations.filterMap vertex? ∧
      officeDefinition.edges = officeDeclarations.filterMap edge? ∧
      officeDefinition.resolve = (SchemaBuilder.ofDeclarations officeDeclarations).build := by
  have hbuild : (SchemaBuilder.ofDeclarations officeDeclarations).build = .ok officeSchema := rfl
  obtain ⟨hvalid, hdescribes, hdefinition⟩ := declarations_build_iff_valid officeDeclarations
  exact ⟨hbuild, hvalid.1 ⟨officeSchema, hbuild⟩, hdescribes officeSchema hbuild, rfl, rfl,
    hdefinition officeDefinition rfl rfl⟩

end GraphSelect
