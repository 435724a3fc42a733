import GraphSelect.Json.Basic
import GraphSelect.Schema.Definition

/-!
# Schemas in JSON

A schema is handed over either as a definition, which still has to be resolved, or in resolved form,
which is taken as it is. An object with the field `tables` is of the second kind.

Writing and reading use the same field names; a field that a definition leaves out has a default on
reading and is always written.
-/

set_option autoImplicit false

namespace GraphSelect

/-! ## Reading -/

def ColumnType.ofJson? (v : Json) : Option ColumnType := do
  let name ← v.bareVariant?
  ofName? name

/-- The id type in a record, texts where it is left out. -/
def ColumnType.idTypeOf? (fields : List (String × Json)) : Option ColumnType :=
  match Json.field? "id_type" fields with
  | some v => ofJson? v
  | none => some .string

def Column.ofJson? (v : Json) : Option Column := do
  let fields ← v.record? ["name", "type"]
  let name ← (← Json.field? "name" fields).str?
  let type ← ColumnType.ofJson? (← Json.field? "type" fields)
  return ⟨name, type⟩

/-- The list in a field, the empty one where the field is left out. -/
def Json.listField? {α : Type} (read : Json → Option α) (name : String)
    (fields : List (String × Json)) : Option (List α) :=
  match field? name fields with
  | some v => list? read v
  | none => some []

def VertexDefinition.ofJson? (v : Json) : Option VertexDefinition := do
  let fields ← v.record? ["label", "id_type", "columns"]
  let label ← (← Json.field? "label" fields).str?
  let idType ← ColumnType.idTypeOf? fields
  let columns ← Json.listField? Column.ofJson? "columns" fields
  return ⟨label, idType, columns⟩

def EdgeDefinition.ofJson? (v : Json) : Option EdgeDefinition := do
  let fields ← v.record? ["label", "id_type", "out_vertex", "in_vertex", "columns"]
  let label ← (← Json.field? "label" fields).str?
  let idType ← ColumnType.idTypeOf? fields
  let outVertex ← (← Json.field? "out_vertex" fields).str?
  let inVertex ← (← Json.field? "in_vertex" fields).str?
  let columns ← Json.listField? Column.ofJson? "columns" fields
  return ⟨label, idType, outVertex, inVertex, columns⟩

def SchemaDefinition.ofJson? (v : Json) : Option SchemaDefinition := do
  let fields ← v.record? ["vertices", "edges"]
  let vertices ← Json.listField? VertexDefinition.ofJson? "vertices" fields
  let edges ← Json.listField? EdgeDefinition.ofJson? "edges" fields
  return ⟨vertices, edges⟩

def TableKind.ofJson? (v : Json) : Option TableKind :=
  match v.variant? with
  | some ("Vertex", none) => some .vertex
  | some ("Vertex", some .null) => some .vertex
  | some ("Edge", some content) => do
    let fields ← content.record? ["in_vertex", "out_vertex"]
    let inVertex ← (← Json.field? "in_vertex" fields).str?
    let outVertex ← (← Json.field? "out_vertex" fields).str?
    return .edge inVertex outVertex
  | _ => none

/-- The id types of the endpoints, in resolved form. -/
def Table.endpointTypesOf? : Json → Option (Option (ColumnType × ColumnType))
  | .null => some none
  | .arr [i, o] => do
    let inType ← ColumnType.ofJson? i
    let outType ← ColumnType.ofJson? o
    return some (inType, outType)
  | _ => none

/-- A table in resolved form. Written as a list it has all five values. -/
def Table.ofJson? (v : Json) : Option Table := do
  let fields ← v.record? ["label", "kind", "id_type", "columns", "endpoint_id_types"]
  let label ← (← Json.field? "label" fields).str?
  let kind ← TableKind.ofJson? (← Json.field? "kind" fields)
  let idType ← ColumnType.ofJson? (← Json.field? "id_type" fields)
  let columns ← Json.list? Column.ofJson? (← Json.field? "columns" fields)
  let endpointTypes ← match Json.field? "endpoint_id_types" fields, v with
    | some e, _ => endpointTypesOf? e
    | none, .arr _ => none
    | none, _ => some none
  return ⟨label, kind, idType, columns, endpointTypes⟩

def Schema.ofJson? (v : Json) : Option Schema := do
  let fields ← v.record? ["tables"]
  let tables ← Json.list? Table.ofJson? (← Json.field? "tables" fields)
  return ⟨tables⟩

inductive SchemaDocument where
  | definition (d : SchemaDefinition)
  | resolved (s : Schema)

def SchemaDocument.ofJson? (v : Json) : Option SchemaDocument :=
  let hasTables := match v with
    | .obj fields => (Json.field? "tables" fields).isSome
    | _ => false
  if hasTables then (Schema.ofJson? v).map .resolved
  else (SchemaDefinition.ofJson? v).map .definition

def SchemaDocument.schema : SchemaDocument → Except SchemaError Schema
  | .definition d => d.resolve
  | .resolved s => .ok s

/-! ## Writing -/

def ColumnType.toJson (t : ColumnType) : Json :=
  .str t.name

def Column.toJson (c : Column) : Json :=
  .obj [("name", .str c.name), ("type", c.type.toJson)]

def VertexDefinition.toJson (v : VertexDefinition) : Json :=
  .obj [("label", .str v.label), ("id_type", v.idType.toJson),
    ("columns", .arr (v.columns.map Column.toJson))]

def EdgeDefinition.toJson (e : EdgeDefinition) : Json :=
  .obj [("label", .str e.label), ("id_type", e.idType.toJson), ("out_vertex", .str e.outVertex),
    ("in_vertex", .str e.inVertex), ("columns", .arr (e.columns.map Column.toJson))]

def SchemaDefinition.toJson (d : SchemaDefinition) : Json :=
  .obj [("vertices", .arr (d.vertices.map VertexDefinition.toJson)),
    ("edges", .arr (d.edges.map EdgeDefinition.toJson))]

def TableKind.toJson : TableKind → Json
  | .vertex => .str "Vertex"
  | .edge inVertex outVertex =>
    .obj [("Edge", .obj [("in_vertex", .str inVertex), ("out_vertex", .str outVertex)])]

def Table.toJson (t : Table) : Json :=
  .obj [("label", .str t.label), ("kind", t.kind.toJson), ("id_type", t.idType.toJson),
    ("columns", .arr (t.columns.map Column.toJson)),
    ("endpoint_id_types", match t.endpointTypes with
      | some (inType, outType) => .arr [inType.toJson, outType.toJson]
      | none => .null)]

def Schema.toJson (s : Schema) : Json :=
  .obj [("tables", .arr (s.tables.map Table.toJson))]

def ColumnSource.toJson : ColumnSource → Json
  | .property key => .obj [("Property", .str key)]
  | .id => .str "Id"
  | .inVertexId => .str "InVertexId"
  | .outVertexId => .str "OutVertexId"

end GraphSelect
