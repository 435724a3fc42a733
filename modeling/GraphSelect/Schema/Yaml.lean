import GraphSelect.Schema.Definition
import GraphSelect.Yaml.Reader

/-!
# Schema definitions in YAML

A definition is written by hand in YAML:

```yaml
vertices:
  - label: person
    id_type: integer
    columns:
      - { name: name, type: string }
edges:
  - label: knows
    out_vertex: person
    in_vertex: person
```

An id is a text unless `id_type` says otherwise, and lists may be left out.
-/

set_option autoImplicit false

namespace GraphSelect

def ColumnType.ofYaml? (v : Yaml) : Option ColumnType := do
  let name ← v.text?
  ofName? name

/-- The id type in a record, texts where it is left out. -/
def ColumnType.idTypeOfYaml? (fields : List (String × Yaml)) : Option ColumnType :=
  match fields.lookup "id_type" with
  | some v => ofYaml? v
  | none => some .string

def Column.ofYaml? (v : Yaml) : Option Column := do
  let fields ← v.record? ["name", "type"]
  let name ← (← fields.lookup "name").text?
  let type ← ColumnType.ofYaml? (← fields.lookup "type")
  return ⟨name, type⟩

/-- The list in a field, the empty one where the field is left out. -/
def Yaml.listField? {α : Type} (read : Yaml → Option α) (name : String)
    (fields : List (String × Yaml)) : Option (List α) :=
  match fields.lookup name with
  | some v => v.items?.bind (·.mapM read)
  | none => some []

def VertexDefinition.ofYaml? (v : Yaml) : Option VertexDefinition := do
  let fields ← v.record? ["label", "id_type", "columns"]
  let label ← (← fields.lookup "label").text?
  let idType ← ColumnType.idTypeOfYaml? fields
  let columns ← Yaml.listField? Column.ofYaml? "columns" fields
  return ⟨label, idType, columns⟩

def EdgeDefinition.ofYaml? (v : Yaml) : Option EdgeDefinition := do
  let fields ← v.record? ["label", "id_type", "out_vertex", "in_vertex", "columns"]
  let label ← (← fields.lookup "label").text?
  let idType ← ColumnType.idTypeOfYaml? fields
  let outVertex ← (← fields.lookup "out_vertex").text?
  let inVertex ← (← fields.lookup "in_vertex").text?
  let columns ← Yaml.listField? Column.ofYaml? "columns" fields
  return ⟨label, idType, outVertex, inVertex, columns⟩

def SchemaDefinition.ofYaml? (v : Yaml) : Option SchemaDefinition := do
  let fields ← v.record? ["vertices", "edges"]
  let vertices ← Yaml.listField? VertexDefinition.ofYaml? "vertices" fields
  let edges ← Yaml.listField? EdgeDefinition.ofYaml? "edges" fields
  return ⟨vertices, edges⟩

/-- The definition that a YAML text holds. -/
def SchemaDefinition.parse (text : String) : Except SchemaError SchemaDefinition :=
  match (Yaml.parse? text).bind ofYaml? with
  | some d => .ok d
  | none => .error .malformed

end GraphSelect
