import GraphSelect.Schema.ColumnType

/-!
# Graph labels as tables

A graph schema lists the vertex and edge labels that a query can name, each seen as a table.
Besides its properties a table has columns that no property backs: `<label>_ID` is the id of the
element, and an edge table adds the ids of the two vertices that the edge joins, `<in>_IN_ID` and
`<out>_OUT_ID`.
-/

set_option autoImplicit false

namespace GraphSelect

/-- A declared property: its key and its type. -/
structure Column where
  name : String
  type : ColumnType
deriving DecidableEq

/-- Where the value of a column is found on a graph element. -/
inductive ColumnSource where
  | property (key : String)
  | id
  -- The id of the vertex that the edge leads into.
  | inVertexId
  -- The id of the vertex that the edge comes out of.
  | outVertexId
deriving DecidableEq

/-- Whether the value is the id of an endpoint of an edge. -/
def ColumnSource.isEndpoint : ColumnSource → Bool
  | .inVertexId => true
  | .outVertexId => true
  | _ => false

structure TableColumn where
  name : String
  type : ColumnType
  source : ColumnSource
deriving DecidableEq

/-- What a label stands for. An edge names the labels of its endpoints. -/
inductive TableKind where
  | vertex
  | edge (inVertex outVertex : String)
deriving DecidableEq

/-- One vertex or edge label, seen as a table. -/
structure Table where
  label : String
  kind : TableKind
  idType : ColumnType
  columns : List Column
  -- The id types of the endpoints of an edge, first of the one that it leads into.
  endpointTypes : Option (ColumnType × ColumnType)
deriving DecidableEq

/-- A declared property as a query sees it. -/
def Column.asTableColumn (c : Column) : TableColumn :=
  ⟨c.name, c.type, .property c.name⟩

namespace Table

def isVertex (t : Table) : Bool :=
  match t.kind with
  | .vertex => true
  | .edge _ _ => false

/-- The name of the column with the element's id. -/
def idColumnName (t : Table) : String :=
  t.label ++ "_ID"

def idColumn (t : Table) : TableColumn :=
  ⟨t.idColumnName, t.idType, .id⟩

/-- The columns with the ids of an edge's endpoints: the one it leads into, the one it comes from.
-/
def endpointColumns (t : Table) : List TableColumn :=
  match t.kind, t.endpointTypes with
  | .edge inVertex outVertex, some (inType, outType) =>
    [⟨inVertex ++ "_IN_ID", inType, .inVertexId⟩, ⟨outVertex ++ "_OUT_ID", outType, .outVertexId⟩]
  | _, _ => []

/-- All columns, in the order in which `*` lists them: the id, the properties, the endpoints. -/
def allColumns (t : Table) : List TableColumn :=
  t.idColumn :: (t.columns.map Column.asTableColumn ++ t.endpointColumns)

/-- The column with this name. Ids and endpoints are looked for before properties. -/
def column? (t : Table) (name : String) : Option TableColumn :=
  (t.idColumn :: (t.endpointColumns ++ t.columns.map Column.asTableColumn)).find?
    fun c => c.name == name

end Table

structure Schema where
  tables : List Table
deriving DecidableEq

/-- The table with this label; if none has exactly this label, the first one that has it up to the
case of ASCII letters. -/
def Schema.table? (s : Schema) (label : String) : Option Table :=
  (s.tables.find? fun t => t.label == label).or
    (s.tables.find? fun t => Text.eqIgnoringCase t.label label)

end GraphSelect
