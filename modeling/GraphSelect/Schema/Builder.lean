import GraphSelect.Schema.Table

/-!
# Building a schema

Vertices and edges are collected in any order and checked as a whole. Building checks that

* labels differ, after lowercasing, across vertices and edges,
* both endpoints of every edge are labels of vertices, spelled exactly,
* the properties of a table have different names, and none ends in `_ID`, which would hide it behind
  an id column,

and gives each edge the id types of its endpoints. The first violation in that order is reported.

An edge is told where it comes out of before where it leads into. Its table keeps the two the other
way around.
-/

set_option autoImplicit false

namespace GraphSelect

inductive SchemaError where
  | duplicateTable (label : String)
  | duplicateColumn (table column : String)
  | reservedColumn (table column : String)
  | unknownEndpoint (edge vertex : String)
  | unreadable (path reason : String)
  | malformed
deriving DecidableEq

def SchemaError.message : SchemaError → String
  | .duplicateTable label =>
    "Duplicate table label `" ++ label ++ "` (labels must be unique across vertices and edges)"
  | .duplicateColumn table column =>
    "Duplicate column `" ++ column ++ "` in table `" ++ table ++ "`"
  | .reservedColumn table column =>
    "Column `" ++ column ++ "` in table `" ++ table ++ "` collides with a reserved id column"
  | .unknownEndpoint edge vertex =>
    "Edge `" ++ edge ++ "` references unknown vertex label `" ++ vertex ++ "`"
  | .unreadable path reason => "Failed to read schema file: " ++ path ++ ": " ++ reason
  | .malformed => "Failed to parse schema"

/-- What has been collected so far, in order: for a vertex its label, its id type and its
properties, for an edge its label, its id type, the labels of the vertices that it comes out of and
leads into, and its properties. -/
structure SchemaBuilder where
  vertices : List (String × ColumnType × List Column)
  edges : List (String × ColumnType × String × String × List Column)
deriving DecidableEq

namespace SchemaBuilder

def empty : SchemaBuilder :=
  ⟨[], []⟩

def vertex (b : SchemaBuilder) (label : String) (idType : ColumnType) (columns : List Column) :
    SchemaBuilder :=
  { b with vertices := b.vertices ++ [(label, idType, columns)] }

def edge (b : SchemaBuilder) (label : String) (idType : ColumnType) (outVertex inVertex : String)
    (columns : List Column) : SchemaBuilder :=
  { b with edges := b.edges ++ [(label, idType, outVertex, inVertex, columns)] }

/-- The lowercase labels in use with one more, which must not be among them. -/
def takeLabel (taken : List String) (label : String) : Except SchemaError (List String) :=
  let key := Text.lower label
  if taken.contains key then .error (.duplicateTable label) else .ok (key :: taken)

/-- Adds the tables of vertices to those that there are, and their labels to those in use. -/
def addVertices (taken : List String) (tables : List Table) :
    List (String × ColumnType × List Column) → Except SchemaError (List String × List Table)
  | [] => .ok (taken, tables)
  | (label, idType, columns) :: rest => do
    let taken ← takeLabel taken label
    addVertices taken (tables ++ [⟨label, .vertex, idType, columns, none⟩]) rest

/-- The id type of the vertex that an edge names as an endpoint. -/
def endpointType (tables : List Table) (edge vertex : String) : Except SchemaError ColumnType :=
  match tables.find? fun t => t.isVertex && t.label == vertex with
  | some t => .ok t.idType
  | none => .error (.unknownEndpoint edge vertex)

/-- Adds the tables of edges to those that there are, among which are their endpoints. -/
def addEdges (taken : List String) (tables : List Table) :
    List (String × ColumnType × String × String × List Column) → Except SchemaError (List Table)
  | [] => .ok tables
  | (label, idType, outVertex, inVertex, columns) :: rest => do
    let taken ← takeLabel taken label
    let inType ← endpointType tables label inVertex
    let outType ← endpointType tables label outVertex
    let table : Table :=
      ⟨label, .edge inVertex outVertex, idType, columns, some (inType, outType)⟩
    addEdges taken (tables ++ [table]) rest

/-- A name that belongs to an id column. -/
def isReserved (name : String) : Bool :=
  "_ID".toList.isSuffixOf name.toList

/-- Checks the names of the properties of a table, those before them given as `seen`. -/
def checkColumns (table : String) (seen : List String) : List Column → Except SchemaError Unit
  | [] => .ok ()
  | c :: rest =>
    if seen.contains c.name then .error (.duplicateColumn table c.name)
    else if isReserved c.name then .error (.reservedColumn table c.name)
    else checkColumns table (c.name :: seen) rest

/-- Checks the properties of every table. -/
def checkTables : List Table → Except SchemaError Unit
  | [] => .ok ()
  | t :: rest => do
    checkColumns t.label [] t.columns
    checkTables rest

/-- The schema of what has been collected: the vertices in order, then the edges in order. -/
def build (b : SchemaBuilder) : Except SchemaError Schema := do
  let (taken, tables) ← addVertices [] [] b.vertices
  let tables ← addEdges taken tables b.edges
  checkTables tables
  return ⟨tables⟩

end SchemaBuilder

end GraphSelect
