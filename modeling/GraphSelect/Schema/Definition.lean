import GraphSelect.Schema.Builder

/-!
# Schema definitions

A schema is given as a list of vertices and a list of edges. It is resolved by adding the vertices
and then the edges to a builder, which checks them.
-/

set_option autoImplicit false

namespace GraphSelect

/-- A vertex label with its id type and properties. -/
structure VertexDefinition where
  label : String
  idType : ColumnType
  columns : List Column
deriving DecidableEq

/-- An edge label with its id type, the labels of its endpoints, and its properties. -/
structure EdgeDefinition where
  label : String
  idType : ColumnType
  outVertex : String
  inVertex : String
  columns : List Column
deriving DecidableEq

def VertexDefinition.addTo (b : SchemaBuilder) (v : VertexDefinition) : SchemaBuilder :=
  b.vertex v.label v.idType v.columns

def EdgeDefinition.addTo (b : SchemaBuilder) (e : EdgeDefinition) : SchemaBuilder :=
  b.edge e.label e.idType e.outVertex e.inVertex e.columns

/-- The vertices and edges of a graph, not yet checked. -/
structure SchemaDefinition where
  vertices : List VertexDefinition
  edges : List EdgeDefinition
deriving DecidableEq

/-- The schema that a definition stands for. -/
def SchemaDefinition.resolve (d : SchemaDefinition) : Except SchemaError Schema :=
  let withVertices := d.vertices.foldl VertexDefinition.addTo .empty
  let withEdges := d.edges.foldl EdgeDefinition.addTo withVertices
  withEdges.build

end GraphSelect
