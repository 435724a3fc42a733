import GraphSelect.Query.Compile
import GraphSelect.Schema.Json
import GraphSelect.Traversal.Json

/-!
# Compiled queries as JSON

A compiled query is written as its traversal and its output columns, in this order.
-/

set_option autoImplicit false

namespace GraphSelect

def OutputColumn.toJson (c : OutputColumn) : Json :=
  .obj [("name", .str c.name), ("ty", c.type.toJson)]

def CompiledQuery.columnsJson (q : CompiledQuery) : Json :=
  .arr (q.columns.map OutputColumn.toJson)

def CompiledQuery.toJson (q : CompiledQuery) : Json :=
  .obj [("traversal", q.traversal.toJson), ("columns", q.columnsJson)]

end GraphSelect
