import GraphSelect.Query.Filter
import GraphSelect.Query.Keys

/-!
# Compiling a select

A select of one table becomes a traversal whose stages always come in the same order:

* the elements with the table's label,
* WHERE, if it filters single elements,
* the grouping, down to one list of elements for each row,
* the ordering, HAVING, and WHERE if it filters groups,
* the projection.

An alias may be used before the clause that introduces it in this order, and whether a query
aggregates must be known when it is grouped. So the select list, HAVING and ORDER BY are emitted
twice: once for what they establish in the registry, and once for their steps.
-/

set_option autoImplicit false

namespace GraphSelect

open Sql

/-- The table that a select reads and the name that it gives it. -/
structure SourceTable where
  label : String
  name : String
deriving DecidableEq

/-- The source in a FROM clause, which has to be of the form `<table> AS <name>`. -/
def SourceTable.ofClause : Option Node → Except CompileError SourceTable
  | some (.call op [.identifier table, .identifier name]) =>
    if op.role? = some .naming && !table.isStar && !name.isStar then
      .ok ⟨table.simpleName, name.simpleName⟩
    else .error .malformedFrom
  | _ => .error .malformedFrom

structure CompiledQuery where
  traversal : Traversal
  columns : List OutputColumn
  -- What is known about the query in the end.
  registry : Registry

def CompiledQuery.columnNames (q : CompiledQuery) : List String :=
  q.columns.map OutputColumn.name

/-- Runs an emission only for what it establishes in the registry. -/
def discover (m : Emit Unit) (r : Registry) : Except CompileError Registry :=
  match m ⟨r, []⟩ with
  | (.ok (), d) => .ok d.registry
  | (.error e, _) => .error e

def emitHavingClause (table : TableId) (s : Select) : Emit Unit :=
  match s.having with
  | some having => emitHaving table .bucket having
  | none => Emit.pure ()

/-- The clauses in which aliases and aggregates are looked for first. -/
def emitDiscovery (table : TableId) (items : List ProjectionItem) (s : Select) : Emit Unit := do
  emitProjection table items
  emitHavingClause table s
  emitOrderBy table items (keysOf s.orderBy)

/-- Adds the WHERE filter, if there is one and it stands here. -/
def emitPlaced (table : TableId) (s : Select) (placement here : FilterPlacement) : Emit Unit :=
  match s.filter with
  | some filter =>
    if placement = here then
      emitWhere table (match here with
        | .beforeGrouping => .element
        | .afterHaving => .bucket) filter
    else Emit.pure ()
  | none => Emit.pure ()

/-- All stages after the source. -/
def emitStages (table : TableId) (items : List ProjectionItem) (s : Select)
    (placement : FilterPlacement) : Emit Unit := do
  emitPlaced table s placement .beforeGrouping
  emitGroupBy table (keysOf s.groupBy)
  Emit.append .selectValues
  emitOrderBy table items (keysOf s.orderBy)
  emitHavingClause table s
  emitPlaced table s placement .afterHaving
  emitProjection table items
  recordProjection table items

/-- The steps that find the elements of a table. -/
def sourceSteps (t : RegisteredTable) : List Step :=
  let elements := match t.kind with
    | .vertex => Step.vertices
    | .edge _ _ => Step.edges
  [elements, .hasLabel t.label]

def compile (schema : Schema) (placement : FilterPlacement) (s : Select) :
    Except CompileError CompiledQuery := do
  let source ← SourceTable.ofClause s.source
  if s.selectList.isEmpty then .error .missingSelectList
  else do
    let (registered, registry) := (Registry.empty schema).registerTable source.label source.name
    let table ← liftRegistry registered
    let items ← projectionItems registry table s.selectList
    let registry ← discover (emitDiscovery table items s) registry
    let registered ← liftRegistry (registry.table table)
    match emitStages table items s placement ⟨registry, sourceSteps registered⟩ with
    | (.error e, _) => .error e
    | (.ok (), draft) => do
      liftRegistry draft.registry.checkSingleTable
      let columns ← liftRegistry draft.registry.outputColumns
      return ⟨.root draft.steps, columns, draft.registry⟩

end GraphSelect
