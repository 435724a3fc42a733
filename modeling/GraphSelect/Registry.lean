import GraphSelect.Schema.Table
import GraphSelect.Sql.Node

/-!
# What is known about a query

While a query is compiled, a registry keeps what its clauses have established: which tables it reads
and under which names, what its aliases stand for, whether it aggregates, and the columns that it
returns. Some of this is kept twice: a table carries the id that its place gives it, names lead back
to labels through a map of their own, and the names of the returned columns are listed apart from
the columns.

An operation that writes to a registry leaves one in either case, beside its answer. That it leaves
the one it was given where it fails is not built in.
-/

set_option autoImplicit false

namespace GraphSelect

/-- The number of a table, given to it when it is registered. -/
abbrev TableId := Nat

/-- A table that a query reads: its number, its label in the schema, the name that the query calls
it by, and what it holds. -/
structure RegisteredTable where
  id : TableId
  label : String
  workingLabel : String
  kind : TableKind
deriving DecidableEq

structure OutputColumn where
  name : String
  type : ColumnType
deriving DecidableEq

/-- What a column name stands for. -/
inductive Resolution where
  | physical (column : TableColumn)
  -- An alias, with the expression that it is bound to.
  | named (expr : Sql.Node)

inductive RegistryError where
  | unknownTable (label : String)
  | unknownTableId (id : TableId)
  | unresolvedColumn (table column : String)
  | duplicateAlias (name : String)
  | multiTableReturn
  | emptyRename
deriving DecidableEq

def RegistryError.message : RegistryError → String
  | .unknownTable label => "Unknown table `" ++ label ++ "`"
  | .unknownTableId id => "No registered table with id " ++ String.ofList (Nat.toDigits 10 id)
  | .unresolvedColumn table column =>
    "Column `" ++ column ++ "` cannot be resolved in table `" ++ table ++ "`"
  | .duplicateAlias name => "Alias `" ++ name ++ "` is already bound to a different expression"
  | .multiTableReturn => "Output columns already recorded; only single-table queries are supported"
  | .emptyRename => "Query produces no output columns"

/-- Writes an entry of a map, over the one of the same name if there is one. -/
def setEntry (name value : String) : List (String × String) → List (String × String)
  | [] => [(name, value)]
  | entry :: rest =>
    if entry.1 == name then (name, value) :: rest else entry :: setEntry name value rest

/-- The order in which the entries of a map are gone through. It may be any, and need not be the
same for two maps. -/
structure MapOrder where
  arrange : List (String × String) → List (String × String)
  perm : ∀ entries, (arrange entries).Perm entries

/-- The entries as they are kept, those written first before the others. -/
def MapOrder.asKept : MapOrder :=
  ⟨id, List.Perm.refl⟩

/-- What is known about a query. -/
structure Registry where
  schema : Schema
  tables : List RegisteredTable
  -- The label behind each name that a table is registered under.
  renames : List (String × String)
  -- The columns that the query returns, once they are known, and the table they belong to.
  outputs : List (TableId × List OutputColumn)
  -- The names of these columns.
  renamedColumns : List String
  -- The aliases, each with the expression it is bound to.
  aliases : List (String × Sql.Node)
  -- Whether an aggregate has been met.
  hasAggregate : Bool

namespace Registry

def empty (schema : Schema) : Registry :=
  ⟨schema, [], [], [], [], [], false⟩

/-! ## Tables -/

/-- Registers `label AS name` and gives the table's id. An empty name stands for the label. The same
pair registered again has the same id. -/
def registerTable (r : Registry) (label name : String) : Except RegistryError TableId × Registry :=
  match r.schema.table? label with
  | none => (.error (.unknownTable label), r)
  | some table =>
    let working := if name.isEmpty then table.label else name
    match r.tables.find? fun t => t.label == table.label && t.workingLabel == working with
    | some registered => (.ok registered.id, r)
    | none =>
      let id := r.tables.length
      (.ok id, { r with
        renames := setEntry working table.label r.renames
        tables := r.tables ++ [⟨id, table.label, working, table.kind⟩] })

def table (r : Registry) (id : TableId) : Except RegistryError RegisteredTable :=
  match r.tables[id]? with
  | some t => .ok t
  | none => .error (.unknownTableId id)

/-- The table of the schema behind a registered table. -/
def schemaTable (r : Registry) (id : TableId) : Except RegistryError Table := do
  let registered ← r.table id
  match r.schema.table? registered.label with
  | some t => return t
  | none => .error (.unknownTable registered.label)

/-- The name that the query calls a registered table by. -/
def workingLabel (r : Registry) (id : TableId) : Except RegistryError String := do
  let registered ← r.table id
  return registered.workingLabel

/-- The label behind a name that the query uses: the name as it is spelled, or else one that is the
same up to the case of ASCII letters, whichever comes first. -/
def actualName? (r : Registry) (order : MapOrder) (working : String) : Option String :=
  (r.renames.lookup working).or
    (((order.arrange r.renames).find? fun entry =>
      Text.eqIgnoringCase entry.1 working).map Prod.snd)

/-! ## Columns and aliases -/

def binding? (r : Registry) (name : String) : Option Sql.Node :=
  r.aliases.lookup name

/-- What a name stands for in a table: one of its columns or, failing that, an alias. -/
def resolveColumn (r : Registry) (id : TableId) (name : String) :
    Except RegistryError Resolution := do
  let table ← r.schemaTable id
  match table.column? name with
  | some column => return .physical column
  | none =>
    match r.binding? name with
    | some expr => return .named expr
    | none =>
      let working ← r.workingLabel id
      .error (.unresolvedColumn working name)

/-- Binds an alias. Binding it again to an equal expression changes nothing. -/
def bindAlias (r : Registry) (name : String) (expr : Sql.Node) :
    Except RegistryError Unit × Registry :=
  match r.binding? name with
  | some bound => (if bound.same expr then .ok () else .error (.duplicateAlias name), r)
  | none => (.ok (), { r with aliases := (name, expr) :: r.aliases })

/-! ## Returned columns -/

/-- Records the columns that a table returns. This is allowed once. -/
def recordOutputs (r : Registry) (id : TableId) (columns : List OutputColumn) :
    Except RegistryError Unit × Registry :=
  match r.table id with
  | .error e => (.error e, r)
  | .ok _ =>
    if !r.outputs.isEmpty then (.error .multiTableReturn, r)
    else if columns.isEmpty then (.error .emptyRename, r)
    else (.ok (), { r with
      renamedColumns := columns.map OutputColumn.name
      outputs := r.outputs ++ [(id, columns)] })

def outputColumns (r : Registry) : Except RegistryError (List OutputColumn) :=
  match r.outputs with
  | [] => .error .emptyRename
  | [(_, columns)] => .ok columns
  | _ => .error .multiTableReturn

def markAggregate (r : Registry) : Registry :=
  { r with hasAggregate := true }

/-- What has to hold at the end: columns are returned, and they come from a single table. -/
def checkSingleTable (r : Registry) : Except RegistryError Unit := do
  if r.renamedColumns.isEmpty then .error .emptyRename
  else if r.tables.length ≠ 1 then .error .multiTableReturn
  else do
    let _ ← r.outputColumns
    return ()

end Registry

end GraphSelect
