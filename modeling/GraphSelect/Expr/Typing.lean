import GraphSelect.Expr.View

/-!
# The type of an expression, and the column behind a name

Both follow names through aliases, and an alias may be bound to anything, itself included. So both
are bounded: a type is looked for through at most sixteen names and wrappers, a column through at
most seventeen names.
-/

set_option autoImplicit false

namespace GraphSelect

open Sql

/-- How many aliases may be expanded one inside the other. -/
def maxAliasDepth : Nat := 16

/-- A result of the registry as a result of the compiler. -/
def liftRegistry {α : Type} : Except RegistryError α → Except CompileError α
  | .ok a => .ok a
  | .error e => .error (.registry e)

/-- Refuses a name whose qualifier is neither the name nor the label of the table. -/
def checkQualifier (r : Registry) (table : TableId) (id : Identifier) : Except CompileError Unit :=
  match id.qualifier? with
  | none => .ok ()
  | some qualifier => do
    let registered ← liftRegistry (r.table table)
    if Text.eqIgnoringCase qualifier registered.workingLabel ||
        Text.eqIgnoringCase qualifier registered.label then
      return ()
    else
      .error (.registry (.unresolvedColumn qualifier id.simpleName))

/-- What a name stands for, its qualifier checked. -/
def resolveIdentifier (r : Registry) (table : TableId) (id : Identifier) :
    Except CompileError Resolution := do
  checkQualifier r table id
  liftRegistry (r.resolveColumn table id.simpleName)

/-! ## Types -/

def Sql.Literal.type : Literal → ColumnType
  | .boolean _ => .boolean
  | .integer _ => .integer
  | .decimal _ => .float
  | .string _ => .string
  | .null => .string

/-- The type of a name, given the types of the expressions that aliases are bound to. -/
def identifierType (r : Registry) (table : TableId) (typeOf : Node → Except CompileError ColumnType)
    (id : Identifier) : Except CompileError ColumnType := do
  match ← resolveIdentifier r table id with
  | .physical column => return column.type
  | .named expr => typeOf expr

/-- The type of an expression, looked for through at most `depth` names and wrappers. -/
def typeWithin (r : Registry) (table : TableId) : Nat → Node → Except CompileError ColumnType
  | 0, n => do
    let _ ← n.view
    .error (.shape .deepAliasChain)
  | depth + 1, n => do
    match ← n.view with
    | .identifier id => identifierType r table (typeWithin r table depth) id
    | .literal l => return l.type
    | .naming inner _ => typeWithin r table depth inner
    | .mark _ operand => typeWithin r table depth operand
    | .binary _ _ _ => .error (.shape (.conditionAsValue n))
    | .negation _ => .error (.shape (.conditionAsValue n))
    | .aggregate .count _ => return .integer
    | .aggregate .avg _ => return .float
    | .aggregate _ (some operand) => typeWithin r table depth operand
    | .aggregate _ none => return .integer

def columnType (r : Registry) (table : TableId) (n : Node) : Except CompileError ColumnType :=
  typeWithin r table (maxAliasDepth + 1) n

/-! ## Columns -/

/-- Where the value of a name is found, followed through at most `hops` names. Nothing if the name
stands for an expression that is not a name. -/
def sourceWithin (r : Registry) (table : TableId) :
    Nat → Identifier → Except CompileError (Option ColumnSource)
  | 0, _ => .ok none
  | hops + 1, id => do
    match ← resolveIdentifier r table id with
    | .physical column => return some column.source
    | .named expr =>
      match ← expr.unaliased with
      | .identifier next => sourceWithin r table hops next
      | _ => return none

/-- Where the value of a name is found, through any aliases. -/
def physicalSource (r : Registry) (table : TableId) (id : Identifier) :
    Except CompileError (Option ColumnSource) :=
  sourceWithin r table (maxAliasDepth + 1) id

/-- Whether a name leads to the id of an endpoint of an edge. -/
def isEndpointName (r : Registry) (table : TableId) (id : Identifier) :
    Except CompileError Bool := do
  let source ← physicalSource r table id
  return source.any ColumnSource.isEndpoint

end GraphSelect
