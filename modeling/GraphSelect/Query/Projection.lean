import GraphSelect.Expr.Emit
import GraphSelect.Sql.Build

/-!
# The select list

A select list is a list of named items: `*` stands for all columns of the table, a column has its
own name, an expression the name given to it or else one made from its position. The items become a
projection, in which a column that an element does not carry is filled with a marker, since a
traversal has no null.
-/

set_option autoImplicit false

namespace GraphSelect

open Sql

/-- What stands for a null in a raw result. -/
def nullMarker : String := "$%#NULL#%$"

structure ProjectionItem where
  name : String
  expr : Node

/-- The name of an expression that was given none, by its position. -/
def positionName (position : Nat) : String :=
  "EXPR$" ++ String.ofList (Nat.toDigits 10 position)

/-- The items that one entry of the select list stands for. -/
def entryItems (r : Registry) (table : TableId) (position : Nat) :
    Node → Except CompileError (List ProjectionItem)
  | .identifier id =>
    if id.isStar then do
      let t ← liftRegistry (r.schemaTable table)
      return t.allColumns.map fun c => ⟨c.name, Node.ident c.name⟩
    else .ok [⟨id.simpleName, .identifier id⟩]
  | n => do
    let view ← n.view
    return [⟨view.givenName?.getD (positionName position), n⟩]

/-- The items of the entries from a position on. -/
def itemsFrom (r : Registry) (table : TableId) :
    Nat → List Node → Except CompileError (List ProjectionItem)
  | _, [] => .ok []
  | position, n :: rest => do
    let items ← entryItems r table position n
    let more ← itemsFrom r table (position + 1) rest
    return items ++ more

/-- Refuses two items with one name, those before given as `seen`. -/
def checkNames (seen : List String) : List ProjectionItem → Except CompileError Unit
  | [] => .ok ()
  | item :: rest =>
    if seen.contains item.name then .error (.duplicateColumn item.name)
    else checkNames (item.name :: seen) rest

def projectionItems (r : Registry) (table : TableId) (selectList : List Node) :
    Except CompileError (List ProjectionItem) := do
  let items ← itemsFrom r table 0 selectList
  checkNames [] items
  return items

/-- The value of a column, or the marker where there is none. -/
def orMarker (value : Traversal) : Traversal :=
  .anonymous [.coalesce [value, .anonymous [.constant (.string nullMarker)]]]

/-- Adds one modifier for each item. -/
def emitItems (table : TableId) : List ProjectionItem → Emit Unit
  | [] => Emit.pure ()
  | item :: rest => do
    let value ← Emit.branch (emitValue table .bucket item.expr)
    Emit.append (.by (orMarker value) none)
    emitItems table rest

def emitProjection (table : TableId) (items : List ProjectionItem) : Emit Unit := do
  Emit.append (.project (items.map ProjectionItem.name))
  emitItems table items

/-- The columns that the items return. -/
def outputsOf (r : Registry) (table : TableId) :
    List ProjectionItem → Except CompileError (List OutputColumn)
  | [] => .ok []
  | item :: rest => do
    let type ← columnType r table item.expr
    let more ← outputsOf r table rest
    return ⟨item.name, type⟩ :: more

def recordProjection (table : TableId) (items : List ProjectionItem) : Emit Unit := do
  let columns ← Emit.ask fun r => outputsOf r table items
  Emit.onRegistry fun r => r.recordOutputs table columns

end GraphSelect
