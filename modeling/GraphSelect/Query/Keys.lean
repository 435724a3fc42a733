import GraphSelect.Query.Projection

/-!
# GROUP BY and ORDER BY

Grouping collects the elements of the table into buckets. With keys, the bucket of an element is the
list of its values for them. Without keys a query that is known to aggregate has a single bucket,
and any other query has a bucket for each element.

A sort key may count an item of the select list. Neither groups nor sorting may rest on the id of an
edge's endpoint.
-/

set_option autoImplicit false

namespace GraphSelect

open Sql

/-- The keys of a clause. An empty list of keys is like no clause. -/
def keysOf (clause : Option (List Node)) : List Node :=
  clause.getD []

/-! ## Grouping -/

def emitGroupKey (table : TableId) (key : Node) : Emit Traversal := do
  match ← Emit.lift key.view with
  | .identifier id => do
    if ← Emit.ask fun r => isEndpointName r table id then
      Emit.fail (.shape (.groupEndpoint id))
    else
      Emit.branch (emitValue table .element (.identifier id))
  | _ => Emit.fail (.shape (.groupKey key))

def emitGroupKeys (table : TableId) : List Node → Emit (List Traversal)
  | [] => Emit.pure []
  | key :: rest => do
    let branch ← emitGroupKey table key
    let branches ← emitGroupKeys table rest
    return branch :: branches

/-- Adds the grouping, up to its buckets with their keys. -/
def emitGroupBy (table : TableId) (keys : List Node) : Emit Unit := do
  Emit.append .group
  if keys.isEmpty then do
    let r ← Emit.registry
    if r.hasAggregate then Emit.append (.by (.anonymous [.constant (.boolean true)]) none)
  else do
    let branches ← emitGroupKeys table keys
    Emit.append (.by (.anonymous [.union branches, .fold]) none)
  Emit.append .unfold

/-! ## Ordering -/

/-- A sort key without its mark, and its direction. -/
def splitDirection (key : Node) : Except CompileError (Node × Direction) := do
  match ← key.view with
  | .mark .desc operand => return (operand, .desc)
  | .mark _ _ => .error (.shape (.orderNulls key))
  | _ => return (key, .asc)

/-- The expression of the item at a position, counted from one. -/
def itemAt (items : List ProjectionItem) (position : Int64) : Except CompileError Node :=
  if position.toInt < 1 then .error (.ordinal position items.length)
  else match items[position.toInt.toNat - 1]? with
    | some item => .ok item.expr
    | none => .error (.ordinal position items.length)

/-- What a sort key sorts by, and in which direction. -/
def sortKey (items : List ProjectionItem) (key : Node) :
    Except CompileError (Node × Direction) := do
  let (expr, direction) ← splitDirection key
  let expr ← match expr with
    | .literal (.integer position) => itemAt items position
    | other => .ok other
  let expr ← expr.unaliased
  return (expr, direction)

/-- Refuses an expression that is the name of an endpoint's id. -/
def checkSortable (r : Registry) (table : TableId) : Node → Except CompileError Unit
  | .identifier id => do
    if ← isEndpointName r table id then .error (.shape (.orderEndpoint id)) else return ()
  | _ => .ok ()

/-- Adds one modifier for each sort key. -/
def emitSortKeys (table : TableId) (items : List ProjectionItem) : List Node → Emit Unit
  | [] => Emit.pure ()
  | key :: rest => do
    let (expr, direction) ← Emit.lift (sortKey items key)
    Emit.ask fun r => checkSortable r table expr
    let value ← Emit.branch (emitValue table .bucket expr)
    Emit.append (.by value (some direction))
    emitSortKeys table items rest

/-- Adds the ordering. Without keys, buckets are sorted by the ids of their elements. -/
def emitOrderBy (table : TableId) (items : List ProjectionItem) (keys : List Node) : Emit Unit := do
  Emit.append .order
  if keys.isEmpty then Emit.append (.by (.anonymous [.unfold, .id]) none)
  else emitSortKeys table items keys

end GraphSelect
