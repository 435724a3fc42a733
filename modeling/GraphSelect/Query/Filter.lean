import GraphSelect.Expr.Emit
import GraphSelect.Text.Blank

/-!
# WHERE and HAVING

Both clauses become one filter step. HAVING always looks at whole groups. WHERE looks at single
elements before they are grouped or, where the settings say so, at groups after HAVING; a comparison
is then true of a group if it is true of any of its elements.
-/

set_option autoImplicit false

namespace GraphSelect

open Sql

/-- Where the WHERE filter stands in the pipeline. -/
inductive FilterPlacement where
  -- Right after the source: single elements are filtered.
  | beforeGrouping
  -- After HAVING: groups are filtered.
  | afterHaving
deriving DecidableEq

namespace FilterPlacement

def name : FilterPlacement → String
  | .beforeGrouping => "before_grouping"
  | .afterHaving => "after_having"

def ofName? (name : String) : Option FilterPlacement :=
  [beforeGrouping, afterHaving].find? fun p => p.name == name

/-- The placement that a text names, in any case, with white space around it and with hyphens for
underscores. -/
def ofText? (text : String) : Option FilterPlacement :=
  let words := (Text.lower (Text.trim text)).toList.map fun c => if c == '-' then '_' else c
  ofName? (String.ofList words)

def invalidMessage (text : String) : String :=
  "Invalid WHERE placement `" ++ text ++ "`: expected before_grouping or after_having"

end FilterPlacement

/-- The shapes that a WHERE clause may have. -/
inductive FilterKind where
  -- A boolean column.
  | column
  -- A negated boolean column.
  | negatedColumn
  -- A comparison or a combination of conditions.
  | predicate
deriving DecidableEq

/-- The shape of a WHERE clause. A clause of any other shape is refused as a filter, whatever is
wrong with it. -/
def filterKind : Node → Except CompileError FilterKind
  | .identifier _ => .ok .column
  | .literal l => .error (.filter (.constant l))
  | .call op operands =>
    if op.form = .prefixed then
      if op.kind = .not then
        match operands with
        | [.identifier _] => .ok .negatedColumn
        | _ => .error (.filter .negationOperand)
      else .error (.filter (.unknownPrefix op.kind))
    else
      match (Node.call op operands).view with
      | .ok (.binary _ _ _) => .ok .predicate
      | .ok _ => .error (.filter (.notAPredicate (.call op operands)))
      | .error (.shape problem) => .error (.filter (.shape problem))
      | .error e => .error e

def emitFilterStep (table : TableId) (scope : Scope) (n : Node) : Emit Unit := do
  let condition ← Emit.branch (emitFilter table scope n)
  Emit.append (.filter condition)

def emitWhere (table : TableId) (scope : Scope) (n : Node) : Emit Unit := do
  let _ ← Emit.lift (filterKind n)
  emitFilterStep table scope n

/-- Adds the filter of a HAVING clause, which must be a call. -/
def emitHaving (table : TableId) (scope : Scope) (n : Node) : Emit Unit :=
  match n with
  | .call _ _ => emitFilterStep table scope n
  | _ => Emit.fail (.shape (.havingValue n))

end GraphSelect
