import GraphSelect.Expr.Problem
import GraphSelect.Traversal.Basic

/-!
# What a node means

A select tree says which operator was written and how. A `Role` is what the pair of both means to
the compiler, and a `View` is a node with its role and the operands that the role takes. Pairs
without a role and calls with a wrong number of operands are refused here, one node at a time: the
operands of a viewed node are still unread.
-/

set_option autoImplicit false

namespace GraphSelect

open Sql

inductive Aggregate where
  | count
  | sum
  | avg
  | min
  | max
deriving DecidableEq

def Aggregate.step : Aggregate → Step
  | .count => .count
  | .sum => .sum
  | .avg => .mean
  | .min => .min
  | .max => .max

/-- An operator between two conditions or values. -/
inductive BinaryRole where
  | compare (c : Compare)
  | and
  | or
deriving DecidableEq

/-- A mark after a sort key. -/
inductive SortMark where
  | desc
  | nullsFirst
  | nullsLast
deriving DecidableEq

/-- What an operator means to the compiler. -/
inductive Role where
  -- Gives a name to an expression.
  | naming
  | binary (op : BinaryRole)
  | negation
  | mark (m : SortMark)
  | aggregate (f : Aggregate)
deriving DecidableEq

/-- The role of an operator. Naming does not depend on how it is written; every other operator has
one form. -/
def Sql.Operator.role? (op : Operator) : Option Role :=
  match op.kind, op.form with
  | .as, _ => some .naming
  | .and, .binary => some (.binary .and)
  | .or, .binary => some (.binary .or)
  | .equals, .binary => some (.binary (.compare .eq))
  | .notEquals, .binary => some (.binary (.compare .neq))
  | .lessThan, .binary => some (.binary (.compare .lt))
  | .lessThanOrEqual, .binary => some (.binary (.compare .lte))
  | .greaterThan, .binary => some (.binary (.compare .gt))
  | .greaterThanOrEqual, .binary => some (.binary (.compare .gte))
  | .not, .prefixed => some .negation
  | .descending, .postfixed => some (.mark .desc)
  | .nullsFirst, .postfixed => some (.mark .nullsFirst)
  | .nullsLast, .postfixed => some (.mark .nullsLast)
  | .count, .function => some (.aggregate .count)
  | .sum, .function => some (.aggregate .sum)
  | .avg, .function => some (.aggregate .avg)
  | .min, .function => some (.aggregate .min)
  | .max, .function => some (.aggregate .max)
  | _, _ => none

/-- How many operands a role takes: at least, and at most. -/
def Role.arity : Role → Nat × Nat
  | .naming => (2, 2)
  | .binary _ => (2, 2)
  | .negation => (1, 1)
  | .mark _ => (1, 1)
  | .aggregate .count => (0, 1)
  | .aggregate _ => (1, 1)

/-- The problem with a call that has no view: its operator is unknown, or it has too few or too many
operands, or it is a naming whose target is not a simple name. -/
def callProblem (op : Operator) (operands : List Node) : ShapeProblem :=
  match op.role? with
  | none => .unknownOperator op
  | some role =>
    if operands.length < role.arity.1 || role.arity.2 < operands.length then
      .operandCount op.kind operands.length
    else .aliasTarget (.call op operands)

/-- A node with its role and the operands that the role takes. -/
inductive View where
  | identifier (id : Identifier)
  | literal (l : Literal)
  | naming (inner : Node) (name : String)
  | binary (op : BinaryRole) (left right : Node)
  | negation (operand : Node)
  | mark (m : SortMark) (operand : Node)
  | aggregate (f : Aggregate) (operand : Option Node)

def Sql.Node.view : Node → Except CompileError View
  | .identifier id =>
    if id.names.isEmpty then .error (.shape .emptyIdentifier) else .ok (.identifier id)
  | .literal l => .ok (.literal l)
  | .call op operands =>
    match op.role?, operands with
    | some .naming, [inner, .identifier ⟨[name]⟩] => .ok (.naming inner name)
    | some (.binary b), [left, right] => .ok (.binary b left right)
    | some .negation, [operand] => .ok (.negation operand)
    | some (.mark m), [operand] => .ok (.mark m operand)
    | some (.aggregate .count), [] => .ok (.aggregate .count none)
    | some (.aggregate f), [operand] => .ok (.aggregate f (some operand))
    | _, _ => .error (.shape (callProblem op operands))

/-- The name given to a viewed node. -/
def View.givenName? : View → Option String
  | .naming _ name => some name
  | _ => none

/-- Whether a viewed node can only filter: a comparison, a logical operator or a negation. -/
def View.isPredicate : View → Bool
  | .binary _ _ _ => true
  | .negation _ => true
  | _ => false

namespace Sql.Node

/-- A node without the name given to it, which must have a view of its own. -/
def unaliased (n : Node) : Except CompileError Node := do
  match ← n.view with
  | .naming inner _ => do
    let _ ← inner.view
    return inner
  | _ => return n

/-- Whether a node that has a view is an aggregate under names and sort marks. -/
def isAggregate : Node → Bool
  | .call op operands =>
    match op.role?, operands with
    | some (.aggregate .count), [] => true
    | some (.aggregate _), [_] => true
    | some .naming, [inner, .identifier ⟨[_]⟩] => isAggregate inner
    | some (.mark _), [operand] => isAggregate operand
    | _, _ => false
  | _ => false

end Sql.Node

end GraphSelect
