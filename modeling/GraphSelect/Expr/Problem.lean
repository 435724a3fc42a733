import GraphSelect.Registry

/-!
# Why a query does not compile

Every refusal has a cause of its own, which carries what its message quotes. The causes fall into
those about the shape of an expression, those about a filter, and a few about the clauses of the
query as a whole; errors of the registry are passed on as they are.
-/

set_option autoImplicit false

namespace GraphSelect

open Sql

/-- What is wrong with the shape of an expression or of a key. -/
inductive ShapeProblem where
  -- No such operator is known in this form.
  | unknownOperator (op : Operator)
  | operandCount (kind : OperatorKind) (count : Nat)
  -- The name given by `AS` is not a simple name.
  | aliasTarget (call : Node)
  | emptyIdentifier
  -- A condition stands where a value is needed.
  | conditionAsValue (call : Node)
  | nullOrdering (call : Node)
  | ungroupedAggregate (call : Node)
  | starOutsideList (id : Identifier)
  -- An alias is met again inside its own meaning, or the chain of aliases is too long.
  | cyclicAlias (name : String)
  | deepAliasChain
  | havingValue (node : Node)
  | groupKey (key : Node)
  | groupEndpoint (id : Identifier)
  | orderNulls (key : Node)
  | orderEndpoint (id : Identifier)

def backquoted (s : String) : String :=
  "`" ++ s ++ "`"

def ShapeProblem.message : ShapeProblem → String
  | .unknownOperator op => "operator " ++ op.kind.display ++ " with " ++ op.form.name ++ " syntax"
  | .operandCount kind count =>
    kind.display ++ " with " ++ String.ofList (Nat.toDigits 10 count) ++ " operands"
  | .aliasTarget call => "alias target in " ++ backquoted call.display ++ " is not a simple name"
  | .emptyIdentifier => "empty identifier"
  | .conditionAsValue call =>
    backquoted call.display ++ " used as a value; conditions can only filter"
  | .nullOrdering call => "null ordering in " ++ backquoted call.display
  | .ungroupedAggregate call =>
    "aggregate " ++ backquoted call.display ++ " outside a grouped context"
  | .starOutsideList id => backquoted id.display ++ " outside the select list"
  | .cyclicAlias name => "alias " ++ backquoted name ++ " refers to itself"
  | .deepAliasChain => "alias chain too deep"
  | .havingValue node => "HAVING " ++ backquoted node.display ++ " is not a predicate call"
  | .groupKey key => "GROUP BY " ++ backquoted key.display ++ "; only columns can be grouped by"
  | .groupEndpoint id => "cannot group by edge endpoint " ++ backquoted id.display
  | .orderNulls key => "ORDER BY " ++ backquoted key.display
  | .orderEndpoint id => "cannot order by edge endpoint " ++ backquoted id.display

/-- What is wrong with a filter. -/
inductive FilterProblem where
  -- A literal is the whole filter.
  | constant (l : Literal)
  -- A literal is a part of the filter.
  | literalCondition (l : Literal)
  | notACondition (call : Node)
  | notAPredicate (call : Node)
  | twoLiterals (left right : Node)
  | noLiteral (left right : Node)
  -- Something that is not a name is negated, inside a filter.
  | negatedExpression (operand : Node)
  -- Something that is not a name is negated, and the negation is the whole filter.
  | negationOperand
  | unknownPrefix (kind : OperatorKind)
  | namesCondition (id : Identifier) (expr : Node)
  | notBoolean (id : Identifier) (type : ColumnType)
  | shape (problem : ShapeProblem)

def FilterProblem.message : FilterProblem → String
  | .constant l => "constant condition " ++ l.display
  | .literalCondition l => "literal " ++ l.display ++ " used as a condition"
  | .notACondition call => backquoted call.display ++ " is not a condition"
  | .notAPredicate call => backquoted call.display ++ " is not a predicate"
  | .twoLiterals left right =>
    "comparison of two literals " ++ backquoted (left.display ++ " " ++ right.display)
  | .noLiteral left right =>
    "comparison between " ++ backquoted left.display ++ " and " ++ backquoted right.display ++
      " needs a literal operand"
  | .negatedExpression operand =>
    "NOT applied to " ++ backquoted operand.display ++ "; only boolean columns can be negated"
  | .negationOperand => "NOT can only be applied to a single boolean value"
  | .unknownPrefix kind => "the only supported prefix operator is NOT, found " ++ kind.display
  | .namesCondition id expr =>
    backquoted id.display ++ " names the condition " ++ backquoted expr.display ++
      ", not a boolean column"
  | .notBoolean id type => backquoted id.display ++ " is " ++ type.name ++ ", not boolean"
  | .shape problem => problem.message

inductive CompileError where
  | malformedFrom
  | missingSelectList
  | filter (problem : FilterProblem)
  | shape (problem : ShapeProblem)
  -- A sort key counts a select item that does not exist.
  | ordinal (position : Int64) (items : Nat)
  | duplicateColumn (name : String)
  | registry (error : RegistryError)

def CompileError.message : CompileError → String
  | .malformedFrom => "FROM must name exactly one table as `<table> AS <alias>`"
  | .missingSelectList => "No select items."
  | .filter problem => "Unsupported WHERE clause: " ++ problem.message
  | .shape problem => "Unsupported expression: " ++ problem.message
  | .ordinal position items =>
    "ORDER BY ordinal " ++ String.ofList (Decimal.intDigits position.toInt) ++
      " is out of range for " ++ String.ofList (Nat.toDigits 10 items) ++ " select items"
  | .duplicateColumn name => "Duplicate output column " ++ backquoted name
  | .registry error => error.message

end GraphSelect
