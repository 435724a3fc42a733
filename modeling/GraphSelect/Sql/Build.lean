import GraphSelect.Sql.Node

/-!
# Building select trees

Short names for the nodes that occur in most queries, and the clauses of a select one after the
other.
-/

set_option autoImplicit false

namespace GraphSelect.Sql

namespace Node

/-- The components of a dotted name. -/
def splitDots : List Char → List (List Char)
  | [] => [[]]
  | c :: rest =>
    match splitDots rest with
    | part :: parts => if c == '.' then [] :: part :: parts else (c :: part) :: parts
    | [] => [[c]]

/-- A name; dots separate its components. -/
def ident (path : String) : Node :=
  .identifier ⟨(splitDots path.toList).map String.ofList⟩

def star : Node :=
  ident "*"

def int (i : Int64) : Node :=
  .literal (.integer i)

def decimal (x : Float) : Node :=
  .literal (.decimal x)

def string (s : String) : Node :=
  .literal (.string s)

def boolean (b : Bool) : Node :=
  .literal (.boolean b)

def null : Node :=
  .literal .null

/-- A call of an operator written in the given form. -/
def apply (kind : OperatorKind) (form : OperatorForm) (operands : List Node) : Node :=
  .call ⟨kind, form⟩ operands

/-- `expr AS name`. -/
def as (expr : Node) (name : String) : Node :=
  apply .as .special [expr, ident name]

/-- An operator between two operands. -/
def infixed (kind : OperatorKind) (l r : Node) : Node :=
  apply kind .binary [l, r]

/-- `NOT expr`. -/
def not (expr : Node) : Node :=
  apply .not .prefixed [expr]

/-- `expr DESC`. -/
def desc (expr : Node) : Node :=
  apply .descending .postfixed [expr]

def aggregate (kind : OperatorKind) (operand : Node) : Node :=
  apply kind .function [operand]

def countStar : Node :=
  apply .count .function []

end Node

namespace Select

/-- A select of these items, without any clause. -/
def of (items : List Node) : Select :=
  ⟨items, none, none, none, none, none⟩

/-- `FROM table AS name`. -/
def fromAliased (s : Select) (table name : String) : Select :=
  { s with source := some ((Node.ident table).as name) }

/-- `FROM table`, which stands for `table AS table`. -/
def fromTable (s : Select) (table : String) : Select :=
  s.fromAliased table table

end Select

end GraphSelect.Sql
