import GraphSelect.Decimal.Format

/-!
# Select trees

What a parser of SQL hands over: a tree of names, literals and operator calls, hung off a `Select`.
The tree says how an operator was written (between its operands, before them, after them, as a
function) besides which operator it is; whether the two fit together is decided later, where the
operator is used.
-/

set_option autoImplicit false

namespace GraphSelect.Sql

/-- A name with its qualifiers before it: `p.name` is `["p", "name"]`. -/
structure Identifier where
  names : List String
deriving DecidableEq

namespace Identifier

/-- The last component: the column or table that is meant. -/
def simpleName (id : Identifier) : String :=
  id.names.getLast?.getD ""

/-- The component right before the last one. -/
def qualifier? (id : Identifier) : Option String :=
  id.names.reverse.drop 1 |>.head?

/-- Whether the identifier stands for all columns: `*` or `p.*`. -/
def isStar (id : Identifier) : Bool :=
  id.simpleName == "*"

/-- The identifier with dots between its components. -/
def display (id : Identifier) : String :=
  ".".intercalate id.names

end Identifier

inductive Literal where
  | null
  | boolean (b : Bool)
  | integer (i : Int64)
  | decimal (x : Float)
  | string (s : String)

/-- Decimal literals are written out in full: no exponent, and no fraction after a whole number. -/
def Literal.numberFormat : Decimal.NumberFormat where
  tie := .up
  leastPoint := none
  greatestPoint := none
  wholeMark := []
  exponentPlus := []

/-- A literal as SQL writes it. A quote inside a text is written twice. -/
def Literal.display : Literal → String
  | .null => "NULL"
  | .boolean b => if b then "TRUE" else "FALSE"
  | .integer i => String.ofList (Decimal.intDigits i.toInt)
  | .decimal x => Literal.numberFormat.text x
  | .string s =>
    "'" ++ String.ofList (s.toList.flatMap fun c => if c.toNat == 0x27 then [c, c] else [c]) ++ "'"

/-- Equality of literals; decimals are compared as numbers. -/
def Literal.same : Literal → Literal → Bool
  | .null, .null => true
  | .boolean a, .boolean b => a == b
  | .integer a, .integer b => a == b
  | .decimal a, .decimal b => a == b
  | .string a, .string b => a == b
  | _, _ => false

/-- How an operator is written relative to its operands. -/
inductive OperatorForm where
  | binary
  | prefixed
  | postfixed
  | function
  | special
deriving DecidableEq

def OperatorForm.name : OperatorForm → String
  | .binary => "Binary"
  | .prefixed => "Prefix"
  | .postfixed => "Postfix"
  | .function => "Function"
  | .special => "Special"

inductive OperatorKind where
  | as
  | and
  | or
  | not
  | equals
  | notEquals
  | lessThan
  | lessThanOrEqual
  | greaterThan
  | greaterThanOrEqual
  | descending
  | nullsFirst
  | nullsLast
  | count
  | sum
  | avg
  | min
  | max
  | plus
  | minus
  | times
  | divide
  | like
  | isNull
  | isNotNull
  -- An operator without a kind of its own.
  | other (name : String)
deriving DecidableEq

/-- An operator as SQL writes it. -/
def OperatorKind.display : OperatorKind → String
  | .as => "AS"
  | .and => "AND"
  | .or => "OR"
  | .not => "NOT"
  | .equals => "="
  | .notEquals => "<>"
  | .lessThan => "<"
  | .lessThanOrEqual => "<="
  | .greaterThan => ">"
  | .greaterThanOrEqual => ">="
  | .descending => "DESC"
  | .nullsFirst => "NULLS FIRST"
  | .nullsLast => "NULLS LAST"
  | .count => "COUNT"
  | .sum => "SUM"
  | .avg => "AVG"
  | .min => "MIN"
  | .max => "MAX"
  | .plus => "+"
  | .minus => "-"
  | .times => "*"
  | .divide => "/"
  | .like => "LIKE"
  | .isNull => "IS NULL"
  | .isNotNull => "IS NOT NULL"
  | .other name => name

structure Operator where
  kind : OperatorKind
  form : OperatorForm
deriving DecidableEq

inductive Node where
  | identifier (id : Identifier)
  | literal (l : Literal)
  | call (op : Operator) (operands : List Node)

namespace Node

mutual

/-- Equality of trees; decimal literals are compared as numbers. -/
def same : Node → Node → Bool
  | .identifier a, .identifier b => a == b
  | .literal a, .literal b => a.same b
  | .call p xs, .call q ys => p == q && sameAll xs ys
  | _, _ => false

def sameAll : List Node → List Node → Bool
  | [], [] => true
  | x :: xs, y :: ys => same x y && sameAll xs ys
  | _, _ => false

end

/-- A call as SQL writes it, given the texts of its operands. -/
def displayCall (op : Operator) (operands : List String) : String :=
  let kind := op.kind.display
  match op.form, operands with
  | .binary, [l, r] => l ++ " " ++ kind ++ " " ++ r
  | .special, [l, r] => l ++ " " ++ kind ++ " " ++ r
  | .prefixed, [x] => kind ++ " " ++ x
  | .postfixed, [x] => x ++ " " ++ kind
  | _, [] => kind ++ "(*)"
  | _, xs => kind ++ "(" ++ ", ".intercalate xs ++ ")"

mutual

def display : Node → String
  | .identifier id => id.display
  | .literal l => l.display
  | .call op operands => displayCall op (displayAll operands)

def displayAll : List Node → List String
  | [] => []
  | n :: rest => display n :: displayAll rest

end

end Node

/-- A select statement on one level. A clause that is left out differs from an empty one. -/
structure Select where
  selectList : List Node
  source : Option Node
  filter : Option Node
  groupBy : Option (List Node)
  having : Option Node
  orderBy : Option (List Node)

end GraphSelect.Sql
