import GraphSelect.Decimal.Format
import GraphSelect.Json.Basic
import GraphSelect.Sql.Node

/-!
# Scalars

The values that a traversal carries: constants inside its steps, property values and ids of
elements, and the cells of a result row. A null among them is a value, not the absence of one.
-/

set_option autoImplicit false

namespace GraphSelect

inductive Scalar where
  | null
  | boolean (b : Bool)
  | long (i : Int64)
  | double (x : Float)
  | string (s : String)
deriving DecidableEq

namespace Scalar

def ofLiteral : Sql.Literal → Scalar
  | .null => .null
  | .boolean b => .boolean b
  | .integer i => .long i
  | .decimal x => .double x
  | .string s => .string s

def isNull : Scalar → Bool
  | .null => true
  | _ => false

/-- The value as JSON, with a number for every double. -/
def toJson : Scalar → Json
  | .null => .null
  | .boolean b => .bool b
  | .long i => .int i.toInt
  | .double x => .float x
  | .string s => .str s

/-- The value as it is serialized, where a double that is not finite becomes a null. -/
def serialized : Scalar → Json
  | .double x => .ofDouble x
  | v => v.toJson

/-- The value as it is shown to a person: texts without quotes, numbers written out in full. -/
def display : Scalar → String
  | .null => "NULL"
  | .boolean b => if b then "true" else "false"
  | .long i => String.ofList (Decimal.intDigits i.toInt)
  | .double x => Sql.Literal.numberFormat.text x
  | .string s => s

end Scalar

end GraphSelect
