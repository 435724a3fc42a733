import GraphSelect.Json.Printer
import GraphSelect.Query.Projection
import GraphSelect.Text.Cut

/-!
# Rows

A traversal delivers one JSON object for each row, keyed by the names of the projection. Decoding
checks it against the columns that the query returns and gives the cells in their order. The marker
that the projection puts in for a missing value becomes a null, like a JSON null.
-/

set_option autoImplicit false

namespace GraphSelect

structure Row where
  columns : List String
  values : List Scalar
deriving DecidableEq

namespace Row

/-- The cell of a column, of the first one with this name. -/
def get? (r : Row) (column : String) : Option Scalar :=
  match r.columns.findIdx? fun c => c == column with
  | some i => r.values[i]?
  | none => none

/-- The row as an object keyed by column, in column order. -/
def toJson (r : Row) : Json :=
  .obj (r.columns.zip (r.values.map Scalar.serialized))

end Row

inductive Fault where
  -- The server refuses or gives up the traversal.
  | traversal (reason : String)
  | decodeMismatch (expected found : Nat)
  | missingColumn (column : String)
  | typeMismatch (column : String) (expected : ColumnType) (found : String)
  | notARow (found : String)
  -- The worker is gone and has not said why.
  | workerLost
deriving DecidableEq

def Fault.message : Fault → String
  | .traversal reason => "Traversal failed: " ++ reason
  | .decodeMismatch expected found =>
    "Result has " ++ String.ofList (Nat.toDigits 10 found) ++ " fields, expected " ++
      String.ofList (Nat.toDigits 10 expected)
  | .missingColumn column => "Result is missing column `" ++ column ++ "`"
  | .typeMismatch column expected found =>
    "Column `" ++ column ++ "` expected " ++ expected.name ++ ", got " ++ found
  | .notARow found => "Result is not a row object: " ++ found
  | .workerLost => "Query worker exited without reporting an outcome"

/-- How many bytes of a value a fault quotes at most. -/
def quotationLimit : Nat := 80

def quotation (v : Json) : String :=
  Text.cut quotationLimit v.compact

/-- What a decoder knows about the rows of a query: the names and the types of their columns. -/
structure RowDecoder where
  columns : List String
  types : List ColumnType
deriving DecidableEq

namespace RowDecoder

/-- The cell that a value of a type stands for. -/
def typedValue? : ColumnType → Json → Option Scalar
  | .integer, v => v.int64?.map .long
  | .float, v => v.double?.map .double
  | .boolean, v => v.bool?.map .boolean
  | .string, v => v.str?.map .string
  | .datetime, v => v.str?.map .string

/-- Whether a value stands for a null. -/
def isNullValue : Json → Bool
  | .null => true
  | .str s => s == nullMarker
  | _ => false

def decodeValue (column : String) (type : ColumnType) (v : Json) : Except Fault Scalar :=
  if isNullValue v then .ok .null
  else match typedValue? type v with
    | some cell => .ok cell
    | none => .error (.typeMismatch column type (quotation v))

def decodeColumns (fields : List (String × Json)) :
    List (String × ColumnType) → Except Fault (List Scalar)
  | [] => .ok []
  | (column, type) :: rest => do
    let v ← match Json.field? column fields with
      | some v => .ok v
      | none => .error (.missingColumn column)
    let cell ← decodeValue column type v
    let cells ← decodeColumns fields rest
    return cell :: cells

/-- The row that a raw result stands for. It has as many fields as there are columns. -/
def decode (d : RowDecoder) : Json → Except Fault Row
  | .obj fields =>
    if fields.length ≠ d.columns.length then
      .error (.decodeMismatch d.columns.length fields.length)
    else do
      let values ← decodeColumns fields (d.columns.zip d.types)
      return ⟨d.columns, values⟩
  | raw => .error (.notARow (quotation raw))

end RowDecoder

end GraphSelect
