import GraphSelect.Text.Blank
import GraphSelect.Text.Lowercase

/-!
# Column types

The few types that property values carry back to a consumer of rows. A person may write them in any
case and under their usual other names; data files use the plain names only.
-/

set_option autoImplicit false

namespace GraphSelect

/-- The type of a column. A point in time travels as text. -/
inductive ColumnType where
  | integer
  | float
  | string
  | boolean
  | datetime
deriving DecidableEq

namespace ColumnType

/-- All types, in the order in which they are listed to a person. -/
def all : List ColumnType :=
  [.integer, .float, .string, .boolean, .datetime]

def name : ColumnType → String
  | .integer => "integer"
  | .float => "float"
  | .string => "string"
  | .boolean => "boolean"
  | .datetime => "datetime"

def ofName? (name : String) : Option ColumnType :=
  all.find? fun t => t.name == name

/-- Every spelling of a type in lowercase. -/
def spellings : List (String × ColumnType) :=
  [("integer", .integer), ("int", .integer), ("long", .integer),
   ("float", .float), ("double", .float), ("decimal", .float),
   ("string", .string), ("text", .string),
   ("boolean", .boolean), ("bool", .boolean),
   ("datetime", .datetime), ("timestamp", .datetime)]

/-- The type that a text names, in any case and with white space around it. -/
def ofText? (text : String) : Option ColumnType :=
  spellings.lookup (Text.trim (Text.lower text))

def unknownMessage (text : String) : String :=
  "Unknown type: '" ++ text ++ "'. Supported: " ++ ", ".intercalate (all.map name)

end ColumnType

end GraphSelect
