/-!
# JSON values

Select trees, schemas, raw results and settings all arrive as JSON. The value type keeps what the
program's answers depend on: whether a number was written as an integer, and the order of the fields
of an object. A reader of text keeps repeated fields too, because some records refuse them;
`Json.merged` is the view in which a later field replaces an earlier one of the same name.
-/

set_option autoImplicit false

namespace GraphSelect

/-- A JSON value. An `int` lies between `-2^63` and `2^64 - 1`; every other number is a `float`. -/
inductive Json where
  | null
  | bool (b : Bool)
  | int (i : Int)
  | float (x : Float)
  | str (s : String)
  | arr (items : List Json)
  | obj (fields : List (String × Json))

namespace Json

def isNull : Json → Bool
  | .null => true
  | _ => false

def str? : Json → Option String
  | .str s => some s
  | _ => none

def bool? : Json → Option Bool
  | .bool b => some b
  | _ => none

def arr? : Json → Option (List Json)
  | .arr items => some items
  | _ => none

def obj? : Json → Option (List (String × Json))
  | .obj fields => some fields
  | _ => none

/-- The number, if it is an integer that a signed word of 64 bits holds. -/
def int64? : Json → Option Int64
  | .int i =>
    if Int64.minValue.toInt ≤ i ∧ i ≤ Int64.maxValue.toInt then some (Int64.ofInt i) else none
  | _ => none

/-- The number, if it is an integer that an unsigned word of 64 bits holds. -/
def size? : Json → Option Nat
  | .int i => if 0 ≤ i then some i.toNat else none
  | _ => none

/-- The number as a double, rounded if it is an integer that no double equals. -/
def double? : Json → Option Float
  | .int i => some (Float.ofInt i)
  | .float x => some x
  | _ => none

/-- A double as JSON. There is no number for one that is not finite; it is written as null. -/
def ofDouble (x : Float) : Json :=
  if x.isFinite then .float x else .null

/-- The value of a field, of the first one if it is repeated. -/
def field? (name : String) (fields : List (String × Json)) : Option Json :=
  fields.lookup name

/-- The fields with one more: a field of the same name takes the new value and keeps its place. -/
def insertField (name : String) (value : Json) : List (String × Json) → List (String × Json)
  | [] => [(name, value)]
  | (n, v) :: rest =>
    if n == name then (n, value) :: rest else (n, v) :: insertField name value rest

mutual

/-- The value with repeated fields merged at every depth: the first place, the last value. -/
def merged : Json → Json
  | .arr items => .arr (mergedItems items)
  | .obj fields => .obj ((mergedFields fields).foldl (fun acc f => insertField f.1 f.2 acc) [])
  | v => v

def mergedItems : List Json → List Json
  | [] => []
  | v :: rest => merged v :: mergedItems rest

def mergedFields : List (String × Json) → List (String × Json)
  | [] => []
  | (n, v) :: rest => (n, merged v) :: mergedFields rest

end

/-! ## Records and variants

A record is written as an object, or as a list of its fields' values in the order of declaration. A
variant is written as its name, or as an object with one field, whose name is the variant and whose
value is its content. -/

/-- The fields of a record by name. A field of the record may not be given twice, unknown fields are
dropped, and a list may not be longer than the record. -/
def record? (names : List String) : Json → Option (List (String × Json))
  | .obj fields =>
    let known := fields.filter fun f => names.contains f.1
    if (known.map (·.1)).Nodup then some known else none
  | .arr items => if items.length ≤ names.length then some (names.zip items) else none
  | _ => none

/-- The name of a variant and its content, if any. -/
def variant? : Json → Option (String × Option Json)
  | .str s => some (s, none)
  | .obj [(name, content)] => some (name, some content)
  | _ => none

/-- A variant without content: its name alone, or its name with `null` for the content. -/
def bareVariant? (v : Json) : Option String :=
  match v.variant? with
  | some (name, none) => some name
  | some (name, some .null) => some name
  | _ => none

/-- The values of a list read with one reader, if it reads all of them. -/
def list? {α : Type} (read : Json → Option α) : Json → Option (List α)
  | .arr items => items.mapM read
  | _ => none

end Json

end GraphSelect
