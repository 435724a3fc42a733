import GraphSelect.Json.Reader
import GraphSelect.Sql.Node

/-!
# Select trees in JSON

A node is an object whose field `node` says what it is; a literal says its type and value in two
more fields of the same object; an operator is an object of its own. Fields that a record does not
know are ignored, an empty operand list or select list may be left out, and a clause may be left
out or null.

As everywhere, a record may also be written as a list of its values. For a node the first value is
then the kind. Inside an operand list the kind may be given by its number.
-/

set_option autoImplicit false

namespace GraphSelect.Sql

/-! ## Names of kinds and forms -/

/-- The kinds of operators that a name alone stands for. -/
def OperatorKind.named : List OperatorKind :=
  [.as, .and, .or, .not, .equals, .notEquals, .lessThan, .lessThanOrEqual, .greaterThan,
   .greaterThanOrEqual, .descending, .nullsFirst, .nullsLast, .count, .sum, .avg, .min, .max, .plus,
   .minus, .times, .divide, .like, .isNull, .isNotNull]

def OperatorKind.name : OperatorKind → String
  | .as => "as"
  | .and => "and"
  | .or => "or"
  | .not => "not"
  | .equals => "equals"
  | .notEquals => "not_equals"
  | .lessThan => "less_than"
  | .lessThanOrEqual => "less_than_or_equal"
  | .greaterThan => "greater_than"
  | .greaterThanOrEqual => "greater_than_or_equal"
  | .descending => "descending"
  | .nullsFirst => "nulls_first"
  | .nullsLast => "nulls_last"
  | .count => "count"
  | .sum => "sum"
  | .avg => "avg"
  | .min => "min"
  | .max => "max"
  | .plus => "plus"
  | .minus => "minus"
  | .times => "times"
  | .divide => "divide"
  | .like => "like"
  | .isNull => "is_null"
  | .isNotNull => "is_not_null"
  | .other _ => "other"

def OperatorKind.ofName? (name : String) : Option OperatorKind :=
  named.find? fun kind => kind.name == name

def OperatorForm.all : List OperatorForm :=
  [.binary, .prefixed, .postfixed, .function, .special]

def OperatorForm.word : OperatorForm → String
  | .binary => "binary"
  | .prefixed => "prefix"
  | .postfixed => "postfix"
  | .function => "function"
  | .special => "special"

def OperatorForm.ofWord? (word : String) : Option OperatorForm :=
  all.find? fun form => form.word == word

/-! ## Reading -/

/-- The name of a variant that has no content: the content is left out, null or an empty object. -/
def emptyVariant? (v : Json) : Option String :=
  match v.variant? with
  | some (name, none) => some name
  | some (name, some .null) => some name
  | some (name, some (.obj [])) => some name
  | _ => none

def OperatorKind.ofJson? (v : Json) : Option OperatorKind :=
  match v.variant? with
  | some ("other", some (.str name)) => some (.other name)
  | _ => do
    let name ← emptyVariant? v
    ofName? name

def OperatorForm.ofJson? (v : Json) : Option OperatorForm := do
  let word ← emptyVariant? v
  ofWord? word

def Operator.ofJson? (v : Json) : Option Operator := do
  let fields ← v.record? ["kind", "syntax"]
  let kind ← OperatorKind.ofJson? (← Json.field? "kind" fields)
  let form ← OperatorForm.ofJson? (← Json.field? "syntax" fields)
  return ⟨kind, form⟩

def Identifier.ofJson? (v : Json) : Option Identifier := do
  let fields ← v.record? ["names"]
  let names ← Json.list? Json.str? (← Json.field? "names" fields)
  return ⟨names⟩

/-- A literal of the given type. Only the null literal can do without a value. -/
def Literal.ofParts? (type : String) (value : Option Json) : Option Literal :=
  match type, value with
  | "null", none => some .null
  | "null", some .null => some .null
  | "boolean", some v => v.bool?.map .boolean
  | "integer", some v => v.int64?.map .integer
  | "decimal", some v => v.double?.map .decimal
  | "string", some v => v.str?.map .string
  | _, _ => none

/-- A literal. Written as a list it has both its values. -/
def Literal.ofJson? (v : Json) : Option Literal := do
  let fields ← v.record? ["type", "value"]
  let type ← emptyVariant? (← Json.field? "type" fields)
  let value := Json.field? "value" fields
  match v, value with
  | .arr _, none => none
  | _, _ => ofParts? type value

inductive NodeTag where
  | identifier
  | literal
  | call
deriving DecidableEq

/-- The kind of a node by its name or, inside an operand list, by its number. -/
def NodeTag.ofJson? (nested : Bool) : Json → Option NodeTag
  | .str "identifier" => some .identifier
  | .str "literal" => some .literal
  | .str "call" => some .call
  | .int i =>
    if !nested then none
    else if i = 0 then some .identifier
    else if i = 1 then some .literal
    else if i = 2 then some .call
    else none
  | _ => none

/-- The kind of a node among its fields, where it stands exactly once. -/
def NodeTag.among? (nested : Bool) (fields : List (String × Json)) : Option NodeTag :=
  match fields.filter fun f => f.1 == "node" with
  | [(_, v)] => NodeTag.ofJson? nested v
  | _ => none

/-- The operator of a call. That its fields are not repeated is checked here too. -/
def Operator.ofCall? (content : Json) : Option Operator := do
  let fields ← content.record? ["operator", "operands"]
  Operator.ofJson? (← Json.field? "operator" fields)

namespace Node

mutual

/-- A node; `nested` says that it is an operand. -/
def ofJson? (nested : Bool) : Json → Option Node
  | .obj fields => do
    match ← NodeTag.among? nested fields with
    | .identifier => (Identifier.ofJson? (.obj fields)).map .identifier
    | .literal => (Literal.ofJson? (.obj fields)).map .literal
    | .call => do
      let op ← Operator.ofCall? (.obj fields)
      let operands ← operandsIn? fields
      return .call op operands
  | .arr [] => none
  | .arr (tag :: values) => do
    match ← NodeTag.ofJson? nested tag with
    | .identifier => (Identifier.ofJson? (.arr values)).map .identifier
    | .literal => (Literal.ofJson? (.arr values)).map .literal
    | .call => do
      let op ← Operator.ofCall? (.arr values)
      match values with
      | [_, operands] => return .call op (← listOfJson? operands)
      | _ => return .call op []
  | _ => none

/-- The operands among the fields of a call, none where the field is left out. -/
def operandsIn? : List (String × Json) → Option (List Node)
  | [] => some []
  | (name, v) :: rest => if name == "operands" then listOfJson? v else operandsIn? rest

def listOfJson? : Json → Option (List Node)
  | .arr items => allOfJson? items
  | _ => none

def allOfJson? : List Json → Option (List Node)
  | [] => some []
  | v :: rest => do
    let n ← ofJson? true v
    let ns ← allOfJson? rest
    return n :: ns

end

end Node

/-- The clause in a field: absent where the field is left out or null. -/
def clause? {α : Type} (read : Json → Option α) (name : String) (fields : List (String × Json)) :
    Option (Option α) :=
  match Json.field? name fields with
  | none => some none
  | some .null => some none
  | some v => (read v).map some

namespace Select

/-- The fields of a select, in the order of declaration. -/
def fieldNames : List String :=
  ["select_list", "from", "where", "group_by", "having", "order_by"]

def ofJson? (v : Json) : Option Select := do
  let fields ← v.record? fieldNames
  let node := Node.ofJson? false
  let selectList ← match Json.field? "select_list" fields with
    | none => some []
    | some items => Json.list? node items
  let source ← clause? node "from" fields
  let filter ← clause? node "where" fields
  let groupBy ← clause? (Json.list? node) "group_by" fields
  let having ← clause? node "having" fields
  let orderBy ← clause? (Json.list? node) "order_by" fields
  return ⟨selectList, source, filter, groupBy, having, orderBy⟩

/-- How deep arrays and objects may be nested in the text of a select. -/
def maxDepth : Nat := 127

def parse? (text : String) : Option Select := do
  let v ← Json.parse? text maxDepth fun name => if fieldNames.contains name then .read else .skip
  ofJson? v

end Select

/-! ## Writing -/

def OperatorKind.toJson : OperatorKind → Json
  | .other name => .obj [("other", .str name)]
  | kind => .str kind.name

def Operator.toJson (op : Operator) : Json :=
  .obj [("kind", op.kind.toJson), ("syntax", .str op.form.word)]

def Literal.toFields : Literal → List (String × Json)
  | .null => [("type", .str "null")]
  | .boolean b => [("type", .str "boolean"), ("value", .bool b)]
  | .integer i => [("type", .str "integer"), ("value", .int i.toInt)]
  | .decimal x => [("type", .str "decimal"), ("value", .ofDouble x)]
  | .string s => [("type", .str "string"), ("value", .str s)]

namespace Node

mutual

def toJson : Node → Json
  | .identifier id => .obj [("node", .str "identifier"), ("names", .arr (id.names.map .str))]
  | .literal l => .obj (("node", .str "literal") :: l.toFields)
  | .call op operands =>
    .obj [("node", .str "call"), ("operator", op.toJson), ("operands", .arr (allToJson operands))]

def allToJson : List Node → List Json
  | [] => []
  | n :: rest => toJson n :: allToJson rest

end

end Node

/-- A clause, null where it is absent. -/
def clauseToJson {α : Type} (write : α → Json) : Option α → Json
  | none => .null
  | some a => write a

/-- A select. All its fields are written. -/
def Select.toJson (s : Select) : Json :=
  let list := fun ns => Json.arr (Node.allToJson ns)
  .obj [("select_list", list s.selectList), ("from", clauseToJson Node.toJson s.source),
    ("where", clauseToJson Node.toJson s.filter), ("group_by", clauseToJson list s.groupBy),
    ("having", clauseToJson Node.toJson s.having), ("order_by", clauseToJson list s.orderBy)]

end GraphSelect.Sql
