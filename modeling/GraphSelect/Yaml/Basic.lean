/-!
# YAML values

Schema definitions and settings are written in YAML. A scalar keeps its text and whether it was
written without quotes; what the text stands for is decided by the field that it is read into, so
`3`, `true` and `~` are texts where a text is wanted. A value that is left out is the plain scalar
without any text.
-/

set_option autoImplicit false

namespace GraphSelect

/-- A YAML value. Any value can be a key of a mapping, and repeated keys are kept. -/
inductive Yaml where
  | scalar (text : String) (plain : Bool)
  | seq (items : List Yaml)
  | map (fields : List (Yaml × Yaml))

namespace Yaml

/-- The value that is left out. -/
def missing : Yaml :=
  .scalar "" true

/-- Any scalar, taken literally. -/
def text? : Yaml → Option String
  | .scalar s _ => some s
  | _ => none

/-- The items of a sequence. A missing value is the empty sequence. -/
def items? : Yaml → Option (List Yaml)
  | .seq items => some items
  | .scalar "" true => some []
  | _ => none

/-- A field whose key is a scalar. -/
def namedField? (field : Yaml × Yaml) : Option (String × Yaml) := do
  let name ← field.1.text?
  return (name, field.2)

/-- The fields of a record by name. All keys are scalars, a field of the record may not be given
twice, unknown fields are dropped, and a missing value is the record without fields. -/
def record? (names : List String) : Yaml → Option (List (String × Yaml))
  | .map fields => do
    let named ← fields.mapM namedField?
    let known := named.filter fun f => names.contains f.1
    if (known.map (·.1)).Nodup then some known else none
  | .scalar "" true => some []
  | _ => none

/-! ## Integers -/

def digit? (c : Char) : Option Nat :=
  if c.isDigit then some (c.toNat - '0'.toNat)
  else if 'a' ≤ c ∧ c ≤ 'f' then some (c.toNat - 'a'.toNat + 10)
  else if 'A' ≤ c ∧ c ≤ 'F' then some (c.toNat - 'A'.toNat + 10)
  else none

/-- The number that a run of one digit or more stands for in a base, if it is below `2^64`. -/
def digits? (base : Nat) (ds : List Char) : Option Nat := do
  if ds.isEmpty then none
  let n ← ds.foldlM (fun n c => do
    let d ← digit? c
    if d < base then some (n * base + d) else none) 0
  if n < UInt64.size then some n else none

/-- The size that a text stands for: a decimal number without a leading zero, or one in base
sixteen, eight or two behind its mark; a plus sign may stand before either. -/
def sizeOfText? (cs : List Char) : Option Nat :=
  let cs := match cs with
    | '+' :: rest => rest
    | cs => cs
  match cs with
  | '0' :: 'x' :: ds => digits? 16 ds
  | '0' :: 'o' :: ds => digits? 8 ds
  | '0' :: 'b' :: ds => digits? 2 ds
  | '0' :: _ :: _ => none
  | ds => digits? 10 ds

/-- A size, written without quotes. -/
def size? : Yaml → Option Nat
  | .scalar s true => sizeOfText? s.toList
  | _ => none

end Yaml

end GraphSelect
