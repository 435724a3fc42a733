import GraphSelect.Json.Basic
import GraphSelect.Decimal.Format

/-!
# Writing JSON text

Two layouts: the compact one has no white space and serves for quoting a value in a fault, the
pretty one indents by two blanks and serves for the command's output. Both keep the order of the
fields and escape only what JSON requires.
-/

set_option autoImplicit false

namespace GraphSelect.Json

/-- Doubles in JSON: of two nearest decimals the even one, `.0` after a whole number, and an
exponent from `10^16` upwards and below `10^-5`, with its sign. -/
def numberFormat : Decimal.NumberFormat where
  tie := .toEven
  leastPoint := some (-4)
  greatestPoint := some 16
  wholeMark := ['.', '0']
  exponentPlus := ['+']

/-- A character inside a quoted text. -/
def escapeChar (c : Char) : List Char :=
  match c with
  | '"' => ['\\', '"']
  | '\\' => ['\\', '\\']
  | '\n' => ['\\', 'n']
  | '\r' => ['\\', 'r']
  | '\t' => ['\\', 't']
  | c =>
    if c.toNat == 8 then ['\\', 'b']
    else if c.toNat == 12 then ['\\', 'f']
    else if c.toNat < 0x20 then
      ['\\', 'u', '0', '0', Nat.digitChar (c.toNat / 16), Nat.digitChar (c.toNat % 16)]
    else [c]

def quoted (s : String) : String :=
  "\"" ++ String.ofList (s.toList.flatMap escapeChar) ++ "\""

mutual

def compact : Json → String
  | .null => "null"
  | .bool b => if b then "true" else "false"
  | .int i => String.ofList (Decimal.intDigits i)
  | .float x => numberFormat.text x
  | .str s => quoted s
  | .arr items => "[" ++ ",".intercalate (compactItems items) ++ "]"
  | .obj fields => "\x7b" ++ ",".intercalate (compactFields fields) ++ "\x7d"

def compactItems : List Json → List String
  | [] => []
  | v :: rest => compact v :: compactItems rest

def compactFields : List (String × Json) → List String
  | [] => []
  | (n, v) :: rest => (quoted n ++ ":" ++ compact v) :: compactFields rest

end

/-- The start of a line at a depth of nesting. -/
def newline (depth : Nat) : String :=
  "\n" ++ String.ofList (List.replicate (2 * depth) ' ')

/-- Parts on lines of their own between two brackets. -/
def block (opening closing : String) (depth : Nat) (parts : List String) : String :=
  if parts.isEmpty then opening ++ closing
  else
    opening ++ newline (depth + 1) ++ ("," ++ newline (depth + 1)).intercalate parts ++
      newline depth ++ closing

mutual

/-- The text of a value over several lines, standing at a depth of nesting. -/
def prettyAt (depth : Nat) : Json → String
  | .arr items => block "[" "]" depth (prettyItems (depth + 1) items)
  | .obj fields => block "\x7b" "\x7d" depth (prettyFields (depth + 1) fields)
  | v => compact v

def prettyItems (depth : Nat) : List Json → List String
  | [] => []
  | v :: rest => prettyAt depth v :: prettyItems depth rest

def prettyFields (depth : Nat) : List (String × Json) → List String
  | [] => []
  | (n, v) :: rest => (quoted n ++ ": " ++ prettyAt depth v) :: prettyFields depth rest

end

def pretty (v : Json) : String :=
  prettyAt 0 v

end GraphSelect.Json
