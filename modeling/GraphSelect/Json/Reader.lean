import GraphSelect.Json.Basic
import GraphSelect.Decimal.Shortest

/-!
# Reading JSON text

The reader is strict: nothing but white space may follow the value, a text may hold no raw control
character and no half of a surrogate pair, a number must lie in the range of a double, and arrays
and objects may be nested only to a given depth.

A field that its record does not know is passed over instead. It still has to be JSON, but what its
numbers and texts stand for is not asked, and its depth does not count.
-/

set_option autoImplicit false

namespace GraphSelect.Json

/-- How closely a value is looked at. -/
inductive Care where
  | read
  | skip
deriving DecidableEq

/-- What is left of the text after the white space at its front. -/
def dropBlanks (cs : List Char) : List Char :=
  cs.dropWhile fun c => c == ' ' || c == '\n' || c == '\t' || c == '\r'

/-- What is left after a given word at the front. -/
def dropWord? : List Char → List Char → Option (List Char)
  | [], cs => some cs
  | w :: ws, c :: cs => if w == c then dropWord? ws cs else none
  | _ :: _, [] => none

/-! ## Numbers -/

structure Lexeme where
  negative : Bool
  whole : List Char
  fraction : List Char
  exponent : Int
  -- Whether it was written with a point or an exponent.
  isFloat : Bool

/-- The value of a run of decimal digits. -/
def digitsValue (ds : List Char) : Nat :=
  ds.foldl (fun n d => 10 * n + (d.toNat - '0'.toNat)) 0

/-- One digit or more, and what follows them. -/
def digits? (cs : List Char) : Option (List Char × List Char) :=
  match cs.takeWhile Char.isDigit with
  | [] => none
  | ds => some (ds, cs.dropWhile Char.isDigit)

/-- The digits before the point: no zero stands before another digit. -/
def whole? (cs : List Char) : Option (List Char × List Char) := do
  let (ds, rest) ← digits? cs
  match ds with
  | '0' :: _ :: _ => none
  | _ => some (ds, rest)

/-- The point and the digits after it, if there is a point. -/
def fraction? : List Char → Option (Option (List Char) × List Char)
  | '.' :: cs => do
    let (ds, rest) ← digits? cs
    return (some ds, rest)
  | cs => some (none, cs)

def exponent? : List Char → Option (Option Int × List Char)
  | c :: cs =>
    if c == 'e' || c == 'E' then
      match cs with
      | '-' :: cs => do
        let (ds, rest) ← digits? cs
        return (some (-(digitsValue ds : Int)), rest)
      | '+' :: cs => do
        let (ds, rest) ← digits? cs
        return (some (digitsValue ds), rest)
      | cs => do
        let (ds, rest) ← digits? cs
        return (some (digitsValue ds), rest)
    else some (none, c :: cs)
  | [] => some (none, [])

/-- A number at the front of the text, and what follows it. -/
def lexeme? (cs : List Char) : Option (Lexeme × List Char) := do
  let (negative, cs) := match cs with
    | '-' :: cs => (true, cs)
    | cs => (false, cs)
  let (whole, cs) ← whole? cs
  let (fraction, cs) ← fraction? cs
  let (exponent, cs) ← exponent? cs
  return (⟨negative, whole, fraction.getD [], exponent.getD 0,
    fraction.isSome || exponent.isSome⟩, cs)

/-- The double nearest to `coefficient · 10^exponent`; nothing if that is beyond the largest one. -/
def nearestDouble? (negative : Bool) (coefficient : Nat) (exponent : Int) : Option Float :=
  let point := Decimal.digitCount coefficient + exponent
  let magnitude :=
    if coefficient = 0 || point < -400 then 0
    else if 400 < point then Float.ofScientific 1 false 400
    else if exponent < 0 then Float.ofScientific coefficient true exponent.natAbs
    else Float.ofScientific coefficient false exponent.natAbs
  if magnitude.isInf then none
  else some (if negative then -magnitude else magnitude)

/-- What a number stands for: an integer where it is written as one and fits, a double otherwise. A
negative zero is a double. -/
def Lexeme.value? (l : Lexeme) : Option Json :=
  let magnitude := digitsValue (l.whole ++ l.fraction)
  let exponent := l.exponent - l.fraction.length
  let asDouble := (nearestDouble? l.negative magnitude exponent).map Json.float
  if l.isFloat then asDouble
  else if l.negative then
    if 1 ≤ magnitude && magnitude ≤ Nat.pow 2 63 then some (.int (-(magnitude : Int))) else asDouble
  else if magnitude < UInt64.size then some (.int magnitude)
  else asDouble

/-! ## Texts -/

def hexDigit? (c : Char) : Option Nat :=
  if c.isDigit then some (c.toNat - '0'.toNat)
  else if 'a' ≤ c ∧ c ≤ 'f' then some (c.toNat - 'a'.toNat + 10)
  else if 'A' ≤ c ∧ c ≤ 'F' then some (c.toNat - 'A'.toNat + 10)
  else none

/-- Four hexadecimal digits and what follows them. -/
def hexUnit? : List Char → Option (Nat × List Char)
  | a :: b :: c :: d :: rest => do
    let a ← hexDigit? a
    let b ← hexDigit? b
    let c ← hexDigit? c
    let d ← hexDigit? d
    return (((a * 16 + b) * 16 + c) * 16 + d, rest)
  | _ => none

/-- The character of an escape `\u…`, whose first unit is given. A unit of a surrogate pair needs
its other half, unless the text is only passed over. -/
def unitChar? (care : Care) (unit : Nat) (cs : List Char) : Option (Char × List Char) :=
  match care with
  | .skip => some ('?', cs)
  | .read =>
    if 0xDC00 ≤ unit && unit ≤ 0xDFFF then none
    else if 0xD800 ≤ unit && unit ≤ 0xDBFF then do
      let cs ← dropWord? ['\\', 'u'] cs
      let (low, rest) ← hexUnit? cs
      if 0xDC00 ≤ low && low ≤ 0xDFFF then
        some (Char.ofNat (0x10000 + (unit - 0xD800) * 0x400 + (low - 0xDC00)), rest)
      else none
    else some (Char.ofNat unit, cs)

/-- The character that a letter after a backslash stands for. -/
def shortEscape? (c : Char) : Option Char :=
  match c with
  | '"' => some '"'
  | '\\' => some '\\'
  | '/' => some '/'
  | 'b' => some (Char.ofNat 8)
  | 'f' => some (Char.ofNat 12)
  | 'n' => some '\n'
  | 'r' => some '\r'
  | 't' => some '\t'
  | _ => none

/-- The rest of a text after its opening quote, collected behind `done`, and what follows it. -/
def textRest? (care : Care) : Nat → List Char → List Char → Option (String × List Char)
  | 0, _, _ => none
  | _, _, [] => none
  | fuel + 1, done, c :: cs =>
    if c == '"' then some (String.ofList done.reverse, cs)
    else if c == '\\' then
      match cs with
      | 'u' :: cs => do
        let (unit, cs) ← hexUnit? cs
        let (c, cs) ← unitChar? care unit cs
        textRest? care fuel (c :: done) cs
      | c :: cs => do
        let c ← shortEscape? c
        textRest? care fuel (c :: done) cs
      | [] => none
    else if c.toNat < 0x20 then none
    else textRest? care fuel (c :: done) cs

/-! ## Values -/

mutual

/-- A value at the front of the text, and what follows it. `room` is the number of arrays and
objects that may still be opened one inside the other. -/
def value? (careOf : String → Care) :
    Nat → Care → Nat → List Char → Option (Json × List Char)
  | 0, _, _, _ => none
  | fuel + 1, care, room, cs =>
    match dropBlanks cs with
    | [] => none
    | c :: rest =>
      if c == '"' then do
        let (s, rest) ← textRest? care (rest.length + 1) [] rest
        return (.str s, rest)
      else if c == '[' then
        match care, room with
        | .read, 0 => none
        | _, _ => do
          let (items, rest) ← match dropBlanks rest with
            | ']' :: rest => some ([], rest)
            | rest => items? fuel care (room - 1) rest
          return (.arr items, rest)
      else if c == '\x7b' then
        match care, room with
        | .read, 0 => none
        | _, _ => do
          let (fields, rest) ← match dropBlanks rest with
            | '\x7d' :: rest => some ([], rest)
            | rest => fields? careOf fuel care (room - 1) rest
          return (.obj fields, rest)
      else if c == 'n' then (dropWord? "ull".toList rest).map (Json.null, ·)
      else if c == 't' then (dropWord? "rue".toList rest).map (Json.bool true, ·)
      else if c == 'f' then (dropWord? "alse".toList rest).map (Json.bool false, ·)
      else do
        let (l, rest) ← lexeme? (c :: rest)
        match care with
        | .skip => return (.null, rest)
        | .read => return (← l.value?, rest)

/-- The items of an array up to its closing bracket. Inside an array every field is of interest. -/
def items? : Nat → Care → Nat → List Char → Option (List Json × List Char)
  | 0, _, _, _ => none
  | fuel + 1, care, room, cs => do
    let (v, cs) ← value? (fun _ => .read) fuel care room cs
    match dropBlanks cs with
    | ',' :: cs => do
      let (vs, rest) ← items? fuel care room cs
      return (v :: vs, rest)
    | ']' :: rest => return ([v], rest)
    | _ => none

/-- The fields of an object up to its closing brace. -/
def fields? (careOf : String → Care) :
    Nat → Care → Nat → List Char → Option (List (String × Json) × List Char)
  | 0, _, _, _ => none
  | fuel + 1, care, room, cs => do
    let cs ← dropWord? ['"'] (dropBlanks cs)
    let (name, cs) ← textRest? care (cs.length + 1) [] cs
    let cs ← dropWord? [':'] (dropBlanks cs)
    let fieldCare := if care = .read then careOf name else .skip
    let (v, cs) ← value? (fun _ => .read) fuel fieldCare room cs
    match dropBlanks cs with
    | ',' :: cs => do
      let (fs, rest) ← fields? careOf fuel care room cs
      return ((name, v) :: fs, rest)
    | '\x7d' :: rest => return ([(name, v)], rest)
    | _ => none

end

/-- The value that a whole text stands for, with arrays and objects nested at most `depth` deep.
`careOf` says which fields of the outermost object are of interest. -/
def parse? (text : String) (depth : Nat) (careOf : String → Care) : Option Json := do
  let cs := text.toList
  let (v, rest) ← value? careOf (2 * cs.length + 1) .read depth cs
  if (dropBlanks rest).isEmpty then some v else none

end GraphSelect.Json
