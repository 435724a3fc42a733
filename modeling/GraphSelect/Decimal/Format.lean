import GraphSelect.Decimal.Shortest

/-!
# Texts of doubles

The program writes doubles in three places, and each has its own layout: a traversal script marks
every double as such, an SQL literal is written out in full, and a JSON number follows the usual
bounds of JSON writers. All three write the digits of the shortest decimal; what differs is a
`NumberFormat`.
-/

set_option autoImplicit false

namespace GraphSelect.Decimal

/-- How the digits of a double are laid out. The position of the decimal point is counted from the
front of the digits: `0.d₁d₂… · 10^point`. -/
structure NumberFormat where
  tie : Tie
  -- The least point written without an exponent, if there is one.
  leastPoint : Option Int
  -- The greatest point written without an exponent, if there is one.
  greatestPoint : Option Int
  -- What follows a whole number written without an exponent.
  wholeMark : List Char
  -- What stands before an exponent that is not negative.
  exponentPlus : List Char

/-- Whether a number is written without an exponent. -/
def NumberFormat.isPositional (f : NumberFormat) (point : Int) : Bool :=
  f.leastPoint.all (· ≤ point) && f.greatestPoint.all (point ≤ ·)

def intDigits (i : Int) : List Char :=
  if i < 0 then '-' :: Nat.toDigits 10 i.natAbs else Nat.toDigits 10 i.natAbs

/-- The digits with the point among, before or after them. -/
def NumberFormat.positional (f : NumberFormat) (digits : List Char) (point : Int) : List Char :=
  if point ≤ 0 then
    ['0', '.'] ++ List.replicate (-point).toNat '0' ++ digits
  else
    let whole := point.toNat
    if digits.length ≤ whole then
      digits ++ List.replicate (whole - digits.length) '0' ++ f.wholeMark
    else
      digits.take whole ++ '.' :: digits.drop whole

/-- The digits with the point after the first of them, and the exponent that this needs. -/
def NumberFormat.scientific (f : NumberFormat) (digits : List Char) (point : Int) : List Char :=
  let mantissa := match digits with
    | [] => []
    | [d] => [d]
    | d :: rest => d :: '.' :: rest
  let exponent := point - 1
  mantissa ++ 'e' :: ((if 0 ≤ exponent then f.exponentPlus else []) ++ intDigits exponent)

/-- The text of a number without its sign. -/
def NumberFormat.magnitude (f : NumberFormat) (s : Scaled) : List Char :=
  let digits := Nat.toDigits 10 s.coefficient
  if s.coefficient = 0 then f.positional digits 1
  else
    let point := digits.length + s.exponent
    if f.isPositional point then f.positional digits point else f.scientific digits point

def NumberFormat.chars (f : NumberFormat) (x : Float) : List Char :=
  match read x with
  | .nan => ['N', 'a', 'N']
  | .infinite negative => (if negative then ['-'] else []) ++ ['i', 'n', 'f']
  | .finite negative m q powerOfTwo =>
    let s := if m = 0 then ⟨0, 0⟩ else shortest f.tie m q powerOfTwo
    (if negative then ['-'] else []) ++ f.magnitude s

def NumberFormat.text (f : NumberFormat) (x : Float) : String :=
  String.ofList (f.chars x)

end GraphSelect.Decimal
