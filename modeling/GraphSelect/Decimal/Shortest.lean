/-!
# The shortest decimal of a double

A finite double is `m · 2^q`. The reals that round to it form an interval around it, whose ends
belong to it exactly when `m` is even; below a power of two the interval reaches only half as far
as above. The shortest decimal of the double is the decimal with the fewest digits in that
interval, and of several the one nearest to the double. All tests are made on natural numbers, so
nothing is rounded.

For a fixed number of digits only two decimals have to be looked at, the neighbours of the double on
the grid of that many digits: if any point of the grid lies in the interval, one of them does.
-/

set_option autoImplicit false

namespace GraphSelect.Decimal

/-- Which of two equally near decimals is taken. -/
inductive Tie where
  -- The larger one.
  | up
  -- The one whose last digit is even.
  | toEven
deriving DecidableEq

/-- The non-negative number `coefficient · 10^exponent`. -/
structure Scaled where
  coefficient : Nat
  exponent : Int
deriving DecidableEq

/-- How many decimal digits a number has; zero has none. -/
def digitCount (n : Nat) : Nat :=
  if n = 0 then 0 else (Nat.toDigits 10 n).length

/-- The interval of reals that round to a double, as three fractions over one denominator. -/
structure Rounding where
  low : Nat
  value : Nat
  high : Nat
  denominator : Nat
  -- Whether `low` and `high` themselves round to the double.
  closed : Bool

/-- The interval around `m · 2^q`. It is scaled by four, so that its ends are whole numbers.
`powerOfTwo` says that the next smaller double has a smaller exponent. -/
def Rounding.around (m : Nat) (q : Int) (powerOfTwo : Bool) : Rounding :=
  let low := if powerOfTwo then 4 * m - 1 else 4 * m - 2
  let scale := q - 2
  let factor := Nat.pow 2 scale.toNat
  { low := low * factor
    value := 4 * m * factor
    high := (4 * m + 2) * factor
    denominator := Nat.pow 2 (-scale).toNat
    closed := m % 2 == 0 }

/-- The least `k` with `value < 10^k`. -/
def Rounding.magnitude (r : Rounding) : Int :=
  if r.denominator ≤ r.value then
    digitCount (r.value / r.denominator)
  else
    1 - (digitCount ((r.denominator - 1) / r.value) : Int)

/-- Whether `d · 10^g` rounds to the double. -/
def Rounding.holds (r : Rounding) (d : Nat) (g : Int) : Bool :=
  let point := d * Nat.pow 10 g.toNat * r.denominator
  let unit := Nat.pow 10 (-g).toNat
  if r.closed then
    r.low * unit ≤ point && point ≤ r.high * unit
  else
    r.low * unit < point && point < r.high * unit

/-- The point of the grid `10^g` that rounds to the double and is nearest to it. -/
def Rounding.nearest? (r : Rounding) (tie : Tie) (g : Int) : Option Nat :=
  let numerator := r.value * Nat.pow 10 (-g).toNat
  let step := Nat.pow 10 g.toNat * r.denominator
  let below := numerator / step
  let rest := numerator % step
  if rest = 0 then some below
  else match r.holds below g, r.holds (below + 1) g with
    | true, true =>
      if 2 * rest < step then some below
      else if step < 2 * rest then some (below + 1)
      else match tie with
        | .up => some (below + 1)
        | .toEven => some (if below % 2 = 0 then below else below + 1)
    | true, false => some below
    | false, true => some (below + 1)
    | false, false => none

/-- The same number without zeros at the end of the coefficient; `fuel` bounds their count. -/
def Scaled.strip : Nat → Scaled → Scaled
  | 0, s => s
  | fuel + 1, s =>
    if s.coefficient ≠ 0 && s.coefficient % 10 = 0 then
      Scaled.strip fuel ⟨s.coefficient / 10, s.exponent + 1⟩
    else s

/-- The shortest decimal of `m · 2^q`, for `m` at least one. Seventeen digits are always enough for
a double; the expansion of all digits, which needs no rounding, stands behind them. -/
def shortest (tie : Tie) (m : Nat) (q : Int) (powerOfTwo : Bool) : Scaled :=
  let r := Rounding.around m q powerOfTwo
  let k := r.magnitude
  let found := (List.range 17).findSome? fun i =>
    let g := k - (i + 1 : Nat)
    (r.nearest? tie g).map fun d => Scaled.mk d g
  let s := found.getD ⟨m * Nat.pow 2 q.toNat * Nat.pow 5 (-q).toNat, min q 0⟩
  s.strip (digitCount s.coefficient)

inductive Reading where
  | nan
  | infinite (negative : Bool)
  -- The number `m · 2^q`, negated or not; a zero keeps its sign.
  | finite (negative : Bool) (m : Nat) (q : Int) (powerOfTwo : Bool)
deriving DecidableEq

/-- The parts of a double, read off its 64 bits. -/
def read (x : Float) : Reading :=
  let bits := x.toBits.toNat
  let negative := bits / Nat.pow 2 63 % 2 == 1
  let exponent : Nat := bits / Nat.pow 2 52 % Nat.pow 2 11
  let fraction := bits % Nat.pow 2 52
  if exponent = 2047 then
    if fraction = 0 then .infinite negative else .nan
  else if exponent = 0 then
    .finite negative fraction (-1074) false
  else
    .finite negative (Nat.pow 2 52 + fraction) ((exponent : Int) - 1075)
      (fraction == 0 && 1 < exponent)

end GraphSelect.Decimal
