/-!
# Decimals and the binary64 numbers they name

A decimal is a whole number scaled by a power of ten. Reading one as a binary64 number rounds
to the nearest, halves to even, and depends on the value alone: trailing zeros are moved into
the exponent first, so `10e2` and `1e3` are read from the same pair.
-/

namespace MarkovSim

/-- The nonnegative number `digits · 10 ^ exponent`. -/
structure Decimal where
  digits : Nat
  exponent : Int
deriving DecidableEq

namespace Decimal

/-- Drops up to `fuel` trailing zeros of `m`, each into the exponent. -/
def dropZeros : Nat → Nat → Int → Decimal
  | 0, m, e => ⟨m, e⟩
  | fuel + 1, m, e => if m % 10 = 0 then dropZeros fuel (m / 10) (e + 1) else ⟨m, e⟩

/-- The same number without trailing zeros; zero has exponent zero. -/
def normal (d : Decimal) : Decimal :=
  if d.digits = 0 then ⟨0, 0⟩ else dropZeros d.digits d.digits d.exponent

/-- How many decimal digits `n` has; zero has one. -/
def width (n : Nat) : Nat :=
  (Nat.toDigits 10 n).length

/-- The number beyond all finite ones. -/
def infinity : Float :=
  Float.ofBits 0x7FF0000000000000

/-- The nearest binary64 number, or infinity when the decimal is out of range.

The two outer bounds only spare the computation of huge powers: `10 ^ 310` is beyond every
finite number and `10 ^ (-330)` is below half of the least positive one. -/
def toFloat (d : Decimal) : Float :=
  let n := d.normal
  let magnitude := (width n.digits : Int) + n.exponent
  if n.digits = 0 then 0.0
  else if 310 < magnitude then infinity
  else if magnitude < -330 then 0.0
  else match n.exponent with
    | .ofNat e => Float.ofScientific n.digits false e
    | .negSucc e => Float.ofScientific n.digits true (e + 1)

end Decimal

end MarkovSim
