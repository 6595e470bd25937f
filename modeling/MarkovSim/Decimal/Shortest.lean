import MarkovSim.Decimal.Basic

/-!
# The shortest decimal that reads back

Among the decimals that are read as a given positive binary64 number, `shortest` takes one with
the fewest digits, and of those the nearest to the number. With `n` digits only the two grid
points around the number can be nearest, so `n = 1, 2, …, 17` are tried in turn, each with its
nearer point first. Seventeen digits are enough for every binary64 number.
-/

namespace MarkovSim

/-- A nonnegative fraction. -/
structure Ratio where
  num : Nat
  den : Nat
deriving DecidableEq

/-- Where a number exactly half way between two decimals goes. -/
inductive HalfRule where
  | up
  | even
deriving DecidableEq

namespace Decimal

/-- The leading bit of a normal mantissa, which is not stored. -/
def hiddenBit : Nat := Nat.pow 2 52

/-- The mantissa and the binary exponent of a finite number, its sign left out. -/
def mantissa (x : Float) : Nat × Int :=
  let bits : Nat := x.toBits.toNat
  let fraction : Nat := bits % hiddenBit
  let biased : Nat := bits / hiddenBit % 2048
  if biased = 0 then (fraction, -1074) else (hiddenBit + fraction, (biased : Int) - 1075)

/-- The exact magnitude of a finite number. -/
def ratio (x : Float) : Ratio :=
  match mantissa x with
  | (m, .ofNat q) => ⟨m * Nat.pow 2 q, 1⟩
  | (m, .negSucc q) => ⟨m, Nat.pow 2 (q + 1)⟩

/-- The distance to the next mantissa, over the same denominator as `ratio`. -/
def ulp (x : Float) : Ratio :=
  match mantissa x with
  | (_, .ofNat q) => ⟨Nat.pow 2 q, 1⟩
  | (_, .negSucc q) => ⟨1, Nat.pow 2 (q + 1)⟩

/-- The fraction divided by `10 ^ e`. -/
def scaleDown (r : Ratio) : Int → Ratio
  | .ofNat e => ⟨r.num, r.den * Nat.pow 10 e⟩
  | .negSucc e => ⟨r.num * Nat.pow 10 (e + 1), r.den⟩

/-- The exponent `k` with `10 ^ (k - 1) ≤ r < 10 ^ k`, for a positive fraction. -/
def order (r : Ratio) : Int :=
  let k := (width r.num : Int) - width r.den
  let scaled := scaleDown r k
  if scaled.num < scaled.den then k else k + 1

/-- The whole numbers around a fraction, the nearer one first. -/
def neighbours (half : HalfRule) (r : Ratio) : List Nat :=
  let low := r.num / r.den
  let rest := 2 * (r.num % r.den)
  let lowFirst : Bool :=
    if rest = r.den then
      match half with
      | .up => false
      | .even => low % 2 = 0
    else rest < r.den
  if lowFirst then [low, low + 1] else [low + 1, low]

/-- Whether `m` is at most `d` away from `r`, for fractions over one denominator. -/
def isWithin (d r : Ratio) (m : Nat) : Bool :=
  m * r.den ≤ r.num + d.num && r.num ≤ m * r.den + d.num

/-- Whether the decimal is read as exactly `x`. -/
def readsAs (x : Float) (d : Decimal) : Bool :=
  d.toFloat.toBits == x.toBits

/-- The nearest decimal of at most `n` digits that is read as `x`, if there is one, for an `x` of
order `k`. Decimals further away than the next mantissa are not read at all. -/
def withDigits? (half : HalfRule) (x : Float) (k : Int) (n : Nat) : Option Decimal :=
  let e := k - n
  let r := scaleDown (ratio x) e
  let near := (neighbours half r).filter (isWithin (scaleDown (ulp x) e) r)
  (near.map fun m => normal ⟨m, e⟩).find? (readsAs x)

/-- All digits of the exact value. -/
def exact (x : Float) : Decimal :=
  match mantissa x with
  | (m, .ofNat q) => normal ⟨m * Nat.pow 2 q, 0⟩
  | (m, .negSucc q) => normal ⟨m * Nat.pow 5 (q + 1), .negSucc q⟩

/-- The decimal with the fewest digits that is read as the positive finite number `x`. -/
def shortest (half : HalfRule) (x : Float) : Decimal :=
  let k := order (ratio x)
  ((List.range' 1 17).findSome? (withDigits? half x k)).getD (exact x)

end Decimal

end MarkovSim
