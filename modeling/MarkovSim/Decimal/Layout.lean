import MarkovSim.Decimal.Shortest

/-!
# Numbers as text

A layout fixes how the shortest decimal of a binary64 number is spelled: up to which exponents
the point is written in place, whether whole numbers keep a fraction, and which of two equally
near decimals is taken. `Layout.message` is the spelling used in error messages; the spelling
of JSON text is `Layout.json`.
-/

namespace MarkovSim

/-- How a finite number is spelled. -/
structure Layout where
  /-- Which of two equally near decimals is taken. -/
  half : HalfRule
  /-- Whether a number with this exponent of its leading digit is written without an exponent. -/
  positional : Int → Bool
  /-- Whether a whole number written without an exponent keeps the fraction `.0`. -/
  fraction : Bool

namespace Layout

/-- Error messages never use an exponent, and whole numbers stand without a point. -/
def message : Layout where
  half := .up
  positional _ := true
  fraction := false

/-- JSON text has an exponent below `1e-5` and from `1e16` on, and else always a point. -/
def json : Layout where
  half := .even
  positional e := -5 ≤ e && e ≤ 15
  fraction := true

/-- `ds` with the point after its first `e + 1` digits, filled up with zeros. -/
def placePoint (fraction : Bool) (ds : List Char) (e : Int) : List Char :=
  match e with
  | .ofNat e =>
    if ds.length ≤ e + 1 then
      ds ++ List.replicate (e + 1 - ds.length) '0' ++ if fraction then ['.', '0'] else []
    else ds.take (e + 1) ++ '.' :: ds.drop (e + 1)
  | .negSucc e => '0' :: '.' :: List.replicate e '0' ++ ds

/-- `ds` with the point after the first digit, and the exponent with its sign. -/
def withExponent (ds : List Char) (e : Int) : List Char :=
  let lead := ds.take 1
  let rest := ds.drop 1
  let body := if rest.isEmpty then lead else lead ++ '.' :: rest
  match e with
  | .ofNat e => body ++ 'e' :: '+' :: Nat.toDigits 10 e
  | .negSucc e => body ++ 'e' :: '-' :: Nat.toDigits 10 (e + 1)

/-- The spelling of a decimal. -/
def decimal (l : Layout) (d : Decimal) : List Char :=
  let ds := Nat.toDigits 10 d.digits
  let e := d.exponent + ((ds.length : Int) - 1)
  if l.positional e then placePoint l.fraction ds e else withExponent ds e

/-- The spelling of a finite number; negative zero keeps its sign. -/
def finite (l : Layout) (x : Float) : List Char :=
  let magnitude := if x.abs.toBits = 0 then ⟨0, 0⟩ else Decimal.shortest l.half x.abs
  if x.toBits < 0x8000000000000000 then l.decimal magnitude else '-' :: l.decimal magnitude

end Layout

/-- A number as it stands in an error message. -/
def numberText (x : Float) : String :=
  if x.isNaN then "NaN"
  else if x.isFinite then String.ofList (Layout.message.finite x)
  else if x < 0.0 then "-inf"
  else "inf"

end MarkovSim
