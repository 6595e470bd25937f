import MarkovSim.Decimal.Basic

/-!
# JSON text taken apart

A `Tree` holds a JSON text as it is written: numbers by their digits, strings by their pieces
and objects with all their members in order. What a number or string stands for is decided
later, by whoever needs it, so a part that nobody asks for only has to be well formed.
-/

namespace MarkovSim.Json

/-- A number as it is written. -/
structure Numeral where
  negative : Bool
  /-- Whether it has neither a fraction nor an exponent. -/
  integral : Bool
  magnitude : Decimal
deriving DecidableEq

/-- A number: whole, when it is written as one and fits 64 bits, or binary64. -/
inductive Number where
  | whole (n : Int)
  | real (x : Float)

/-- One character of a string as it is written. -/
inductive Piece where
  | char (c : Char)
  /-- An escaped UTF-16 code unit. -/
  | unit (u : Nat)
deriving DecidableEq

/-- The pieces of a string. -/
abbrev Quoted := List Piece

inductive Tree where
  | null
  | bool (b : Bool)
  | number (n : Numeral)
  | string (s : Quoted)
  | array (items : List Tree)
  | object (members : List (Quoted × Tree))

/-- The binary64 number nearest to the numeral; nothing if that is infinite. -/
def Numeral.toFloat? (n : Numeral) : Option Float :=
  let x := n.magnitude.toFloat
  if x.isFinite then some (if n.negative then -x else x) else none

/-- The whole number the numeral writes, if it writes one that fits 64 bits: without a sign up
to `2 ^ 64 - 1`, with a sign from `-1` down to `-2 ^ 63`. -/
def Numeral.toInt? (n : Numeral) : Option Int :=
  let m := n.magnitude.digits
  if !n.integral then none
  else if n.negative then if m = 0 ∨ 0x8000000000000000 < m then none else some (-m)
  else if m < UInt64.size then some m else none

/-- What the numeral stands for: a whole number where it can be one. -/
def Numeral.value? (n : Numeral) : Option Number :=
  match n.toInt? with
  | some i => some (.whole i)
  | none => n.toFloat?.map .real

/-- The characters the pieces stand for. An escaped unit is a character of its own, or the first
half of one whose second half must follow at once. -/
def Quoted.chars? : Quoted → Option (List Char)
  | [] => some []
  | .char c :: rest => (chars? rest).map (c :: ·)
  | .unit u :: rest =>
    if u < 0xD800 ∨ 0xE000 ≤ u then (chars? rest).map (Char.ofNat u :: ·)
    else match rest with
      | .unit v :: rest =>
        if u < 0xDC00 ∧ 0xDC00 ≤ v ∧ v < 0xE000 then
          (chars? rest).map (Char.ofNat (0x10000 + (u - 0xD800) * 0x400 + (v - 0xDC00)) :: ·)
        else none
      | _ => none

/-- The text the pieces stand for. -/
def Quoted.text? (s : Quoted) : Option String :=
  s.chars?.map String.ofList

end MarkovSim.Json
