import MarkovSim.Random.ChaCha

/-!
# Reproducible random draws

A generator is a key and a place in the key's stream of words, so it is determined by its seed
and by how many words have been drawn. On top of the words stand the two draws a walk needs: a
number from the unit interval (`Generator.unit`) and a number below a bound
(`Generator.below`). Each returns the generator after the draw.
-/

namespace MarkovSim

/-- The state of a reproducible stream of random words. -/
structure Generator where
  key : ChaCha.Key
  /-- How many words have been drawn. -/
  place : Nat
deriving DecidableEq

namespace Generator

/-- The successor of the state from which keys are drawn. -/
def nextState (s : UInt64) : UInt64 :=
  s * 6364136223846793005 + 11634580027462260723

/-- `x` turned right by `n` bits. -/
def rotateRight (x n : UInt32) : UInt32 :=
  (x >>> n) ||| (x <<< ((32 - n) % 32))

/-- The key word given by a state. -/
def keyWord (s : UInt64) : UInt32 :=
  rotateRight ((((s >>> 18) ^^^ s) >>> 27).toUInt32) (s >>> 59).toUInt32

/-- The state after `n` successors. -/
def stateAfter (seed : UInt64) : Nat → UInt64
  | 0 => seed
  | n + 1 => nextState (stateAfter seed n)

/-- The generator for a seed, at the start of its stream. -/
def ofSeed (seed : UInt64) : Generator where
  key := Vector.ofFn fun i : Fin 8 => keyWord (stateAfter seed (i + 1))
  place := 0

/-- The next word. -/
def word32 (g : Generator) : UInt32 × Generator :=
  (ChaCha.word g.key g.place, { g with place := g.place + 1 })

/-- The next two words as one, the low half first. -/
def word64 (g : Generator) : UInt64 × Generator :=
  let (low, g) := g.word32
  let (high, g) := g.word32
  (low.toUInt64 ||| (high.toUInt64 <<< 32), g)

/-- One of the `2 ^ 53` multiples of `2 ^ (-53)` in the unit interval. -/
def unitFraction (k : UInt64) : Float :=
  k.toFloat * Float.ofBits 0x3CA0000000000000

/-- A number from the unit interval. -/
def unit (g : Generator) : Float × Generator :=
  let (x, g) := g.word64
  (unitFraction (x >>> 11), g)

/-- The next word of 32 or 64 bits, as a number. -/
def wordOf (wide : Bool) (g : Generator) : Nat × Generator :=
  if wide then
    let (x, g) := g.word64
    (x.toNat, g)
  else
    let (x, g) := g.word32
    (x.toNat, g)

/-- A number below `n`: the high half of `n` times a word. Where the low half leaves room for a
carry, a second word decides on it. -/
def below (n : Nat) (g : Generator) : Nat × Generator :=
  let wide : Bool := UInt32.size ≤ n
  let size := if wide then UInt64.size else UInt32.size
  let (x, g) := g.wordOf wide
  let high := x * n / size
  let low := x * n % size
  if size - n < low then
    let (y, g) := g.wordOf wide
    (if size ≤ low + y * n / size then high + 1 else high, g)
  else (high, g)

end Generator

end MarkovSim
