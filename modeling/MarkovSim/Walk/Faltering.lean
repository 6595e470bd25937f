import MarkovSim.Walk.Engine

/-!
# Engines that give up

A faltering engine passes on a fixed number of moves to the engine inside it and refuses all
later ones. It keeps count of the moves asked for and of the seeds it was given.

The number of moves it passes on fits in 64 bits. So does the count: it grows by one for each move
asked for, and no run asks for `2 ^ 64` of them.
-/

namespace MarkovSim

/-- An engine that fails after a number of moves. -/
structure Faltering (ε : Type) where
  inner : ε
  /-- How many moves are passed on, less than `2 ^ 64`. -/
  allowed : Nat
  /-- How many moves were asked for, likewise. -/
  calls : Nat := 0
  /-- The seeds given, in order. -/
  seeds : List UInt64 := []

namespace Faltering

variable {ε : Type}

/-- Counts a move, and makes it with the engine inside while moves are left. -/
def move (f : Faltering ε) (inner : ε → Bool × ε) : Bool × Faltering ε :=
  if f.calls < f.allowed then
    let (moved, e) := inner f.inner
    (moved, { f with inner := e, calls := f.calls + 1 })
  else (false, { f with calls := f.calls + 1 })

instance [Engine ε] : Engine (Faltering ε) where
  reseed f seed := { f with inner := Engine.reseed f.inner seed, seeds := f.seeds ++ [seed] }
  current f := Engine.current f.inner
  step f offset := f.move fun e => Engine.step e offset
  wander f := f.move Engine.wander
  reset f := { f with inner := Engine.reset f.inner }
  reward f := Engine.reward f.inner

end Faltering

end MarkovSim
