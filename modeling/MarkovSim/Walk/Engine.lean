/-!
# Engines

An engine moves from state to state. It is asked for a move by the offset of an action or for a
random one, and says whether it moved.
-/

namespace MarkovSim

/-- What a session needs of the engine that moves it. -/
class Engine (ε : Type) where
  /-- Starts the random stream of a seed, without moving. -/
  reseed : ε → UInt64 → ε
  current : ε → Nat
  /-- Takes the action with the given offset; says whether that was possible. -/
  step : ε → Nat → Bool × ε
  /-- Takes a random action; says whether that was possible. -/
  wander : ε → Bool × ε
  /-- Goes back to the initial state. -/
  reset : ε → ε
  /-- The reward of the last move. -/
  reward : ε → Float

end MarkovSim
