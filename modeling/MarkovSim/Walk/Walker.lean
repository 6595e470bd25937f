import MarkovSim.Model.Basic
import MarkovSim.Random.Generator
import MarkovSim.Walk.Engine

/-!
# Walking a model

A walker holds its place in a model, a random stream and the rewards of its last move. A move
takes one draw from the unit interval and picks the branch where the running sum of the
probabilities first exceeds it.
-/

namespace MarkovSim

namespace Row

/-- The first place where the running sum, from `sum` on, exceeds the draw. -/
def reached? (u : Float) (sum : Float) : Row → Option Nat
  | [] => none
  | b :: rest =>
    if u < sum + b.probability then some 0
    else (reached? u (sum + b.probability) rest).map (· + 1)

/-- The place a draw selects; a draw that rounding leaves above all sums selects the last. -/
def place (row : Row) (u : Float) : Nat :=
  (row.reached? u 0.0).getD (row.length - 1)

/-- The branch a draw selects; nothing in an empty row. -/
def pick? (row : Row) (u : Float) : Option Branch :=
  row[row.place u]?

end Row

/-- A walk through the dynamics `d`. -/
structure Walker (d : Dynamics) where
  generator : Generator
  seed : UInt64
  current : Nat
  /-- By reward model, the reward of the last move. -/
  rewards : List Float

namespace Walker

variable {d : Dynamics}

/-- Goes back to the initial state, where only the rewards for entering it count. -/
def reset (w : Walker d) : Walker d :=
  { w with
    current := d.initial
    rewards := w.rewards.mapIdx fun i _ => 0.0 + d.rewardOfState i d.initial }

/-- A walker in the initial state, at the start of the stream of a seed. -/
def ofSeed (d : Dynamics) (seed : UInt64) : Walker d :=
  reset ⟨.ofSeed seed, seed, d.initial, List.replicate d.rewardCount 0.0⟩

/-- Starts the random stream of a seed, without moving. -/
def reseed (w : Walker d) (seed : UInt64) : Walker d :=
  { w with generator := .ofSeed seed, seed := seed }

/-- Takes the action with the given offset, if the state offers it and its row has a branch. -/
def step (w : Walker d) (offset : Nat) : Bool × Walker d :=
  if offset < d.actionCount w.current then
    let choice := d.choiceAt w.current offset
    let (u, generator) := w.generator.unit
    match (d.row choice).pick? u with
    | none => (false, w)
    | some b =>
      (true, { w with
        generator := generator
        current := b.target
        rewards := w.rewards.mapIdx fun i _ => d.rewardOfChoice i choice + d.rewardOfState i b.target })
  else (false, w)

/-- Takes an action drawn from those the state offers, if it offers any. -/
def wander (w : Walker d) : Bool × Walker d :=
  if d.actionCount w.current = 0 then (false, w)
  else
    let (offset, generator) := w.generator.below (d.actionCount w.current)
    step { w with generator := generator } offset

/-- The reward of the last move in the first reward model. -/
def reward (w : Walker d) : Float :=
  w.rewards.head?.getD 0.0

instance : Engine (Walker d) where
  reseed := reseed
  current := current
  step := step
  wander := wander
  reset := reset
  reward := reward

end Walker

end MarkovSim
