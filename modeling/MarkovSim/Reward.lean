import MarkovSim.Registry
import MarkovSim.Model.Defect

/-!
# Rewards

A reward model may reward the state that is entered and the choice that is taken. Where it says
nothing, the reward is zero.
-/

namespace MarkovSim

/-- Rewards by state and by choice, each part optional. -/
structure Rewards where
  ofStates : Option (Array Float)
  ofChoices : Option (Array Float)

namespace Rewards

/-- The reward for entering a state. -/
def state (r : Rewards) (s : Nat) : Float :=
  (r.ofStates.bind fun xs => xs[s]?).getD 0.0

/-- The reward for taking a choice. -/
def choice (r : Rewards) (c : Nat) : Float :=
  (r.ofChoices.bind fun xs => xs[c]?).getD 0.0

/-- What is wrong with one part of the rewards of a name: its length, or the first value that is
not finite. -/
def partDefect? (name : String) (part : Part) (expected : Nat) :
    Option (Array Float) → Option Defect
  | none => none
  | some xs =>
    if xs.size ≠ expected then some (.wrongLength part expected xs.size)
    else xs.toList.zipIdx.findSome? fun (x, i) =>
      if x.isFinite then none else some (.badReward name i x)

/-- What is wrong with the rewards of a name. -/
def defect? (r : Rewards) (name : String) (states choices : Nat) : Option Defect :=
  match partDefect? name .rewardsOfStates states r.ofStates with
  | some d => some d
  | none => partDefect? name .rewardsOfChoices choices r.ofChoices

end Rewards

end MarkovSim
