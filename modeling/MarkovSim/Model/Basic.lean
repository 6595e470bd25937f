import MarkovSim.Label.OfChoice
import MarkovSim.Table.Basic
import MarkovSim.Valuation

/-!
# What a simulation asks of a model

`Model` collects the answers a session needs about the states and choices of a model;
`Dynamics` adds what a walk needs to move: rows, rewards and the initial state. The answers need
not agree with each other. `Source` is a model together with the dynamics it gives out, which
may be those of another model or none.
-/

namespace MarkovSim

/-- The answers of a model about its states and choices. -/
structure Model where
  storage : Storage
  kind : ModelKind
  /-- Whether a state may offer several actions. -/
  nondeterministic : Bool := kind.nondeterministic
  /-- Whether states may be hidden behind observation classes. -/
  partiallyObservable : Bool := kind.partiallyObservable
  stateCount : Nat
  /-- How many actions a state offers. -/
  actionCount : Nat → Nat
  /-- The choice behind an action of a state, given by its offset. -/
  choiceAt : Nat → Nat → Nat
  choiceLabels : Option ChoiceLabels
  valuations : Option Valuations
  /-- The observation class of a state. -/
  observation : Nat → Option Nat
  /-- Whether no action leaves a state. -/
  isSink : Nat → Bool

/-- A model that can be walked. -/
structure Dynamics extends Model where
  initial : Nat
  /-- The outcomes of a choice. -/
  row : Nat → Row
  /-- How many reward models there are. -/
  rewardCount : Nat
  /-- By reward model, the reward for entering a state. -/
  rewardOfState : Nat → Nat → Float
  /-- By reward model, the reward for taking a choice. -/
  rewardOfChoice : Nat → Nat → Float

/-- A model with the dynamics it gives out. -/
structure Source where
  own : Dynamics
  shared : Option Dynamics

end MarkovSim
