import MarkovSim.Model.Kind

/-!
# What can be wrong with a model

Each defect is the first violated rule met while a model is put together, with the numbers
needed to find it. `Defect.message` is its wording.
-/

namespace MarkovSim

/-- The parts of a model whose length is fixed by its states or choices. -/
inductive Part where
  | stateLabels
  | rewardsOfStates
  | rewardsOfChoices
  | choiceLabels
  | valuations
  | classes
deriving DecidableEq

/-- The name of a part in messages. -/
def Part.text : Part → String
  | .stateLabels => "state labeling"
  | .rewardsOfStates => "state rewards"
  | .rewardsOfChoices => "state-action rewards"
  | .choiceLabels => "choice labeling"
  | .valuations => "state valuations"
  | .classes => "observability classes"

/-- Why a model, or a part of one, is refused. -/
inductive Defect where
  | noStates
  | noChoices (state : Nat)
  | emptyRow (row : Nat)
  | strayTarget (row target states : Nat)
  | badProbability (row target : Nat) (value : Float)
  | unbalancedRow (row : Nat) (sum : Float)
  | noInitialState
  | branchingChain (state choices : Nat)
  | wrongLength (part : Part) (expected got : Nat)
  | strayLabel (label : String) (state states : Nat)
  | badReward (rewards : String) (index : Nat) (value : Float)
  | missingClasses
  | unexpectedClasses (kind : ModelKind)
  | unevenClass (observation state expected got : Nat)
  | wrongArity (expected got : Nat)

/-- The wording of a defect. -/
def Defect.message : Defect → String
  | .noStates => "model must have at least one state"
  | .noChoices s => s!"state {s} has no choices"
  | .emptyRow r => s!"row {r} has no entries"
  | .strayTarget r t n => s!"row {r} refers to state {t} but the model has {n} states"
  | .badProbability r t p =>
    let p := numberText p
    s!"row {r} has invalid probability {p} for successor {t}"
  | .unbalancedRow r p =>
    let p := numberText p
    s!"row {r} sums to {p}, expected 1"
  | .noInitialState => "no state is labeled as initial"
  | .branchingChain s n => s!"DTMC state {s} has {n} choices, expected 1"
  | .wrongLength part expected got =>
    let part := part.text
    s!"{part} has {got} entries, expected {expected}"
  | .strayLabel l s n => s!"label '{l}' refers to state {s} but the model has {n} states"
  | .badReward name i x =>
    let x := numberText x
    s!"reward model '{name}' has non-finite reward {x} at index {i}"
  | .missingClasses => "POMDP requires observability classes"
  | .unexpectedClasses k =>
    let k := k.text
    s!"{k} must not carry observability classes"
  | .unevenClass o s expected got =>
    s!"states sharing observation {o} disagree on action count: state {s} has {got}, expected {expected}"
  | .wrongArity expected got =>
    s!"valuation has {got} values but {expected} variables are declared"

end MarkovSim
