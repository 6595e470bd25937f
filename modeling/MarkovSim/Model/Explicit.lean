import MarkovSim.Label.OfState
import MarkovSim.Model.Basic
import MarkovSim.Reward

/-!
# Explicit models

An `ExplicitModel` is a model whose parts fit together. `ExplicitModel.assemble` checks the parts in a fixed
order and reports the first defect: the state labels and an initial state, the choices of a
chain, the rewards, the choice labels, the valuations, and last the observation classes.
-/

namespace MarkovSim

/-- The parts of a model, not yet checked against each other. -/
structure Components where
  table : Table
  stateLabels : StateLabels
  rewards : Registry Rewards := .empty
  choiceLabels : Option ChoiceLabels := none
  valuations : Option Valuations := none
  /-- The observation class of each state. -/
  classes : Option (Array Nat) := none

/-- A model whose parts fit together. -/
structure ExplicitModel extends Components where
  kind : ModelKind
  initial : Nat

namespace Components

/-- Adds a reward model, in place of one with the same name. -/
def withRewards (c : Components) (name : String) (r : Rewards) : Components :=
  { c with rewards := c.rewards.insert name r }

/-- A part that does not have the expected length. -/
def lengthDefect? (part : Part) (expected got : Nat) : Option Defect :=
  if expected = got then none else some (.wrongLength part expected got)

/-- The first state of a chain that has not exactly one choice. -/
def branchingState? (c : Components) : Option Defect :=
  (List.range c.table.groupCount).findSome? fun s =>
    let n := c.table.choiceCount s
    if n = 1 then none else some (.branchingChain s n)

/-- One pass over the classes of the states from `s` on, with the number of choices that each class
met before is held to. A class met for the first time is held to the number of choices of `s`. -/
def unevenFrom? (table : Table) (held : List (Nat × Nat)) (s : Nat) : List Nat → Option Defect
  | [] => none
  | o :: rest =>
    let got := table.choiceCount s
    match held.lookup o with
    | none => unevenFrom? table ((o, got) :: held) (s + 1) rest
    | some expected =>
      if expected = got then unevenFrom? table held (s + 1) rest
      else some (.unevenClass o s expected got)

/-- The first state that has not the number of choices its class is held to. -/
def unevenState? (table : Table) (classes : Array Nat) : Option Defect :=
  unevenFrom? table [] 0 classes.toList

/-- What is wrong with the observation classes. -/
def classDefect? (c : Components) (kind : ModelKind) : Option Defect :=
  match c.classes, kind with
  | none, .pomdp => some .missingClasses
  | none, _ => none
  | some classes, .pomdp =>
    match lengthDefect? .classes c.table.groupCount classes.size with
    | some d => some d
    | none => unevenState? c.table classes
  | some _, kind => some (.unexpectedClasses kind)

/-- The checks in their order, each giving its defect. -/
def checks (c : Components) (kind : ModelKind) : List (Option Defect) :=
  let states := c.table.groupCount
  let choices := c.table.rowCount
  [ lengthDefect? .stateLabels states c.stateLabels.states,
    if (c.stateLabels.statesWith StateLabels.initial).isEmpty then some .noInitialState else none,
    if kind = .dtmc then c.branchingState? else none,
    c.rewards.entries.findSome? fun (name, r) => r.defect? name states choices,
    c.choiceLabels.bind fun l => lengthDefect? .choiceLabels choices l.choiceCount,
    c.valuations.bind fun v => lengthDefect? .valuations states v.stateCount,
    c.classDefect? kind ]

/-- The first defect of the parts. -/
def defect? (c : Components) (kind : ModelKind) : Option Defect :=
  (c.checks kind).findSome? id

end Components

namespace ExplicitModel

/-- The model with the given parts, if they fit together. It starts in the first of the states
labeled as initial. -/
def assemble (kind : ModelKind) (c : Components) : Except Defect ExplicitModel :=
  match c.defect? kind with
  | some d => .error d
  | none =>
    .ok { c with
      kind := kind
      initial := ((c.stateLabels.statesWith StateLabels.initial).head?).getD 0 }

/-- All states where a run may start. -/
def startStates (p : ExplicitModel) : List Nat :=
  p.stateLabels.statesWith StateLabels.initial

/-- The model as something that can be walked. -/
def dynamics (p : ExplicitModel) : Dynamics where
  storage := .sparse
  kind := p.kind
  stateCount := p.table.groupCount
  actionCount := p.table.choiceCount
  choiceAt s k := (p.table.group s).start + k
  choiceLabels := p.choiceLabels
  valuations := p.valuations
  observation s := p.classes.bind fun classes => classes[s]?
  isSink := p.table.isAbsorbing
  initial := p.initial
  row := p.table.row
  rewardCount := p.rewards.size
  rewardOfState i s := ((p.rewards.at? i).map fun r => r.state s).getD 0.0
  rewardOfChoice i c := ((p.rewards.at? i).map fun r => r.choice c).getD 0.0

/-- An explicit model gives out its own dynamics. -/
def source (p : ExplicitModel) : Source := ⟨p.dynamics, some p.dynamics⟩

end ExplicitModel

end MarkovSim
