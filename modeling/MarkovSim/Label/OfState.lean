import MarkovSim.Registry
import MarkovSim.Model.Defect

/-!
# Labels of states

Each label holds the states that carry it, in an ascending array that is searched by halving. Labels
keep the order in which they were declared, by name alone or by the first state that was given them.
-/

namespace MarkovSim

/-- The labels of a model's states. -/
structure StateLabels where
  /-- How many states there are. -/
  states : Nat
  holders : Registry (Array Nat)

namespace StateLabels

/-- The label of the states where a run may start. -/
def initial : String := "init"

/-- No label yet. -/
def empty (states : Nat) : StateLabels := ⟨states, .empty⟩

/-! ## Ascending arrays -/

/-- Where a number stands in an ascending array, or would have to stand. -/
inductive Place where
  | found (i : Nat)
  | missing (i : Nat)
deriving DecidableEq

def Place.isFound : Place → Bool
  | .found _ => true
  | .missing _ => false

/-- Halves the stretch of `size` entries from `base` on until a single one is left: the last that is
not above `s`, or the first of all where each is above it. -/
def narrow (xs : Array Nat) (s base size : Nat) : Nat :=
  if size ≤ 1 then base
  else
    let mid := base + size / 2
    narrow xs s (if xs.getD mid 0 ≤ s then mid else base) (size - size / 2)
termination_by size

/-- The place of a number. -/
def search (xs : Array Nat) (s : Nat) : Place :=
  if xs.isEmpty then .missing 0
  else
    let i := narrow xs s 0 xs.size
    let t := xs.getD i 0
    if t = s then .found i else if t < s then .missing (i + 1) else .missing i

/-- Puts a number in its place, unless it is there. -/
def insertState (s : Nat) (xs : Array Nat) : Array Nat :=
  match search xs s with
  | .found _ => xs
  | .missing i => xs.take i ++ #[s] ++ xs.drop i

/-! ## Writing -/

/-- Declares a label without giving it to a state. -/
def declare (l : StateLabels) (label : String) : StateLabels :=
  { l with holders := l.holders.alter label #[] id }

/-- Gives a label to a state. -/
def attach (l : StateLabels) (label : String) (s : Nat) : Except Defect Unit × StateLabels :=
  if s < l.states then (.ok (), { l with holders := l.holders.alter label #[] (insertState s) })
  else (.error (.strayLabel label s l.states), l)

/-! ## Questions -/

/-- All labels in the order of their declaration. -/
def names (l : StateLabels) : List String := l.holders.names

/-- The states that carry a label, as they are kept. -/
def holdersOf (l : StateLabels) (label : String) : Array Nat :=
  (l.holders.get? label).getD #[]

/-- The states that carry a label, ascending. -/
def statesWith (l : StateLabels) (label : String) : List Nat :=
  (l.holdersOf label).toList

/-- Whether a state carries a label. -/
def has (l : StateLabels) (s : Nat) (label : String) : Bool :=
  (search (l.holdersOf label) s).isFound

/-- The labels of a state in the order of their declaration. -/
def labelsOf (l : StateLabels) (s : Nat) : List String :=
  (l.holders.entries.filter fun e => (search e.2 s).isFound).map Prod.fst

end StateLabels

end MarkovSim
