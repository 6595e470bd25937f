import MarkovSim.Json.Decode

/-!
# Kinds of models and of their storage
-/

namespace MarkovSim

/-- The kinds of Markov models: chains, decision processes, and decision processes whose states
are seen through observation classes only. -/
inductive ModelKind where
  | dtmc
  | mdp
  | pomdp
deriving DecidableEq

namespace ModelKind

/-- Whether a state may offer several actions. -/
def nondeterministic : ModelKind → Bool
  | .dtmc => false
  | .mdp | .pomdp => true

/-- Whether states may be hidden behind observation classes. -/
def partiallyObservable : ModelKind → Bool
  | .pomdp => true
  | .dtmc | .mdp => false

/-- The name in messages. -/
def text : ModelKind → String
  | .dtmc => "DTMC"
  | .mdp => "MDP"
  | .pomdp => "POMDP"

/-- The name in stored text. -/
def tag : ModelKind → String
  | .dtmc => "Dtmc"
  | .mdp => "Mdp"
  | .pomdp => "Pomdp"

def toJson (k : ModelKind) : Json.Value := .text k.tag

def ofJson? : Json.Decoder ModelKind :=
  Json.name? ([.dtmc, .mdp, .pomdp].map fun k => (k.tag, k))

end ModelKind

/-- How a model is stored. Only sparse models can be walked. -/
inductive Storage where
  | sparse
  | symbolic
  | hybrid
deriving DecidableEq

namespace Storage

/-- The name in messages. -/
def text : Storage → String
  | .sparse => "sparse"
  | .symbolic => "symbolic"
  | .hybrid => "hybrid"

/-- The name in stored text. -/
def tag : Storage → String
  | .sparse => "Sparse"
  | .symbolic => "Symbolic"
  | .hybrid => "Hybrid"

def toJson (r : Storage) : Json.Value := .text r.tag

def ofJson? : Json.Decoder Storage :=
  Json.name? ([.sparse, .symbolic, .hybrid].map fun r => (r.tag, r))

end Storage

end MarkovSim
