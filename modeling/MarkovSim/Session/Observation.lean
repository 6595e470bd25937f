import MarkovSim.Json.Decode

/-!
# Observations

What a session shows of a state: the state itself, its observation class, or the record of its
variables.
-/

namespace MarkovSim

/-- What is shown of a state. -/
inductive Observation where
  | state (s : Nat)
  | valuation (record : Json.Value)
  | classOf (observation : Nat)
deriving BEq

namespace Observation

def text : Observation → String
  | .state s => s!"state {s}"
  | .valuation v => v.toText
  | .classOf o => s!"observation {o}"

def toJson : Observation → Json.Value
  | .state s => .object [("State", .whole s)]
  | .valuation v => .object [("Valuation", v)]
  | .classOf o => .object [("Class", .whole o)]

def ofJson? : Json.Decoder Observation := fun depth t =>
  match Json.alternative? depth t with
  | some (.under "State" depth t) => (Json.nat64? depth t).map .state
  | some (.under "Valuation" depth t) => (Json.value? depth t).map .valuation
  | some (.under "Class" depth t) => (Json.nat32? depth t).map .classOf
  | _ => none

end Observation

/-- Whether a session shows states as such or as records of their variables. -/
inductive Perspective where
  | states
  | records
deriving DecidableEq

namespace Perspective

def text : Perspective → String
  | .states => "state-level"
  | .records => "program-level"

/-- The name in stored text. -/
def tag : Perspective → String
  | .states => "StateLevel"
  | .records => "ProgramLevel"

def toJson (m : Perspective) : Json.Value := .text m.tag

def ofJson? : Json.Decoder Perspective :=
  Json.name? ([.states, .records].map fun m => (m.tag, m))

end Perspective

/-- What a session answers to a move. Rewards are compared as numbers. -/
structure Report where
  observation : Observation
  reward : Float
deriving BEq

namespace Report

def toJson (r : Report) : Json.Value :=
  .object [("observation", r.observation.toJson), ("reward", .ofFloat r.reward)]

def ofJson? : Json.Decoder Report :=
  Json.record? ["observation", "reward"] fun depth fields =>
    match fields with
    | [some observation, some reward] => do
      some ⟨← Observation.ofJson? depth observation, ← Json.float? depth reward⟩
    | _ => none

end Report

end MarkovSim
