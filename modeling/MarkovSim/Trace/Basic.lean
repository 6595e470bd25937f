import MarkovSim.Session.Basic

/-!
# Traces

A trace holds the moves a session made, each with its answer, and the seed and modes under which
it made them. It can be stored as JSON text and read back.
-/

namespace MarkovSim

namespace Move

def toJson : Move → Json.Value
  | .restart => .text "Restart"
  | .step none => .object [("Step", .null)]
  | .step (some a) => .object [("Step", a.toJson)]
  | .wander => .text "RandomStep"

def ofJson? : Json.Decoder Move := fun depth t =>
  match Json.alternative? depth t with
  | some (.bare "Restart") | some (.under "Restart" _ .null) => some .restart
  | some (.bare "RandomStep") | some (.under "RandomStep" _ .null) => some .wander
  | some (.under "Step" depth t) => (Json.optional? Action.ofJson? depth t).map .step
  | _ => none

end Move

/-- A move and its answer. -/
structure Event where
  move : Move
  report : Report
deriving BEq

namespace Event

def toJson (e : Event) : Json.Value :=
  .object [("action", e.move.toJson), ("result", e.report.toJson)]

def ofJson? : Json.Decoder Event :=
  Json.record? ["action", "result"] fun depth fields =>
    match fields with
    | [some move, some report] => do
      some ⟨← Move.ofJson? depth move, ← Report.ofJson? depth report⟩
    | _ => none

end Event

/-- The moves of a session with their answers, and the settings they were made under. -/
structure Trace where
  seed : UInt64
  perspective : Perspective
  addressing : Addressing
  full : Bool
  events : List Event
deriving BEq

namespace Trace

/-- The sum of all rewards, from the first on; without rewards it is negative zero. -/
def total (t : Trace) : Float :=
  t.events.foldl (fun sum e => sum + e.report.reward) (-0.0)

def toJson (t : Trace) : Json.Value :=
  .object [
    ("seed", .whole t.seed.toNat),
    ("observation_mode", t.perspective.toJson),
    ("action_mode", t.addressing.toJson),
    ("full_observability", .bool t.full),
    ("steps", .array (t.events.map Event.toJson))]

def ofJson? : Json.Decoder Trace :=
  Json.record? ["seed", "observation_mode", "action_mode", "full_observability", "steps"]
    fun depth fields =>
      match fields with
      | [some seed, some observation, some action, some full, some events] => do
        let seed ← Json.nat64? depth seed
        let observation ← Perspective.ofJson? depth observation
        let action ← Addressing.ofJson? depth action
        let full ← Json.bool? depth full
        let events ← Json.list? Event.ofJson? depth events
        some ⟨UInt64.ofNat seed, observation, action, full, events⟩
      | _ => none

/-- The trace as JSON text. -/
def toText (t : Trace) : String := t.toJson.toText

/-- The trace written in a JSON text. -/
def ofText? (text : String) : Option Trace := Json.decode? ofJson? text

end Trace

end MarkovSim
