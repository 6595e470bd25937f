import MarkovSim.Session.Basic
import MarkovSim.Walk.Walker

/-!
# Settings

A session's seed and modes in one value, which can be applied to a session, opened as a new
session and stored. Applying makes one change after the other and stops at the first that is
turned down; the changes before it stay.
-/

namespace MarkovSim

/-- The seed and modes of a session. Without a seed one is drawn; without a word on
observability it stays as it is. -/
structure Settings where
  seed : Option UInt64 := none
  perspective : Perspective := .states
  addressing : Addressing := .offsets
  full : Option Bool := none
deriving DecidableEq

namespace Settings

variable {ε : Type} [Engine ε]

/-- One change after the other, up to the first that is turned down. -/
def applyAll (s : Session ε) :
    List (Session ε → Except Refusal Unit × Session ε) → Except Refusal Unit × Session ε
  | [] => (.ok (), s)
  | change :: rest =>
    match change s with
    | (.ok _, s) => applyAll s rest
    | (.error e, s) => (.error e, s)

/-- The changes, in an order in which those to a valid setting cannot get in each other's way. -/
def changes (c : Settings) (m : Model) : List (Session ε → Except Refusal Unit × Session ε) :=
  let observation (s : Session ε) := s.switchPerspective m c.perspective
  let action (s : Session ε) := s.switchAddressing m c.addressing
  match c.full with
  | some false => [observation, (·.switchFull m false), action]
  | some true => [(·.switchFull m true), observation, action]
  | none => [observation, action]

/-- Applies the settings to a session. The seed is not applied. -/
def apply (c : Settings) (m : Model) (s : Session ε) : Except Refusal Unit × Session ε :=
  applyAll s (c.changes m)

/-! ## Stored form -/

def toJson (c : Settings) : Json.Value :=
  .object [
    ("seed", match c.seed with | some n => .whole n.toNat | none => .null),
    ("observation_mode", c.perspective.toJson),
    ("action_mode", c.addressing.toJson),
    ("full_observability", match c.full with | some b => .bool b | none => .null)]

def ofJson? : Json.Decoder Settings :=
  Json.record? ["seed", "observation_mode", "action_mode", "full_observability"]
    fun depth fields =>
      match fields with
      | [seed, some observation, some action, full] => do
        let seed ← Json.field? Json.nat64? depth seed
        let observation ← Perspective.ofJson? depth observation
        let action ← Addressing.ofJson? depth action
        let full ← Json.field? Json.bool? depth full
        some ⟨seed.map UInt64.ofNat, observation, action, full⟩
      | _ => none

end Settings

/-- A session together with the dynamics its walker moves in. -/
structure Simulation where
  dynamics : Dynamics
  session : Session (Walker dynamics)

namespace Simulation

/-- A session at the start of a walk. -/
def start (d : Dynamics) (seed : UInt64) : Session (Walker d) :=
  .start d.toModel (.ofSeed d seed) seed

/-- The dynamics a simulator of the model walks. -/
def backend (src : Source) : Except Refusal Dynamics :=
  match src.own.storage with
  | .sparse =>
    match src.shared with
    | some d => .ok d
    | none => .error (.unsupported .noDynamics)
  | other => .error (.unsupported (.noBackend other))

/-- A simulator of the model under the given settings. Settings without a seed take the one
drawn by the caller. -/
def create (src : Source) (c : Settings) (drawn : UInt64) : Except Refusal Simulation :=
  match backend src with
  | .error e => .error e
  | .ok d =>
    match c.apply d.toModel (start d (c.seed.getD drawn)) with
    | (.ok _, s) => .ok ⟨d, s⟩
    | (.error e, _) => .error e

end Simulation

end MarkovSim
