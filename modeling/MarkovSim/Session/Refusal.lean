import MarkovSim.Model.Kind
import MarkovSim.Session.Action

/-!
# Refusals

Why a session, or an attempt to open one, turns a request down. `Refusal.message` is the
wording. The fatal refusals are those after which the session moves no more.
-/

namespace MarkovSim

/-- What a setting needs and the model, or the session, does not have. -/
inductive Obstacle where
  | noChoiceLabels
  | noValuations
  | alwaysObservable
  | noClasses
  | noValuationOf (state : Nat)
  | noClassOf (state : Nat)
  | otherSeed (recorded actual : UInt64)
deriving DecidableEq

def Obstacle.text : Obstacle → String
  | .noChoiceLabels => "global-names action mode requires a model with choice labeling"
  | .noValuations => "program-level observations require a model with state valuations"
  | .alwaysObservable => "partial observability requires a partially observable model"
  | .noClasses => "observation classes require a partially observable model"
  | .noValuationOf s => s!"no valuation for state {s}"
  | .noClassOf s => s!"no observation class for state {s}"
  | .otherSeed recorded actual =>
    s!"trace was recorded with seed {recorded}, simulator has seed {actual}"

/-- What about a model cannot be simulated. -/
inductive Unsupported where
  | manyLabels (choice count : Nat)
  | noDynamics
  | noBackend (storage : Storage)
deriving DecidableEq

def Unsupported.text : Unsupported → String
  | .manyLabels c n => s!"choice {c} carries {n} labels"
  | .noDynamics => "sparse model exposes no transition structure"
  | .noBackend r =>
    let r := r.text
    s!"no simulator for {r} models"

/-- The moves an engine can fail at. -/
inductive EngineCall where
  | step
  | wander
deriving DecidableEq

def EngineCall.text : EngineCall → String
  | .step => "step"
  | .wander => "random_step"

/-- Why a request is turned down. -/
inductive Refusal where
  | misconfigured (o : Obstacle)
  | outOfRange (offset available : Nat)
  | unknownName (label : String)
  | ambiguous (available : Nat)
  | wrongForm (action : Action) (addressing : Addressing)
  | unsupported (u : Unsupported)
  /-- Records of states that are hidden. -/
  | hiddenRecords
  /-- The engine failed at a move it should have made. -/
  | engineFailed (call : EngineCall) (state : Nat)
  /-- The session failed before. -/
  | faulted
deriving DecidableEq

namespace Refusal

/-- The wording of a refusal. -/
def message : Refusal → String
  | .misconfigured o =>
    let o := o.text
    s!"configuration error: {o}"
  | .outOfRange k n => s!"action {k} out of range: only {n} actions available"
  | .unknownName l => s!"unknown action '{l}'"
  | .ambiguous n => s!"an action must be given: {n} actions available at the current state"
  | .wrongForm a m =>
    let a := a.form
    let m := m.text
    s!"{a} action cannot be used in {m} action mode"
  | .unsupported u =>
    let u := u.text
    s!"unsupported model: {u}"
  | .hiddenRecords =>
    "not implemented: program-level observations under partial observability"
  | .engineFailed call s =>
    let call := call.text
    s!"engine invariant violated: {call} failed at state {s}"
  | .faulted => "simulator is faulted after an unrecoverable failure"

/-- Whether the session moves no more. -/
def fatal : Refusal → Bool
  | .engineFailed .. | .faulted => true
  | _ => false

end Refusal

end MarkovSim
