import MarkovSim.Model.Basic
import MarkovSim.Session.Observation
import MarkovSim.Session.Refusal
import MarkovSim.Walk.Engine

/-!
# Sessions

A session drives an engine over a model and shows what it is set to show. A request that is
turned down leaves the session as it was, with one exception: when the engine fails at a move,
or the state it moved to cannot be shown, the session is faulted for good.

The model is an argument of every call, as its answers may change from one call to the next.
-/

namespace MarkovSim

/-- What is shown of a state under the given settings. -/
def Model.view (m : Model) (valuations : Option Valuations) (full : Bool)
    (perspective : Perspective) (s : Nat) : Except Refusal Observation :=
  match full, perspective with
  | true, .states => .ok (.state s)
  | true, .records =>
    match valuations.bind fun v => v.record? s with
    | some r => .ok (.valuation r)
    | none => .error (.misconfigured (.noValuationOf s))
  | false, .states =>
    if m.partiallyObservable then
      match m.observation s with
      | some o => .ok (.classOf o)
      | none => .error (.misconfigured (.noClassOf s))
    else .error (.misconfigured .noClasses)
  | false, .records => .error .hiddenRecords

/-- A simulation in progress with an engine of type `ε`. -/
structure Session (ε : Type) where
  engine : ε
  seed : UInt64
  perspective : Perspective := .states
  addressing : Addressing := .offsets
  /-- Whether states are shown as they are, and not by their classes. -/
  full : Bool
  /-- The valuations that records are taken from. -/
  valuations : Option Valuations := none
  faulted : Bool := false

/-- A request that moves a session. -/
inductive Move where
  | restart
  | step (action : Option Action)
  | wander
deriving DecidableEq

namespace Session

variable {ε : Type} [Engine ε]

/-- A session over an engine that is already seeded. -/
def start (m : Model) (engine : ε) (seed : UInt64) : Session ε :=
  { engine, seed, full := !m.partiallyObservable }

/-- A session over an engine, which is given the seed. -/
def startSeeded (m : Model) (engine : ε) (seed : UInt64) : Session ε :=
  start m (Engine.reseed engine seed) seed

/-! ## Questions -/

def current (s : Session ε) : Nat := Engine.current s.engine

/-- How many actions the current state offers. -/
def actionCount (m : Model) (s : Session ε) : Nat :=
  if m.nondeterministic then m.actionCount s.current else 1

/-- The name of a choice taken by the given offset: its label, or one made from the offset. -/
def choiceName (labels : ChoiceLabels) (choice offset : Nat) : Except Refusal String :=
  match labels.labelsOf choice with
  | [] => .ok (Action.unlabeled offset)
  | [l] => .ok l
  | ls => .error (.unsupported (.manyLabels choice ls.length))

/-- The names of the actions the current state offers. -/
def offeredNames (m : Model) (s : Session ε) : Except Refusal (List String) :=
  match m.choiceLabels with
  | none => .error (.misconfigured .noChoiceLabels)
  | some labels =>
    (List.range (s.actionCount m)).mapM fun k => choiceName labels (m.choiceAt s.current k) k

/-- The actions the current state offers. -/
def menu (m : Model) (s : Session ε) : Except Refusal Menu :=
  match s.addressing with
  | .offsets => .ok (.offsets 0 (s.actionCount m))
  | .names => (s.offeredNames m).map .names

/-- Whether no action leaves the current state. -/
def isFinished (m : Model) (s : Session ε) : Bool := m.isSink s.current

/-- The offset of a requested action. An action may be left out where only one is offered. -/
def offsetOf (m : Model) (s : Session ε) : Option Action → Except Refusal Nat
  | none => if s.actionCount m = 1 then .ok 0 else .error (.ambiguous (s.actionCount m))
  | some action =>
    match action, s.addressing with
    | .index k, .offsets =>
      if k < s.actionCount m then .ok k else .error (.outOfRange k (s.actionCount m))
    | .name l, .names =>
      match s.offeredNames m with
      | .error e => .error e
      | .ok names =>
        match names.idxOf? l with
        | some k => .ok k
        | none => .error (.unknownName l)
    | action, addressing => .error (.wrongForm action addressing)

/-- What the session shows of the current state. -/
def report (m : Model) (s : Session ε) : Except Refusal Report :=
  match m.view s.valuations s.full s.perspective s.current with
  | .ok o => .ok ⟨o, Engine.reward s.engine⟩
  | .error e => .error e

/-! ## Moves -/

/-- The answer after the engine has moved. A state that cannot be shown faults the session. -/
def settle (m : Model) (s : Session ε) : Except Refusal Report × Session ε :=
  match s.report m with
  | .ok r => (.ok r, s)
  | .error e => (.error e, { s with faulted := true })

/-- The answer to an attempt to move. An engine that did not move faults the session. -/
def afterMove (m : Model) (s : Session ε) (call : EngineCall) (attempt : Bool × ε) :
    Except Refusal Report × Session ε :=
  if attempt.1 then settle m { s with engine := attempt.2 }
  else (.error (.engineFailed call s.current), { s with engine := attempt.2, faulted := true })

/-- Takes an action. -/
def step (m : Model) (s : Session ε) (action : Option Action) :
    Except Refusal Report × Session ε :=
  if s.faulted then (.error .faulted, s)
  else match s.offsetOf m action with
    | .error e => (.error e, s)
    | .ok k => s.afterMove m .step (Engine.step s.engine k)

/-- Takes a random action. -/
def wander (m : Model) (s : Session ε) : Except Refusal Report × Session ε :=
  if s.faulted then (.error .faulted, s)
  else s.afterMove m .wander (Engine.wander s.engine)

/-- Goes back to the initial state. -/
def restart (m : Model) (s : Session ε) : Except Refusal Report × Session ε :=
  if s.faulted then (.error .faulted, s)
  else settle m { s with engine := Engine.reset s.engine }

/-- Makes a move. -/
def perform (m : Model) (s : Session ε) : Move → Except Refusal Report × Session ε
  | .restart => s.restart m
  | .step action => s.step m action
  | .wander => s.wander m

/-! ## Settings -/

/-- Records need valuations, and states that are not hidden. -/
def switchPerspective (m : Model) (s : Session ε) (perspective : Perspective) :
    Except Refusal Unit × Session ε :=
  match perspective with
  | .states => (.ok (), { s with perspective := .states, valuations := none })
  | .records =>
    match m.valuations with
    | none => (.error (.misconfigured .noValuations), s)
    | some v =>
      if s.full then (.ok (), { s with perspective := .records, valuations := some v })
      else (.error .hiddenRecords, s)

/-- Names need choice labels. -/
def switchAddressing (m : Model) (s : Session ε) (addressing : Addressing) :
    Except Refusal Unit × Session ε :=
  if addressing = .names ∧ m.choiceLabels.isNone then
    (.error (.misconfigured .noChoiceLabels), s)
  else (.ok (), { s with addressing })

/-- States can be hidden only in a partially observable model, and not while records are
shown. -/
def switchFull (m : Model) (s : Session ε) (value : Bool) : Except Refusal Unit × Session ε :=
  if value then (.ok (), { s with full := true })
  else if !m.partiallyObservable then (.error (.misconfigured .alwaysObservable), s)
  else if s.perspective = .records then (.error .hiddenRecords, s)
  else (.ok (), { s with full := false })

/-- The session in words, with its model's kind. -/
def describe (m : Model) (s : Session ε) : String :=
  let kind := m.kind.tag
  let seed := s.seed.toNat
  let observation := s.perspective.tag
  let action := s.addressing.tag
  let full := s.full
  let faulted := s.faulted
  s!"SparseSimulator \x7b model_type: {kind}, seed: {seed}, observation_mode: {observation}, " ++
    s!"action_mode: {action}, full_observability: {full}, faulted: {faulted} \x7d"

end Session

end MarkovSim
