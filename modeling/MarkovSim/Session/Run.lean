import MarkovSim.Session.Basic

/-!
# Runs of a session

A request is a move or a change of one setting. `Session.handle` answers one request, and
`Session.run` answers a list of them in turn, whatever the answers are.
-/

namespace MarkovSim

/-- What may be asked of a session. -/
inductive Request where
  | move (m : Move)
  | perspective (p : Perspective)
  | addressing (a : Addressing)
  | full (value : Bool)
deriving DecidableEq

/-- The answer to a request: a report where it was a move. -/
abbrev Answer := Except Refusal (Option Report)

namespace Session

variable {ε : Type} [Engine ε]

/-- The answer to a change of settings, with the session after it. -/
def change : Except Refusal Unit × Session ε → Answer × Session ε
  | (.ok _, s) => (.ok none, s)
  | (.error e, s) => (.error e, s)

/-- Answers one request. -/
def handle (m : Model) (s : Session ε) : Request → Answer × Session ε
  | .move mv =>
    match s.perform m mv with
    | (.ok r, s) => (.ok (some r), s)
    | (.error e, s) => (.error e, s)
  | .perspective p => change (s.switchPerspective m p)
  | .addressing a => change (s.switchAddressing m a)
  | .full value => change (s.switchFull m value)

/-- Answers requests in turn. -/
def run (m : Model) (s : Session ε) : List Request → List Answer × Session ε
  | [] => ([], s)
  | r :: rest =>
    let (answer, s) := s.handle m r
    let (answers, s) := run m s rest
    (answer :: answers, s)

@[simp] theorem run_nil (m : Model) (s : Session ε) : s.run m [] = ([], s) := rfl

end Session

end MarkovSim
