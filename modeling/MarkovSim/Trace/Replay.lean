import MarkovSim.Session.Settings
import MarkovSim.Trace.Basic

/-!
# Recording and replaying

A recorder passes moves on to a session and keeps those that were made. Replaying a trace makes
its moves again and compares the answers, up to the first that differs.
-/

namespace MarkovSim

variable {ε : Type} [Engine ε]

/-- A session with the trace of its moves so far. -/
structure Recorder (ε : Type) where
  session : Session ε
  trace : Trace

namespace Recorder

/-- Starts to record a session. -/
def attach (s : Session ε) : Recorder ε :=
  ⟨s, ⟨s.seed, s.perspective, s.addressing, s.full, []⟩⟩

/-- Makes a move, and keeps it unless it is turned down. -/
def perform (m : Model) (r : Recorder ε) (move : Move) : Except Refusal Report × Recorder ε :=
  match r.session.perform m move with
  | (.ok report, s) =>
    (.ok report, ⟨s, { r.trace with events := r.trace.events ++ [⟨move, report⟩] }⟩)
  | (.error e, s) => (.error e, { r with session := s })

end Recorder

/-- The first answer that differs from the trace. -/
structure Mismatch where
  index : Nat
  expected : Report
  actual : Report

/-- How a replay went. -/
structure Replay where
  /-- How many moves were made. -/
  moves : Nat
  mismatch : Option Mismatch

/-- Whether all answers were those of the trace. -/
def Replay.faithful (r : Replay) : Bool := r.mismatch.isNone

namespace Trace

/-- Makes the moves from number `index` on. -/
def follow (m : Model) (s : Session ε) (index : Nat) :
    List Event → Except Refusal Replay × Session ε
  | [] => (.ok ⟨index, none⟩, s)
  | event :: rest =>
    match s.perform m event.move with
    | (.error e, s) => (.error e, s)
    | (.ok actual, s) =>
      if actual == event.report then follow m s (index + 1) rest
      else (.ok ⟨index + 1, some ⟨index, event.report, actual⟩⟩, s)

/-- The settings the trace was recorded under. -/
def settings (t : Trace) : Settings :=
  ⟨some t.seed, t.perspective, t.addressing, some t.full⟩

/-- Replays the trace on a session of the same seed. -/
def replay (t : Trace) (m : Model) (s : Session ε) : Except Refusal Replay × Session ε :=
  if s.seed ≠ t.seed then (.error (.misconfigured (.otherSeed t.seed s.seed)), s)
  else match t.settings.apply m s with
    | (.error e, s) => (.error e, s)
    | (.ok _, s) => follow m s 0 t.events

end Trace

end MarkovSim
