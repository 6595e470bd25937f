import MarkovSim.Proofs.Session.Outcome
import MarkovSim.Trace.Replay

/-!
# What a recorder adds

A recorder puts each move to its session and returns the answer it gets (`Recorder.perform_eq`). Over any
list of moves it is therefore the session with a list of events beside it, and those are read off the
answers alone (`Recorder.performAll_eq`). A move changes the engine of a session and may fault it, and
nothing else (`Session.perform_frame`), so the modes noted at the start are still those at the end.

As in the rest of the theory of sessions, each move comes with the model as it answers at that time. All
this holds for every engine and every session, faulted or not.
-/

namespace MarkovSim

variable {ε : Type} [Engine ε]

/-! ## Moves in turn -/

/-- Makes moves in turn, whatever the answers are. -/
def Session.performAll (s : Session ε) :
    List (Model × Move) → List (Except Refusal Report) × Session ε
  | [] => ([], s)
  | call :: rest =>
    ((s.perform call.1 call.2).1 :: ((s.perform call.1 call.2).2.performAll rest).1,
      ((s.perform call.1 call.2).2.performAll rest).2)

/-- Makes moves in turn through a recorder, whatever the answers are. -/
def Recorder.performAll (r : Recorder ε) :
    List (Model × Move) → List (Except Refusal Report) × Recorder ε
  | [] => ([], r)
  | call :: rest =>
    ((r.perform call.1 call.2).1 :: ((r.perform call.1 call.2).2.performAll rest).1,
      ((r.perform call.1 call.2).2.performAll rest).2)

/-- The moves that were answered with a report, each with its report. -/
def Trace.answered (moves : List Move) (answers : List (Except Refusal Report)) : List Event :=
  (moves.zip answers).filterMap fun q => q.2.toOption.map (Event.mk q.1)

/-! ## What a move leaves alone -/

namespace Session

theorem Outcome.frame_of_move {m : Model} {s s' : Session ε} {mv : Move} {answer : Answer}
    (h : Outcome m s (.move mv) answer s') :
    ∃ engine faulted, s' = { s with engine := engine, faulted := faulted } := by
  cases h with
  | kept hs => cases hs
  | switched hs => cases hs
  | _ => exact ⟨_, _, rfl⟩

theorem perform_frame (m : Model) (s : Session ε) (mv : Move) :
    ∃ engine faulted, (s.perform m mv).2 = { s with engine := engine, faulted := faulted } := by
  have hmove := (outcome_move m s mv).frame_of_move
  rwa [handle_move] at hmove

theorem performAll_frame (s : Session ε) (calls : List (Model × Move)) :
    ∃ engine faulted, (s.performAll calls).2 = { s with engine := engine, faulted := faulted } := by
  induction calls generalizing s with
  | nil => exact ⟨_, _, rfl⟩
  | cons call rest ih =>
    obtain ⟨engine, faulted, hfirst⟩ := perform_frame call.1 s call.2
    obtain ⟨engine', faulted', hrest⟩ := ih (s.perform call.1 call.2).2
    refine ⟨engine', faulted', hrest.trans ?_⟩
    rw [hfirst]

end Session

/-! ## Recorders beside their sessions -/

namespace Recorder

/-- A recorder answers as its session does, and notes the move if there is a report. -/
theorem perform_eq (m : Model) (r : Recorder ε) (mv : Move) :
    r.perform m mv =
      ((r.session.perform m mv).1, ⟨(r.session.perform m mv).2,
        { r.trace with
          events := r.trace.events ++ Trace.answered [mv] [(r.session.perform m mv).1] }⟩) := by
  unfold perform
  rcases r.session.perform m mv with ⟨_ | report, s⟩
  · simp [Trace.answered, Except.toOption]
  · rfl

theorem performAll_eq (r : Recorder ε) (calls : List (Model × Move)) :
    r.performAll calls =
      ((r.session.performAll calls).1, ⟨(r.session.performAll calls).2,
        { r.trace with
          events := r.trace.events ++
            Trace.answered (calls.map Prod.snd) (r.session.performAll calls).1 }⟩) := by
  induction calls generalizing r with
  | nil => simp [performAll, Session.performAll, Trace.answered]
  | cons call rest ih =>
    have hsplit (answer : Except Refusal Report) (answers : List (Except Refusal Report)) :
        Trace.answered ((call :: rest).map Prod.snd) (answer :: answers) =
          Trace.answered [call.2] [answer] ++ Trace.answered (rest.map Prod.snd) answers := by
      unfold Trace.answered
      rw [← List.filterMap_append]
      rfl
    unfold performAll Session.performAll
    rw [ih, hsplit, perform_eq, List.append_assoc]

/-- A recorder is transparent and its trace is complete: it changes neither answers nor session, and the trace
holds the moves that were answered with a report, in their order. Its seed and modes are those of the
session when it was attached and also when it is taken off. -/
theorem transparent_and_complete (s : Session ε) (calls : List (Model × Move)) :
    ((attach s).performAll calls).1 = (s.performAll calls).1 ∧
    ((attach s).performAll calls).2.session = (s.performAll calls).2 ∧
    ((attach s).performAll calls).2.trace =
      { seed := s.seed
        perspective := s.perspective
        addressing := s.addressing
        full := s.full
        events := Trace.answered (calls.map Prod.snd) (s.performAll calls).1 } ∧
    ((attach s).performAll calls).2.trace =
      { seed := (s.performAll calls).2.seed
        perspective := (s.performAll calls).2.perspective
        addressing := (s.performAll calls).2.addressing
        full := (s.performAll calls).2.full
        events := Trace.answered (calls.map Prod.snd) (s.performAll calls).1 } := by
  obtain ⟨engine, faulted, hframe⟩ := s.performAll_frame calls
  rw [performAll_eq]
  refine ⟨rfl, rfl, rfl, ?_⟩
  rw [hframe]
  rfl

end Recorder

end MarkovSim
