import MarkovSim.Proofs.Session.Safety
import MarkovSim.Proofs.Walk.Contract

/-!
# Walks that start again

A walker that is given a seed and goes back to the initial state is the walker of that seed, wherever it
has been and in whichever order the two are done (`Walker.Reached.renewed`): its place, its stream and
all its rewards are set anew. So a session over a walker that has been used before is, once restarted,
the session over a new walker (`Session.restart_startSeeded`).

Take a validated model and any walker in it that can be reached by moves, made or not, by seeds and by ways
back.

1. Given a seed and sent back, in either order, it is the walker of that seed: the same stream from its
   start, the same seed, place and rewards.
2. A session that gives it the seed can be restarted, with the answer that a new session of the seed gives
   when it is restarted, and is then that new session.
3. So after a restart both answer all further requests alike and come to the same end.
-/

namespace MarkovSim

namespace Walker

variable {d : Dynamics} {w : Walker d}

theorem reseed_reset (w : Walker d) (seed : UInt64) : w.reset.reseed seed = (w.reseed seed).reset := rfl

theorem Reached.renewed (h : w.Reached) (seed : UInt64) :
    (w.reseed seed).reset = Walker.ofSeed d seed := by
  have hrewards : (w.reseed seed).reset.rewards = (Walker.ofSeed d seed).rewards :=
    (mapIdx_rewards h.length_rewards _).trans (mapIdx_rewards
      (w := (⟨.ofSeed seed, seed, d.initial, _⟩ : Walker d)) List.length_replicate _).symm
  show (⟨.ofSeed seed, seed, d.initial, (w.reseed seed).reset.rewards⟩ : Walker d) = _
  rw [hrewards]
  rfl

end Walker

namespace Session

variable {d : Dynamics} {w : Walker d}

/-- Once restarted, a session over a walker that was used before is one over a new walker. -/
theorem restart_startSeeded (m : Model) (h : w.Reached) (seed : UInt64) :
    (startSeeded m w seed).restart m = (start m (Walker.ofSeed d seed) seed).restart m := by
  have hengine : Engine.reset (startSeeded m w seed).engine =
      Engine.reset (start m (Walker.ofSeed d seed) seed).engine :=
    (h.renewed seed).trans (Walker.reset_ofSeed d seed).symm
  unfold restart
  rw [hengine]
  rfl

end Session

/-- A seed and the way back make a walk new: a session that gives the seed to a walker which was used before
is, once restarted, the restarted session of that seed over a new walker. -/
theorem Simulation.renewed_walk_is_new {p : ExplicitModel} (hp : p.Validated) {w : Walker p.dynamics}
    (hw : w.Reached) (seed : UInt64) :
    ((w.reseed seed).reset = .ofSeed p.dynamics seed ∧
      w.reset.reseed seed = .ofSeed p.dynamics seed) ∧
    (∃ r,
      (Session.startSeeded p.dynamics.toModel w seed).restart p.dynamics.toModel =
        (.ok r, start p.dynamics seed) ∧
      (start p.dynamics seed).restart p.dynamics.toModel = (.ok r, start p.dynamics seed)) ∧
    ∀ requests,
      (Session.startSeeded p.dynamics.toModel w seed).run p.dynamics.toModel
          (.move .restart :: requests) =
        (start p.dynamics seed).run p.dynamics.toModel (.move .restart :: requests) := by
  have hrestart := Session.restart_startSeeded p.dynamics.toModel hw seed
  refine ⟨⟨hw.renewed seed, ?_⟩, ?_, fun requests => ?_⟩
  · rw [Walker.reseed_reset, hw.renewed]
  · have hsafe := (fresh_start p.dynamics seed).safe hp.sound
    obtain ⟨r, -, hr⟩ := hsafe.perform_eq_ok hp.sound
      (show (start p.dynamics seed).demand _ .restart = .ok .restart from rfl)
    have hnew : (start p.dynamics seed).restart p.dynamics.toModel = (.ok r, start p.dynamics seed) := by
      refine hr.trans ?_
      show (_, { start p.dynamics seed with engine := (Walker.ofSeed p.dynamics seed).reset }) = _
      rw [Walker.reset_ofSeed]
      rfl
    exact ⟨r, hrestart.trans hnew, hnew⟩
  · have hhandle : (Session.startSeeded p.dynamics.toModel w seed).handle p.dynamics.toModel
        (.move .restart) = (start p.dynamics seed).handle p.dynamics.toModel (.move .restart) := by
      unfold Session.handle Session.perform
      rw [hrestart]
      rfl
    unfold Session.run
    rw [hhandle]

/-- A walker of the process of two states that look alike, after a move, another seed and a second move. It
stands in the goal with the reward for it and its stream is under way. A session that takes it over with
a third seed answers after a restart as a new one does. -/
theorem Simulation.wandered_twins_renewed :
    ∃ p, Gallery.twins = .ok p ∧ p.Validated ∧ ∃ w : Walker p.dynamics,
      w = (((Walker.ofSeed p.dynamics 7).step 0).2.reseed 3).wander.2 ∧ w.Reached ∧
      (w.current = 3 ∧ w.generator.place = 3 ∧ (w.rewards == [10.0]) = true) ∧
      w.reset.reseed 11 = .ofSeed p.dynamics 11 ∧
      (Session.startSeeded p.dynamics.toModel w 11).run p.dynamics.toModel
          [.move .restart, .move .wander, .full true, .move (.step (some (.index 1)))] =
        (start p.dynamics 11).run p.dynamics.toModel
          [.move .restart, .move .wander, .full true, .move (.step (some (.index 1)))] := by
  have hfacts : Gallery.twins.toOption.map (fun p =>
      let w := (((Walker.ofSeed p.dynamics 7).step 0).2.reseed 3).wander.2
      (w.current, w.generator.place, w.rewards == [10.0])) = some (3, 3, true) := by
    decide +kernel
  obtain ⟨p, htwins, hp, -⟩ := Gallery.twins_validated
  rw [htwins] at hfacts
  obtain ⟨hplace, hrest⟩ := Prod.mk.inj (Option.some.inj hfacts)
  obtain ⟨hdrawn, hreward⟩ := Prod.mk.inj hrest
  have hw : (((Walker.ofSeed p.dynamics 7).step 0).2.reseed 3).wander.2.Reached :=
    .wander (.reseed 3 (.step 0 (.ofSeed 7)))
  obtain ⟨⟨-, hnew⟩, -, hrun⟩ := renewed_walk_is_new hp hw 11
  exact ⟨p, htwins, hp, _, rfl, hw, ⟨hplace, hdrawn, hreward⟩, hnew, hrun _⟩

end MarkovSim
