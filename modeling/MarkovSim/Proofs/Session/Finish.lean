import MarkovSim.Proofs.Gallery
import MarkovSim.Proofs.Session.Modes
import MarkovSim.Proofs.Walk

/-!
# Finished runs

A session in a trap stays in its state until it is restarted: a demand other than a restart moves the
walker along a branch of an offered action, all of which lead back (`current_of_trap`), and a change
of settings does not move it. The sinks of a validated model are traps, so there a session that is
finished stays finished.
-/

namespace MarkovSim

namespace Demand

variable {d : Dynamics}

theorem current_of_trap {w : Walker d} (hw : d.Trap w.current) {dm : Demand}
    (hdm : dm ≠ .restart) : (dm.apply w).2.current = w.current := by
  cases dm with
  | restart => exact absurd rfl hdm
  | step k => exact Walker.step_current_of_trap hw k
  | wander => exact Walker.wander_current_of_trap hw

end Demand

namespace Session

theorem demand_ne_restart {ε : Type} [Engine ε] {m : Model} {s : Session ε} {mv : Move}
    {dm : Demand} (h : s.demand m mv = .ok dm) (hmv : mv ≠ .restart) : dm ≠ .restart := by
  obtain ⟨rfl, -⟩ | ⟨-, rfl⟩ | ⟨action, k, -, rfl, -⟩ := demand_eq_ok h
  · exact absurd rfl hmv
  · exact fun h => nomatch h
  · exact fun h => nomatch h

variable {d : Dynamics} {s s' : Session (Walker d)}

theorem current_of_demand (ht : d.Trap s.current) {mv : Move} {dm : Demand}
    (hdm : s.demand d.toModel mv = .ok dm) (hmv : Request.move mv ≠ .move .restart) :
    (dm.apply s.engine).2.current = s.current :=
  Demand.current_of_trap ht (demand_ne_restart hdm fun h => hmv (congrArg Request.move h))

/-- No request but a restart leads out of a trap, also one after which the session is faulted. -/
theorem Outcome.current_of_trap {r : Request} {answer : Answer}
    (ho : Outcome d.toModel s r answer s') (ht : d.Trap s.current) (hr : r ≠ .move .restart) :
    s'.current = s.current := by
  cases ho with
  | faulted | refused | kept => rfl
  | failed _ hdm | unseen _ hdm | made _ hdm => exact current_of_demand ht hdm hr
  | switched hs =>
    show Engine.current s'.engine = Engine.current s.engine
    rw [(setting_frame hs).1]

theorem run_current_of_trap (ht : d.Trap s.current) {rs : List Request}
    (hrs : .move .restart ∉ rs) : (s.run d.toModel rs).2.current = s.current := by
  induction rs generalizing s with
  | nil => rfl
  | cons r rs ih =>
    have hr : r ≠ .move .restart := fun h => hrs (h ▸ List.mem_cons_self)
    have hstep := (handle_outcome d.toModel s r).current_of_trap ht hr
    have hrest := ih (s := (s.handle d.toModel r).2) (by rwa [hstep])
      fun h => hrs (List.mem_cons_of_mem _ h)
    exact hrest.trans hstep

end Session

/-- A simulator of a validated model that has come to an end stays there: whatever else is asked of
it, short of a restart, it is in the same state and still at an end. -/
theorem Simulation.finished_stays_finished {p : ExplicitModel} (hp : p.Validated) {c : Settings}
    {drawn : UInt64} {sim : Simulation} (h : create p.source c drawn = .ok sim) {rs : List Request}
    {answers : List Answer} {s : Session (Walker sim.dynamics)}
    (hrun : sim.session.run p.dynamics.toModel rs = (answers, s))
    (hdone : s.isFinished p.dynamics.toModel = true) {later : List Request}
    (hlater : .move .restart ∉ later) {answers' : List Answer}
    {s' : Session (Walker sim.dynamics)}
    (hrun' : s.run p.dynamics.toModel later = (answers', s')) :
    s'.current = s.current ∧ s'.isFinished p.dynamics.toModel = true := by
  obtain ⟨s₀, rfl, -⟩ := create_eq_ok (d := p.dynamics) rfl h
  have hcurrent := Session.run_current_of_trap (hp.trap_of_isSink hdone) hlater
  rw [hrun'] at hcurrent
  refine ⟨hcurrent, ?_⟩
  show p.dynamics.isSink s'.current = true
  rw [hcurrent]
  exact hdone

/-- The chain comes to an end in its second state with its first move. Further moves, a setting that
is granted, one that is not and an action that is not on offer leave it there. -/
theorem Simulation.chain_stays_finished :
    ∃ p sim answers s answers' s', Gallery.chain = .ok p ∧
      create p.source {} 7 = .ok sim ∧
      sim.session.run p.dynamics.toModel [.move (.step none)] = (answers, s) ∧
      s.isFinished p.dynamics.toModel = true ∧
      s.run p.dynamics.toModel
        [.move .wander, .perspective .records, .addressing .names,
          .move (.step (some (.index 1))), .move (.step none)] = (answers', s') ∧
      s'.current = s.current ∧ s'.isFinished p.dynamics.toModel = true := by
  have hfacts : Gallery.chain.toOption.map (fun p =>
      ((({} : Settings).target p.dynamics.toModel (start p.dynamics 7)).run p.dynamics.toModel
        [.move (.step none)]).2.isFinished p.dynamics.toModel) = some true := by
    decide +kernel
  obtain ⟨p, hchain, hp⟩ := Gallery.chain_validated
  rw [hchain] at hfacts
  have hdone := Option.some.inj hfacts
  have hcreate := create_of_fits p.source rfl rfl (c := {}) ⟨by simp, nofun, nofun⟩ 7
  exact ⟨p, _, _, _, _, _, hchain, hcreate, (Prod.eta _).symm, hdone, (Prod.eta _).symm,
    finished_stays_finished hp hcreate (Prod.eta _).symm hdone (by decide) (Prod.eta _).symm⟩

end MarkovSim
