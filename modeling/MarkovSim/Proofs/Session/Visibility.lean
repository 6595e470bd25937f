import MarkovSim.Model.Variant
import MarkovSim.Proofs.Session.Fault
import MarkovSim.Proofs.Session.Modes

/-!
# What every session can show

`Session.Reached` holds of the sessions that requests can lead to, over any engine; the session of a
simulator that was created is among them (`reached_of_create`). Their modes are consistent, also after
requests that were turned down and after a fault (`Reached.consistent`). So a state that is reached by a
move is kept from being shown only by a missing class or a missing row, and never by the modes
themselves.

In every session that can be reached:

1. States are hidden only if the model is partially observable.
2. Records are shown only of states that are not hidden. The valuations kept are those of the model while
   records are shown, and none otherwise.
3. Actions are named only if the model has choice labels.
4. No move is turned down because records of hidden states, or classes of states that have none, were asked
   for.
-/

namespace MarkovSim

namespace Session

variable {ε : Type} [Engine ε] {m : Model}

/-- The sessions that can be reached over a model: opened on an engine, seeded anew or not, and then
asked for anything in any order. -/
inductive Reached (m : Model) : Session ε → Prop
  | start (engine : ε) (seed : UInt64) : Reached m (start m engine seed)
  | startSeeded (engine : ε) (seed : UInt64) : Reached m (startSeeded m engine seed)
  | handle {s : Session ε} (r : Request) : Reached m s → Reached m (s.handle m r).2

theorem Reached.run {s : Session ε} (h : s.Reached m) (rs : List Request) :
    (s.run m rs).2.Reached m := by
  induction rs generalizing s with
  | nil => exact h
  | cons r rs ih => exact ih (h.handle r)

theorem Reached.switch {s s' : Session ε} {r : Request} (h : s.Reached m)
    (hr : s.setting m r = some (.ok (), s')) : s'.Reached m := by
  have hhandle := h.handle r
  rwa [handle_setting hr] at hhandle

theorem reached_of_create {src : Source} {d : Dynamics} (hsrc : src.shared = some d) {c : Settings}
    {drawn : UInt64} {s : Session (Walker d)} (h : Simulation.create src c drawn = .ok ⟨d, s⟩) :
    s.Reached d.toModel := by
  obtain ⟨t, ht, hreached⟩ := Simulation.create_invariant hsrc (P := Reached d.toModel)
    (fun _ _ _ hs hr => hs.switch hr) (.start _ _) h
  cases ht
  exact hreached

theorem Reached.consistent {s : Session ε} (h : s.Reached m) : s.Consistent m := by
  induction h with
  | start engine seed => exact .start m engine seed
  | startSeeded engine seed => exact .start m _ seed
  | handle r _ ih => exact ih.outcome (handle_outcome m _ r)

theorem Missing.ne_of_modes {s : Session ε} {e : Refusal} (h : Missing m s e) :
    e ≠ .hiddenRecords ∧ e ≠ .misconfigured .noClasses := by
  cases h with
  | observation => exact ⟨nofun, nofun⟩
  | row => exact ⟨nofun, nofun⟩

/-- No move of a consistent session is turned down for its modes. -/
theorem Consistent.ne_of_modes {s s' : Session ε} {mv : Move} {e : Refusal} (h : s.Consistent m)
    (ho : Outcome m s (.move mv) (.error e) s') :
    e ≠ .hiddenRecords ∧ e ≠ .misconfigured .noClasses := by
  have hconsistent := h.outcome ho
  cases ho with
  | faulted => exact ⟨nofun, nofun⟩
  | refused _ hdm =>
    obtain ⟨action, -, haction⟩ := demand_eq_error hdm
    have habout := aboutAction_offsetOf haction
    constructor
    · rintro rfl
      cases habout
    · rintro rfl
      cases habout
  | failed => exact ⟨nofun, nofun⟩
  | unseen _ _ _ hr =>
    exact (hconsistent.view_eq_error_iff.1 (report_eq_error.1 hr)).ne_of_modes
  | kept hs => cases hs

/-- The modes of every session that can be reached agree with each other and with the model, also after
refusals and after a fault. What keeps the state after a move from being shown is a missing class or a
missing row of that state. -/
theorem modes_agree_throughout {s : Session ε} (h : s.Reached m) :
    (s.full = false → m.partiallyObservable = true) ∧
    (s.perspective = .records → s.full = true) ∧
    (s.perspective = .records → m.valuations.isSome ∧ s.valuations = m.valuations) ∧
    (s.perspective ≠ .records → s.valuations = none) ∧
    (s.addressing = .names → m.choiceLabels.isSome) ∧
    (∀ mv e, s.ViewFails m (.move mv) e ↔
      (∃ d : Demand, .demand d true ∈ s.uses m (.move mv)) ∧
        Missing m (s.handle m (.move mv)).2 e) ∧
    (∀ mv e, (s.handle m (.move mv)).1 = .error e →
      e ≠ .hiddenRecords ∧ e ≠ .misconfigured .noClasses) := by
  have hc := h.consistent
  refine ⟨hc.hidden, fun hp => (hc.records hp).2, fun hp => ⟨(hc.records hp).1, ?_⟩, fun hp => ?_,
    hc.names, fun mv e => ?_, fun mv e he => ?_⟩
  · rw [hc.valuations, hp]
    rfl
  · rw [hc.valuations]
    cases hstates : s.perspective with
    | states => rfl
    | records => exact absurd hstates hp
  · exact and_congr_right fun _ => (h.handle (.move mv)).consistent.view_eq_error_iff
  · have ho := handle_outcome m s (.move mv)
    rw [he] at ho
    exact hc.ne_of_modes ho

/-- The process of two states that look alike, with the class of its first state lost. A session over it
that was twice asked for records of hidden states shows records of open ones; one that hides its states
fails at a restart, for want of that class. -/
theorem classless_twins_agree :
    ∃ p d, Gallery.twins = .ok p ∧ d = (p.source.losing { hidden := [0] }).own ∧
      (∃ s : Session (Walker d), s.Reached d.toModel ∧ s.perspective = .records ∧ s.full = true ∧
        d.valuations.isSome ∧ s.valuations = d.valuations) ∧
      ∃ s : Session (Walker d), s.Reached d.toModel ∧ s.full = false ∧
        s.ViewFails d.toModel (.move .restart) (.misconfigured (.noClassOf 0)) := by
  have hfacts : Gallery.twins.toOption.map (fun p =>
      let d := (p.source.losing { hidden := [0] }).own
      let s : Session (Walker d) := start d.toModel (.ofSeed d 7) 7
      let t := (s.handle d.toModel (.move .restart)).2
      ((s.run d.toModel [.perspective .records, .full true, .perspective .records,
        .full false]).2.perspective, s.full, t.full, t.current, d.observation t.current)) =
      some (.records, false, false, 0, none) := by
    decide +kernel
  obtain ⟨p, htwins, -⟩ := Gallery.twins_validated
  rw [htwins] at hfacts
  simp only [Except.toOption, Option.map_some, Option.some.injEq, Prod.mk.injEq] at hfacts
  obtain ⟨hrecords, hhidden, hfull, hplace, hclass⟩ := hfacts
  have hstart := Reached.start (m := (p.source.losing { hidden := [0] }).own.toModel)
    (Walker.ofSeed (p.source.losing { hidden := [0] }).own 7) 7
  have hopen := hstart.run [.perspective .records, .full true, .perspective .records, .full false]
  obtain ⟨-, hshown, hvaluations, -⟩ := modes_agree_throughout hopen
  obtain ⟨-, -, -, -, -, hviews, -⟩ := modes_agree_throughout hstart
  refine ⟨p, _, htwins, rfl, ⟨_, hopen, hrecords, hshown hrecords, hvaluations hrecords⟩,
    _, hstart, hhidden, (hviews .restart _).2 ⟨⟨.restart, ?_⟩, ?_⟩⟩
  · rw [uses_of_demand rfl rfl]
    exact List.mem_singleton_self _
  · have hmissing := Missing.observation hfull hclass
    rwa [hplace] at hmissing

end Session

end MarkovSim
