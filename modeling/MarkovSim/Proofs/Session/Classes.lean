import MarkovSim.Proofs.Assembly
import MarkovSim.Proofs.Session.Safety
import MarkovSim.Proofs.Session.Visibility
import MarkovSim.Proofs.Walk.Contract

/-!
# What an observation class tells

Two states of one class have equally many choices (`Validated.actionCount_of_class`), and by offset a
session answers requests for actions from the number of choices alone (`offsetOf_congr`). A session over
a validated model that can be reached and stands in a state of the model is safe, whichever walker it
was opened on (`Reached.safe`), so what is not turned down is done. Together: from what is offered and
what is accepted nobody can tell two states of one class apart.

The sessions are any two over a validated model that can be reached, on whatever walkers, that address
actions by offset.
-/

namespace MarkovSim

namespace Session

/-! ## Actions by offset -/

section Offsets

variable {α β : Type} [Engine α] [Engine β] {m : Model} {s : Session α} {t : Session β}

theorem offsetOf_congr (hs : s.addressing = .offsets) (ht : t.addressing = .offsets)
    (hcount : s.actionCount m = t.actionCount m) (action : Option Action) :
    s.offsetOf m action = t.offsetOf m action := by
  cases action with
  | none => simp only [offsetOf, hcount]
  | some action => cases action <;> simp only [offsetOf, hs, ht, hcount]

theorem actionCount_congr (h : m.actionCount s.current = m.actionCount t.current) :
    s.actionCount m = t.actionCount m := by
  unfold actionCount
  rw [h]

end Offsets

/-! ## Sessions on any walker -/

variable {d : Dynamics}

theorem current_of_unmet {w : Walker d} {dm : Demand} (h : (dm.apply w).1 = false) :
    (dm.apply w).2.current = w.current := by
  cases dm with
  | restart => cases h
  | step k => exact congrArg Walker.current (Walker.step_of_false h)
  | wander => exact (Walker.wander_of_false h).1

section Sound

variable (hd : d.Sound)
include hd

/-- A request after which a session is faulted leaves it outside the states of the model, if it was
there whenever it was faulted before. -/
theorem Outcome.outside_of_faulted {s s' : Session (Walker d)} {r : Request} {answer : Answer}
    (ho : Outcome d.toModel s r answer s') (hc : s.Consistent d.toModel)
    (hs : s.faulted = true → d.stateCount ≤ s.current) (hf : s'.faulted = true) :
    d.stateCount ≤ s'.current := by
  cases ho with
  | faulted => exact hs hf
  | refused => exact hs hf
  | kept => exact hs hf
  | @failed mv dm call husable hdm _ hm =>
    show d.stateCount ≤ (dm.apply s.engine).2.current
    rw [current_of_unmet hm]
    by_contra hplaced
    have hsafe : s.Safe := ⟨husable, Nat.lt_of_not_le hplaced, hc⟩
    rw [(hsafe.demand_met hd hdm).1] at hm
    cases hm
  | @unseen mv dm e husable hdm _ hr =>
    by_contra hplaced
    have hsafe : Safe { s with engine := (dm.apply s.engine).2 } :=
      ⟨husable, Nat.lt_of_not_le hplaced, hc.of_modes rfl rfl rfl rfl⟩
    obtain ⟨o, ho⟩ := hsafe.report_eq_ok hd
    rw [hr] at ho
    cases ho
  | made husable =>
    have hf : s.faulted = true := hf
    rw [husable] at hf
    cases hf
  | switched hset =>
    obtain ⟨hengine, -, hfault⟩ := setting_frame hset
    show d.stateCount ≤ Engine.current s'.engine
    rw [hengine]
    exact hs (hfault.symm.trans hf)

theorem Reached.outside_of_faulted {s : Session (Walker d)} (h : s.Reached d.toModel) :
    s.faulted = true → d.stateCount ≤ s.current := by
  induction h with
  | start => exact fun hf => nomatch hf
  | startSeeded => exact fun hf => nomatch hf
  | handle r hs ih => exact (handle_outcome d.toModel _ r).outside_of_faulted hd hs.consistent ih

theorem Reached.safe {s : Session (Walker d)} (h : s.Reached d.toModel)
    (hplaced : s.current < d.stateCount) : s.Safe := by
  refine ⟨?_, hplaced, h.consistent⟩
  cases hf : s.faulted with
  | false => rfl
  | true => exact absurd hplaced (Nat.not_lt.2 (h.outside_of_faulted hd hf))

end Sound

/-- Classes give nothing away by offsets: sessions in states of one class list the same actions, and
whatever action is asked for, or none, both turn it down for the same reason and stay as they are, or
both take it. -/
theorem classes_alike_by_offsets {p : ExplicitModel} (hp : p.Validated)
    {s t : Session (Walker p.dynamics)} (hs : s.Reached p.dynamics.toModel)
    (ht : t.Reached p.dynamics.toModel) (hso : s.addressing = .offsets) (hto : t.addressing = .offsets)
    {o : Nat} (hsc : p.dynamics.observation s.current = some o)
    (htc : p.dynamics.observation t.current = some o) :
    (∃ menu, s.menu p.dynamics.toModel = .ok menu ∧ t.menu p.dynamics.toModel = .ok menu) ∧
    ∀ action,
      (∃ e, s.step p.dynamics.toModel action = (.error e, s) ∧
        t.step p.dynamics.toModel action = (.error e, t)) ∨
      ((∃ r, (s.step p.dynamics.toModel action).1 = .ok r) ∧
        ∃ r, (t.step p.dynamics.toModel action).1 = .ok r) := by
  have hd := hp.sound
  obtain ⟨hsplaced, hactions⟩ := hp.actionCount_of_class hsc htc
  have hssafe := hs.safe hd hsplaced
  have htsafe := ht.safe hd (hp.actionCount_of_class htc hsc).1
  have hcount := actionCount_congr (m := p.dynamics.toModel) hactions
  refine ⟨⟨_, menu_of_offsets hso, by rw [menu_of_offsets hto, hcount]⟩, fun action => ?_⟩
  have hdemand : s.demand p.dynamics.toModel (.step action) =
      t.demand p.dynamics.toModel (.step action) :=
    congrArg (Except.map Demand.step) (offsetOf_congr hso hto hcount action)
  cases hdm : s.demand p.dynamics.toModel (.step action) with
  | error e =>
    exact Or.inl ⟨e, perform_of_demand_error hssafe.usable hdm,
      perform_of_demand_error htsafe.usable (hdemand.symm.trans hdm)⟩
  | ok dm =>
    obtain ⟨r, -, hsr⟩ := hssafe.perform_eq_ok hd hdm
    obtain ⟨r', -, htr⟩ := htsafe.perform_eq_ok hd (hdemand.symm.trans hdm)
    exact Or.inr ⟨⟨r, congrArg Prod.fst hsr⟩, ⟨r', congrArg Prod.fst htr⟩⟩

/-- One session of the process of two states that look alike was created to show its states and went to
the first of the two, another hides them and went to the second. They list the same actions, and answer
an action that is not on offer alike. -/
theorem twins_alike_by_offsets :
    ∃ p, Gallery.twins = .ok p ∧ p.Validated ∧ ∃ s t : Session (Walker p.dynamics),
      s.Reached p.dynamics.toModel ∧ t.Reached p.dynamics.toModel ∧
      s.current = 1 ∧ t.current = 2 ∧ s.full = true ∧ t.full = false ∧
      p.dynamics.observation s.current = some 1 ∧ p.dynamics.observation t.current = some 1 ∧
      (∃ menu, s.menu p.dynamics.toModel = .ok menu ∧ t.menu p.dynamics.toModel = .ok menu) ∧
      ∃ e, s.step p.dynamics.toModel (some (.index 2)) = (.error e, s) ∧
        t.step p.dynamics.toModel (some (.index 2)) = (.error e, t) := by
  have hshown : Gallery.twins.toOption.map (fun p =>
      let s := ((({ full := some true } : Settings).target p.dynamics.toModel
        (Simulation.start p.dynamics 1)).run p.dynamics.toModel
          [.move (.step (some (.index 0)))]).2
      (s.current, s.full, s.addressing, p.dynamics.observation s.current,
        (s.step p.dynamics.toModel (some (.index 2))).1.toOption.isSome)) =
      some (1, true, .offsets, some 1, false) := by
    decide +kernel
  have hhidden : Gallery.twins.toOption.map (fun p =>
      let t := ((Simulation.start p.dynamics 0).run p.dynamics.toModel
        [.move (.step (some (.index 0)))]).2
      (t.current, t.full, t.addressing, p.dynamics.observation t.current)) =
      some (2, false, .offsets, some 1) := by
    decide +kernel
  obtain ⟨p, htwins, hp, -⟩ := Gallery.twins_validated
  rw [htwins] at hshown hhidden
  have hshown := Option.some.inj hshown
  have hhidden := Option.some.inj hhidden
  simp only [Prod.mk.injEq] at hshown hhidden
  obtain ⟨hs, hsf, hso, hsc, hrefused⟩ := hshown
  obtain ⟨ht, htf, hto, htc⟩ := hhidden
  have hcreate := Simulation.create_of_fits p.source rfl rfl (c := { full := some true })
    ⟨nofun, nofun, nofun⟩ 1
  have hsr := (reached_of_create rfl hcreate).run [.move (.step (some (.index 0)))]
  have htr := (Reached.start (m := p.dynamics.toModel) (Walker.ofSeed p.dynamics 0) 0).run
    [.move (.step (some (.index 0)))]
  obtain ⟨hmenu, hstep⟩ := classes_alike_by_offsets hp hsr htr hso hto hsc htc
  refine ⟨p, htwins, hp, _, _, hsr, htr, hs, ht, hsf, htf, hsc, htc, hmenu, ?_⟩
  rcases hstep (some (.index 2)) with herror | ⟨⟨r, hr⟩, -⟩
  · exact herror
  · have hnone : (Except.ok r : Except Refusal Report).toOption.isSome = false := by
      rw [← hr]
      exact hrefused
    cases hnone

end Session

end MarkovSim
