import MarkovSim.Proofs.Gallery
import MarkovSim.Proofs.Session.Modes
import MarkovSim.Proofs.Walk

/-!
# Sessions over sound dynamics

A session is safe while it is usable, stands in a state of its model and has consistent modes. Over
sound dynamics every demand on the walker of a safe session is met and every state it reaches can be
shown, so no request ends safety (`Safe.outcome`) and no run does (`Safe.run`). A simulator of a
validated model is safe from the start, which makes it one that never breaks.
-/

namespace MarkovSim

namespace Session

/-! ## Refusals that leave a session usable -/

section Refusals

variable {ε : Type} [Engine ε] {m : Model} {s : Session ε} {e : Refusal}

theorem fatal_menu (h : s.menu m = .error e) : e.fatal = false := by
  unfold menu at h
  split at h
  · cases h
  · cases hn : s.offeredNames m with
    | error e' =>
      rw [hn] at h
      cases h
      exact Refusal.fatal_of_aboutAction (aboutAction_offeredNames hn)
    | ok names => rw [hn] at h; cases h

theorem fatal_demand {mv : Move} (h : s.demand m mv = .error e) : e.fatal = false := by
  obtain ⟨action, -, ho⟩ := demand_eq_error h
  exact Refusal.fatal_of_aboutAction (aboutAction_offsetOf ho)

omit [Engine ε] in
theorem fatal_setting {s' : Session ε} {r : Request} (h : s.setting m r = some (.error e, s')) :
    e.fatal = false := by
  cases r with
  | move mv => cases h
  | perspective p =>
    obtain ⟨-, ⟨-, rfl⟩ | ⟨-, -, rfl⟩, -⟩ := switchPerspective_eq_error.1 (Option.some.inj h)
    · rfl
    · rfl
  | addressing a =>
    obtain ⟨⟨-, -, rfl⟩, -⟩ := switchAddressing_eq_error.1 (Option.some.inj h)
    rfl
  | full value =>
    obtain ⟨-, ⟨-, rfl⟩ | ⟨-, -, rfl⟩, -⟩ := switchFull_eq_error.1 (Option.some.inj h)
    · rfl
    · rfl

end Refusals

/-! ## Menus -/

section Menus

variable {ε : Type} [Engine ε] {m : Model} {s : Session ε}

theorem menu_of_offsets (h : s.addressing = .offsets) :
    s.menu m = .ok (.offsets 0 (s.actionCount m)) := by
  unfold menu
  rw [h]

theorem length_menu {menu : Menu} (h : s.menu m = .ok menu) :
    menu.toList.length = s.actionCount m ∧ menu.length = s.actionCount m := by
  unfold Session.menu at h
  split at h
  · cases h
    simp [Menu.toList, Menu.length]
  · cases hn : s.offeredNames m with
    | error e => rw [hn] at h; cases h
    | ok names =>
      rw [hn] at h
      cases h
      simp [Menu.toList, Menu.length, length_offeredNames hn]

theorem offsetOf_index (h : s.addressing = .offsets) (i : Nat) :
    s.offsetOf m (some (.index i)) =
      if i < s.actionCount m then .ok i else .error (.outOfRange i (s.actionCount m)) := by
  unfold offsetOf
  rw [h]

end Menus

/-! ## Safety -/

variable {d : Dynamics}

/-- A session that is usable, in a state of its model and in consistent modes. -/
structure Safe (s : Session (Walker d)) : Prop where
  usable : s.faulted = false
  placed : s.current < d.stateCount
  consistent : s.Consistent d.toModel

section Sound

variable (hd : d.Sound)
include hd

theorem Fresh.safe {s : Session (Walker d)} (h : s.Fresh) : s.Safe := by
  refine ⟨h.usable, ?_, h.consistent⟩
  show s.engine.current < d.stateCount
  rw [h.engine]
  exact hd.initial_lt

theorem Safe.actionCount_eq {s : Session (Walker d)} (h : s.Safe) :
    s.actionCount d.toModel = d.actionCount s.current := by
  unfold actionCount
  cases hn : d.nondeterministic with
  | true => rfl
  | false => exact (hd.actionCount_chain hn s.current h.placed).symm

theorem Safe.actionCount_pos {s : Session (Walker d)} (h : s.Safe) :
    0 < s.actionCount d.toModel := by
  rw [h.actionCount_eq hd]
  exact hd.actionCount_pos s.current h.placed

/-- What a safe session asks of its walker is done, and leads to a state and a reward. -/
theorem Safe.demand_met {s : Session (Walker d)} (h : s.Safe) {mv : Move} {dm : Demand}
    (hdm : s.demand d.toModel mv = .ok dm) :
    (dm.apply s.engine).1 = true ∧ (dm.apply s.engine).2.current < d.stateCount ∧
      (dm.apply s.engine).2.reward.isNaN = false := by
  obtain ⟨-, rfl⟩ | ⟨-, rfl⟩ | ⟨action, k, -, rfl, ho⟩ := demand_eq_ok hdm
  · exact ⟨rfl, Walker.reset_sound hd s.engine⟩
  · exact Walker.wander_sound hd h.placed
  · have hk := (addressed_of_offsetOf ho).lt
    rw [h.actionCount_eq hd] at hk
    exact Walker.step_sound hd h.placed hk

theorem Safe.moved {s : Session (Walker d)} (h : s.Safe) {mv : Move} {dm : Demand}
    (hdm : s.demand d.toModel mv = .ok dm) : Safe { s with engine := (dm.apply s.engine).2 } :=
  ⟨h.usable, (h.demand_met hd hdm).2.1, h.consistent.of_modes rfl rfl rfl rfl⟩

theorem Safe.report_eq_ok {s : Session (Walker d)} (h : s.Safe) :
    ∃ o, s.report d.toModel = .ok ⟨o, s.engine.reward⟩ :=
  h.consistent.report_eq_ok (fun hpart => hd.observation hpart _ h.placed)
    fun v hv => hd.record v hv _ h.placed

theorem Safe.perform_eq_ok {s : Session (Walker d)} (h : s.Safe) {mv : Move} {dm : Demand}
    (hdm : s.demand d.toModel mv = .ok dm) :
    ∃ r, report d.toModel { s with engine := (dm.apply s.engine).2 } = .ok r ∧
      s.perform d.toModel mv = (.ok r, { s with engine := (dm.apply s.engine).2 }) := by
  obtain ⟨o, ho⟩ := (h.moved hd hdm).report_eq_ok hd
  refine ⟨_, ho, ?_⟩
  rw [perform_of_demand h.usable hdm]
  unfold afterMove settle
  rw [if_pos (h.demand_met hd hdm).1, ho]

/-- A move of a safe session is turned down and changes nothing, or is made and shown. -/
theorem Safe.perform_cases {s : Session (Walker d)} (h : s.Safe) (mv : Move) :
    (∃ e, s.perform d.toModel mv = (.error e, s)) ∨
      ∃ dm r, s.demand d.toModel mv = .ok dm ∧
        report d.toModel { s with engine := (dm.apply s.engine).2 } = .ok r ∧
        s.perform d.toModel mv = (.ok r, { s with engine := (dm.apply s.engine).2 }) := by
  cases hdm : s.demand d.toModel mv with
  | error e => exact Or.inl ⟨e, perform_of_demand_error h.usable hdm⟩
  | ok dm =>
    obtain ⟨r, hr, hperform⟩ := h.perform_eq_ok hd hdm
    exact Or.inr ⟨dm, r, rfl, hr, hperform⟩

/-- No request ends safety, and no refusal is fatal. -/
theorem Safe.outcome {s s' : Session (Walker d)} {r : Request} {answer : Answer} (h : s.Safe)
    (ho : Outcome d.toModel s r answer s') :
    s'.Safe ∧ ∀ e, answer = .error e → e.fatal = false := by
  have hconsistent := h.consistent.outcome ho
  cases ho with
  | faulted mv hf => rw [h.usable] at hf; cases hf
  | refused _ hdm =>
    refine ⟨h, fun e he => ?_⟩
    cases he
    exact fatal_demand hdm
  | failed _ hdm _ hm => rw [(h.demand_met hd hdm).1] at hm; cases hm
  | unseen _ hdm _ hr =>
    obtain ⟨o, ho⟩ := (h.moved hd hdm).report_eq_ok hd
    rw [hr] at ho
    cases ho
  | made _ hdm _ _ => exact ⟨h.moved hd hdm, fun e he => by cases he⟩
  | kept hs =>
    refine ⟨h, fun e he => ?_⟩
    cases he
    exact fatal_setting hs
  | switched hs =>
    obtain ⟨hengine, -, hfault⟩ := setting_frame hs
    refine ⟨⟨hfault.trans h.usable, ?_, hconsistent⟩, fun e he => by cases he⟩
    show Engine.current s'.engine < d.stateCount
    rw [hengine]
    exact h.placed

/-- No run ends safety, and no refusal on the way is fatal. -/
theorem Safe.run {s : Session (Walker d)} (h : s.Safe) (rs : List Request) :
    (s.run d.toModel rs).2.Safe ∧
      ∀ e, .error e ∈ (s.run d.toModel rs).1 → e.fatal = false := by
  induction rs generalizing s with
  | nil => exact ⟨h, fun e he => by cases he⟩
  | cons r rs ih =>
    obtain ⟨hsafe, hanswer⟩ := h.outcome hd (handle_outcome d.toModel s r)
    obtain ⟨hend, hrest⟩ := ih hsafe
    refine ⟨hend, fun e he => ?_⟩
    rcases List.mem_cons.1 he with he | he
    · exact hanswer e he.symm
    · exact hrest e he

/-- An index is accepted exactly where an action with that offset is on offer. -/
theorem Safe.step_index_iff {s : Session (Walker d)} (h : s.Safe) (ha : s.addressing = .offsets)
    (i : Nat) :
    (∃ r, (s.step d.toModel (some (.index i))).1 = .ok r) ↔ i < s.actionCount d.toModel := by
  have hoffset := offsetOf_index (m := d.toModel) ha i
  by_cases hi : i < s.actionCount d.toModel
  · rw [if_pos hi] at hoffset
    have hdm : s.demand d.toModel (.step (some (.index i))) = .ok (.step i) := by
      simp only [demand, hoffset, Except.map]
    obtain ⟨r, -, hr⟩ := h.perform_eq_ok hd hdm
    exact ⟨fun _ => hi, fun _ => ⟨r, congrArg Prod.fst hr⟩⟩
  · rw [if_neg hi] at hoffset
    have hdm : s.demand d.toModel (.step (some (.index i))) =
        .error (.outOfRange i (s.actionCount d.toModel)) := by
      simp only [demand, hoffset, Except.map]
    have hr := congrArg Prod.fst (perform_of_demand_error h.usable hdm)
    refine ⟨fun hok => ?_, fun hlt => absurd hlt hi⟩
    obtain ⟨r, hok⟩ := hok
    have herror := hok.symm.trans hr
    cases herror

end Sound

end Session

/-- A validated model never breaks its simulator. Whatever has been asked of it, no answer was fatal
and the simulator is not faulted, stands in a state of the model, and can move at random and restart.
It offers the choices of its state, at least one, and lists as many; by offset it takes exactly those. -/
theorem Simulation.validated_never_breaks {p : ExplicitModel} (hp : p.Validated) {c : Settings}
    {drawn : UInt64} {sim : Simulation} (h : create p.source c drawn = .ok sim) {rs : List Request}
    {answers : List Answer} {s : Session (Walker sim.dynamics)}
    (hrun : sim.session.run p.dynamics.toModel rs = (answers, s)) :
    (∀ e, .error e ∈ answers → e.fatal = false) ∧
    s.faulted = false ∧
    s.current < p.dynamics.stateCount ∧
    (∃ r, (s.wander p.dynamics.toModel).1 = .ok r) ∧
    (∃ r, (s.restart p.dynamics.toModel).1 = .ok r) ∧
    (∀ e, s.menu p.dynamics.toModel = .error e → e.fatal = false) ∧
    1 ≤ s.actionCount p.dynamics.toModel ∧
    s.actionCount p.dynamics.toModel = p.table.choiceCount s.current ∧
    (∀ menu, s.menu p.dynamics.toModel = .ok menu →
      menu.toList.length = s.actionCount p.dynamics.toModel ∧
        menu.length = s.actionCount p.dynamics.toModel) ∧
    (s.addressing = .offsets →
      (∃ menu, s.menu p.dynamics.toModel = .ok menu) ∧
      ∀ i, (∃ r, (s.step p.dynamics.toModel (some (.index i))).1 = .ok r) ↔
        i < s.actionCount p.dynamics.toModel) := by
  have hd := hp.sound
  obtain ⟨s₀, rfl, hfresh, -⟩ := create_eq_ok (d := p.dynamics) rfl h
  have hsafe := (hfresh.safe hd).run hd rs
  rw [hrun] at hsafe
  obtain ⟨hs, hanswers⟩ := hsafe
  obtain ⟨r, -, hwander⟩ := hs.perform_eq_ok hd (show s.demand _ .wander = .ok .wander from rfl)
  obtain ⟨r', -, hrestart⟩ := hs.perform_eq_ok hd (show s.demand _ .restart = .ok .restart from rfl)
  exact ⟨hanswers, hs.usable, hs.placed, ⟨r, congrArg Prod.fst hwander⟩,
    ⟨r', congrArg Prod.fst hrestart⟩, fun e => Session.fatal_menu, hs.actionCount_pos hd,
    hs.actionCount_eq hd, fun menu => Session.length_menu,
    fun ha => ⟨⟨_, Session.menu_of_offsets ha⟩, hs.step_index_iff hd ha⟩⟩

/-- With its states hidden, the process of two states that look alike does not break under requests
of which some are turned down. -/
theorem Simulation.hidden_twins_never_break :
    ∃ p sim answers s, Gallery.twins = .ok p ∧
      create p.source { full := some false } 7 = .ok sim ∧
      sim.session.run p.dynamics.toModel
        [.move .wander, .perspective .records, .move (.step (some (.index 5))), .full true,
          .perspective .records, .move (.step none)] = (answers, s) ∧
      s.faulted = false ∧ s.current < p.dynamics.stateCount ∧
      ∃ r, (s.wander p.dynamics.toModel).1 = .ok r := by
  obtain ⟨p, htwins, hp, hpart, -⟩ := Gallery.twins_validated
  have hcreate := create_of_fits p.source rfl rfl (c := { full := some false })
    ⟨fun _ => hpart, nofun, nofun⟩ 7
  refine ⟨p, _, _, _, htwins, hcreate, (Prod.eta _).symm, ?_⟩
  obtain ⟨-, hfault, hplace, hwander, -⟩ := validated_never_breaks hp hcreate (Prod.eta _).symm
  exact ⟨hfault, hplace, hwander⟩

end MarkovSim
