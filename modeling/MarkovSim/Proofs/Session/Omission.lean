import MarkovSim.Proofs.Session.Names

/-!
# Actions left out

Where one action is on offer, its listing and a request that leaves the action out come to the same
offset (`offsetOf_of_sole`), and a step is decided by the offset alone (`step_congr`). So the two steps
are the same, over any engine. A model that is not nondeterministic offers one action everywhere, and
there a run that leaves every action out is the run of first offsets (`run_omitted`).

Whatever has been asked of a simulator of a validated model:

1. With one action on offer, as always in a chain, a step without an action is made. If the actions can be
   listed, then the menu lists one, and the step by it gives the same report and leaves the same session.
2. With more on offer a step without an action is turned down with their number.
3. In a chain, by offsets, a run that leaves out all actions is the run that always takes the first, and
   makes every move.
-/

namespace MarkovSim

namespace Session

section Offsets

variable {ε : Type} [Engine ε] {m : Model} {s : Session ε}

theorem step_congr {action other : Option Action} (h : s.offsetOf m action = s.offsetOf m other) :
    s.step m action = s.step m other := by
  unfold step
  rw [h]

theorem offsetOf_omitted (hone : s.actionCount m = 1) : s.offsetOf m none = .ok 0 := by
  simp only [offsetOf, if_pos hone]

theorem addressing_of_menu {start stop : Nat} (h : s.menu m = .ok (.offsets start stop)) :
    s.addressing = .offsets := by
  cases ha : s.addressing with
  | offsets => rfl
  | names =>
    unfold menu at h
    rw [ha] at h
    cases hn : s.offeredNames m <;> simp [hn, Except.map] at h

/-- The menu of a state with one action lists one action, and that is the first offset. -/
theorem offsetOf_of_sole (hone : s.actionCount m = 1) {menu : Menu} (hmenu : s.menu m = .ok menu) :
    ∃ a, menu.toList = [a] ∧ s.offsetOf m (some a) = .ok 0 := by
  have hlength := (length_menu hmenu).1
  rw [hone] at hlength
  cases menu with
  | offsets start stop =>
    have ha : s.addressing = .offsets := addressing_of_menu hmenu
    have hlisted := (menu_of_offsets (m := m) ha).symm.trans hmenu
    rw [hone] at hlisted
    obtain ⟨rfl, rfl⟩ : 0 = start ∧ 1 = stop := by simpa using hlisted
    exact ⟨.index 0, rfl, by simp [offsetOf_index ha, hone]⟩
  | names names =>
    obtain ⟨l, rfl⟩ : ∃ l, names = [l] := List.length_eq_one_iff.1 (by simpa [Menu.toList] using hlength)
    exact ⟨.name l, rfl, offsetOf_name hmenu (by simp [List.idxOf?])⟩

theorem step_of_sole (hone : s.actionCount m = 1) {menu : Menu} (hmenu : s.menu m = .ok menu) :
    ∃ a, menu.toList = [a] ∧ s.step m (some a) = s.step m none := by
  obtain ⟨a, hlist, ha⟩ := offsetOf_of_sole hone hmenu
  exact ⟨a, hlist, step_congr (ha.trans (offsetOf_omitted hone).symm)⟩

end Offsets

/-! ## Chains -/

section Chains

variable {ε : Type} [Engine ε] {m : Model}

theorem actionCount_of_chain (hm : m.nondeterministic = false) (s : Session ε) :
    s.actionCount m = 1 := by
  unfold actionCount
  rw [hm]
  rfl

theorem Outcome.addressing_of_move {s s' : Session ε} {mv : Move} {answer : Answer}
    (h : Outcome m s (.move mv) answer s') : s'.addressing = s.addressing := by
  cases h with
  | switched hs => cases hs
  | _ => rfl

/-- In a chain, by offsets, leaving out every action is the same as always taking the first. -/
theorem run_omitted (hm : m.nondeterministic = false) (n : Nat) :
    ∀ s : Session ε, s.addressing = .offsets →
      s.run m (List.replicate n (.move (.step none))) =
        s.run m (List.replicate n (.move (.step (some (.index 0))))) := by
  induction n with
  | zero =>
    intro s _
    rfl
  | succ n ih =>
    intro s hs
    have hone := actionCount_of_chain hm s
    have hstep : s.step m none = s.step m (some (.index 0)) :=
      step_congr (by simp [offsetOf_omitted hone, offsetOf_index hs, hone])
    have hhandle : s.handle m (.move (.step none)) = s.handle m (.move (.step (some (.index 0)))) := by
      rw [handle_move, handle_move, perform, perform, hstep]
    have haddress := (handle_outcome m s (.move (.step none))).addressing_of_move.trans hs
    simp only [List.replicate_succ, run, ← hhandle, ih _ haddress]

end Chains

/-! ## Safe sessions -/

variable {d : Dynamics} (hd : d.Sound)

include hd in
theorem Safe.step_omitted {s : Session (Walker d)} (h : s.Safe) (hone : s.actionCount d.toModel = 1) :
    ∃ r s', s.step d.toModel none = (.ok r, s') := by
  have hdm : s.demand d.toModel (.step none) = .ok (.step 0) := by
    simp only [demand, offsetOf_omitted hone, Except.map]
  obtain ⟨r, -, hr⟩ := h.perform_eq_ok hd hdm
  exact ⟨r, _, hr⟩

theorem Safe.step_ambiguous {s : Session (Walker d)} (h : s.Safe) (hmany : s.actionCount d.toModel ≠ 1) :
    s.step d.toModel none = (.error (.ambiguous (s.actionCount d.toModel)), s) := by
  have hdm : s.demand d.toModel (.step none) = .error (.ambiguous (s.actionCount d.toModel)) := by
    simp only [demand, offsetOf, if_neg hmany, Except.map]
  exact perform_of_demand_error h.usable hdm

include hd in
/-- A safe session over a chain makes every move that leaves the action out. -/
theorem Safe.run_omitted_ok (hm : d.nondeterministic = false) (n : Nat) :
    ∀ s : Session (Walker d), s.Safe →
      ∀ answer ∈ (s.run d.toModel (List.replicate n (.move (.step none)))).1,
        ∃ r, answer = .ok (some r) := by
  induction n with
  | zero =>
    intro s _ answer hanswer
    simp at hanswer
  | succ n ih =>
    intro s hs answer hanswer
    obtain ⟨r, s', hstep⟩ := hs.step_omitted hd (actionCount_of_chain hm s)
    have hhandle : s.handle d.toModel (.move (.step none)) = (.ok (some r), s') := by
      rw [handle_move, perform, hstep]
      rfl
    have hs' := (hs.outcome hd (handle_outcome d.toModel s (.move (.step none)))).1
    rw [hhandle] at hs'
    rw [List.replicate_succ, Session.run, hhandle] at hanswer
    rcases List.mem_cons.1 hanswer with rfl | hanswer
    · exact ⟨r, rfl⟩
    · exact ih s' hs' answer hanswer

end Session

/-- An action that is left out is the sole action on offer. With more on offer a step without an action is
turned down with their number. -/
theorem Simulation.omitted_is_sole {p : ExplicitModel} (hp : p.Validated) {c : Settings}
    {drawn : UInt64} {sim : Simulation} (h : create p.source c drawn = .ok sim) {rs : List Request}
    {answers : List Answer} {s : Session (Walker sim.dynamics)}
    (hrun : sim.session.run p.dynamics.toModel rs = (answers, s)) :
    (p.kind = .dtmc → s.actionCount p.dynamics.toModel = 1) ∧
    (s.actionCount p.dynamics.toModel = 1 →
      ∃ report s', s.step p.dynamics.toModel none = (.ok report, s') ∧
        ∀ menu, s.menu p.dynamics.toModel = .ok menu →
          ∃ a, menu.toList = [a] ∧ s.step p.dynamics.toModel (some a) = (.ok report, s')) ∧
    (∀ n, 1 < n → s.actionCount p.dynamics.toModel = n →
      s.step p.dynamics.toModel none = (.error (.ambiguous n), s)) ∧
    (p.kind = .dtmc → s.addressing = .offsets → ∀ n,
      s.run p.dynamics.toModel (List.replicate n (.move (.step none))) =
        s.run p.dynamics.toModel (List.replicate n (.move (.step (some (.index 0))))) ∧
      ∀ answer ∈ (s.run p.dynamics.toModel (List.replicate n (.move (.step none)))).1,
        ∃ report, answer = .ok (some report)) := by
  have hd := hp.sound
  obtain ⟨s₀, rfl, hfresh, -⟩ := create_eq_ok (d := p.dynamics) rfl h
  have hs := ((hfresh.safe hd).run hd rs).1
  rw [hrun] at hs
  have hchain : p.kind = .dtmc → p.dynamics.nondeterministic = false := by
    intro hkind
    simp [ExplicitModel.dynamics, hkind, ModelKind.nondeterministic]
  refine ⟨fun hkind => Session.actionCount_of_chain (hchain hkind) s, fun hone => ?_, ?_,
    fun hkind ha n => ⟨Session.run_omitted (hchain hkind) n s ha,
      Session.Safe.run_omitted_ok hd (hchain hkind) n s hs⟩⟩
  · obtain ⟨report, s', hstep⟩ := hs.step_omitted hd hone
    refine ⟨report, s', hstep, fun menu hmenu => ?_⟩
    obtain ⟨a, hlist, ha⟩ := Session.step_of_sole hone hmenu
    exact ⟨a, hlist, ha.trans hstep⟩
  · rintro n hmany rfl
    exact hs.step_ambiguous (Nat.ne_of_gt hmany)

/-- By name, the labeled process asks for an action in its first state, which offers three; in the second
it goes on without one just as by the only name it lists. The chain makes five moves without an action,
and they are those by the first offset. -/
theorem Simulation.grid_and_chain_omit :
    (∃ p s answers t, Gallery.labeledGrid = .ok p ∧
      create p.source { addressing := .names } 7 = .ok ⟨p.dynamics, s⟩ ∧
      s.step p.dynamics.toModel none = (.error (.ambiguous 3), s) ∧
      s.run p.dynamics.toModel [.move (.step (some (.name "north")))] = (answers, t) ∧
      t.menu p.dynamics.toModel = .ok (.names ["north"]) ∧
      ∃ report t', t.step p.dynamics.toModel none = (.ok report, t') ∧
        t.step p.dynamics.toModel (some (.name "north")) = (.ok report, t')) ∧
    ∃ p s, Gallery.chain = .ok p ∧ create p.source {} 7 = .ok ⟨p.dynamics, s⟩ ∧
      s.run p.dynamics.toModel (List.replicate 5 (.move (.step none))) =
        s.run p.dynamics.toModel (List.replicate 5 (.move (.step (some (.index 0))))) := by
  constructor
  · have hfacts : Gallery.labeledGrid.toOption.map (fun p =>
        let s := ({ addressing := .names } : Settings).target p.dynamics.toModel (start p.dynamics 7)
        let t := (s.run p.dynamics.toModel [.move (.step (some (.name "north")))]).2
        (p.dynamics.choiceLabels.isSome, s.actionCount p.dynamics.toModel,
          t.actionCount p.dynamics.toModel, (t.menu p.dynamics.toModel).toOption)) =
        some (true, 3, 1, some (.names ["north"])) := by
      decide +kernel
    obtain ⟨p, hgrid, hp⟩ := Gallery.labeledGrid_validated
    rw [hgrid] at hfacts
    simp only [Except.toOption, Option.map_some, Option.some.injEq, Prod.mk.injEq] at hfacts
    obtain ⟨hlabels, hthree, hone, hmenu⟩ := hfacts
    replace hmenu := Gallery.eq_ok_of_toOption hmenu
    have hcreate := create_of_fits p.source rfl rfl (c := { addressing := .names })
      ⟨by simp, by simp, fun _ => hlabels⟩ 7
    obtain ⟨-, -, hmany, -⟩ := omitted_is_sole hp hcreate (Session.run_nil _ _)
    obtain ⟨-, hsole, -, -⟩ := omitted_is_sole hp hcreate (Prod.eta _).symm
    obtain ⟨report, t', hstep, hlisted⟩ := hsole hone
    obtain ⟨a, ha, hstep'⟩ := hlisted _ hmenu
    obtain rfl : Action.name "north" = a := (List.cons.inj ha).1
    exact ⟨p, _, _, _, hgrid, hcreate, hmany 3 (by decide) hthree, (Prod.eta _).symm, hmenu, report, t',
      hstep, hstep'⟩
  · have hfacts : Gallery.chain.toOption.map (fun p => (p.kind,
        (({} : Settings).target p.dynamics.toModel (start p.dynamics 7)).addressing)) =
        some (.dtmc, .offsets) := by
      decide +kernel
    obtain ⟨p, hchain, hp⟩ := Gallery.chain_validated
    rw [hchain] at hfacts
    obtain ⟨hkind, haddress⟩ := Prod.mk.inj (Option.some.inj hfacts)
    have hcreate := create_of_fits p.source rfl rfl (c := {}) ⟨by simp, by simp, by simp⟩ 7
    obtain ⟨-, -, -, hsame⟩ := omitted_is_sole hp hcreate (Session.run_nil _ _)
    exact ⟨p, _, hchain, hcreate, (hsame hkind haddress 5).1⟩

end MarkovSim
