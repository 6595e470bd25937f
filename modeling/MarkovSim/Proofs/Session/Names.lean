import MarkovSim.Proofs.Session.Safety

/-!
# Actions by name

A session that addresses actions by name lists one name for each action on offer and takes a name
for the first action listed under it (`offsetOf_name`). Apart from that, how actions are addressed
has no part in a move: a safe session moves the same way whichever request its demand came from
(`Safe.perform_alike`). So a listed name does what the offset of its first listing does. Two choices
of a state may share a name, and the second of them cannot be taken by name.
-/

namespace MarkovSim

namespace Session

/-! ## Names and offsets -/

section Names

variable {ε : Type} [Engine ε] {m : Model} {s : Session ε} {names : List String}

theorem offeredNames_of_menu (h : s.menu m = .ok (.names names)) :
    s.addressing = .names ∧ s.offeredNames m = .ok names := by
  unfold menu at h
  cases ha : s.addressing with
  | offsets => rw [ha] at h; cases h
  | names =>
    rw [ha] at h
    cases hn : s.offeredNames m with
    | error e => rw [hn] at h; cases h
    | ok listed =>
      rw [hn] at h
      cases h
      exact ⟨rfl, rfl⟩

theorem offsetOf_name (h : s.menu m = .ok (.names names)) {l : String} {j : Nat}
    (hj : names.idxOf? l = some j) : s.offsetOf m (some (.name l)) = .ok j := by
  obtain ⟨haddress, hnames⟩ := offeredNames_of_menu h
  unfold offsetOf
  simp only [haddress, hnames, hj]

theorem demand_of_offsetOf {action : Action} {j : Nat} (h : s.offsetOf m (some action) = .ok j) :
    s.demand m (.step (some action)) = .ok (.step j) := by
  simp only [demand, h, Except.map]

theorem exists_first_listing {i : Nat} (hi : i < names.length) :
    ∃ j ≤ i, names.idxOf? names[i] = some j ∧ names[j]? = some names[i] ∧
      ∀ l < j, names[l]? ≠ some names[i] := by
  obtain ⟨j, hj⟩ := Option.isSome_iff_exists.1 (List.isSome_idxOf?.2 (List.getElem_mem hi))
  obtain ⟨hlt, hname, hfirst⟩ := List.idxOf?_eq_some_iff.1 hj
  refine ⟨j, Nat.le_of_not_lt fun hij => hfirst i hij rfl, hj, ?_, ?_⟩
  · rw [List.getElem?_eq_getElem hlt, hname]
  · intro l hl
    rw [List.getElem?_eq_getElem (Nat.lt_trans hl hlt)]
    exact fun h => hfirst l hl (Option.some.inj h)

end Names

/-! ## Moves under either addressing -/

variable {d : Dynamics} (hd : d.Sound)
include hd

theorem Safe.switchAddressing {s : Session (Walker d)} (h : s.Safe) :
    s.switchAddressing d.toModel .offsets = (.ok (), { s with addressing := .offsets }) ∧
      Safe { s with addressing := .offsets } := by
  have hswitch : s.switchAddressing d.toModel .offsets = (.ok (), { s with addressing := .offsets }) :=
    switchAddressing_eq_ok.2 ⟨nofun, rfl⟩
  exact ⟨hswitch, (h.outcome hd (.switched (r := .addressing .offsets) (congrArg some hswitch))).1⟩

/-- Moves that come down to one demand give the same report and engine under either addressing. -/
theorem Safe.perform_alike {s : Session (Walker d)} (h : s.Safe) {a : Addressing}
    (h' : Safe { s with addressing := a }) {mv mv' : Move} {dm : Demand}
    (hdm : s.demand d.toModel mv = .ok dm)
    (hdm' : demand d.toModel { s with addressing := a } mv' = .ok dm) :
    ∃ r, s.perform d.toModel mv = (.ok r, { s with engine := (dm.apply s.engine).2 }) ∧
      perform d.toModel { s with addressing := a } mv' =
        (.ok r, { s with addressing := a, engine := (dm.apply s.engine).2 }) := by
  obtain ⟨r, hr, hperform⟩ := h.perform_eq_ok hd hdm
  obtain ⟨r', hr', hperform'⟩ := h'.perform_eq_ok hd hdm'
  -- What is shown of a state does not depend on the addressing.
  obtain rfl : r = r' := Except.ok.inj (hr.symm.trans hr')
  exact ⟨r, hperform, hperform'⟩

end Session

/-- A listed name takes the action that is listed first under it: a move by the name at place `i` is made,
with the report and the engine of a move by offset `j`, where `j` is the first place with that name.
That is `i` itself unless the name is listed before. -/
theorem Simulation.first_listing_taken {p : ExplicitModel} (hp : p.Validated) {c : Settings}
    {drawn : UInt64} {sim : Simulation} (h : create p.source c drawn = .ok sim) {rs : List Request}
    {answers : List Answer} {s : Session (Walker sim.dynamics)}
    (hrun : sim.session.run p.dynamics.toModel rs = (answers, s)) {names : List String}
    (hmenu : s.menu p.dynamics.toModel = .ok (.names names)) {i : Nat} (hi : i < names.length) :
    ∃ j ≤ i, names[j]? = some names[i] ∧ (∀ l < j, names[l]? ≠ some names[i]) ∧
      ((∀ l < i, names[l]? ≠ some names[i]) → j = i) ∧
      ∃ report engine t, s.switchAddressing p.dynamics.toModel .offsets = (.ok (), t) ∧
        s.step p.dynamics.toModel (some (.name names[i])) = (.ok report, { s with engine := engine }) ∧
        t.step p.dynamics.toModel (some (.index j)) = (.ok report, { t with engine := engine }) := by
  have hd := hp.sound
  obtain ⟨s₀, rfl, hfresh, -⟩ := create_eq_ok (d := p.dynamics) rfl h
  have hs := ((hfresh.safe hd).run hd rs).1
  rw [hrun] at hs
  obtain ⟨j, hji, hidx, hname, hfirst⟩ := Session.exists_first_listing hi
  have hoffset := Session.offsetOf_name hmenu hidx
  have hlt := (Session.addressed_of_offsetOf hoffset).lt
  obtain ⟨hswitch, ht⟩ := hs.switchAddressing hd
  have hoffset' : Session.offsetOf p.dynamics.toModel { s with addressing := .offsets }
      (some (.index j)) = .ok j :=
    (Session.offsetOf_index rfl j).trans (if_pos hlt)
  obtain ⟨r, hstep, hstep'⟩ := hs.perform_alike hd ht (Session.demand_of_offsetOf hoffset)
    (Session.demand_of_offsetOf hoffset')
  refine ⟨j, hji, hname, hfirst, fun hnew => ?_, r, _, _, hswitch, hstep, hstep'⟩
  exact Nat.le_antisymm hji (Nat.le_of_not_lt fun hlt => hnew j hlt hname)

/-- The third choice in the first state of the labeled process has no label, and is taken by the name
made for it. -/
theorem Simulation.unlabeled_choice_taken :
    ∃ p s, Gallery.labeledGrid = .ok p ∧
      create p.source { addressing := .names } 7 = .ok ⟨p.dynamics, s⟩ ∧
      s.menu p.dynamics.toModel = .ok (.names ["north", "south", "_act_2"]) ∧
      ∃ report engine t, s.switchAddressing p.dynamics.toModel .offsets = (.ok (), t) ∧
        s.step p.dynamics.toModel (some (.name "_act_2")) =
          (.ok report, { s with engine := engine }) ∧
        t.step p.dynamics.toModel (some (.index 2)) = (.ok report, { t with engine := engine }) := by
  have hfacts : Gallery.labeledGrid.toOption.map (fun p => (p.dynamics.choiceLabels.isSome,
      (Session.menu p.dynamics.toModel (({ addressing := .names } : Settings).target
        p.dynamics.toModel (start p.dynamics 7))).toOption)) =
      some (true, some (.names ["north", "south", "_act_2"])) := by
    decide +kernel
  obtain ⟨p, hgrid, hp⟩ := Gallery.labeledGrid_validated
  rw [hgrid] at hfacts
  obtain ⟨hlabels, hmenu⟩ := Prod.mk.inj (Option.some.inj hfacts)
  replace hmenu := Gallery.eq_ok_of_toOption hmenu
  have hcreate := create_of_fits p.source rfl rfl (c := { addressing := .names })
    ⟨by simp, nofun, fun _ => hlabels⟩ 7
  obtain ⟨j, -, -, -, hown, report, engine, t, htaken⟩ :=
    first_listing_taken hp hcreate (Session.run_nil _ _) hmenu (i := 2) (by decide)
  obtain rfl := hown (by decide)
  exact ⟨p, _, hgrid, hcreate, hmenu, report, engine, t, htaken⟩

/-- A decision process whose two first choices share a label: one stays and one leaves. -/
def Gallery.namesakes : Except Defect ExplicitModel := do
  let parts ← startingAtZero [[row [(0, 1.0)], row [(1, 1.0)]], [row [(1, 1.0)]]]
  ExplicitModel.assemble .mdp { parts with
    choiceLabels := some (choiceLabels 3 [("go", 0), ("go", 1)]) }

/-- The second of two choices that share a name is not taken by it: by the name listed at place one
the process stays in its state, and by offset one it leaves. -/
theorem Simulation.namesakes_disagree :
    ∃ p s, Gallery.namesakes = .ok p ∧ p.Validated ∧
      create p.source { addressing := .names } 7 = .ok ⟨p.dynamics, s⟩ ∧
      s.menu p.dynamics.toModel = .ok (.names ["go", "go"]) ∧
      ∃ t, s.switchAddressing p.dynamics.toModel .offsets = (.ok (), t) ∧
        (s.step p.dynamics.toModel (some (.name "go"))).2.current = 0 ∧
        (t.step p.dynamics.toModel (some (.index 1))).2.current = 1 := by
  have hfacts : Gallery.namesakes.toOption.map (fun p =>
      let s := ({ addressing := .names } : Settings).target p.dynamics.toModel (start p.dynamics 7)
      (p.dynamics.choiceLabels.isSome, (s.menu p.dynamics.toModel).toOption,
        (s.step p.dynamics.toModel (some (.name "go"))).2.current,
        (Session.step p.dynamics.toModel { s with addressing := .offsets }
          (some (.index 1))).2.current)) =
      some (true, some (.names ["go", "go"]), 0, 1) := by
    decide +kernel
  obtain ⟨p, hp⟩ := Gallery.exists_eq_ok (x := Gallery.namesakes) (by decide +kernel)
  rw [hp] at hfacts
  simp only [Except.toOption, Option.map_some, Option.some.injEq, Prod.mk.injEq] at hfacts
  obtain ⟨hlabels, hmenu, hname, hindex⟩ := hfacts
  obtain ⟨parts, hparts, h⟩ := Gallery.bind_eq_ok hp
  have hcreate := create_of_fits p.source rfl rfl (c := { addressing := .names })
    ⟨by simp, nofun, fun _ => hlabels⟩ 7
  exact ⟨p, _, hp, Gallery.validated_of_startingAtZero h hparts rfl rfl, hcreate,
    Gallery.eq_ok_of_toOption hmenu, _, rfl, hname, hindex⟩

end MarkovSim
