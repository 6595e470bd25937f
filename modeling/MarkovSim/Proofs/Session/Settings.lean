import MarkovSim.Proofs.Session.Visibility

/-!
# Settings that are applied

Settings are taken on exactly when they fit the model, whatever the modes were before
(`Settings.apply_eq_ok_iff`), and a simulator is created in them exactly then. Settings are not
transactional: the changes made before the one that is turned down stay. `Settings.Refused` lists the
refusals, each with the session it leaves behind.

Of settings that are taken on:

1. The modes are then those of the settings, and the engine, the seed and a fault are as before.
2. So settings that speak of observability lead two sessions that differ in their modes alone to the same
   one.
3. A simulator is created in the settings that fit its dynamics, where states are hidden at first if the
   dynamics are partially observable.

Of settings that are turned down:

1. What comes before the change that is turned down has been done.
2. The session after a refusal can be reached by requests. Its engine, seed, fault and addressing are as
   before, and all of it is if its perspective and its observability are.
3. Settings that speak of observability and fit lead it where they would have led without the refusal.
-/

namespace MarkovSim

namespace Session

variable {ε : Type} {m : Model} {s : Session ε}

theorem Reached.apply [Engine ε] (h : s.Reached m) (c : Settings) : (c.apply m s).2.Reached m :=
  c.apply_invariant (P := Reached m) (fun _ _ _ hs hr => hs.switch hr) h

def showing (m : Model) (s : Session ε) (p : Perspective) : Session ε :=
  { s with perspective := p, valuations := kept m p }

end Session

namespace Settings

variable {ε : Type} {m : Model} {c : Settings} {s s' : Session ε} {e : Refusal}

theorem applyAll_cons_eq_ok {change : Session ε → Except Refusal Unit × Session ε}
    {rest : List (Session ε → Except Refusal Unit × Session ε)} :
    applyAll s (change :: rest) = (.ok (), s') ↔
      ∃ t, change s = (.ok (), t) ∧ applyAll t rest = (.ok (), s') := by
  rw [applyAll]
  obtain ⟨_ | _, t⟩ := change s
  · simp
  · simp

theorem applyAll_cons_eq_error {change : Session ε → Except Refusal Unit × Session ε}
    {rest : List (Session ε → Except Refusal Unit × Session ε)} :
    applyAll s (change :: rest) = (.error e, s') ↔
      change s = (.error e, s') ∨
        ∃ t, change s = (.ok (), t) ∧ applyAll t rest = (.error e, s') := by
  rw [applyAll]
  obtain ⟨_ | _, t⟩ := change s
  · simp
  · simp

theorem applyAll_addressing_eq_error {t : Session ε} {a : Addressing} :
    applyAll t [fun s => s.switchAddressing m a] = (.error e, s') ↔
      (a = .names ∧ m.choiceLabels = none ∧ e = .misconfigured .noChoiceLabels) ∧ s' = t := by
  rw [applyAll_cons_eq_error, Session.switchAddressing_eq_error]
  simp [applyAll]

/-! ## Settings that fit -/

theorem asked_of_applyAll {t : Session ε} {p : Perspective} {a : Addressing}
    (h : applyAll t [fun s => s.switchPerspective m p, fun s => s.switchAddressing m a] =
      (.ok (), s')) :
    (p = .records → m.valuations.isSome ∧ t.full = true) ∧ (a = .names → m.choiceLabels.isSome) := by
  obtain ⟨u, hu, hrest⟩ := applyAll_cons_eq_ok.1 h
  obtain ⟨v, hv, -⟩ := applyAll_cons_eq_ok.1 hrest
  exact ⟨(Session.switchPerspective_eq_ok.1 hu).1, (Session.switchAddressing_eq_ok.1 hv).1⟩

/-- From consistent modes, the settings that are taken on fit the model. -/
theorem fits_of_apply (h : s.Consistent m) (happly : c.apply m s = (.ok (), s')) :
    c.Fits m (c.full.getD s.full) := by
  unfold apply changes at happly
  cases hc : c.full with
  | none =>
    rw [hc] at happly
    obtain ⟨hrecords, hnames⟩ := asked_of_applyAll happly
    exact ⟨h.hidden, hrecords, hnames⟩
  | some full =>
    rw [hc] at happly
    cases full with
    | true =>
      obtain ⟨t, ht, hrest⟩ := applyAll_cons_eq_ok.1 happly
      obtain ⟨-, rfl⟩ := Session.switchFull_eq_ok.1 ht
      obtain ⟨hrecords, hnames⟩ := asked_of_applyAll hrest
      exact ⟨fun hfalse => Bool.noConfusion hfalse, hrecords, hnames⟩
    | false =>
      obtain ⟨t, ht, hrest⟩ := applyAll_cons_eq_ok.1 happly
      obtain ⟨-, rfl⟩ := Session.switchPerspective_eq_ok.1 ht
      obtain ⟨t, ht, hlast⟩ := applyAll_cons_eq_ok.1 hrest
      obtain ⟨hhidden, rfl⟩ := Session.switchFull_eq_ok.1 ht
      obtain ⟨t, ht, -⟩ := applyAll_cons_eq_ok.1 hlast
      obtain ⟨hnames, -⟩ := Session.switchAddressing_eq_ok.1 ht
      obtain ⟨hpartial, hstates⟩ := hhidden rfl
      replace hstates : c.perspective = .states := hstates
      -- No records are shown of states that were just hidden.
      refine ⟨fun _ => hpartial, fun hrecords => ?_, hnames⟩
      rw [hstates] at hrecords
      cases hrecords

theorem apply_eq_ok_iff (h : s.Consistent m) :
    (c.apply m s).1 = .ok () ↔ c.Fits m (c.full.getD s.full) :=
  ⟨fun hok => fits_of_apply h (Prod.ext hok rfl), fun hfits => by rw [apply_eq_target hfits]⟩

/-- Where the settings speak of observability, nothing of the modes before is left. -/
theorem apply_eq_apply {t : Session ε} (h : c.Fits m (c.full.getD s.full)) (hfull : c.full.isSome)
    (hengine : t.engine = s.engine) (hseed : t.seed = s.seed) (hfault : t.faulted = s.faulted) :
    c.apply m t = c.apply m s := by
  obtain ⟨full, hfull⟩ := Option.isSome_iff_exists.1 hfull
  have h' : c.Fits m (c.full.getD t.full) := by
    rw [hfull] at h ⊢
    exact h
  rw [apply_eq_target h, apply_eq_target h']
  unfold target
  rw [hengine, hseed, hfault, hfull]
  rfl

end Settings

theorem Simulation.create_isOk_iff (src : Source) {d : Dynamics} (hown : src.own.storage = .sparse)
    (hsrc : src.shared = some d) (c : Settings) (drawn : UInt64) :
    (∃ sim, create src c drawn = .ok sim) ↔ c.Fits d.toModel (c.full.getD !d.partiallyObservable) := by
  refine ⟨fun ⟨sim, hsim⟩ => ?_, fun hfits => ⟨_, create_of_fits src hown hsrc hfits drawn⟩⟩
  refine (Settings.apply_eq_ok_iff (s := start d (c.seed.getD drawn)) (.start _ _ _)).1 ?_
  unfold create backend at hsim
  simp only [hown, hsrc] at hsim
  split at hsim
  · next hok => rw [hok]
  · cases hsim

namespace Settings

variable {ε : Type} {m : Model} {c : Settings} {s s' : Session ε} {e : Refusal}

/-- Settings are taken on by a session that can be reached, also by one that is faulted, exactly when they fit
the model under the observability they lead to; a simulator is created exactly in the settings that fit
its dynamics. -/
theorem taken_on_iff_fit [Engine ε] (h : s.Reached m) (c : Settings) :
    ((c.apply m s).1 = .ok () ↔ c.Fits m (c.full.getD s.full)) ∧
    ((c.apply m s).1 = .ok () →
      (c.apply m s).2.perspective = c.perspective ∧ (c.apply m s).2.addressing = c.addressing ∧
      (c.apply m s).2.full = c.full.getD s.full ∧ (c.apply m s).2.engine = s.engine ∧
      (c.apply m s).2.seed = s.seed ∧ (c.apply m s).2.faulted = s.faulted) ∧
    ((c.apply m s).1 = .ok () → c.full.isSome → ∀ t : Session ε, t.engine = s.engine →
      t.seed = s.seed → t.faulted = s.faulted → c.apply m t = c.apply m s) ∧
    ∀ (src : Source) (d : Dynamics) (drawn : UInt64), src.own.storage = .sparse →
      src.shared = some d →
        ((∃ sim, Simulation.create src c drawn = .ok sim) ↔
          c.Fits d.toModel (c.full.getD !d.partiallyObservable)) ∧
        (c.Fits d.toModel (c.full.getD !d.partiallyObservable) → Simulation.create src c drawn =
          .ok ⟨d, c.target d.toModel (Simulation.start d (c.seed.getD drawn))⟩) := by
  have hiff := apply_eq_ok_iff (c := c) h.consistent
  refine ⟨hiff, fun hok => ?_, fun hok hfull t hengine hseed hfault => ?_,
    fun src d drawn hown hsrc => ⟨Simulation.create_isOk_iff src hown hsrc c drawn,
      fun hfits => Simulation.create_of_fits src hown hsrc hfits drawn⟩⟩
  · rw [apply_eq_target (hiff.1 hok)]
    exact ⟨rfl, rfl, rfl, rfl, rfl, rfl⟩
  · exact apply_eq_apply (hiff.1 hok) hfull hengine hseed hfault

/-- Two sessions that failed at a restart, since the class of their first state was lost: one hides its
states, and the other shows records of them. Settings that hide states lead both to the same session;
records alone are taken on by the second only, and no simulator is created in them. -/
theorem faulted_twins_taken_on :
    ∃ p src, Gallery.twins = .ok p ∧ src = p.source.losing { hidden := [0] } ∧
      src.own.storage = .sparse ∧ src.shared = some src.own ∧ ∃ s t : Session (Walker src.own),
        s.Reached src.own.toModel ∧ t.Reached src.own.toModel ∧
        (s.faulted = true ∧ s.full = false ∧ t.faulted = true ∧ t.perspective = .records) ∧
        apply { full := some false } src.own.toModel t =
          apply { full := some false } src.own.toModel s ∧
        (apply { perspective := .records } src.own.toModel t).1 = .ok () ∧
        (apply { perspective := .records } src.own.toModel s).1 ≠ .ok () ∧
        ¬ ∃ sim, Simulation.create src { perspective := .records } 7 = .ok sim := by
  have hfacts : Gallery.twins.toOption.map (fun p =>
      let d := (p.source.losing { hidden := [0] }).own
      let s := ((Session.start d.toModel (Walker.ofSeed d 7) 7).run d.toModel [.move .restart]).2
      (d.partiallyObservable, d.valuations.isSome, s.faulted, s.full)) =
      some (true, true, true, false) := by
    decide +kernel
  obtain ⟨p, htwins, -⟩ := Gallery.twins_validated
  rw [htwins] at hfacts
  simp only [Except.toOption, Option.map_some, Option.some.injEq, Prod.mk.injEq] at hfacts
  generalize hsrc : p.source.losing { hidden := [0] } = src at hfacts
  have hstorage : src.own.storage = .sparse := by rw [← hsrc]; rfl
  have hshared : src.shared = some src.own := by rw [← hsrc]; rfl
  obtain ⟨hpartial, hvaluations, hfault, hhidden⟩ := hfacts
  have hrun := (Session.Reached.start (m := src.own.toModel) (Walker.ofSeed src.own 7) 7).run
    [.move .restart]
  obtain ⟨s, hs, hfault, hhidden⟩ : ∃ s : Session (Walker src.own),
      s.Reached src.own.toModel ∧ s.faulted = true ∧ s.full = false :=
    ⟨_, hrun, hfault, hhidden⟩
  -- Records can be had of states that are not hidden.
  have hshow (c : Settings) (haddressing : c.addressing = .offsets) :
      c.Fits src.own.toModel true := by
    refine ⟨fun h => ?_, fun _ => ⟨hvaluations, rfl⟩, fun h => ?_⟩
    · cases h
    · rw [haddressing] at h
      cases h
  have hhide : Fits { full := some false } src.own.toModel false := by
    refine ⟨fun _ => hpartial, fun h => ?_, fun h => ?_⟩
    · cases h
    · cases h
  have ht := hs.apply { perspective := .records, full := some true }
  obtain ⟨hopen, hopened, -⟩ := taken_on_iff_fit hs { perspective := .records, full := some true }
  obtain ⟨hrecords, -, hfull, hengine, hseed, hfault'⟩ := hopened (hopen.2 (hshow _ rfl))
  obtain ⟨hhideable, -, hsame, -⟩ := taken_on_iff_fit hs { full := some false }
  obtain ⟨hlate, -⟩ := taken_on_iff_fit ht { perspective := .records }
  obtain ⟨hearly, -, -, hcreate⟩ := taken_on_iff_fit hs { perspective := .records }
  obtain ⟨hcreated, -⟩ := hcreate src src.own 7 hstorage hshared
  refine ⟨p, src, htwins, hsrc.symm, hstorage, hshared, s, _, hs, ht,
    ⟨hfault, hhidden, hfault'.trans hfault, hrecords⟩,
    hsame (hhideable.2 hhide) rfl _ hengine hseed hfault', hlate.2 ?_, fun hok => ?_, fun hsim => ?_⟩
  · rw [Option.getD_none, hfull]
    exact hshow _ rfl
  · have hshown := ((hearly.1 hok).records rfl).2
    rw [Option.getD_none, hhidden] at hshown
    cases hshown
  · have hshown := ((hcreated.1 hsim).records rfl).2
    rw [Option.getD_none, hpartial] at hshown
    cases hshown

/-! ## Settings that do not fit -/

/-- How settings are turned down, and the session this leaves. -/
inductive Refused (c : Settings) (m : Model) (s : Session ε) : Refusal → Session ε → Prop
  /-- There are no records to show. -/
  | noValuations : c.perspective = .records → m.valuations = none → c.full ≠ some true →
      Refused c m s (.misconfigured .noValuations) s
  /-- There are no records to show of the states that are no longer hidden. -/
  | noValuationsOpened : c.perspective = .records → m.valuations = none → c.full = some true →
      Refused c m s (.misconfigured .noValuations) { s with full := true }
  /-- The states are hidden whose records are to be shown. -/
  | hidden : c.perspective = .records → m.valuations.isSome → s.full = false → c.full ≠ some true →
      Refused c m s .hiddenRecords s
  /-- States that cannot be hidden are to be, under the new perspective. -/
  | alwaysObservable : (c.perspective = .records → m.valuations.isSome ∧ s.full = true) →
      c.full = some false → m.partiallyObservable = false →
      Refused c m s (.misconfigured .alwaysObservable) (s.showing m c.perspective)
  /-- States are to be hidden whose records are shown by now. -/
  | recordsShown : c.perspective = .records → m.valuations.isSome → s.full = true →
      c.full = some false → m.partiallyObservable = true →
      Refused c m s .hiddenRecords (s.showing m .records)
  /-- All is as the settings say but the names, which the model does not have. -/
  | noChoiceLabels : (c.perspective = .records → m.valuations.isSome ∧ c.full.getD s.full = true) →
      (c.full = some false → m.partiallyObservable = true) → c.addressing = .names →
      m.choiceLabels = none →
      Refused c m s (.misconfigured .noChoiceLabels)
        { c.target m s with addressing := s.addressing }

theorem refused_of_switchPerspective (hfull : c.full ≠ some true)
    (h : s.switchPerspective m c.perspective = (.error e, s')) : c.Refused m s e s' := by
  obtain ⟨hp, ⟨hv, rfl⟩ | ⟨hv, hf, rfl⟩, rfl⟩ := Session.switchPerspective_eq_error.1 h
  · exact .noValuations hp hv hfull
  · exact .hidden hp hv hf hfull

/-- When the addressing is turned down, all that the settings say besides has been done. -/
theorem refused_of_addressing {t : Session ε}
    (ht : t = { c.target m s with addressing := s.addressing })
    (hrecords : c.perspective = .records → m.valuations.isSome ∧ c.full.getD s.full = true)
    (hhidden : c.full = some false → m.partiallyObservable = true)
    (h : applyAll t [fun s => s.switchAddressing m c.addressing] = (.error e, s')) :
    c.Refused m s e s' := by
  obtain ⟨⟨hnames, hlabels, rfl⟩, rfl⟩ := applyAll_addressing_eq_error.1 h
  rw [ht]
  exact .noChoiceLabels hrecords hhidden hnames hlabels

theorem refused_of_apply (h : c.apply m s = (.error e, s')) : c.Refused m s e s' := by
  unfold apply changes at h
  cases hc : c.full with
  | none =>
    rw [hc] at h
    rcases applyAll_cons_eq_error.1 h with herror | ⟨t, ht, hrest⟩
    · exact refused_of_switchPerspective (by simp [hc]) herror
    · obtain ⟨hrecords, rfl⟩ := Session.switchPerspective_eq_ok.1 ht
      exact refused_of_addressing (by rw [target, hc]; rfl) (by rwa [hc]) (by simp [hc]) hrest
  | some full =>
    rw [hc] at h
    cases full with
    | true =>
      rcases applyAll_cons_eq_error.1 h with herror | ⟨t, ht, hrest⟩
      · cases (Session.switchFull_eq_error.1 herror).1
      · obtain ⟨-, rfl⟩ := Session.switchFull_eq_ok.1 ht
        rcases applyAll_cons_eq_error.1 hrest with herror | ⟨t, ht, hlast⟩
        · obtain ⟨hp, ⟨hv, rfl⟩ | ⟨-, hf, -⟩, rfl⟩ := Session.switchPerspective_eq_error.1 herror
          · exact .noValuationsOpened hp hv hc
          · cases hf
        · obtain ⟨hrecords, rfl⟩ := Session.switchPerspective_eq_ok.1 ht
          exact refused_of_addressing (by rw [target, hc]; rfl) (by rwa [hc]) (by simp [hc]) hlast
    | false =>
      rcases applyAll_cons_eq_error.1 h with herror | ⟨t, ht, hrest⟩
      · exact refused_of_switchPerspective (by simp [hc]) herror
      · obtain ⟨hrecords, rfl⟩ := Session.switchPerspective_eq_ok.1 ht
        rcases applyAll_cons_eq_error.1 hrest with herror | ⟨t, ht, hlast⟩
        · obtain ⟨-, ⟨hm, rfl⟩ | ⟨hm, hp, rfl⟩, rfl⟩ := Session.switchFull_eq_error.1 herror
          · exact .alwaysObservable hrecords hc hm
          · replace hp : c.perspective = .records := hp
            rw [hp]
            exact .recordsShown hp (hrecords hp).1 (hrecords hp).2 hc hm
        · obtain ⟨hhidden, rfl⟩ := Session.switchFull_eq_ok.1 ht
          obtain ⟨hm, hstates⟩ := hhidden rfl
          replace hstates : c.perspective = .states := hstates
          exact refused_of_addressing (by rw [target, hc]; rfl) (by simp [hstates]) (fun _ => hm) hlast

theorem apply_of_switchPerspective (hfull : c.full ≠ some true)
    (h : s.switchPerspective m c.perspective = (.error e, s')) : c.apply m s = (.error e, s') := by
  unfold apply changes
  split
  · exact applyAll_cons_eq_error.2 (.inl h)
  · next hc => exact absurd hc hfull
  · exact applyAll_cons_eq_error.2 (.inl h)

theorem apply_of_refused (h : c.Refused m s e s') : c.apply m s = (.error e, s') := by
  cases h with
  | noValuations hp hv hc =>
    exact apply_of_switchPerspective hc
      (Session.switchPerspective_eq_error.2 ⟨hp, .inl ⟨hv, rfl⟩, rfl⟩)
  | hidden hp hv hf hc =>
    exact apply_of_switchPerspective hc
      (Session.switchPerspective_eq_error.2 ⟨hp, .inr ⟨hv, hf, rfl⟩, rfl⟩)
  | noValuationsOpened hp hv hc =>
    unfold apply changes
    rw [hc]
    refine applyAll_cons_eq_error.2 (.inr ⟨_, Session.switchFull_eq_ok.2 ⟨nofun, rfl⟩, ?_⟩)
    refine applyAll_cons_eq_error.2 (.inl ?_)
    exact Session.switchPerspective_eq_error.2 ⟨hp, .inl ⟨hv, rfl⟩, rfl⟩
  | alwaysObservable hrecords hc hm =>
    unfold apply changes
    rw [hc]
    refine applyAll_cons_eq_error.2 (.inr ⟨_, Session.switchPerspective_eq_ok.2 ⟨hrecords, rfl⟩, ?_⟩)
    refine applyAll_cons_eq_error.2 (.inl ?_)
    exact Session.switchFull_eq_error.2 ⟨rfl, .inl ⟨hm, rfl⟩, rfl⟩
  | recordsShown hp hv hf hc hm =>
    unfold apply changes
    rw [hc, hp]
    refine applyAll_cons_eq_error.2
      (.inr ⟨_, Session.switchPerspective_eq_ok.2 ⟨fun _ => ⟨hv, hf⟩, rfl⟩, ?_⟩)
    refine applyAll_cons_eq_error.2 (.inl ?_)
    exact Session.switchFull_eq_error.2 ⟨rfl, .inr ⟨hm, rfl, rfl⟩, rfl⟩
  | noChoiceLabels hrecords hhidden hnames hlabels =>
    rw [apply_eq_applyAll hrecords hhidden]
    exact applyAll_addressing_eq_error.2 ⟨⟨hnames, hlabels, rfl⟩, rfl⟩

/-- The refusals of settings are those listed, and lead to the sessions listed there. -/
theorem apply_eq_error_iff : c.apply m s = (.error e, s') ↔ c.Refused m s e s' :=
  ⟨refused_of_apply, apply_of_refused⟩

/-- A refusal concerns neither the engine nor the seed nor a fault, and no refusal comes after the
change of the addressing. -/
theorem Refused.frame (h : c.Refused m s e s') : s'.engine = s.engine ∧ s'.seed = s.seed ∧
    s'.faulted = s.faulted ∧ s'.addressing = s.addressing := by
  cases h with
  | _ => exact ⟨rfl, rfl, rfl, rfl⟩

/-- Consistent sessions with the same modes keep the same valuations. -/
theorem Refused.eq_self_iff (h : c.Refused m s e s') (hs : s.Consistent m) (hs' : s'.Consistent m) :
    s' = s ↔ s'.perspective = s.perspective ∧ s'.full = s.full := by
  obtain ⟨hengine, hseed, hfault, haddressing⟩ := h.frame
  refine ⟨fun heq => heq ▸ ⟨rfl, rfl⟩, fun ⟨hp, hf⟩ => ?_⟩
  have hv : s'.valuations = s.valuations := by rw [hs'.valuations, hs.valuations, hp]
  cases s
  cases s'
  simp_all

/-- Settings that a session turns down can leave it changed, in the ways of `Refused` and in no others. Where
they are followed by settings that speak of observability and fit, the refusal leaves no mark. -/
theorem refusal_leaves_earlier_changes [Engine ε] (h : s.Reached m) (c : Settings) :
    (∀ e s', c.apply m s = (.error e, s') ↔ c.Refused m s e s') ∧
    (∀ e s', c.apply m s = (.error e, s') → s'.Reached m ∧ s'.engine = s.engine ∧ s'.seed = s.seed ∧
      s'.faulted = s.faulted ∧ s'.addressing = s.addressing ∧
      (s' = s ↔ s'.perspective = s.perspective ∧ s'.full = s.full)) ∧
    ∀ e s', c.apply m s = (.error e, s') → ∀ next : Settings, next.full.isSome →
      next.Fits m (next.full.getD s.full) → next.apply m s' = next.apply m s := by
  refine ⟨fun e s' => apply_eq_error_iff, fun e s' happly => ?_, fun e s' happly next hfull hfits => ?_⟩
  · have hrefused := refused_of_apply happly
    have hreached : s'.Reached m := by
      have hend := h.apply c
      rwa [happly] at hend
    obtain ⟨hengine, hseed, hfault, haddressing⟩ := hrefused.frame
    exact ⟨hreached, hengine, hseed, hfault, haddressing,
      hrefused.eq_self_iff h.consistent hreached.consistent⟩
  · obtain ⟨hengine, hseed, hfault, -⟩ := (refused_of_apply happly).frame
    exact apply_eq_apply hfits hfull hengine hseed hfault

/-- A session over the process of two states that look alike is asked to show records and to hide its
states. It declines, and shows records from then on. -/
theorem open_twins_show_records :
    ∃ p, Gallery.twins = .ok p ∧ p.Validated ∧ ∃ s s' : Session (Walker p.dynamics),
      s.Reached p.dynamics.toModel ∧ s.perspective = .states ∧
      apply { perspective := .records, full := some false } p.dynamics.toModel s =
        (.error .hiddenRecords, s') ∧
      s'.Reached p.dynamics.toModel ∧ s'.engine = s.engine ∧ s'.perspective = .records ∧ s' ≠ s := by
  have hfacts : Gallery.twins.toOption.map (fun p =>
      let s := ((Session.start p.dynamics.toModel (Walker.ofSeed p.dynamics 7) 7).run
        p.dynamics.toModel [.full true]).2
      (p.dynamics.partiallyObservable, p.dynamics.valuations.isSome, s.full, s.perspective)) =
      some (true, true, true, .states) := by
    decide +kernel
  obtain ⟨p, htwins, hvalidated, -⟩ := Gallery.twins_validated
  rw [htwins] at hfacts
  simp only [Except.toOption, Option.map_some, Option.some.injEq, Prod.mk.injEq] at hfacts
  obtain ⟨hpartial, hvaluations, hfull, hstates⟩ := hfacts
  have hs := (Session.Reached.start (m := p.dynamics.toModel) (Walker.ofSeed p.dynamics 7) 7).run
    [.full true]
  obtain ⟨hways, hkept, -⟩ :=
    refusal_leaves_earlier_changes hs { perspective := .records, full := some false }
  have happly := (hways _ _).2 (.recordsShown rfl hvaluations hfull rfl hpartial)
  obtain ⟨hreached, hengine, -, -, -, hsame⟩ := hkept _ _ happly
  refine ⟨p, htwins, hvalidated, _, _, hs, hstates, happly, hreached, hengine, rfl, fun heq => ?_⟩
  have hp := (hsame.1 heq).1
  rw [hstates] at hp
  cases hp

/-- A session over the chain of two states is asked to show records and to name actions. It declines, as
its choices have no labels, and has kept the valuations and shows records from then on. -/
theorem declining_chain_shows_records :
    ∃ p, Gallery.chain = .ok p ∧ p.Validated ∧ ∃ s s' : Session (Walker p.dynamics),
      s.Reached p.dynamics.toModel ∧
      apply { perspective := .records, addressing := .names } p.dynamics.toModel s =
        (.error (.misconfigured .noChoiceLabels), s') ∧
      (s.perspective = .states ∧ s'.perspective = .records) ∧
      s.valuations = none ∧ s'.valuations.isSome := by
  have hfacts : Gallery.chain.toOption.map (fun p =>
      (p.dynamics.partiallyObservable, p.dynamics.valuations.isSome, p.dynamics.choiceLabels.isNone)) =
      some (false, true, true) := by
    decide +kernel
  obtain ⟨p, hchain, hvalidated⟩ := Gallery.chain_validated
  rw [hchain] at hfacts
  simp only [Except.toOption, Option.map_some, Option.some.injEq, Prod.mk.injEq] at hfacts
  obtain ⟨hpartial, hvaluations, hlabels⟩ := hfacts
  have hfull : (!p.dynamics.partiallyObservable) = true := by rw [hpartial]; rfl
  refine ⟨p, hchain, hvalidated, _, _, .start (Walker.ofSeed p.dynamics 7) 7,
    apply_of_refused (.noChoiceLabels (fun _ => ⟨hvaluations, hfull⟩) (fun h => ?_) rfl
      (Option.isNone_iff_eq_none.1 hlabels)), ⟨rfl, rfl⟩, rfl, hvaluations⟩
  cases h

end Settings

end MarkovSim
