import MarkovSim.Proofs.Session.Outcome
import MarkovSim.Session.Settings

/-!
# Modes of a session

The modes of a session depend on each other and on what its model has. `Session.Consistent` says how,
and no request breaks it (`Consistent.outcome`). Settings that fit the model are reached from any modes
(`Settings.apply_eq_target`), and what a session shows of a state can be missing only where the model
has no class or no record for that state (`Consistent.view_eq_error_iff`). A simulator that was created is
consistent and at the start of its walk (`Simulation.create_eq_ok`).
-/

namespace MarkovSim

/-- The four reasons why a state is not shown, of which the last two lie in the modes alone. -/
theorem Model.view_eq_error_iff {m : Model} {valuations : Option Valuations} {full : Bool}
    {perspective : Perspective} {s : Nat} {e : Refusal} :
    m.view valuations full perspective s = .error e ↔
      (full = true ∧ perspective = .records ∧ (valuations.bind fun v => v.record? s) = none ∧
        e = .misconfigured (.noValuationOf s)) ∨
      (full = false ∧ perspective = .states ∧ m.partiallyObservable = true ∧
        m.observation s = none ∧ e = .misconfigured (.noClassOf s)) ∨
      (full = false ∧ perspective = .states ∧ m.partiallyObservable = false ∧
        e = .misconfigured .noClasses) ∨
      (full = false ∧ perspective = .records ∧ e = .hiddenRecords) := by
  cases full with
  | true =>
    cases perspective with
    | states => simp [view]
    | records => cases hr : valuations.bind fun v => v.record? s <;> simp [view, hr, @eq_comm _ e]
  | false =>
    cases perspective with
    | states =>
      cases hp : m.partiallyObservable <;> cases ho : m.observation s <;>
        simp [view, hp, ho, @eq_comm _ e]
    | records => simp [view, @eq_comm _ e]

theorem Model.view_eq_ok {m : Model} {valuations : Option Valuations} {full : Bool}
    {perspective : Perspective} {s : Nat} {o : Observation}
    (h : m.view valuations full perspective s = .ok o) :
    o = .state s ∨
      (∃ v record, valuations = some v ∧ v.record? s = some record ∧ o = .valuation record) ∨
      ∃ k, m.observation s = some k ∧ o = .classOf k := by
  unfold view at h
  split at h
  · exact Or.inl (Except.ok.inj h).symm
  · split at h
    · next record hrecord =>
      obtain ⟨v, hv, hrecord⟩ := Option.bind_eq_some_iff.1 hrecord
      exact Or.inr (Or.inl ⟨v, record, hv, hrecord, (Except.ok.inj h).symm⟩)
    · cases h
  · split at h
    · split at h
      · next k hk => exact Or.inr (Or.inr ⟨k, hk, (Except.ok.inj h).symm⟩)
      · cases h
    · cases h
  · cases h

theorem Session.view_of_report {ε : Type} [Engine ε] {m : Model} {s : Session ε} {r : Report}
    (h : s.report m = .ok r) :
    m.view s.valuations s.full s.perspective s.current = .ok r.observation ∧
      r.reward = Engine.reward s.engine := by
  unfold report at h
  split at h
  · next o ho =>
    obtain rfl := Except.ok.inj h
    exact ⟨ho, rfl⟩
  · cases h

namespace Session

variable {ε : Type}

/-- The modes agree with each other and with the model. -/
structure Consistent (m : Model) (s : Session ε) : Prop where
  /-- States are hidden only behind classes. -/
  hidden : s.full = false → m.partiallyObservable = true
  /-- Records are shown only of states that are not hidden, and only where there are any. -/
  records : s.perspective = .records → m.valuations.isSome ∧ s.full = true
  valuations : s.valuations = kept m s.perspective
  names : s.addressing = .names → m.choiceLabels.isSome

theorem Consistent.switch {m : Model} {s s' : Session ε} {r : Request} (h : s.Consistent m)
    (hr : s.setting m r = some (.ok (), s')) : s'.Consistent m := by
  cases r with
  | move mv => cases hr
  | perspective p =>
    obtain ⟨hp, rfl⟩ := switchPerspective_eq_ok.1 (Option.some.inj hr)
    exact ⟨h.hidden, hp, rfl, h.names⟩
  | addressing a =>
    obtain ⟨ha, rfl⟩ := switchAddressing_eq_ok.1 (Option.some.inj hr)
    exact ⟨h.hidden, h.records, h.valuations, ha⟩
  | full value =>
    obtain ⟨hv, rfl⟩ := switchFull_eq_ok.1 (Option.some.inj hr)
    refine ⟨fun hfalse => (hv hfalse).1, fun hrec => ?_, h.valuations, h.names⟩
    cases value with
    | true => exact ⟨(h.records hrec).1, rfl⟩
    | false =>
      have hstates : s.perspective = .states := (hv rfl).2
      have hrecords : s.perspective = .records := hrec
      rw [hstates] at hrecords
      cases hrecords

theorem Consistent.of_modes {α β : Type} {m : Model} {s : Session α} {s' : Session β}
    (h : s.Consistent m) (hp : s'.perspective = s.perspective) (ha : s'.addressing = s.addressing)
    (hf : s'.full = s.full) (hv : s'.valuations = s.valuations) : s'.Consistent m := by
  refine ⟨fun hfalse => ?_, fun hrec => ?_, ?_, fun hnames => ?_⟩
  · exact h.hidden (hf ▸ hfalse)
  · rw [hf]
    exact h.records (hp ▸ hrec)
  · rw [hv, hp]
    exact h.valuations
  · exact h.names (ha ▸ hnames)

theorem Consistent.start (m : Model) (engine : ε) (seed : UInt64) :
    (start m engine seed).Consistent m := by
  refine ⟨fun hfalse => ?_, fun hrec => ?_, rfl, fun hnames => ?_⟩
  · simpa [Session.start] using hfalse
  · cases hrec
  · cases hnames

section Engine

variable [Engine ε]

/-- No request breaks the modes. -/
theorem Consistent.outcome {m : Model} {s s' : Session ε} {r : Request} {answer : Answer}
    (h : s.Consistent m) (ho : Outcome m s r answer s') : s'.Consistent m := by
  cases ho with
  | faulted => exact h
  | refused => exact h
  | failed => exact h.of_modes rfl rfl rfl rfl
  | unseen => exact h.of_modes rfl rfl rfl rfl
  | made => exact h.of_modes rfl rfl rfl rfl
  | kept => exact h
  | switched hs => exact h.switch hs

/-- What keeps a state from being shown: it is hidden and has no class, or records are shown and it has
no row. -/
inductive Missing (m : Model) (s : Session ε) : Refusal → Prop
  | observation : s.full = false → m.observation s.current = none →
      Missing m s (.misconfigured (.noClassOf s.current))
  | row {v : Valuations} : s.perspective = .records → m.valuations = some v →
      v.row? s.current = none → Missing m s (.misconfigured (.noValuationOf s.current))

/-- In consistent modes a state is shown unless its class or its row is missing. -/
theorem Consistent.view_eq_error_iff {m : Model} {s : Session ε} (h : s.Consistent m) {e : Refusal} :
    m.view s.valuations s.full s.perspective s.current = .error e ↔ Missing m s e := by
  rw [Model.view_eq_error_iff]
  constructor
  · rintro (⟨hf, hp, hnone, rfl⟩ | ⟨hf, -, -, hnone, rfl⟩ | ⟨hf, -, hpart, -⟩ | ⟨hf, hp, -⟩)
    · obtain ⟨v, hv⟩ := Option.isSome_iff_exists.1 (h.records hp).1
      rw [h.valuations, hp, kept, hv] at hnone
      exact .row hp hv (by simpa [Valuations.record?] using hnone)
    · exact .observation hf hnone
    · rw [h.hidden hf] at hpart
      cases hpart
    · rw [(h.records hp).2] at hf
      cases hf
  · rintro (⟨hf, hnone⟩ | ⟨hp, hv, hnone⟩)
    · have hstates : s.perspective = .states := by
        cases hp : s.perspective with
        | states => rfl
        | records => rw [(h.records hp).2] at hf; cases hf
      exact Or.inr (Or.inl ⟨hf, hstates, h.hidden hf, hnone, rfl⟩)
    · refine Or.inl ⟨(h.records hp).2, hp, ?_, rfl⟩
      simp [h.valuations, hp, kept, hv, Valuations.record?, hnone]

theorem Consistent.report_eq_ok {m : Model} {s : Session ε} (h : s.Consistent m)
    (hclass : m.partiallyObservable = true → (m.observation s.current).isSome)
    (hrecord : ∀ v, m.valuations = some v → (v.record? s.current).isSome) :
    ∃ o, s.report m = .ok ⟨o, Engine.reward s.engine⟩ := by
  cases hview : m.view s.valuations s.full s.perspective s.current with
  | ok o =>
    refine ⟨o, ?_⟩
    unfold report
    rw [hview]
  | error e =>
    obtain ⟨hf, hnone⟩ | ⟨-, hv, hnone⟩ := h.view_eq_error_iff.1 hview
    · have hsome := hclass (h.hidden hf)
      simp [hnone] at hsome
    · have hsome := hrecord _ hv
      simp [Valuations.record?, hnone] at hsome

end Engine

end Session

/-! ## Settings -/

namespace Settings

variable {ε : Type} {m : Model}

/-- What the settings ask of the model, with the observability they lead to. -/
structure Fits (c : Settings) (m : Model) (full : Bool) : Prop where
  hidden : full = false → m.partiallyObservable = true
  records : c.perspective = .records → m.valuations.isSome ∧ full = true
  names : c.addressing = .names → m.choiceLabels.isSome

def target (c : Settings) (m : Model) (s : Session ε) : Session ε :=
  { s with
    perspective := c.perspective
    addressing := c.addressing
    full := c.full.getD s.full
    valuations := Session.kept m c.perspective }

theorem applyAll_cons_ok {s s' : Session ε} {change : Session ε → Except Refusal Unit × Session ε}
    (h : change s = (.ok (), s')) (rest : List (Session ε → Except Refusal Unit × Session ε)) :
    applyAll s (change :: rest) = applyAll s' rest := by
  rw [applyAll, h]

/-- The addressing is changed last. The changes before it are all made, whatever the modes were, if the
perspective and the observability that they lead to fit. -/
theorem apply_eq_applyAll {c : Settings} {s : Session ε}
    (hrecords : c.perspective = .records → m.valuations.isSome ∧ c.full.getD s.full = true)
    (hhidden : c.full = some false → m.partiallyObservable = true) :
    c.apply m s = applyAll { c.target m s with addressing := s.addressing }
      [fun s => s.switchAddressing m c.addressing] := by
  unfold apply changes target
  cases hc : c.full with
  | none =>
    rw [hc] at hrecords
    rw [applyAll_cons_ok (Session.switchPerspective_eq_ok.2 ⟨hrecords, rfl⟩)]
    rfl
  | some full =>
    rw [hc] at hrecords hhidden
    cases full with
    | true =>
      rw [applyAll_cons_ok (Session.switchFull_eq_ok.2 ⟨fun hfalse => Bool.noConfusion hfalse, rfl⟩),
        applyAll_cons_ok (Session.switchPerspective_eq_ok.2 ⟨hrecords, rfl⟩)]
      rfl
    | false =>
      have hstates : c.perspective = .states := by
        cases hp : c.perspective with
        | states => rfl
        | records => exact Bool.noConfusion (hrecords hp).2
      have hnone : c.perspective = .records → m.valuations.isSome ∧ s.full = true := by
        intro hp
        rw [hstates] at hp
        cases hp
      -- The perspective goes first: only states can be hidden.
      rw [applyAll_cons_ok (Session.switchPerspective_eq_ok.2 ⟨hnone, rfl⟩),
        applyAll_cons_ok (Session.switchFull_eq_ok.2 ⟨fun _ => ⟨hhidden rfl, hstates⟩, rfl⟩)]
      rfl

theorem apply_eq_target {c : Settings} {s : Session ε} (h : c.Fits m (c.full.getD s.full)) :
    c.apply m s = (.ok (), c.target m s) := by
  rw [apply_eq_applyAll h.records fun hc => h.hidden (by rw [hc]; rfl),
    applyAll_cons_ok (Session.switchAddressing_eq_ok.2 ⟨h.names, rfl⟩)]
  rfl

theorem changes_setting (c : Settings) {change : Session ε → Except Refusal Unit × Session ε}
    (h : change ∈ c.changes m) : ∃ r, ∀ s, Session.setting m s r = some (change s) := by
  unfold changes at h
  split at h <;> simp only [List.mem_cons, List.not_mem_nil, or_false] at h
  · rcases h with rfl | rfl | rfl
    · exact ⟨.perspective c.perspective, fun s => rfl⟩
    · exact ⟨.full false, fun s => rfl⟩
    · exact ⟨.addressing c.addressing, fun s => rfl⟩
  · rcases h with rfl | rfl | rfl
    · exact ⟨.full true, fun s => rfl⟩
    · exact ⟨.perspective c.perspective, fun s => rfl⟩
    · exact ⟨.addressing c.addressing, fun s => rfl⟩
  · rcases h with rfl | rfl
    · exact ⟨.perspective c.perspective, fun s => rfl⟩
    · exact ⟨.addressing c.addressing, fun s => rfl⟩

/-- What every change of settings keeps is kept by changes made in turn. -/
theorem applyAll_invariant {P : Session ε → Prop}
    (hP : ∀ s s' r, P s → Session.setting m s r = some (.ok (), s') → P s')
    {changes : List (Session ε → Except Refusal Unit × Session ε)}
    (hc : ∀ change ∈ changes, ∃ r, ∀ s, Session.setting m s r = some (change s))
    {s : Session ε} (hs : P s) : P (applyAll s changes).2 := by
  induction changes generalizing s with
  | nil => exact hs
  | cons change rest ih =>
    obtain ⟨r, hr⟩ := hc change List.mem_cons_self
    rcases hchange : change s with ⟨_ | _, s'⟩
    · rw [applyAll, hchange, Session.setting_refused ((hr s).trans (congrArg some hchange))]
      exact hs
    · rw [applyAll_cons_ok hchange]
      exact ih (fun change h => hc change (List.mem_cons_of_mem _ h))
        (hP s s' r hs ((hr s).trans (congrArg some hchange)))

theorem apply_invariant {P : Session ε → Prop}
    (hP : ∀ s s' r, P s → Session.setting m s r = some (.ok (), s') → P s') (c : Settings)
    {s : Session ε} (hs : P s) : P (c.apply m s).2 :=
  applyAll_invariant hP (fun _ h => c.changes_setting h) hs

end Settings

/-! ## Sessions that were opened -/

/-- A session in consistent modes, at the start of the walk of its seed. -/
structure Session.Fresh {d : Dynamics} (s : Session (Walker d)) : Prop where
  consistent : s.Consistent d.toModel
  engine : s.engine = .ofSeed d s.seed
  usable : s.faulted = false

theorem Simulation.fresh_start (d : Dynamics) (seed : UInt64) : (start d seed).Fresh :=
  ⟨.start _ _ _, rfl, rfl⟩

theorem Session.Fresh.switch {d : Dynamics} {s s' : Session (Walker d)} {r : Request}
    (h : s.Fresh) (hr : s.setting d.toModel r = some (.ok (), s')) : s'.Fresh := by
  obtain ⟨hengine, hseed, hfault⟩ := setting_frame hr
  exact ⟨h.consistent.switch hr, by rw [hengine, hseed]; exact h.engine, hfault.trans h.usable⟩

/-- What holds of a session at the start of its walk, and is kept by changes of settings, holds of the
session of a simulator that was created. -/
theorem Simulation.create_invariant {src : Source} {d : Dynamics} (hsrc : src.shared = some d)
    {P : Session (Walker d) → Prop}
    (hP : ∀ s s' r, P s → Session.setting d.toModel s r = some (.ok (), s') → P s') {c : Settings}
    {drawn : UInt64} {sim : Simulation} (hstart : P (start d (c.seed.getD drawn)))
    (h : create src c drawn = .ok sim) : ∃ s : Session (Walker d), sim = ⟨d, s⟩ ∧ P s := by
  unfold create at h
  cases hb : backend src with
  | error e => rw [hb] at h; cases h
  | ok d' =>
    obtain rfl : d' = d := by
      unfold backend at hb
      rw [hsrc] at hb
      split at hb
      · exact (Except.ok.inj hb).symm
      · cases hb
    rw [hb] at h
    simp only at h
    split at h
    · next s hs =>
      cases h
      have hend := c.apply_invariant hP hstart
      rw [hs] at hend
      exact ⟨s, rfl, hend⟩
    · cases h

/-- A simulator of a model with its own dynamics walks them, from the start. -/
theorem Simulation.create_eq_ok {src : Source} {d : Dynamics} (hsrc : src.shared = some d)
    {c : Settings} {drawn : UInt64} {sim : Simulation} (h : create src c drawn = .ok sim) :
    ∃ s : Session (Walker d), sim = ⟨d, s⟩ ∧ s.Fresh ∧ s.seed = c.seed.getD drawn :=
  create_invariant hsrc (P := fun s => s.Fresh ∧ s.seed = c.seed.getD drawn)
    (fun _ _ _ hs hr => ⟨hs.1.switch hr, (Session.setting_frame hr).2.1.trans hs.2⟩)
    ⟨fresh_start _ _, rfl⟩ h

theorem Simulation.fresh_of_create {src : Source} {d : Dynamics} (hsrc : src.shared = some d)
    {c : Settings} {drawn : UInt64} {s : Session (Walker d)} (h : create src c drawn = .ok ⟨d, s⟩) :
    s.Fresh ∧ s.seed = c.seed.getD drawn := by
  obtain ⟨t, ht, hfresh, hseed⟩ := create_eq_ok hsrc h
  cases ht
  exact ⟨hfresh, hseed⟩

/-- Settings that fit the model open a simulator in these settings. -/
theorem Simulation.create_of_fits (src : Source) {d : Dynamics} (hown : src.own.storage = .sparse)
    (hsrc : src.shared = some d) {c : Settings}
    (h : c.Fits d.toModel (c.full.getD !d.partiallyObservable)) (drawn : UInt64) :
    create src c drawn = .ok ⟨d, c.target d.toModel (start d (c.seed.getD drawn))⟩ := by
  unfold create backend
  simp only [hown, hsrc]
  rw [Settings.apply_eq_target (s := start d (c.seed.getD drawn)) h]

end MarkovSim
