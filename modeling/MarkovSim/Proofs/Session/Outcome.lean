import MarkovSim.Session.Run

/-!
# What one request can do

A move that is not turned down becomes a demand on the engine: the move with its action resolved to
an offset, in one of the ways of `Session.Addressed`. `Session.Outcome` lists the ways in which a
request can be answered, with the session after each of them, and `handle_outcome` says that there is
no other. Everything about runs of a session is drawn from these cases.
-/

namespace MarkovSim

/-- What a move asks of the engine. -/
inductive Demand where
  | restart
  | step (offset : Nat)
  | wander
deriving DecidableEq

namespace Demand

variable {ε : Type} [Engine ε]

/-- Puts a demand to an engine; says whether it was met. A restart always is. -/
def apply (e : ε) : Demand → Bool × ε
  | .restart => (true, Engine.reset e)
  | .step k => Engine.step e k
  | .wander => Engine.wander e

/-- The call that a refusal names when the engine does not meet the demand. -/
def call? : Demand → Option EngineCall
  | .restart => none
  | .step _ => some .step
  | .wander => some .wander

theorem call?_isSome_of_apply {d : Demand} {e : ε} (h : (d.apply e).1 = false) :
    ∃ call, d.call? = some call := by
  cases d with
  | restart => cases h
  | step k => exact ⟨.step, rfl⟩
  | wander => exact ⟨.wander, rfl⟩

end Demand

/-- Whether a refusal is about the action that was asked for: it is not on offer, not named as it
should be, or the actions on offer have no clear names. -/
def Refusal.aboutAction : Refusal → Bool
  | .outOfRange .. | .unknownName _ | .ambiguous _ | .wrongForm .. => true
  | .misconfigured .noChoiceLabels | .unsupported (.manyLabels ..) => true
  | _ => false

theorem Refusal.fatal_of_aboutAction {e : Refusal} (h : e.aboutAction = true) : e.fatal = false := by
  cases e <;> first | rfl | cases h

namespace Session

variable {ε : Type} [Engine ε]

/-- The demand a move comes down to, or why it is turned down. -/
def demand (m : Model) (s : Session ε) : Move → Except Refusal Demand
  | .restart => .ok .restart
  | .step action => (s.offsetOf m action).map .step
  | .wander => .ok .wander

/-- The change of settings a request asks for; nothing where it is a move. -/
def setting (m : Model) (s : Session ε) : Request → Option (Except Refusal Unit × Session ε)
  | .move _ => none
  | .perspective p => some (s.switchPerspective m p)
  | .addressing a => some (s.switchAddressing m a)
  | .full value => some (s.switchFull m value)

/-- The ways a request can be answered, with the session after it. -/
inductive Outcome (m : Model) (s : Session ε) : Request → Answer → Session ε → Prop
  | faulted (mv : Move) : s.faulted = true → Outcome m s (.move mv) (.error .faulted) s
  | refused {mv : Move} {e : Refusal} : s.faulted = false → s.demand m mv = .error e →
      Outcome m s (.move mv) (.error e) s
  | failed {mv : Move} {d : Demand} {call : EngineCall} : s.faulted = false →
      s.demand m mv = .ok d → d.call? = some call → (d.apply s.engine).1 = false →
      Outcome m s (.move mv) (.error (.engineFailed call s.current))
        { s with engine := (d.apply s.engine).2, faulted := true }
  | unseen {mv : Move} {d : Demand} {e : Refusal} : s.faulted = false →
      s.demand m mv = .ok d → (d.apply s.engine).1 = true →
      report m { s with engine := (d.apply s.engine).2 } = .error e →
      Outcome m s (.move mv) (.error e) { s with engine := (d.apply s.engine).2, faulted := true }
  | made {mv : Move} {d : Demand} {r : Report} : s.faulted = false →
      s.demand m mv = .ok d → (d.apply s.engine).1 = true →
      report m { s with engine := (d.apply s.engine).2 } = .ok r →
      Outcome m s (.move mv) (.ok (some r)) { s with engine := (d.apply s.engine).2 }
  | kept {r : Request} {e : Refusal} : s.setting m r = some (.error e, s) →
      Outcome m s r (.error e) s
  | switched {r : Request} {s' : Session ε} : s.setting m r = some (.ok (), s') →
      Outcome m s r (.ok none) s'

/-! ## Offsets -/

theorem length_of_mapM {α β : Type} {f : α → Except Refusal β} {xs : List α} {ys : List β}
    (h : xs.mapM f = .ok ys) : ys.length = xs.length := by
  induction xs generalizing ys with
  | nil =>
    rw [List.mapM_nil] at h
    cases h
    rfl
  | cons x xs ih =>
    rw [List.mapM_cons] at h
    cases hx : f x with
    | error e => rw [hx] at h; cases h
    | ok y =>
      cases hxs : xs.mapM f with
      | error e => rw [hx, hxs] at h; cases h
      | ok zs =>
        rw [hx, hxs] at h
        cases h
        rw [List.length_cons, List.length_cons, ih hxs]

theorem error_of_mapM {α β : Type} {f : α → Except Refusal β} {xs : List α}
    {e : Refusal} (h : xs.mapM f = .error e) : ∃ x ∈ xs, f x = .error e := by
  induction xs with
  | nil => rw [List.mapM_nil] at h; cases h
  | cons x xs ih =>
    rw [List.mapM_cons] at h
    cases hx : f x with
    | error e' =>
      rw [hx] at h
      cases h
      exact ⟨x, List.mem_cons_self, hx⟩
    | ok y =>
      cases hxs : xs.mapM f with
      | error e' =>
        rw [hx, hxs] at h
        cases h
        obtain ⟨z, hz, hfz⟩ := ih hxs
        exact ⟨z, List.mem_cons_of_mem x hz, hfz⟩
      | ok ys => rw [hx, hxs] at h; cases h

theorem length_offeredNames {m : Model} {s : Session ε} {names : List String}
    (h : s.offeredNames m = .ok names) : names.length = s.actionCount m := by
  unfold offeredNames at h
  cases hl : m.choiceLabels with
  | none => rw [hl] at h; cases h
  | some labels =>
    rw [hl] at h
    rw [length_of_mapM h, List.length_range]

/-! ### Refusals of an action -/

theorem aboutAction_choiceName {labels : ChoiceLabels} {choice offset : Nat} {e : Refusal}
    (h : choiceName labels choice offset = .error e) : e.aboutAction = true := by
  unfold choiceName at h
  split at h
  · cases h
  · cases h
  · cases h
    rfl

theorem aboutAction_offeredNames {m : Model} {s : Session ε} {e : Refusal}
    (h : s.offeredNames m = .error e) : e.aboutAction = true := by
  unfold offeredNames at h
  split at h
  · cases h
    rfl
  · obtain ⟨k, -, hk⟩ := error_of_mapM h
    exact aboutAction_choiceName hk

/-- A requested action is turned down only for reasons that are about it. -/
theorem aboutAction_offsetOf {m : Model} {s : Session ε} {action : Option Action} {e : Refusal}
    (h : s.offsetOf m action = .error e) : e.aboutAction = true := by
  unfold offsetOf at h
  split at h
  · split at h
    · cases h
    · cases h; rfl
  · split at h
    · split at h
      · cases h
      · cases h; rfl
    · split at h
      · next hn =>
        cases h
        exact aboutAction_offeredNames hn
      · split at h
        · cases h
        · cases h; rfl
    · cases h; rfl

/-! ### Actions that are understood -/

/-- The ways to name an action that are understood, with the offset each comes to. -/
inductive Addressed (m : Model) (s : Session ε) : Option Action → Nat → Prop
  | omitted : s.actionCount m = 1 → Addressed m s none 0
  | index {k : Nat} : s.addressing = .offsets → k < s.actionCount m →
      Addressed m s (some (.index k)) k
  | name {l : String} {names : List String} {k : Nat} : s.addressing = .names →
      s.offeredNames m = .ok names → names.idxOf? l = some k → Addressed m s (some (.name l)) k

theorem addressed_of_offsetOf {m : Model} {s : Session ε} {action : Option Action} {k : Nat}
    (h : s.offsetOf m action = .ok k) : Addressed m s action k := by
  unfold offsetOf at h
  split at h
  · split at h
    · next hone =>
      cases h
      exact .omitted hone
    · cases h
  · split at h
    · next haddress =>
      split at h
      · next hlt =>
        cases h
        exact .index haddress hlt
      · cases h
    · next haddress =>
      split at h
      · cases h
      · next names hnames =>
        split at h
        · next hidx =>
          cases h
          exact .name haddress hnames hidx
        · cases h
    · cases h

theorem Addressed.lt {m : Model} {s : Session ε} {action : Option Action} {k : Nat}
    (h : Addressed m s action k) : k < s.actionCount m := by
  cases h with
  | omitted hone => omega
  | index _ hlt => exact hlt
  | name _ hnames hidx =>
    rw [← length_offeredNames hnames]
    exact (List.idxOf?_eq_some_iff.1 hidx).1

/-! ## Moves through their demands -/

theorem demand_eq_ok {m : Model} {s : Session ε} {mv : Move} {d : Demand}
    (h : s.demand m mv = .ok d) :
    mv = .restart ∧ d = .restart ∨ mv = .wander ∧ d = .wander ∨
      ∃ action k, mv = .step action ∧ d = .step k ∧ s.offsetOf m action = .ok k := by
  cases mv with
  | restart => exact Or.inl ⟨rfl, (Except.ok.inj h).symm⟩
  | wander => exact Or.inr (Or.inl ⟨rfl, (Except.ok.inj h).symm⟩)
  | step action =>
    simp only [demand] at h
    cases ho : s.offsetOf m action with
    | error e => rw [ho] at h; cases h
    | ok k =>
      rw [ho] at h
      exact Or.inr (Or.inr ⟨action, k, rfl, (Except.ok.inj h).symm, ho⟩)

theorem demand_eq_error {m : Model} {s : Session ε} {mv : Move} {e : Refusal}
    (h : s.demand m mv = .error e) : ∃ action, mv = .step action ∧ s.offsetOf m action = .error e := by
  cases mv with
  | restart => cases h
  | wander => cases h
  | step action =>
    simp only [demand] at h
    cases ho : s.offsetOf m action with
    | error e' =>
      rw [ho] at h
      cases h
      exact ⟨action, rfl, ho⟩
    | ok k => rw [ho] at h; cases h

theorem perform_of_faulted {m : Model} {s : Session ε} (h : s.faulted = true) (mv : Move) :
    s.perform m mv = (.error .faulted, s) := by
  cases mv with
  | restart => exact if_pos h
  | step action => exact if_pos h
  | wander => exact if_pos h

theorem perform_of_demand_error {m : Model} {s : Session ε} {mv : Move} {e : Refusal}
    (hf : s.faulted = false) (h : s.demand m mv = .error e) : s.perform m mv = (.error e, s) := by
  obtain ⟨action, rfl, ho⟩ := demand_eq_error h
  show s.step m action = _
  unfold step
  rw [if_neg (by simp [hf]), ho]

theorem perform_of_demand {m : Model} {s : Session ε} {mv : Move} {d : Demand}
    (hf : s.faulted = false) (h : s.demand m mv = .ok d) :
    s.perform m mv = s.afterMove m (d.call?.getD .step) (d.apply s.engine) := by
  obtain ⟨rfl, rfl⟩ | ⟨rfl, rfl⟩ | ⟨action, k, rfl, rfl, ho⟩ := demand_eq_ok h
  · exact if_neg (by simp [hf])
  · exact if_neg (by simp [hf])
  · show s.step m action = _
    unfold step
    rw [if_neg (by simp [hf]), ho]
    rfl

theorem handle_move (m : Model) (s : Session ε) (mv : Move) :
    s.handle m (.move mv) = ((s.perform m mv).1.map some, (s.perform m mv).2) := by
  unfold handle
  simp only
  rcases s.perform m mv with ⟨_ | _, _⟩ <;> rfl

omit [Engine ε] in
theorem setting_eq_none {m : Model} {s : Session ε} {r : Request} (h : s.setting m r = none) :
    ∃ mv, r = .move mv := by
  cases r with
  | move mv => exact ⟨mv, rfl⟩
  | perspective p => cases h
  | addressing a => cases h
  | full value => cases h

theorem handle_setting {m : Model} {s : Session ε} {r : Request}
    {made : Except Refusal Unit × Session ε} (h : s.setting m r = some made) :
    s.handle m r = change made := by
  cases r with
  | move mv => cases h
  | perspective p => cases h; rfl
  | addressing a => cases h; rfl
  | full value => cases h; rfl

/-! ## Changes of settings -/

section Changes

omit [Engine ε]

variable {m : Model} {s s' : Session ε} {e : Refusal}

/-- The valuations a session keeps under a perspective. -/
def kept (m : Model) : Perspective → Option Valuations
  | .states => none
  | .records => m.valuations

theorem switchPerspective_eq_ok {p : Perspective} :
    s.switchPerspective m p = (.ok (), s') ↔
      (p = .records → m.valuations.isSome ∧ s.full = true) ∧
        s' = { s with perspective := p, valuations := kept m p } := by
  unfold switchPerspective kept
  cases p with
  | states => simp [@eq_comm _ s']
  | records =>
    cases hv : m.valuations with
    | none => simp
    | some v => cases hf : s.full <;> simp [@eq_comm _ s']

theorem switchPerspective_eq_error {p : Perspective} :
    s.switchPerspective m p = (.error e, s') ↔ p = .records ∧
      (m.valuations = none ∧ e = .misconfigured .noValuations ∨
        m.valuations.isSome ∧ s.full = false ∧ e = .hiddenRecords) ∧ s' = s := by
  unfold switchPerspective
  cases p with
  | states => simp
  | records =>
    cases hv : m.valuations with
    | none => simp [@eq_comm _ e, @eq_comm _ s']
    | some v => cases hf : s.full <;> simp [@eq_comm _ e, @eq_comm _ s']

theorem switchAddressing_eq_ok {a : Addressing} :
    s.switchAddressing m a = (.ok (), s') ↔
      (a = .names → m.choiceLabels.isSome) ∧ s' = { s with addressing := a } := by
  unfold switchAddressing
  cases a with
  | offsets => simp [@eq_comm _ s']
  | names => cases m.choiceLabels <;> simp [@eq_comm _ s']

theorem switchAddressing_eq_error {a : Addressing} :
    s.switchAddressing m a = (.error e, s') ↔
      (a = .names ∧ m.choiceLabels = none ∧ e = .misconfigured .noChoiceLabels) ∧ s' = s := by
  unfold switchAddressing
  cases a with
  | offsets => simp
  | names => cases m.choiceLabels <;> simp [@eq_comm _ e, @eq_comm _ s']

theorem switchFull_eq_ok {value : Bool} :
    s.switchFull m value = (.ok (), s') ↔
      (value = false → m.partiallyObservable = true ∧ s.perspective = .states) ∧
        s' = { s with full := value } := by
  unfold switchFull
  cases value with
  | true => simp [@eq_comm _ s']
  | false => cases m.partiallyObservable <;> cases s.perspective <;> simp [@eq_comm _ s']

theorem switchFull_eq_error {value : Bool} :
    s.switchFull m value = (.error e, s') ↔ value = false ∧
      (m.partiallyObservable = false ∧ e = .misconfigured .alwaysObservable ∨
        m.partiallyObservable = true ∧ s.perspective = .records ∧ e = .hiddenRecords) ∧ s' = s := by
  unfold switchFull
  cases value with
  | true => simp
  | false =>
    cases m.partiallyObservable <;> cases s.perspective <;> simp [@eq_comm _ e, @eq_comm _ s']

theorem setting_refused {r : Request} (h : s.setting m r = some (.error e, s')) : s' = s := by
  cases r with
  | move mv => cases h
  | perspective p => exact (switchPerspective_eq_error.1 (Option.some.inj h)).2.2
  | addressing a => exact (switchAddressing_eq_error.1 (Option.some.inj h)).2
  | full value => exact (switchFull_eq_error.1 (Option.some.inj h)).2.2

/-- A change of settings concerns neither the engine nor the seed nor a fault. -/
theorem setting_frame {r : Request} (h : s.setting m r = some (.ok (), s')) :
    s'.engine = s.engine ∧ s'.seed = s.seed ∧ s'.faulted = s.faulted := by
  cases r with
  | move mv => cases h
  | perspective p =>
    obtain ⟨-, rfl⟩ := switchPerspective_eq_ok.1 (Option.some.inj h)
    exact ⟨rfl, rfl, rfl⟩
  | addressing a =>
    obtain ⟨-, rfl⟩ := switchAddressing_eq_ok.1 (Option.some.inj h)
    exact ⟨rfl, rfl, rfl⟩
  | full value =>
    obtain ⟨-, rfl⟩ := switchFull_eq_ok.1 (Option.some.inj h)
    exact ⟨rfl, rfl, rfl⟩

/-- Made or turned down, a change leaves the engine alone. -/
theorem setting_engine {r : Request} {made : Except Refusal Unit × Session ε}
    (h : s.setting m r = some made) : made.2.engine = s.engine := by
  obtain ⟨_ | _, s'⟩ := made
  · rw [setting_refused h]
  · exact (setting_frame h).1

theorem change_snd (made : Except Refusal Unit × Session ε) : (change made).2 = made.2 := by
  obtain ⟨_ | _, s'⟩ := made <;> rfl

end Changes

/-! ## There is no other way -/

theorem outcome_move (m : Model) (s : Session ε) (mv : Move) :
    Outcome m s (.move mv) (s.handle m (.move mv)).1 (s.handle m (.move mv)).2 := by
  rw [handle_move]
  cases hf : s.faulted with
  | true =>
    rw [perform_of_faulted hf]
    exact .faulted mv hf
  | false =>
    cases h : s.demand m mv with
    | error e =>
      rw [perform_of_demand_error hf h]
      exact .refused hf h
    | ok d =>
      rw [perform_of_demand hf h]
      unfold afterMove
      cases hd : (d.apply s.engine).1 with
      | false =>
        obtain ⟨call, hc⟩ := Demand.call?_isSome_of_apply hd
        rw [hc]
        exact .failed hf h hc hd
      | true =>
        rw [if_pos rfl]
        unfold settle
        cases hr : report m { s with engine := (d.apply s.engine).2 } with
        | error e => exact .unseen hf h hd hr
        | ok r => exact .made hf h hd hr

theorem outcome_setting {m : Model} {s : Session ε} {r : Request}
    {made : Except Refusal Unit × Session ε} (h : s.setting m r = some made) :
    Outcome m s r (s.handle m r).1 (s.handle m r).2 := by
  rw [handle_setting h]
  obtain ⟨_ | _, s'⟩ := made
  · obtain rfl := setting_refused h
    exact .kept h
  · exact .switched h

/-- Every request is answered in one of the listed ways. -/
theorem handle_outcome (m : Model) (s : Session ε) (r : Request) :
    Outcome m s r (s.handle m r).1 (s.handle m r).2 := by
  cases hr : s.setting m r with
  | some made => exact outcome_setting hr
  | none =>
    obtain ⟨mv, rfl⟩ := setting_eq_none hr
    exact outcome_move m s mv

end Session

end MarkovSim
