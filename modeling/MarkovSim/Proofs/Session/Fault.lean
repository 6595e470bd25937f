import MarkovSim.Proofs.Gallery
import MarkovSim.Proofs.Session.Outcome
import MarkovSim.Walk.Faltering
import MarkovSim.Walk.Walker

/-!
# Rejected requests and faults

A request that is turned down changes nothing, and a fault is for good. Both hold for every model,
also one whose answers change from request to request, and for every engine.

To speak of what a request does to the engine, `Watched` notes each demand that an engine is given,
with its answer. A session over a watched engine is the session over the engine itself
(`handle_mapEngine`), so `Session.uses` are the demands that a request makes.

For every engine, whatever the models answer:

1. A request that is turned down leaves the session as it was, unless it faults it.
2. A session becomes faulted exactly when the engine does not meet a demand, which the refusal then
   names with the state before the request, or when the state after a move cannot be shown, for the
   reason that is then the answer.
3. A faulted session stays so; every move is answered with `faulted` and does not touch the engine.
4. The engine is only asked for actions that are on offer.
5. Watching the engine, by which `uses` is said, changes neither answers nor sessions.
-/

namespace MarkovSim

/-! ## Engines that behave alike -/

/-- A map between engines under which they look alike while they are at rest. -/
structure Engine.LooksAlike {α β : Type} [Engine α] [Engine β] (f : α → β) : Prop where
  current : ∀ a, Engine.current (f a) = Engine.current a
  reward : ∀ a, Engine.reward (f a) = Engine.reward a

/-- A map between engines under which they behave alike. -/
structure Engine.Alike {α β : Type} [Engine α] [Engine β] (f : α → β) : Prop
    extends Engine.LooksAlike f where
  apply : ∀ a (d : Demand), d.apply (f a) = ((d.apply a).1, f (d.apply a).2)

namespace Session

variable {α β : Type}

def mapEngine (f : α → β) (s : Session α) : Session β :=
  ⟨f s.engine, s.seed, s.perspective, s.addressing, s.full, s.valuations, s.faulted⟩

theorem setting_mapEngine (f : α → β) (m : Model) (s : Session α) (r : Request) :
    (s.mapEngine f).setting m r = (s.setting m r).map (Prod.map id (mapEngine f)) := by
  obtain ⟨engine, seed, perspective, addressing, full, valuations, faulted⟩ := s
  cases r with
  | move mv => rfl
  | perspective p =>
    cases p with
    | states => rfl
    | records =>
      simp only [setting, switchPerspective, mapEngine, Option.map_some]
      cases m.valuations with
      | none => rfl
      | some v => cases full <;> rfl
  | addressing a =>
    simp only [setting, switchAddressing, Option.map_some]
    split <;> rfl
  | full value =>
    simp only [setting, switchFull, mapEngine, Option.map_some]
    cases value with
    | true => rfl
    | false => cases m.partiallyObservable <;> cases perspective <;> rfl

variable [Engine α] [Engine β] {f : α → β}

section LooksAlike

variable (hf : Engine.LooksAlike f)
include hf

theorem current_mapEngine (s : Session α) : (s.mapEngine f).current = s.current := hf.current _

theorem actionCount_mapEngine (m : Model) (s : Session α) :
    (s.mapEngine f).actionCount m = s.actionCount m := by
  unfold actionCount
  rw [current_mapEngine hf]

theorem offeredNames_mapEngine (m : Model) (s : Session α) :
    (s.mapEngine f).offeredNames m = s.offeredNames m := by
  unfold offeredNames
  rw [current_mapEngine hf, actionCount_mapEngine hf]

theorem menu_mapEngine (m : Model) (s : Session α) : (s.mapEngine f).menu m = s.menu m := by
  unfold menu
  rw [actionCount_mapEngine hf, offeredNames_mapEngine hf]
  rfl

theorem offsetOf_mapEngine (m : Model) (s : Session α) (action : Option Action) :
    (s.mapEngine f).offsetOf m action = s.offsetOf m action := by
  unfold offsetOf
  rw [actionCount_mapEngine hf, offeredNames_mapEngine hf]
  rfl

theorem demand_mapEngine (m : Model) (s : Session α) (mv : Move) :
    (s.mapEngine f).demand m mv = s.demand m mv := by
  cases mv with
  | restart => rfl
  | wander => rfl
  | step action =>
    show ((s.mapEngine f).offsetOf m action).map Demand.step = _
    rw [offsetOf_mapEngine hf]
    rfl

theorem report_mapEngine (m : Model) (s : Session α) :
    (s.mapEngine f).report m = s.report m := by
  unfold report
  rw [current_mapEngine hf, show Engine.reward (s.mapEngine f).engine = Engine.reward s.engine from
    hf.reward _]
  rfl

theorem settle_mapEngine (m : Model) (s : Session α) :
    settle m (s.mapEngine f) = ((settle m s).1, (settle m s).2.mapEngine f) := by
  unfold settle
  rw [report_mapEngine hf]
  cases s.report m <;> rfl

/-- It is enough that the engines behave alike at the demand that a move comes down to. -/
theorem perform_mapEngine {m : Model} {s : Session α} {mv : Move}
    (happly : ∀ d, s.demand m mv = .ok d →
      d.apply (f s.engine) = ((d.apply s.engine).1, f (d.apply s.engine).2)) :
    (s.mapEngine f).perform m mv = ((s.perform m mv).1, (s.perform m mv).2.mapEngine f) := by
  cases hfault : s.faulted with
  | true => rw [perform_of_faulted hfault, perform_of_faulted (s := s.mapEngine f) hfault]
  | false =>
    have hfault' : (s.mapEngine f).faulted = false := hfault
    cases hd : s.demand m mv with
    | error e =>
      rw [perform_of_demand_error hfault hd,
        perform_of_demand_error hfault' ((demand_mapEngine hf m s mv).trans hd)]
    | ok d =>
      rw [perform_of_demand hfault hd,
        perform_of_demand hfault' ((demand_mapEngine hf m s mv).trans hd)]
      unfold afterMove
      rw [show d.apply (s.mapEngine f).engine = _ from happly d hd, current_mapEngine hf]
      cases (d.apply s.engine).1 with
      | false => rfl
      | true => exact settle_mapEngine hf m { s with engine := (d.apply s.engine).2 }

theorem handle_mapEngine_of_apply {m : Model} {s : Session α} {r : Request}
    (happly : ∀ mv d, r = .move mv → s.demand m mv = .ok d →
      d.apply (f s.engine) = ((d.apply s.engine).1, f (d.apply s.engine).2)) :
    (s.mapEngine f).handle m r = ((s.handle m r).1, (s.handle m r).2.mapEngine f) := by
  cases hr : s.setting m r with
  | none =>
    obtain ⟨mv, rfl⟩ := setting_eq_none hr
    rw [handle_move, handle_move, perform_mapEngine hf fun d => happly mv d rfl]
  | some made =>
    have hr' := setting_mapEngine f m s r
    rw [hr, Option.map_some] at hr'
    rw [handle_setting hr, handle_setting hr']
    obtain ⟨_ | _, s'⟩ := made <;> rfl

end LooksAlike

/-- A session answers alike over engines that behave alike. -/
theorem handle_mapEngine (hf : Engine.Alike f) (m : Model) (s : Session α) (r : Request) :
    (s.mapEngine f).handle m r = ((s.handle m r).1, (s.handle m r).2.mapEngine f) :=
  handle_mapEngine_of_apply hf.toLooksAlike fun _ d _ _ => hf.apply s.engine d

end Session

/-! ## Watched engines -/

inductive EngineUse where
  | reseed (seed : UInt64)
  | demand (d : Demand) (met : Bool)
deriving DecidableEq

/-- An engine with a note of its uses, oldest first. -/
structure Watched (ε : Type) where
  inner : ε
  uses : List EngineUse := []

namespace Watched

variable {ε : Type} [Engine ε]

/-- Puts a demand to the engine inside and notes it with the answer. -/
def note (w : Watched ε) (d : Demand) : Bool × Watched ε :=
  ((d.apply w.inner).1,
    ⟨(d.apply w.inner).2, w.uses ++ [.demand d (d.apply w.inner).1]⟩)

instance : Engine (Watched ε) where
  reseed w seed := ⟨Engine.reseed w.inner seed, w.uses ++ [.reseed seed]⟩
  current w := Engine.current w.inner
  step w offset := w.note (.step offset)
  wander w := w.note .wander
  reset w := (w.note .restart).2
  reward w := Engine.reward w.inner

theorem apply_eq_note (w : Watched ε) (d : Demand) : d.apply w = w.note d := by
  cases d <;> rfl

theorem alike_inner : Engine.Alike (inner : Watched ε → ε) where
  current _ := rfl
  reward _ := rfl
  apply w d := by rw [apply_eq_note]; rfl

end Watched

namespace Session

variable {ε : Type} [Engine ε]

def watch (s : Session ε) : Session (Watched ε) := s.mapEngine fun e => ⟨e, []⟩

/-- The uses a request makes of the engine. -/
def uses (m : Model) (s : Session ε) (r : Request) : List EngineUse :=
  (s.watch.handle m r).2.engine.uses

theorem demand_watch (m : Model) (s : Session ε) (mv : Move) :
    s.watch.demand m mv = s.demand m mv :=
  (demand_mapEngine Watched.alike_inner.toLooksAlike m s.watch mv).symm

theorem engine_afterMove (m : Model) (s : Session ε) (call : EngineCall) (attempt : Bool × ε) :
    (s.afterMove m call attempt).2.engine = attempt.2 := by
  unfold afterMove settle
  split
  · split <;> rfl
  · rfl

theorem uses_of_faulted {m : Model} {s : Session ε} (h : s.faulted = true) (mv : Move) :
    s.uses m (.move mv) = [] := by
  unfold uses
  rw [handle_move, perform_of_faulted (s := s.watch) h]
  rfl

theorem uses_of_refused {m : Model} {s : Session ε} {mv : Move} {e : Refusal}
    (hf : s.faulted = false) (h : s.demand m mv = .error e) : s.uses m (.move mv) = [] := by
  unfold uses
  rw [handle_move, perform_of_demand_error (s := s.watch) hf ((demand_watch m s mv).trans h)]
  rfl

theorem uses_of_demand {m : Model} {s : Session ε} {mv : Move} {d : Demand}
    (hf : s.faulted = false) (h : s.demand m mv = .ok d) :
    s.uses m (.move mv) = [.demand d (d.apply s.engine).1] := by
  unfold uses
  rw [handle_move, perform_of_demand (s := s.watch) hf ((demand_watch m s mv).trans h),
    engine_afterMove, Watched.apply_eq_note]
  rfl

theorem uses_of_setting {m : Model} {s : Session ε} {r : Request}
    {made : Except Refusal Unit × Session ε} (h : s.setting m r = some made) :
    s.uses m r = [] := by
  have h' := setting_mapEngine (fun e : ε => (⟨e, []⟩ : Watched ε)) m s r
  rw [h, Option.map_some] at h'
  unfold uses
  rw [handle_setting (s := s.watch) h', change_snd, setting_engine (s := s.watch) h']
  rfl

/-! ## Rejections and faults -/

/-- The engine did not meet a demand of the request, which is named by the call. -/
def EngineFails (m : Model) (s : Session ε) (r : Request) (call : EngineCall) : Prop :=
  ∃ d : Demand, d.call? = some call ∧ .demand d false ∈ s.uses m r

/-- The engine moved or was reset at the request, and the state it is in then cannot be shown. -/
def ViewFails (m : Model) (s : Session ε) (r : Request) (e : Refusal) : Prop :=
  (∃ d : Demand, .demand d true ∈ s.uses m r) ∧
    m.view (s.handle m r).2.valuations (s.handle m r).2.full (s.handle m r).2.perspective
      (s.handle m r).2.current = .error e

/-- The session after requests, each with the model as it was then. -/
def after (s : Session ε) (calls : List (Model × Request)) : Session ε :=
  calls.foldl (fun s call => (s.handle call.1 call.2).2) s

theorem report_eq_error {m : Model} {s : Session ε} {e : Refusal} :
    s.report m = .error e ↔ m.view s.valuations s.full s.perspective s.current = .error e := by
  unfold report
  cases m.view s.valuations s.full s.perspective s.current <;> simp

theorem mem_uses_demand {m : Model} {s : Session ε} {r : Request} {d : Demand} {met : Bool}
    (h : .demand d met ∈ s.uses m r) :
    ∃ mv, r = .move mv ∧ s.faulted = false ∧ s.demand m mv = .ok d ∧
      (d.apply s.engine).1 = met := by
  cases hr : s.setting m r with
  | some made => rw [uses_of_setting hr] at h; cases h
  | none =>
    obtain ⟨mv, rfl⟩ := setting_eq_none hr
    cases hf : s.faulted with
    | true => rw [uses_of_faulted hf] at h; cases h
    | false =>
      cases hd : s.demand m mv with
      | error e => rw [uses_of_refused hf hd] at h; cases h
      | ok d' =>
        rw [uses_of_demand hf hd, List.mem_singleton] at h
        cases h
        exact ⟨mv, rfl, rfl, hd, rfl⟩

namespace Outcome

variable {m : Model} {s s' : Session ε} {r : Request} {answer : Answer}

/-- A request that is turned down without a fault leaves the session as it was. -/
theorem eq_of_error {e : Refusal} (h : Outcome m s r (.error e) s') (hf : s'.faulted = false) :
    s' = s := by
  cases h with
  | faulted mv h => rfl
  | refused h hd => rfl
  | failed h hd hc hm => cases hf
  | unseen h hd hm hr => cases hf
  | kept h => rfl

theorem faulted_of_faulted (h : Outcome m s r answer s') (hf : s.faulted = true) :
    s'.faulted = true := by
  cases h with
  | faulted => exact hf
  | refused => exact hf
  | failed => rfl
  | unseen => rfl
  | made => exact hf
  | kept => exact hf
  | switched hs => rw [(setting_frame hs).2.2]; exact hf

/-- A session that becomes faulted failed at its engine or at showing a state. -/
theorem fails_of_faulted (h : Outcome m s r answer s') (hf : s.faulted = false)
    (hf' : s'.faulted = true) :
    (∃ call, s.EngineFails m r call) ∨
      ∃ e, (∃ d : Demand, .demand d true ∈ s.uses m r) ∧
        m.view s'.valuations s'.full s'.perspective s'.current = .error e := by
  cases h with
  | faulted mv h => rw [hf] at h; cases h
  | refused => rw [hf] at hf'; cases hf'
  | @failed mv d call _ hd hc hm =>
    refine Or.inl ⟨call, d, hc, ?_⟩
    rw [uses_of_demand hf hd, hm]
    exact List.mem_singleton_self _
  | @unseen mv d e _ hd hm hr =>
    refine Or.inr ⟨e, ⟨d, ?_⟩, report_eq_error.1 hr⟩
    rw [uses_of_demand hf hd, hm]
    exact List.mem_singleton_self _
  | made => rw [hf] at hf'; cases hf'
  | kept => rw [hf] at hf'; cases hf'
  | switched hs => rw [(setting_frame hs).2.2, hf] at hf'; cases hf'

/-- A state that cannot be shown after a move faults the session, and the reason is the answer. -/
theorem of_unseen {d : Demand} {e : Refusal} (h : Outcome m s r answer s')
    (hu : .demand d true ∈ s.uses m r)
    (hview : m.view s'.valuations s'.full s'.perspective s'.current = .error e) :
    answer = .error e ∧ s'.faulted = true := by
  obtain ⟨mv, rfl, hf, hd, hm⟩ := mem_uses_demand hu
  cases h with
  | faulted _ h => rw [hf] at h; cases h
  | refused _ h => rw [hd] at h; cases h
  | failed _ h _ hm' => rw [hd] at h; cases h; rw [hm] at hm'; cases hm'
  | @unseen _ d' e' _ h _ hr =>
    have heq : (.error e' : Except Refusal Observation) = .error e :=
      (report_eq_error.1 hr).symm.trans hview
    cases heq
    exact ⟨rfl, rfl⟩
  | made _ h _ hr =>
    have heq := hr.symm.trans (report_eq_error.2 hview)
    cases heq
  | kept h => cases h
  | switched h => cases h

end Outcome

theorem handle_of_engineFails {m : Model} {s : Session ε} {r : Request} {call : EngineCall}
    (h : s.EngineFails m r call) :
    (s.handle m r).1 = .error (.engineFailed call s.current) ∧
      (s.handle m r).2.faulted = true := by
  obtain ⟨d, hc, hu⟩ := h
  obtain ⟨mv, rfl, hf, hd, hm⟩ := mem_uses_demand hu
  rw [handle_move, perform_of_demand hf hd, hc]
  unfold afterMove
  rw [if_neg (by simp [hm])]
  exact ⟨rfl, rfl⟩

theorem faulted_after {s : Session ε} (h : s.faulted = true) (calls : List (Model × Request)) :
    (s.after calls).faulted = true := by
  induction calls generalizing s with
  | nil => exact h
  | cons call calls ih => exact ih ((handle_outcome call.1 s call.2).faulted_of_faulted h)

/-- Rejection is atomic and faults are permanent, for every engine, whatever the models answer. A session
becomes faulted exactly when its engine fails or the state after a move cannot be shown. -/
theorem rejection_atomic_and_fault_permanent :
    (∀ (m : Model) (s : Session ε) (r : Request) (e : Refusal),
      (s.handle m r).1 = .error e → (s.handle m r).2.faulted = false → (s.handle m r).2 = s) ∧
    (∀ (m : Model) (s : Session ε) (r : Request), s.faulted = false →
      ((s.handle m r).2.faulted = true ↔
        (∃ call, s.EngineFails m r call) ∨ ∃ e, s.ViewFails m r e) ∧
      (∀ call, s.EngineFails m r call →
        (s.handle m r).1 = .error (.engineFailed call s.current)) ∧
      (∀ e, s.ViewFails m r e → (s.handle m r).1 = .error e)) ∧
    (∀ s : Session ε, s.faulted = true → ∀ calls : List (Model × Request),
      (s.after calls).faulted = true ∧ ∀ (m : Model) (mv : Move),
        (s.after calls).handle m (.move mv) = (.error .faulted, s.after calls) ∧
          (s.after calls).uses m (.move mv) = []) ∧
    (∀ (m : Model) (s : Session ε) (r : Request) (k : Nat) (met : Bool),
      .demand (.step k) met ∈ s.uses m r → k < s.actionCount m) ∧
    (∀ (m : Model) (s : Session ε) (r : Request),
      s.handle m r = ((s.watch.handle m r).1, (s.watch.handle m r).2.mapEngine Watched.inner)) := by
  refine ⟨fun m s r e he hf => ?_, fun m s r hf => ⟨⟨fun h => ?_, fun h => ?_⟩, ?_, ?_⟩,
    fun s hf calls => ⟨faulted_after hf calls, fun m mv => ⟨?_, ?_⟩⟩, fun m s r k met hu => ?_,
    fun m s r => handle_mapEngine Watched.alike_inner m s.watch r⟩
  · have ho := handle_outcome m s r
    rw [he] at ho
    exact ho.eq_of_error hf
  · exact (handle_outcome m s r).fails_of_faulted hf h
  · rcases h with ⟨call, h⟩ | ⟨e, ⟨d, hu⟩, hview⟩
    · exact (handle_of_engineFails h).2
    · exact ((handle_outcome m s r).of_unseen hu hview).2
  · exact fun call h => (handle_of_engineFails h).1
  · exact fun e h => ((handle_outcome m s r).of_unseen h.1.choose_spec h.2).1
  · rw [handle_move, perform_of_faulted (faulted_after hf calls)]
    rfl
  · exact uses_of_faulted (faulted_after hf calls) mv
  · obtain ⟨mv, -, -, hd, -⟩ := mem_uses_demand hu
    obtain ⟨-, hd⟩ | ⟨-, hd⟩ | ⟨action, k', -, hd, ho⟩ := demand_eq_ok hd
    · cases hd
    · cases hd
    · cases hd
      exact (addressed_of_offsetOf ho).lt

/-- Over an engine that makes no move: a name in place of an offset is turned down and changes
nothing, an action on offer is asked for and faults the session, and then not even a restart is made. -/
theorem faltering_twins_faulted :
    ∃ p, Gallery.twins = .ok p ∧ ∃ s : Session (Faltering (Walker p.dynamics)), s.faulted = false ∧
      ((s.handle p.dynamics.toModel (.move (.step (some (.name "up"))))).1 =
          .error (.wrongForm (.name "up") .offsets) ∧
        (s.handle p.dynamics.toModel (.move (.step (some (.name "up"))))).2 = s) ∧
      (s.EngineFails p.dynamics.toModel (.move (.step (some (.index 1)))) .step ∧
        (s.handle p.dynamics.toModel (.move (.step (some (.index 1))))).1 =
          .error (.engineFailed .step s.current) ∧
        1 < s.actionCount p.dynamics.toModel) ∧
      ∃ s', (s.handle p.dynamics.toModel (.move (.step (some (.index 1))))).2 = s' ∧
        s'.faulted = true ∧
        s'.handle p.dynamics.toModel (.move .restart) = (.error .faulted, s') ∧
        s'.uses p.dynamics.toModel (.move .restart) = [] := by
  obtain ⟨p, htwins, -, -, hnondet, hcount⟩ := Gallery.twins_validated
  obtain ⟨hatomic, hfault, hpermanent, hoffered, -⟩ :=
    @rejection_atomic_and_fault_permanent (Faltering (Walker p.dynamics)) _
  let s : Session (Faltering (Walker p.dynamics)) :=
    .start p.dynamics.toModel { inner := .ofSeed p.dynamics 7, allowed := 0 } 7
  have hoffers : s.actionCount p.dynamics.toModel = 2 := by
    unfold actionCount
    rw [if_pos hnondet]
    exact hcount
  have hdemand : s.demand p.dynamics.toModel (.step (some (.index 1))) = .ok (.step 1) := by
    show (if 1 < s.actionCount p.dynamics.toModel then _ else _ : Except Refusal Nat).map
      Demand.step = _
    rw [hoffers]
    rfl
  have huses : .demand (.step 1) false ∈ s.uses p.dynamics.toModel (.move (.step (some (.index 1)))) := by
    rw [uses_of_demand rfl hdemand]
    exact List.mem_singleton_self _
  have hfails : s.EngineFails p.dynamics.toModel (.move (.step (some (.index 1)))) .step :=
    ⟨.step 1, rfl, huses⟩
  obtain ⟨hiff, hcall, -⟩ := hfault p.dynamics.toModel s (.move (.step (some (.index 1)))) rfl
  have hfaulted := hiff.2 (.inl ⟨.step, hfails⟩)
  obtain ⟨hstays, hmoves⟩ := hpermanent _ hfaulted []
  exact ⟨p, htwins, s, rfl, ⟨rfl, hatomic _ s _ _ rfl rfl⟩,
    ⟨hfails, hcall .step hfails, hoffered _ s _ 1 false huses⟩,
    _, rfl, hstays, (hmoves _ .restart).1, (hmoves _ .restart).2⟩

end Session

end MarkovSim
