import MarkovSim.Proofs.Session.Trajectory
import MarkovSim.Trace.Replay

/-!
# Replaying what was recorded

The events that a recorder keeps can be made again from where it was attached (`Trace.Made`,
`Recorder.recorded_made`), since what it does not keep changed nothing. A simulator that is still at
the start of the same walk becomes, under the modes of the trace, the session that was recorded
(`Session.Fresh.replay_eq`). So a replay finds the first report that was altered, and nothing where
none was.

A simulator of a validated model that made no move but restarts is recorded, and the reports in the trace may
then be replaced by any others.
-/

namespace MarkovSim

section Events

variable {ε : Type} [Engine ε]

/-- The recorder after moves in turn, those turned down included. -/
def Recorder.recorded (m : Model) (r : Recorder ε) (moves : List Move) : Recorder ε :=
  moves.foldl (fun r mv => (r.perform m mv).2) r

namespace Trace

/-- The first session makes these events one after the other and becomes the second. -/
inductive Made (m : Model) : Session ε → List Event → Session ε → Prop
  | nil (s : Session ε) : Made m s [] s
  | cons {s s₁ s' : Session ε} {e : Event} {rest : List Event} :
      s.perform m e.move = (.ok e.report, s₁) → Made m s₁ rest s' → Made m s (e :: rest) s'

/-- The events in one place, if there are any, have equal reports. -/
def AgreeAt (actual expected : List Event) (i : Nat) : Prop :=
  ∀ a e, actual[i]? = some a → expected[i]? = some e → (a.report == e.report) = true

/-- The place is the first where the reports differ. -/
structure FirstDifference (actual expected : List Event) (i : Nat) (a e : Event) : Prop where
  ofActual : actual[i]? = some a
  ofExpected : expected[i]? = some e
  differ : (a.report == e.report) = false
  before : ∀ j < i, AgreeAt actual expected j

theorem FirstDifference.not_agreeAt {actual expected : List Event} {i : Nat} {a e : Event}
    (h : FirstDifference actual expected i a e) : ¬ AgreeAt actual expected i := by
  intro hagree
  have hequal := hagree a e h.ofActual h.ofExpected
  rw [h.differ] at hequal
  cases hequal

theorem FirstDifference.unique {actual expected : List Event} {i j : Nat} {a e b f : Event}
    (h : FirstDifference actual expected i a e) (h' : FirstDifference actual expected j b f) :
    i = j := by
  rcases Nat.lt_trichotomy i j with hij | hij | hij
  · exact absurd (h'.before i hij) h.not_agreeAt
  · exact hij
  · exact absurd (h.before j hij) h'.not_agreeAt

theorem agreeAt_cons_zero {a e : Event} (h : (a.report == e.report) = true)
    (actual expected : List Event) : AgreeAt (a :: actual) (e :: expected) 0 := by
  intro a' e' ha he
  cases ha
  cases he
  exact h

/-- Events that were made are made again; a replay stops at the first altered report. -/
theorem Made.follow_cases {m : Model} {s s' : Session ε} {actual : List Event}
    (h : Made m s actual s') {expected : List Event}
    (hmoves : expected.map Event.move = actual.map Event.move) (index : Nat) :
    ((∀ i, AgreeAt actual expected i) ∧
        (follow m s index expected).1 = .ok ⟨index + expected.length, none⟩) ∨
      ∃ i a e, FirstDifference actual expected i a e ∧
        (follow m s index expected).1 =
          .ok ⟨index + i + 1, some ⟨index + i, e.report, a.report⟩⟩ := by
  -- The moves made before shift every place by `index`, so it varies along the induction.
  induction h generalizing expected index with
  | nil s =>
    obtain rfl := List.map_eq_nil_iff.1 hmoves
    exact Or.inl ⟨fun i a e ha => by simp at ha, rfl⟩
  | @cons s s₁ s' a rest hperform hrest ih =>
    cases expected with
    | nil => cases hmoves
    | cons e expected =>
      obtain ⟨hmove, hmoves⟩ := List.cons.inj hmoves
      have hfollow : (follow m s index (e :: expected)).1 =
          (if a.report == e.report then follow m s₁ (index + 1) expected
            else (.ok ⟨index + 1, some ⟨index, e.report, a.report⟩⟩, s₁)).1 := by
        rw [follow, hmove, hperform]
      by_cases hsame : (a.report == e.report) = true
      · rw [hfollow, if_pos hsame]
        have hhead := agreeAt_cons_zero hsame rest expected
        rcases ih hmoves (index + 1) with ⟨hagree, hend⟩ | ⟨i, b, f, hfirst, hend⟩
        · refine Or.inl ⟨fun i => ?_, ?_⟩
          · cases i with
            | zero => exact hhead
            | succ i => exact hagree i
          · rw [hend, List.length_cons, Nat.add_right_comm, Nat.add_assoc]
        · refine Or.inr ⟨i + 1, b, f, ⟨hfirst.ofActual, hfirst.ofExpected, hfirst.differ, ?_⟩, ?_⟩
          · intro j hj
            cases j with
            | zero => exact hhead
            | succ j => exact hfirst.before j (Nat.lt_of_succ_lt_succ hj)
          · rw [hend, show index + 1 + i = index + (i + 1) by omega]
      · rw [hfollow, if_neg hsame]
        exact Or.inr ⟨0, a, e, ⟨rfl, rfl, Bool.eq_false_iff.2 hsame, fun j hj => by omega⟩, rfl⟩

end Trace

end Events

/-! ## Reports -/

theorem Model.view_beq_self {m : Model} {v : Option Valuations} {full : Bool}
    {perspective : Perspective} {s : Nat} {o : Observation}
    (h : m.view v full perspective s = .ok o) : (o == o) = true := by
  rcases view_eq_ok h with rfl | ⟨v, record, -, hv, rfl⟩ | ⟨k, -, rfl⟩
  · exact beq_self_eq_true s
  · exact Valuations.record?_beq_self hv
  · exact beq_self_eq_true k

namespace Session

variable {d : Dynamics} (hd : d.Sound)
include hd

theorem Safe.report_beq_self {s : Session (Walker d)} (h : s.Safe) {mv : Move} {dm : Demand}
    (hdm : s.demand d.toModel mv = .ok dm) {r : Report}
    (hr : report d.toModel { s with engine := (dm.apply s.engine).2 } = .ok r) :
    (r == r) = true := by
  obtain ⟨hview, hreward⟩ := view_of_report hr
  exact Report.beq_self (Model.view_beq_self hview) (hreward ▸ (h.demand_met hd hdm).2.2)

theorem Safe.made_beq_self {s s' : Session (Walker d)} {es : List Event} (h : s.Safe)
    (hmade : Trace.Made d.toModel s es s') : ∀ e ∈ es, (e.report == e.report) = true := by
  induction hmade with
  | nil s => exact fun e he => by cases he
  | @cons s s₁ s' a rest hperform _ ih =>
    rcases h.perform_cases hd a.move with ⟨e, he⟩ | ⟨dm, r, hdm, hr, hok⟩
    · rw [he] at hperform
      cases hperform
    · rw [hok] at hperform
      obtain ⟨hreport, rfl⟩ := Prod.mk.inj hperform
      obtain rfl := Except.ok.inj hreport
      refine List.forall_mem_cons.2 ⟨?_, ih (h.moved hd hdm)⟩
      exact h.report_beq_self hd hdm hr

end Session

/-! ## Recording -/

/-- A recorder over a safe session keeps what was made, and the rest changed nothing. -/
theorem Recorder.recorded_made {d : Dynamics} (hd : d.Sound) {r : Recorder (Walker d)}
    (h : r.session.Safe) (moves : List Move) :
    ∃ es, (r.recorded d.toModel moves).trace =
        { r.trace with events := r.trace.events ++ es } ∧
      Trace.Made d.toModel r.session es (r.recorded d.toModel moves).session := by
  induction moves generalizing r with
  | nil => exact ⟨[], by simp [recorded], .nil _⟩
  | cons mv moves ih =>
    have hstep : r.recorded d.toModel (mv :: moves) =
        (r.perform d.toModel mv).2.recorded d.toModel moves := rfl
    rw [hstep]
    unfold perform
    rcases h.perform_cases hd mv with ⟨e, he⟩ | ⟨dm, report, hdm, -, hok⟩
    · -- Turned down: the recorder is what it was.
      rw [he]
      exact ih h
    · rw [hok]
      obtain ⟨es, htrace, hmade⟩ := ih (r := ⟨_, _⟩) (h.moved hd hdm)
      refine ⟨⟨mv, report⟩ :: es, ?_, .cons hok hmade⟩
      rw [htrace, List.append_assoc]
      rfl

/-! ## Sessions at the start of their walk -/

namespace Session

theorem Outcome.seed_eq {ε : Type} [Engine ε] {m : Model} {s s' : Session ε} {r : Request}
    {answer : Answer} (h : Outcome m s r answer s') : s'.seed = s.seed := by
  cases h with
  | switched hs => exact (setting_frame hs).2.1
  | _ => rfl

theorem seed_run {ε : Type} [Engine ε] (m : Model) (s : Session ε) (rs : List Request) :
    (s.run m rs).2.seed = s.seed := by
  induction rs generalizing s with
  | nil => rfl
  | cons r rs ih => exact (ih (s.handle m r).2).trans (handle_outcome m s r).seed_eq

variable {d : Dynamics}

/-- A session that made no move but restarts is still at the start of its walk. -/
theorem Fresh.run_of_restarts (hd : d.Sound) {s : Session (Walker d)} (h : s.Fresh)
    {rs : List Request} (hrs : ∀ q ∈ s.passages d.toModel rs, q.demand = .restart) :
    (s.run d.toModel rs).2.Fresh := by
  have hsafe := h.safe hd
  have hend := (hsafe.run hd rs).1
  refine ⟨hend.consistent, ?_, hend.usable⟩
  rw [(hsafe.passages_run hd rs).2, seed_run, h.engine]
  refine Walker.led_ofSeed_restart d s.seed fun dm hdm => ?_
  obtain ⟨q, hq, rfl⟩ := List.mem_map.1 hdm
  exact hrs q hq

theorem Fresh.eq_of_modes {s s' : Session (Walker d)} (h : s.Fresh) (h' : s'.Fresh)
    (hseed : s.seed = s'.seed) (hp : s.perspective = s'.perspective)
    (ha : s.addressing = s'.addressing) (hf : s.full = s'.full) : s = s' := by
  have hengine := h.engine
  have hvaluations := h.consistent.valuations
  have husable := h.usable
  rw [hseed, ← h'.engine] at hengine
  rw [hp, ← h'.consistent.valuations] at hvaluations
  rw [← h'.usable] at husable
  obtain ⟨_, _, _, _, _, _, _⟩ := s
  obtain ⟨_, _, _, _, _, _, _⟩ := s'
  subst hengine hseed hp ha hf hvaluations husable
  rfl

/-- Under the modes of a session at the start of the same walk, a replay starts from that session. -/
theorem Fresh.replay_eq {s fresh : Session (Walker d)} (h : s.Fresh) (hfresh : fresh.Fresh)
    (hseed : fresh.seed = s.seed) (events : List Event) :
    Trace.replay ⟨s.seed, s.perspective, s.addressing, s.full, events⟩ d.toModel fresh =
      Trace.follow d.toModel s 0 events := by
  have hfits : Settings.Fits ⟨some s.seed, s.perspective, s.addressing, some s.full⟩ d.toModel
      s.full := ⟨h.consistent.hidden, h.consistent.records, h.consistent.names⟩
  have happly := Settings.apply_eq_target (s := fresh) hfits
  have htarget : Settings.target ⟨some s.seed, s.perspective, s.addressing, some s.full⟩ d.toModel
      fresh = s := by
    refine Fresh.eq_of_modes ⟨?_, hfresh.engine, hfresh.usable⟩ h hseed rfl rfl rfl
    exact ⟨h.consistent.hidden, h.consistent.records, rfl, h.consistent.names⟩
  unfold Trace.replay
  rw [if_neg (not_not_intro hseed)]
  simp only [Trace.settings]
  rw [happly, htarget]

end Session

/-- Replay decides faithfulness exactly. On a fresh simulator of the same seed, in any modes, it finds the
first report that differs from the one recorded, and nothing where all are equal. The trace that was
recorded is always faithful. -/
theorem Simulation.replay_decides {p : ExplicitModel} (hp : p.Validated) {c c' : Settings}
    {drawn drawn' : UInt64} {s fresh : Session (Walker p.dynamics)}
    (h : create p.source c drawn = .ok ⟨p.dynamics, s⟩)
    (hfresh : create p.source c' drawn' = .ok ⟨p.dynamics, fresh⟩)
    (hseed : c'.seed.getD drawn' = c.seed.getD drawn) (prior : List Request)
    (hprior : ∀ q ∈ s.passages p.dynamics.toModel prior, q.demand = .restart) (moves : List Move)
    {t : Trace} (ht : t = ((Recorder.attach (s.run p.dynamics.toModel prior).2).recorded
      p.dynamics.toModel moves).trace) (expected : List Event)
    (hmoves : expected.map Event.move = t.events.map Event.move) :
    (((∀ i, Trace.AgreeAt t.events expected i) ∧
        (Trace.replay { t with events := expected } p.dynamics.toModel fresh).1 =
          .ok ⟨expected.length, none⟩) ∨
      ∃ i a e, Trace.FirstDifference t.events expected i a e ∧
        (Trace.replay { t with events := expected } p.dynamics.toModel fresh).1 =
          .ok ⟨i + 1, some ⟨i, e.report, a.report⟩⟩) ∧
    (t.replay p.dynamics.toModel fresh).1 = .ok ⟨t.events.length, none⟩ := by
  have hd := hp.sound
  obtain ⟨hs, hsseed⟩ := fresh_of_create rfl h
  obtain ⟨hf, hfseed⟩ := fresh_of_create rfl hfresh
  have hstart := hs.run_of_restarts hd hprior
  have hsame : fresh.seed = (s.run p.dynamics.toModel prior).2.seed := by
    rw [Session.seed_run, hfseed, hsseed, hseed]
  obtain ⟨es, htrace, hmade⟩ := Recorder.recorded_made hd
    (r := .attach (s.run p.dynamics.toModel prior).2) (hstart.safe hd) moves
  have htrace' : t = ⟨_, _, _, _, es⟩ := ht.trans htrace
  subst htrace'
  have hreplay (events : List Event) := congrArg Prod.fst (hstart.replay_eq hf hsame events)
  refine ⟨?_, ?_⟩
  · rcases hmade.follow_cases hmoves 0 with ⟨hagree, hend⟩ | ⟨i, a, e, hfirst, hend⟩
    · rw [Nat.zero_add] at hend
      exact Or.inl ⟨hagree, (hreplay expected).trans hend⟩
    · rw [Nat.zero_add] at hend
      exact Or.inr ⟨i, a, e, hfirst, (hreplay expected).trans hend⟩
  · rcases hmade.follow_cases rfl 0 with ⟨-, hend⟩ | ⟨i, a, e, hfirst, -⟩
    · rw [Nat.zero_add] at hend
      exact (hreplay es).trans hend
    · have hself := (hstart.safe hd).made_beq_self hd hmade a (List.mem_of_getElem? hfirst.ofActual)
      have hae : a = e := Option.some.inj (hfirst.ofActual.symm.trans hfirst.ofExpected)
      have hdiffer := hfirst.differ
      rw [← hae, hself] at hdiffer
      cases hdiffer

/-- Of hidden states a random move, a step and a restart are recorded, with a name that is turned down
among them. Where the random move led decides what the step reports: the trace is faithful, and one
that has the step end in the class it started in differs there first. -/
theorem Simulation.hidden_twins_replayed :
    ∃ p s fresh t expected, Gallery.twins = .ok p ∧
      create p.source { full := some false } 7 = .ok ⟨p.dynamics, s⟩ ∧
      create p.source { seed := some 7, full := some true } 3 = .ok ⟨p.dynamics, fresh⟩ ∧
      t = ((Recorder.attach (s.run p.dynamics.toModel [.move .restart]).2).recorded
        p.dynamics.toModel
        [.wander, .step (some (.name "up")), .step (some (.index 0)), .restart]).trace ∧
      t.events.map Event.move = [.wander, .step (some (.index 0)), .restart] ∧
      expected = t.events.map (fun e => { e with report := ⟨.classOf 1, 0.0⟩ }) ∧
      (∃ a e, Trace.FirstDifference t.events expected 1 a e ∧
        (Trace.replay { t with events := expected } p.dynamics.toModel fresh).1 =
          .ok ⟨2, some ⟨1, e.report, a.report⟩⟩) ∧
      (t.replay p.dynamics.toModel fresh).1 = .ok ⟨t.events.length, none⟩ := by
  obtain ⟨p, htwins, hp, hpart, -⟩ := Gallery.twins_validated
  have hd := hp.sound
  have h := create_of_fits p.source rfl rfl (c := { full := some false })
    ⟨fun _ => hpart, nofun, nofun⟩ 7
  have hfresh := create_of_fits p.source rfl rfl (c := { seed := some 7, full := some true })
    ⟨nofun, nofun, nofun⟩ 3
  have hdemands := ((fresh_of_create rfl h).1.safe hd).demands_move hd
    (show Session.demand _ _ .restart = .ok .restart from rfl) []
  have hprior (q : Passage) (hq : q ∈ Session.passages p.dynamics.toModel _ [.move .restart]) :
      q.demand = .restart := List.eq_of_mem_singleton (hdemands ▸ List.mem_map_of_mem hq)
  have hevents : Gallery.twins.toOption.map (fun p =>
      ((Recorder.attach ((Settings.target { full := some false } p.dynamics.toModel
        (start p.dynamics 7)).run p.dynamics.toModel [.move .restart]).2).recorded p.dynamics.toModel
          [.wander, .step (some (.name "up")), .step (some (.index 0)), .restart]).trace.events.map
        fun e => (e.move, e.report == (⟨.classOf 1, 0.0⟩ : Report))) =
      some [(.wander, true), (.step (some (.index 0)), false), (.restart, false)] := by
    decide +kernel
  rw [htwins] at hevents
  replace hevents := Option.some.inj hevents
  have hmoves (es : List Event) : (es.map fun e => { e with report := ⟨.classOf 1, 0.0⟩ }).map
      Event.move = es.map Event.move := by
    rw [List.map_map]
    rfl
  have hmade := congrArg (List.map Prod.fst) hevents
  rw [List.map_map] at hmade
  obtain ⟨a, rest, hrest, ha, hevents⟩ := List.map_eq_cons_iff.1 hevents
  obtain ⟨b, rest, rfl, hb, -⟩ := List.map_eq_cons_iff.1 hevents
  have hfirst : Trace.FirstDifference (a :: b :: rest)
      ((a :: b :: rest).map fun e => { e with report := ⟨.classOf 1, 0.0⟩ }) 1 b
      { b with report := ⟨.classOf 1, 0.0⟩ } := by
    refine ⟨rfl, rfl, (Prod.mk.inj hb).2, fun j hj => ?_⟩
    obtain rfl := Nat.lt_one_iff.1 hj
    exact Trace.agreeAt_cons_zero (Prod.mk.inj ha).2 _ _
  rw [← hrest] at hfirst
  obtain ⟨hfound, hfaithful⟩ := replay_decides hp h hfresh rfl [.move .restart] hprior
    [.wander, .step (some (.name "up")), .step (some (.index 0)), .restart] rfl _
    (hmoves _)
  obtain ⟨i, b, e, hdiffers, hreplay⟩ :=
    hfound.resolve_left fun hall => hfirst.not_agreeAt (hall.1 1)
  obtain rfl := hdiffers.unique hfirst
  exact ⟨p, _, _, _, _, htwins, h, hfresh, rfl, hmade, rfl, ⟨b, e, hdiffers, hreplay⟩, hfaithful⟩

end MarkovSim
