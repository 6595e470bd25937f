import MarkovSim.Proofs.Binary64.Overflow
import MarkovSim.Proofs.Replay
import MarkovSim.Proofs.Trace.Unread

/-!
# Rewards of a run

A walk enters its first state without a choice and every other by one, and is rewarded for both together.
The walker of a session always holds the rewards of the last state it entered (`Walker.Earned`,
`Safe.run_earned`), and every report shows the first of those. The parts are finite in a validated model, so
a reward is a number, and it is finite exactly when the exact sum of its parts is below the ceiling of the
format (`Dynamics.Sound.isFinite_rewardOf`). A trace is read back exactly when no reward in it is an infinity.

Whatever has been asked of a simulator of a validated model, and whatever moves are recorded from there:

1. The walker holds, for each reward model, the reward for a state that can be entered, and so does every
   report that was given, those in the trace included, of the first reward model.
2. Such a reward is a number, and it is finite exactly when the exact sum of its parts is below the ceiling.
3. Where the numbers of the model have the widths of those that are stored, the trace comes back unchanged
   if its rewards are finite, and is not read otherwise.
4. So if no state can be entered for a reward above the ceiling, all rewards are finite and the trace comes
   back.
-/

namespace MarkovSim

open Binary64

namespace Dynamics

/-- A state is entered at the start of a walk, or by a choice that some state offers and that can lead to
it. -/
inductive Enters (d : Dynamics) : Option ℕ → ℕ → Prop
  | start : Enters d none d.initial
  | choice {s k : ℕ} {b : Branch} : s < d.stateCount → k < d.actionCount s →
      b ∈ d.row (d.choiceAt s k) → Enters d (some (d.choiceAt s k)) b.target

variable (d : Dynamics) (i : ℕ) (c : Option ℕ) (t : ℕ)

/-- The reward for the choice by which a state is entered; zero where there is none. -/
def rewardOfEntry : Float := (c.map (d.rewardOfChoice i)).getD 0.0

/-- By reward model, the reward for entering a state. -/
def rewardOf : Float := d.rewardOfEntry i c + d.rewardOfState i t

/-- That reward without rounding. -/
def exactReward : ℚ := value (d.rewardOfEntry i c) + value (d.rewardOfState i t)

/-- The reward that is reported: that of the first reward model, or zero if there is none. -/
def reported : Float := if 0 < d.rewardCount then d.rewardOf 0 c t else 0.0

/-- No state is entered for a reward that is too large. -/
def Bounded : Prop :=
  ∀ c t, d.Enters c t → ∀ i < d.rewardCount, |d.exactReward i c t| < ceiling

def entries : List (Option ℕ × ℕ) :=
  (none, d.initial) :: (List.range d.stateCount).flatMap fun s =>
    (List.range (d.actionCount s)).flatMap fun k =>
      (d.row (d.choiceAt s k)).map fun b => (some (d.choiceAt s k), b.target)

/-- The numbers of the dynamics have the widths of those that are stored. -/
structure Narrow : Prop where
  states : d.stateCount ≤ UInt64.size
  actions : ∀ s < d.stateCount, d.actionCount s ≤ UInt64.size
  classes : ∀ s k, d.observation s = some k → k < UInt32.size
  valuations : ∀ v, d.valuations = some v → v.Storable

variable {d} {i c t}

theorem Enters.mem_entries (h : d.Enters c t) : (c, t) ∈ d.entries := by
  cases h with
  | start => exact List.mem_cons_self
  | choice hs hk hb =>
    refine List.mem_cons_of_mem _ (List.mem_flatMap.2 ⟨_, List.mem_range.2 hs, ?_⟩)
    exact List.mem_flatMap.2 ⟨_, List.mem_range.2 hk, List.mem_map_of_mem hb⟩

section Sound

variable (hd : d.Sound)
include hd

theorem Sound.isFinite_rewardOfEntry (i : ℕ) (c : Option ℕ) :
    (d.rewardOfEntry i c).isFinite = true := by
  cases c with
  | none => exact Rewards.isFinite_zero
  | some c => exact hd.rewardOfChoice i c

theorem Sound.isFinite_rewardOf :
    (d.rewardOf i c t).isFinite = true ↔ |d.exactReward i c t| < ceiling :=
  isFinite_add_iff (hd.isFinite_rewardOfEntry i c) (hd.rewardOfState i t)

theorem Sound.isNaN_rewardOf : (d.rewardOf i c t).isNaN = false :=
  isNaN_add (isNaN_of_isFinite (hd.isFinite_rewardOfEntry i c)) (hd.rewardOfState i t)

/-- Dynamics are bounded if all their rewards are seen to be finite. -/
theorem Sound.bounded_of_entries (h : (d.entries.all fun e => (List.range d.rewardCount).all fun i =>
    (d.rewardOf i e.1 e.2).isFinite) = true) : d.Bounded := by
  intro c t henters i hi
  refine hd.isFinite_rewardOf.1 ?_
  rw [List.all_eq_true] at h
  exact List.all_eq_true.1 (h _ henters.mem_entries) i (List.mem_range.2 hi)

theorem Sound.isFinite_reported (hb : d.Bounded) (h : d.Enters c t) :
    (d.reported c t).isFinite = true := by
  unfold reported
  by_cases hpos : 0 < d.rewardCount
  · rw [if_pos hpos]
    exact hd.isFinite_rewardOf.2 (hb c t h 0 hpos)
  · rw [if_neg hpos]
    exact Rewards.isFinite_zero

end Sound

end Dynamics

/-! ## Walkers -/

namespace Walker

variable {d : Dynamics} {w : Walker d} {c : Option ℕ}

/-- A walker entered its state by the choice, if by one, and holds the rewards for it. -/
structure Earned (w : Walker d) (c : Option ℕ) : Prop where
  enters : d.Enters c w.current
  rewards : w.rewards = (List.range d.rewardCount).map fun i => d.rewardOf i c w.current

theorem Earned.length_rewards (h : w.Earned c) : w.rewards.length = d.rewardCount := by
  simp [h.rewards]

theorem Earned.reward_eq (h : w.Earned c) : w.reward = d.reported c w.current := by
  unfold reward Dynamics.reported
  rw [h.rewards]
  cases d.rewardCount with
  | zero => simp
  | succ n => simp [List.range_succ_eq_map]

theorem earned_ofSeed (d : Dynamics) (seed : UInt64) : (ofSeed d seed).Earned none :=
  ⟨.start, mapIdx_rewards (d := d) (w := ⟨.ofSeed seed, seed, d.initial, _⟩) List.length_replicate _⟩

theorem Earned.reset (h : w.Earned c) : w.reset.Earned none :=
  ⟨.start, mapIdx_rewards h.length_rewards _⟩

section Sound

variable (hd : d.Sound) (hw : w.current < d.stateCount)
include hd hw

theorem Earned.step (h : w.Earned c) {k : ℕ} (hk : k < d.actionCount w.current) :
    ∃ c', (w.step k).2.Earned c' := by
  obtain ⟨b, hb, -, hstep⟩ := step_eq_follow hk (hd.row_ne_nil _ hw k hk)
  rw [hstep]
  exact ⟨_, .choice hw hk hb, mapIdx_rewards h.length_rewards _⟩

theorem Earned.wander (h : w.Earned c) : ∃ c', w.wander.2.Earned c' := by
  obtain ⟨k, hk, g, hstep⟩ := wander_eq_step (hd.actionCount_pos _ hw)
  rw [hstep]
  exact Earned.step (w := { w with generator := g }) hd hw ⟨h.enters, h.rewards⟩ hk

end Sound

end Walker

/-! ## Sessions -/

namespace Session

variable {d : Dynamics} {s : Session (Walker d)}

/-- The walker of a session holds the rewards for the state it is in. -/
def Earned (s : Session (Walker d)) : Prop := ∃ c, s.engine.Earned c

/-- A report shows the reward for a state that can be entered. -/
def Rewarded (d : Dynamics) (r : Report) : Prop :=
  ∃ c t, d.Enters c t ∧ r.reward = d.reported c t

theorem Earned.rewarded (h : s.Earned) {r : Report} (hr : s.report d.toModel = .ok r) :
    Rewarded d r := by
  obtain ⟨c, hc⟩ := h
  exact ⟨c, _, hc.enters, (view_of_report hr).2.trans hc.reward_eq⟩

section Sound

variable (hd : d.Sound)
include hd

theorem Safe.earned_demand (h : s.Safe) (he : s.Earned) {mv : Move} {dm : Demand}
    (hdm : s.demand d.toModel mv = .ok dm) : Earned { s with engine := (dm.apply s.engine).2 } := by
  obtain ⟨c, hc⟩ := he
  obtain ⟨-, rfl⟩ | ⟨-, rfl⟩ | ⟨action, k, -, rfl, ho⟩ := demand_eq_ok hdm
  · exact ⟨_, hc.reset⟩
  · exact hc.wander hd h.placed
  · have hk := (addressed_of_offsetOf ho).lt
    rw [h.actionCount_eq hd] at hk
    exact hc.step hd h.placed hk

theorem Safe.earned_outcome (h : s.Safe) (he : s.Earned) {r : Request} {answer : Answer}
    {s' : Session (Walker d)} (ho : Outcome d.toModel s r answer s') :
    s'.Earned ∧ ∀ report, answer = .ok (some report) → Rewarded d report := by
  cases ho with
  | made _ hdm _ hr =>
    have hend := h.earned_demand hd he hdm
    refine ⟨hend, fun report hreport => ?_⟩
    obtain rfl := Option.some.inj (Except.ok.inj hreport)
    exact hend.rewarded hr
  | failed _ hdm _ _ => exact ⟨h.earned_demand hd he hdm, nofun⟩
  | unseen _ hdm _ _ => exact ⟨h.earned_demand hd he hdm, nofun⟩
  | switched hs =>
    obtain ⟨c, hc⟩ := he
    exact ⟨⟨c, (setting_frame hs).1 ▸ hc⟩, nofun⟩
  | faulted => exact ⟨he, nofun⟩
  | refused => exact ⟨he, nofun⟩
  | kept => exact ⟨he, nofun⟩

/-- Whatever is asked of a session, its walker holds the rewards for the state it is in, and the reports
show those of states it entered. -/
theorem Safe.run_earned (h : s.Safe) (he : s.Earned) (rs : List Request) :
    (s.run d.toModel rs).2.Earned ∧
      ∀ report, .ok (some report) ∈ (s.run d.toModel rs).1 → Rewarded d report := by
  induction rs generalizing s with
  | nil => exact ⟨he, fun report hmem => by cases hmem⟩
  | cons r rs ih =>
    have ho := handle_outcome d.toModel s r
    obtain ⟨hnext, hanswer⟩ := h.earned_outcome hd he ho
    obtain ⟨hend, hrest⟩ := ih (h.outcome hd ho).1 hnext
    refine ⟨hend, fun report hmem => ?_⟩
    rcases List.mem_cons.1 hmem with hmem | hmem
    · exact hanswer report hmem.symm
    · exact hrest report hmem

end Sound

end Session

/-! ## Traces -/

theorem Dynamics.Narrow.view_storable {d : Dynamics} (hn : d.Narrow) {v : Option Valuations}
    (hv : ∀ w, v = some w → w.Storable) {full : Bool} {perspective : Perspective} {s : ℕ}
    (hs : s < d.stateCount) {o : Observation} (h : d.toModel.view v full perspective s = .ok o) :
    o.Storable := by
  rcases Model.view_eq_ok h with rfl | ⟨w, record, hw, hrecord, rfl⟩ | ⟨k, hk, rfl⟩
  · exact hs.trans_le hn.states
  · exact ⟨w, s, hv w hw, hrecord⟩
  · exact hn.classes s k hk

namespace Session

variable {d : Dynamics} (hd : d.Sound) {s : Session (Walker d)}

theorem Safe.report_storable (hn : d.Narrow) (h : s.Safe) {r : Report}
    (hr : s.report d.toModel = .ok r) : r.observation.Storable := by
  have hv (w : Valuations) (hw : s.valuations = some w) : w.Storable := by
    rw [h.consistent.valuations] at hw
    cases hp : s.perspective with
    | states => rw [hp] at hw; cases hw
    | records => rw [hp] at hw; exact hn.valuations w hw
  exact hn.view_storable hv h.placed (view_of_report hr).1

include hd

theorem Safe.move_storable (hn : d.Narrow) (h : s.Safe) {mv : Move} {dm : Demand}
    (hdm : s.demand d.toModel mv = .ok dm) : mv.Storable := by
  obtain ⟨rfl, -⟩ | ⟨rfl, -⟩ | ⟨action, k, rfl, -, ho⟩ := demand_eq_ok hdm
  · trivial
  · trivial
  · cases addressed_of_offsetOf ho with
    | omitted => trivial
    | index _ hk =>
      rw [h.actionCount_eq hd] at hk
      exact hk.trans_le (hn.actions _ h.placed)
    | name => trivial

/-- Events that are made one after the other show rewards for states that can be entered, and can be stored
apart from these. -/
theorem Safe.made_rewarded {s' : Session (Walker d)} {es : List Event}
    (hmade : Trace.Made d.toModel s es s') : s.Safe → s.Earned →
      ∀ e ∈ es, Rewarded d e.report ∧
        (d.Narrow → e.move.Storable ∧ e.report.observation.Storable) := by
  induction hmade with
  | nil s => exact fun _ _ e he => by cases he
  | @cons s s₁ s' a rest hperform _ ih =>
    intro h hearned
    rcases h.perform_cases hd a.move with ⟨e, he⟩ | ⟨dm, r, hdm, hr, hok⟩
    · rw [he] at hperform
      cases hperform
    · rw [hok] at hperform
      obtain ⟨hreport, rfl⟩ := Prod.mk.inj hperform
      obtain rfl := Except.ok.inj hreport
      have hsafe := h.moved hd hdm
      have hnext := h.earned_demand hd hearned hdm
      refine List.forall_mem_cons.2 ⟨⟨hnext.rewarded hr, fun hn => ?_⟩, ih hsafe hnext⟩
      exact ⟨h.move_storable hd hn hdm, hsafe.report_storable hn hr⟩

end Session

/-- Every reward is that for a state that can be entered, and it is finite exactly when the exact sum of its
parts is below the ceiling. The trace comes back if its rewards are finite, and is not read otherwise. -/
theorem Simulation.rewards_finite_below_ceiling {p : ExplicitModel} (hp : p.Validated) {c : Settings}
    {drawn : UInt64} {start s : Session (Walker p.dynamics)}
    (h : create p.source c drawn = .ok ⟨p.dynamics, start⟩) {rs : List Request}
    {answers : List Answer} (hrun : start.run p.dynamics.toModel rs = (answers, s))
    (moves : List Move) {t : Trace}
    (ht : t = ((Recorder.attach s).recorded p.dynamics.toModel moves).trace) :
    ((∃ c, p.dynamics.Enters c s.current ∧
        s.engine.rewards.length = p.dynamics.rewardCount ∧
        ∀ i < p.dynamics.rewardCount,
          s.engine.rewards[i]? = some (p.dynamics.rewardOf i c s.current)) ∧
      (∀ r, .ok (some r) ∈ answers → Session.Rewarded p.dynamics r) ∧
      ∀ e ∈ t.events, Session.Rewarded p.dynamics e.report) ∧
    (∀ i c u, (p.dynamics.rewardOf i c u).isNaN = false ∧
      ((p.dynamics.rewardOf i c u).isFinite = true ↔ |p.dynamics.exactReward i c u| < ceiling)) ∧
    (p.dynamics.Narrow →
      ((∀ e ∈ t.events, e.report.reward.isFinite = true) ∧ Trace.ofText? t.toText = some t) ∨
        (∃ e ∈ t.events, e.report.reward.isFinite = false) ∧ Trace.ofText? t.toText = none) ∧
    (p.dynamics.Bounded →
      (∀ x ∈ s.engine.rewards, x.isFinite = true) ∧
      (∀ r, .ok (some r) ∈ answers → r.reward.isFinite = true) ∧
      (∀ e ∈ t.events, e.report.reward.isFinite = true) ∧
      (p.dynamics.Narrow → Trace.ofText? t.toText = some t)) := by
  have hd := hp.sound
  obtain ⟨hfresh, -⟩ := fresh_of_create rfl h
  have hsafe := ((hfresh.safe hd).run hd rs).1
  have hstart : start.Earned := ⟨none, hfresh.engine ▸ Walker.earned_ofSeed _ _⟩
  obtain ⟨hearned, hanswers⟩ := (hfresh.safe hd).run_earned hd hstart rs
  rw [hrun] at hsafe hearned hanswers
  obtain ⟨es, htrace, hmade⟩ := Recorder.recorded_made hd (r := .attach s) hsafe moves
  have htrace' : t = ⟨_, _, _, _, es⟩ := ht.trans htrace
  have hevents : ∀ e ∈ t.events, Session.Rewarded p.dynamics e.report ∧
      (p.dynamics.Narrow → e.move.Storable ∧ e.report.observation.Storable) := by
    rw [htrace']
    exact Session.Safe.made_rewarded hd hmade hsafe hearned
  have hread (hn : p.dynamics.Narrow) := Trace.ofText?_toText_cases fun e he => (hevents e he).2 hn
  have hfinite (hb : p.dynamics.Bounded) {r : Report} (hr : Session.Rewarded p.dynamics r) :
      r.reward.isFinite = true := by
    obtain ⟨c, u, henters, hreward⟩ := hr
    exact hreward ▸ hd.isFinite_reported hb henters
  obtain ⟨c, hc⟩ := hearned
  refine ⟨⟨⟨c, hc.enters, hc.length_rewards, fun i hi => ?_⟩, hanswers, fun e he => (hevents e he).1⟩,
    fun i c u => ⟨hd.isNaN_rewardOf, hd.isFinite_rewardOf⟩, hread, fun hb => ?_⟩
  · rw [hc.rewards, List.getElem?_map, List.getElem?_range hi]
    rfl
  · have hall (e : Event) (he : e ∈ t.events) : e.report.reward.isFinite = true :=
      hfinite hb (hevents e he).1
    refine ⟨fun x hx => ?_, fun r hr => hfinite hb (hanswers r hr), hall, fun hn => ?_⟩
    · rw [hc.rewards] at hx
      obtain ⟨i, hi, rfl⟩ := List.mem_map.1 hx
      exact hd.isFinite_rewardOf.2 (hb c _ hc.enters i (List.mem_range.1 hi))
    · rcases hread hn with ⟨-, hsome⟩ | ⟨⟨e, he, hnot⟩, -⟩
      · exact hsome
      · rw [hall e he] at hnot
        cases hnot

/-! ## At the ceiling -/

namespace Gallery

/-- A chain that stays in its one state, with rewards for the state and for the choice. -/
def loop (ofState ofChoice : Float) : Except Defect ExplicitModel := do
  let parts ← startingAtZero [[row [(0, 1.0)]]]
  ExplicitModel.assemble .dtmc (parts.withRewards "reward" ⟨some #[ofState], some #[ofChoice]⟩)

theorem loop_validated {x y : Float} {p : ExplicitModel} (h : loop x y = .ok p) :
    p.Validated ∧ p.dynamics.Narrow := by
  obtain ⟨parts, hparts, hp⟩ := bind_eq_ok h
  have hcounts : (startingAtZero [[row [(0, 1.0)]]]).toOption.map (fun parts =>
      (parts.table.groupCount, parts.table.choiceCount 0)) = some (1, 1) := by decide +kernel
  rw [hparts] at hcounts
  obtain ⟨hstates, hactions⟩ := Prod.mk.inj (Option.some.inj hcounts)
  obtain ⟨-, -, hvaluations, hclasses⟩ := bare_of_startingAtZero hparts
  refine ⟨validated_of_startingAtZero hp hparts rfl rfl, ?_⟩
  obtain ⟨-, rfl⟩ := ExplicitModel.assemble_eq_ok hp
  refine ⟨?_, fun s hs => ?_, fun s k hk => ?_, fun v hv => ?_⟩
  · exact hstates.trans_le (by decide)
  · obtain rfl : s = 0 := Nat.lt_one_iff.1 (hs.trans_eq hstates)
    exact hactions.trans_le (by decide)
  · replace hk : (parts.classes.bind fun classes => classes[s]?) = some k := hk
    rw [hclasses] at hk
    cases hk
  · exact absurd (hvaluations.symm.trans hv) (by simp)

end Gallery

/-- The largest finite number for the state and the number before half its last digit for the choice: every
reward is finite, and a trace comes back. -/
theorem Simulation.brimful_loop_finite :
    ∃ p start answers s t,
      Gallery.loop 1.7976931348623157e308 9.979201547673598e291 = .ok p ∧
      create p.source {} 7 = .ok ⟨p.dynamics, start⟩ ∧
      start.run p.dynamics.toModel [.move (.step none), .move .wander] = (answers, s) ∧
      t = ((Recorder.attach s).recorded p.dynamics.toModel
        [.step (some (.index 0)), .restart, .wander]).trace ∧
      p.dynamics.Bounded ∧ p.dynamics.Narrow ∧
      (∀ x ∈ s.engine.rewards, x.isFinite = true) ∧
      (∀ r, .ok (some r) ∈ answers → r.reward.isFinite = true) ∧
      Trace.ofText? t.toText = some t := by
  have hentries : (Gallery.loop 1.7976931348623157e308 9.979201547673598e291).toOption.map (fun p =>
      p.dynamics.entries.all fun e => (List.range p.dynamics.rewardCount).all fun i =>
        (p.dynamics.rewardOf i e.1 e.2).isFinite) = some true := by decide +kernel
  obtain ⟨p, hloop⟩ := Gallery.exists_eq_ok
    (x := Gallery.loop 1.7976931348623157e308 9.979201547673598e291) (by decide +kernel)
  obtain ⟨hp, hnarrow⟩ := Gallery.loop_validated hloop
  rw [hloop] at hentries
  have hbounded := hp.sound.bounded_of_entries (Option.some.inj hentries)
  have hcreate := create_of_fits p.source rfl rfl (c := {}) ⟨by simp, by simp, by simp⟩ 7
  obtain ⟨-, -, -, hfinite⟩ := rewards_finite_below_ceiling hp hcreate
    (Prod.eta (Session.run _ _ [.move (.step none), .move .wander])).symm
    [.step (some (.index 0)), .restart, .wander] rfl
  obtain ⟨hrewards, hreports, -, hread⟩ := hfinite hbounded
  exact ⟨p, _, _, _, _, hloop, hcreate, (Prod.eta _).symm, rfl, hbounded, hnarrow, hrewards, hreports,
    hread hnarrow⟩

/-- Two rewards that are finite, and for which the chain is assembled, give one that is not, and the trace of
the move is not read. -/
theorem Simulation.overfull_loop_infinite :
    ∃ p start answers s t, Gallery.loop 1e308 1e308 = .ok p ∧ p.Validated ∧
      create p.source {} 7 = .ok ⟨p.dynamics, start⟩ ∧
      start.run p.dynamics.toModel [.move (.step none)] = (answers, s) ∧
      (∃ r, .ok (some r) ∈ answers ∧ r.reward.isFinite = false) ∧
      (∃ x ∈ s.engine.rewards, x.isFinite = false) ∧
      t = ((Recorder.attach start).recorded p.dynamics.toModel [.step none]).trace ∧
      Trace.ofText? t.toText = none := by
  have hfacts : (Gallery.loop 1e308 1e308).toOption.map (fun p =>
      let start := ({} : Settings).target p.dynamics.toModel (start p.dynamics 7)
      let run := start.run p.dynamics.toModel [.move (.step none)]
      let t := ((Recorder.attach start).recorded p.dynamics.toModel [.step none]).trace
      (run.1.any fun answer => (answer.toOption.bind id).any fun r => !r.reward.isFinite,
        run.2.engine.rewards.any fun x => !x.isFinite,
        t.events.any fun e => !e.report.reward.isFinite)) = some (true, true, true) := by
    decide +kernel
  obtain ⟨p, hloop⟩ := Gallery.exists_eq_ok (x := Gallery.loop 1e308 1e308) (by decide +kernel)
  rw [hloop] at hfacts
  simp only [Except.toOption, Option.map_some, Option.some.injEq, Prod.mk.injEq, List.any_eq_true,
    Bool.not_eq_true'] at hfacts
  obtain ⟨⟨answer, hanswer, hreport⟩, hreward, e, he, hevent⟩ := hfacts
  have hcreate := create_of_fits p.source rfl rfl (c := {}) ⟨by simp, by simp, by simp⟩ 7
  refine ⟨p, _, _, _, _, hloop, (Gallery.loop_validated hloop).1, hcreate, (Prod.eta _).symm, ?_,
    hreward, rfl, Trace.ofText?_toText_eq_none he hevent⟩
  cases answer with
  | error e => cases hreport
  | ok o =>
    cases o with
    | none => cases hreport
    | some r => exact ⟨r, hanswer, by simpa using hreport⟩

end MarkovSim
