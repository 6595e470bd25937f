import MarkovSim.Model.Variant
import MarkovSim.Proofs.Gallery
import MarkovSim.Proofs.Walk

/-!
# What a walker promises

Whatever the dynamics answer, a walker takes an action exactly when it is offered and has a branch, and
is left as it is otherwise. A move takes one unit draw, and its rewards are those of the move alone. A
walker that can be reached from the start of a walk keeps one reward for each reward model
(`Reached.length_rewards`), so going back sets all of them anew.

In detail:

1. An action is taken exactly when it is offered and its row has a branch. The walker has then made one
   unit draw and is in the target of the branch of that row that the draw picks; its rewards are those
   of the choice and of the state entered, as many as before. An action that is not taken changes
   nothing.
2. A random move without actions on offer changes nothing. Otherwise it draws the offset of an offered
   action and takes it; if it fails, the place and the rewards are as before.
3. From every walker that can be reached, with one reward for each reward model, going back leads to the
   initial state and its rewards alone.
-/

namespace MarkovSim

namespace Walker

variable {d : Dynamics}

inductive Reached : Walker d → Prop
  | ofSeed (seed : UInt64) : Reached (ofSeed d seed)
  | step {w : Walker d} (k : Nat) : Reached w → Reached (w.step k).2
  | wander {w : Walker d} : Reached w → Reached w.wander.2
  | reseed {w : Walker d} (seed : UInt64) : Reached w → Reached (w.reseed seed)
  | reset {w : Walker d} : Reached w → Reached w.reset

/-! ## Rewards -/

theorem getElem?_rewards_follow (w : Walker d) (choice : Nat) (b : Branch) {i : Nat}
    (hi : i < w.rewards.length) :
    (w.follow choice b).rewards[i]? =
      some (d.rewardOfChoice i choice + d.rewardOfState i b.target) := by
  simp [follow, hi]

theorem getElem?_rewards_reset (w : Walker d) {i : Nat} (hi : i < w.rewards.length) :
    w.reset.rewards[i]? = some (0.0 + d.rewardOfState i d.initial) := by
  simp [reset, hi]

theorem length_rewards_reset (w : Walker d) : w.reset.rewards.length = w.rewards.length :=
  List.length_mapIdx

theorem length_rewards_step (w : Walker d) (k : Nat) :
    (w.step k).2.rewards.length = w.rewards.length := by
  by_cases h : k < d.actionCount w.current ∧ d.row (d.choiceAt w.current k) ≠ []
  · obtain ⟨b, -, -, hstep⟩ := step_eq_follow h.1 h.2
    rw [hstep]
    exact List.length_mapIdx
  · rw [step_eq_self h]

theorem length_rewards_wander (w : Walker d) : w.wander.2.rewards.length = w.rewards.length := by
  rcases Nat.eq_zero_or_pos (d.actionCount w.current) with h | h
  · rw [wander_eq_self h]
  · obtain ⟨k, -, g, hstep⟩ := wander_eq_step h
    rw [hstep]
    exact length_rewards_step { w with generator := g } k

theorem Reached.length_rewards {w : Walker d} (h : w.Reached) : w.rewards.length = d.rewardCount := by
  induction h with
  | ofSeed seed => exact (length_rewards_reset _).trans List.length_replicate
  | step k _ ih => rw [length_rewards_step, ih]
  | wander _ ih => rw [length_rewards_wander, ih]
  | reseed seed _ ih => exact ih
  | reset _ ih => rw [length_rewards_reset, ih]

/-! ## Moves that fail -/

theorem step_true_iff (w : Walker d) (k : Nat) :
    (w.step k).1 = true ↔
      k < d.actionCount w.current ∧ d.row (d.choiceAt w.current k) ≠ [] := by
  by_cases h : k < d.actionCount w.current ∧ d.row (d.choiceAt w.current k) ≠ []
  · obtain ⟨b, -, -, hstep⟩ := step_eq_follow h.1 h.2
    simp [hstep, h]
  · simp [step_eq_self h, h]

theorem step_of_false {w : Walker d} {k : Nat} (h : (w.step k).1 = false) : (w.step k).2 = w := by
  rw [step_eq_self]
  intro hoffered
  rw [(step_true_iff w k).2 hoffered] at h
  cases h

/-- A random move that fails has at most drawn an offset. -/
theorem wander_of_false {w : Walker d} (h : w.wander.1 = false) :
    w.wander.2.current = w.current ∧ w.wander.2.rewards = w.rewards := by
  rcases Nat.eq_zero_or_pos (d.actionCount w.current) with hnone | hsome
  · rw [wander_eq_self hnone]
    exact ⟨rfl, rfl⟩
  · obtain ⟨k, -, g, hstep⟩ := wander_eq_step hsome
    rw [hstep] at h ⊢
    rw [step_of_false h]
    exact ⟨rfl, rfl⟩

/-- What a walker promises under any dynamics, of steps, of random moves and of the way back. -/
theorem step_contract (w : Walker d) :
    (∀ k, ((w.step k).1 = true ↔
        k < d.actionCount w.current ∧ d.row (d.choiceAt w.current k) ≠ []) ∧
      ((w.step k).1 = true → ∃ b ∈ d.row (d.choiceAt w.current k),
        (d.row (d.choiceAt w.current k)).pick? w.generator.unit.1 = some b ∧
        (w.step k).2.current = b.target ∧
        (w.step k).2.rewards.length = w.rewards.length ∧
        (∀ i < w.rewards.length, (w.step k).2.rewards[i]? =
          some (d.rewardOfChoice i (d.choiceAt w.current k) + d.rewardOfState i b.target)) ∧
        (w.step k).2.generator = w.generator.unit.2 ∧ (w.step k).2.seed = w.seed) ∧
      ((w.step k).1 = false → (w.step k).2 = w)) ∧
    (d.actionCount w.current = 0 → w.wander = (false, w)) ∧
    (0 < d.actionCount w.current →
      (w.generator.below (d.actionCount w.current)).1 < d.actionCount w.current ∧
        w.wander = step { w with generator := (w.generator.below (d.actionCount w.current)).2 }
          (w.generator.below (d.actionCount w.current)).1) ∧
    (w.wander.1 = false → w.wander.2.current = w.current ∧ w.wander.2.rewards = w.rewards) ∧
    (w.Reached → w.rewards.length = d.rewardCount ∧ w.reset.rewards.length = d.rewardCount ∧
      w.reset.current = d.initial ∧
      ∀ i < d.rewardCount, w.reset.rewards[i]? = some (0.0 + d.rewardOfState i d.initial)) := by
  refine ⟨fun k => ⟨step_true_iff w k, fun htrue => ?_, step_of_false⟩, wander_eq_self,
    wander_eq_step_draw, wander_of_false, fun hw => ?_⟩
  · obtain ⟨hk, hrow⟩ := (step_true_iff w k).1 htrue
    obtain ⟨b, hb, hpick, hstep⟩ := step_eq_follow hk hrow
    have hlength := length_rewards_step w k
    rw [hstep] at hlength ⊢
    exact ⟨b, hb, hpick, rfl, hlength, fun i => getElem?_rewards_follow w _ b, rfl, rfl⟩
  · have hlength := hw.length_rewards
    refine ⟨hlength, (length_rewards_reset w).trans hlength, rfl, fun i hi => ?_⟩
    exact getElem?_rewards_reset w (hlength ▸ hi)

/-- Dynamics that contradict themselves: the first state offers three actions though it has two
choices, and the second of these has no outcomes. Its second action is not taken and changes nothing,
the third is taken by the choice of another state, and there is no fourth. -/
theorem torn_twins_contract :
    ∃ p d w, Gallery.twins = .ok p ∧
      d = (p.source.overriding { actionCounts := [(0, 3)], emptyRows := [1] }).own ∧
      w = ofSeed d 7 ∧
      1 < d.actionCount w.current ∧ (w.step 1).1 = false ∧ (w.step 1).2 = w ∧
      (w.step 2).1 = true ∧ (∃ b ∈ d.row (d.choiceAt w.current 2), (w.step 2).2.current = b.target ∧
        (w.step 2).2.generator = w.generator.unit.2) ∧
      (w.step 3).1 = false ∧
      w.reset.rewards[0]? = some (0.0 + d.rewardOfState 0 d.initial) := by
  have hfacts : Gallery.twins.toOption.map (fun p =>
      let d := (p.source.overriding { actionCounts := [(0, 3)], emptyRows := [1] }).own
      let w := ofSeed d 7
      (d.actionCount w.current, d.rewardCount, (w.step 1).1, (w.step 2).1, (w.step 3).1)) =
      some (3, 1, false, true, false) := by
    decide +kernel
  obtain ⟨p, htwins, -⟩ := Gallery.twins_validated
  rw [htwins] at hfacts
  simp only [Except.toOption, Option.map_some, Option.some.injEq, Prod.mk.injEq] at hfacts
  obtain ⟨hcount, hrewards, hsecond, hthird, hfourth⟩ := hfacts
  obtain ⟨hstep, -, -, -, hreset⟩ := step_contract
    (ofSeed (p.source.overriding { actionCounts := [(0, 3)], emptyRows := [1] }).own 7)
  obtain ⟨b, hb, -, htarget, -, -, hdraw, -⟩ := (hstep 2).2.1 hthird
  obtain ⟨-, -, -, hzero⟩ := hreset (.ofSeed 7)
  refine ⟨p, _, _, htwins, rfl, rfl, ?_, hsecond, (hstep 1).2.2 hsecond, hthird,
    ⟨b, hb, htarget, hdraw⟩, hfourth, hzero 0 ?_⟩
  · rw [hcount]
    decide
  · rw [hrewards]
    decide

end Walker

end MarkovSim
