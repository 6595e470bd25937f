import Mathlib.Tactic.Ring
import MarkovSim.Proofs.Comparison
import MarkovSim.Proofs.Model
import MarkovSim.Walk.Walker

/-!
# Walking sound dynamics

A draw below `n` is below `n` (`Generator.below_lt`), and a draw from the unit interval picks a branch
of every row that has one (`Row.pick?_mem`). So a walker in a state of sound dynamics makes every move
that is offered, arrives in a state again and has a reward that is a number (`Walker.step_sound`,
`Walker.wander_sound`). In a trap it does not leave its place (`Walker.step_current_of_trap`).
-/

namespace MarkovSim

/-! ## Draws -/

namespace Generator

theorem wordOf_lt (wide : Bool) (g : Generator) :
    (g.wordOf wide).1 < if wide then UInt64.size else UInt32.size := by
  cases wide with
  | true => exact UInt64.toNat_lt_size _
  | false => exact UInt32.toNat_lt_size _

/-- The high half of `n` times a word below `size`, with the carry that a second word decides on. -/
theorem carry_lt {n size x y : Nat} (hn : 0 < n) (hx : x < size) (hy : y < size)
    (hc : size ≤ x * n % size + y * n / size) : x * n / size + 1 < n := by
  have hsize : 0 < size := by omega
  have hdiv := Nat.div_add_mod (x * n) size
  have hhi : y * n / size < n := by
    rw [Nat.div_lt_iff_lt_mul hsize, Nat.mul_comm n size]
    exact Nat.mul_lt_mul_of_pos_right hy hn
  have hmul : size * (x * n / size + 1) < size * n := by
    have hxn : x * n + n ≤ size * n := by
      calc x * n + n = (x + 1) * n := by ring
        _ ≤ size * n := Nat.mul_le_mul_right n hx
    calc size * (x * n / size + 1) = size * (x * n / size) + size := by ring
      _ < size * n := by omega
  exact Nat.lt_of_mul_lt_mul_left hmul

theorem below_lt {n : Nat} (hn : 0 < n) (g : Generator) : (g.below n).1 < n := by
  unfold below
  generalize hwide : decide (UInt32.size ≤ n) = wide
  have hx := wordOf_lt wide g
  have hy := wordOf_lt wide (g.wordOf wide).2
  generalize hsize : (if wide then UInt64.size else UInt32.size) = size at hx hy
  have hpos : 0 < size := by omega
  have hhigh : (g.wordOf wide).1 * n / size < n := by
    rw [Nat.div_lt_iff_lt_mul hpos, Nat.mul_comm n size]
    exact Nat.mul_lt_mul_of_pos_right hx hn
  simp only [hsize]
  split
  · simp only
    split
    · next hc => exact carry_lt hn hx hy hc
    · exact hhigh
  · exact hhigh

end Generator

namespace Row

theorem reached?_lt {u sum : Float} {row : Row} {i : Nat} (h : row.reached? u sum = some i) :
    i < row.length := by
  induction row generalizing sum i with
  | nil => cases h
  | cons b rest ih =>
    unfold reached? at h
    split at h
    · obtain rfl := Option.some.inj h
      exact Nat.zero_lt_succ _
    · obtain ⟨j, hj, rfl⟩ := Option.map_eq_some_iff.1 h
      exact Nat.succ_lt_succ (ih hj)

theorem place_lt {row : Row} (h : row ≠ []) (u : Float) : row.place u < row.length := by
  unfold place
  cases hr : row.reached? u 0.0 with
  | none => exact Nat.sub_lt (List.length_pos_iff.2 h) Nat.one_pos
  | some i => exact reached?_lt hr

theorem pick?_mem {row : Row} (h : row ≠ []) (u : Float) : ∃ b ∈ row, row.pick? u = some b := by
  have hlt := place_lt h u
  exact ⟨row[row.place u], List.getElem_mem hlt, List.getElem?_eq_getElem hlt⟩

end Row

/-! ## Moves -/

namespace Walker

variable {d : Dynamics}

/-- A move along a branch: one unit draw, and the rewards of the choice and of the state entered. -/
def follow (w : Walker d) (choice : Nat) (b : Branch) : Walker d :=
  { w with
    generator := w.generator.unit.2
    current := b.target
    rewards := w.rewards.mapIdx fun i _ => d.rewardOfChoice i choice + d.rewardOfState i b.target }

/-- An offered action with a row that has a branch is taken along the branch that the draw picks. -/
theorem step_eq_follow {w : Walker d} {k : Nat} (hk : k < d.actionCount w.current)
    (hrow : d.row (d.choiceAt w.current k) ≠ []) :
    ∃ b ∈ d.row (d.choiceAt w.current k),
      (d.row (d.choiceAt w.current k)).pick? w.generator.unit.1 = some b ∧
        w.step k = (true, w.follow (d.choiceAt w.current k) b) := by
  obtain ⟨b, hb, hpick⟩ := Row.pick?_mem hrow w.generator.unit.1
  refine ⟨b, hb, hpick, ?_⟩
  unfold step
  rw [if_pos hk]
  simp only [hpick]
  rfl

/-- An action that is not offered, or whose row has no branch, leaves the walker as it is. -/
theorem step_eq_self {w : Walker d} {k : Nat}
    (h : ¬ (k < d.actionCount w.current ∧ d.row (d.choiceAt w.current k) ≠ [])) :
    w.step k = (false, w) := by
  unfold step
  by_cases hk : k < d.actionCount w.current
  · have hrow : d.row (d.choiceAt w.current k) = [] := by
      by_contra hrow
      exact h ⟨hk, hrow⟩
    rw [if_pos hk]
    simp only [hrow]
    rfl
  · rw [if_neg hk]

/-- A random move is an offered one, taken after the draw of its offset. -/
theorem wander_eq_step_draw {w : Walker d} (h : 0 < d.actionCount w.current) :
    (w.generator.below (d.actionCount w.current)).1 < d.actionCount w.current ∧
      w.wander = step { w with generator := (w.generator.below (d.actionCount w.current)).2 }
        (w.generator.below (d.actionCount w.current)).1 := by
  refine ⟨Generator.below_lt h w.generator, ?_⟩
  unfold wander
  rw [if_neg (Nat.pos_iff_ne_zero.1 h)]

theorem wander_eq_step {w : Walker d} (h : 0 < d.actionCount w.current) :
    ∃ k < d.actionCount w.current, ∃ g, w.wander = step { w with generator := g } k :=
  ⟨_, (wander_eq_step_draw h).1, _, (wander_eq_step_draw h).2⟩

theorem wander_eq_self {w : Walker d} (h : d.actionCount w.current = 0) : w.wander = (false, w) := by
  unfold wander
  rw [if_pos h]

section Trap

variable {w : Walker d} (hw : d.Trap w.current)
include hw

theorem step_current_of_trap (k : Nat) : (w.step k).2.current = w.current := by
  by_cases h : k < d.actionCount w.current ∧ d.row (d.choiceAt w.current k) ≠ []
  · obtain ⟨b, hb, -, hstep⟩ := step_eq_follow h.1 h.2
    rw [hstep]
    exact hw k h.1 b hb
  · rw [step_eq_self h]

theorem wander_current_of_trap : w.wander.2.current = w.current := by
  rcases Nat.eq_zero_or_pos (d.actionCount w.current) with h | h
  · rw [wander_eq_self h]
  · obtain ⟨k, -, g, hstep⟩ := wander_eq_step h
    rw [hstep]
    exact step_current_of_trap (w := { w with generator := g }) hw k

end Trap

theorem reset_ofSeed (d : Dynamics) (seed : UInt64) : (ofSeed d seed).reset = ofSeed d seed := by
  unfold ofSeed reset
  simp only [List.mapIdx_mapIdx, Function.comp_def]

/-- Rewards that are set anew do not depend on those before. -/
theorem mapIdx_rewards {w : Walker d} (h : w.rewards.length = d.rewardCount) (f : Nat → Float) :
    w.rewards.mapIdx (fun i _ => f i) = (List.range d.rewardCount).map f := by
  refine List.ext_getElem (by simp [h]) fun i _ _ => ?_
  simp

theorem isNaN_reward {w : Walker d} {old : List Float} {f : Nat → Float}
    (hw : w.rewards = old.mapIdx fun i _ => f i) (hf : ∀ i, (f i).isNaN = false) :
    w.reward.isNaN = false := by
  unfold reward
  rw [hw, List.head?_mapIdx]
  cases old.head? with
  | none => exact Binary64.isNaN_of_isFinite Rewards.isFinite_zero
  | some x => exact hf 0

section Sound

variable (hd : d.Sound)
include hd

theorem step_sound {w : Walker d} {k : Nat} (hw : w.current < d.stateCount)
    (hk : k < d.actionCount w.current) :
    (w.step k).1 = true ∧ (w.step k).2.current < d.stateCount ∧
      (w.step k).2.reward.isNaN = false := by
  obtain ⟨b, hb, -, hstep⟩ := step_eq_follow hk (hd.row_ne_nil _ hw k hk)
  rw [hstep]
  refine ⟨rfl, hd.target_lt _ b hb, isNaN_reward rfl fun i => ?_⟩
  exact Binary64.isNaN_add (Binary64.isNaN_of_isFinite (hd.rewardOfChoice i _))
    (hd.rewardOfState i _)

theorem wander_sound {w : Walker d} (hw : w.current < d.stateCount) :
    w.wander.1 = true ∧ w.wander.2.current < d.stateCount ∧ w.wander.2.reward.isNaN = false := by
  obtain ⟨k, hk, g, hstep⟩ := wander_eq_step (hd.actionCount_pos _ hw)
  rw [hstep]
  exact step_sound hd (w := { w with generator := g }) hw hk

theorem reset_sound (w : Walker d) :
    w.reset.current < d.stateCount ∧ w.reset.reward.isNaN = false := by
  refine ⟨hd.initial_lt, isNaN_reward rfl fun i => ?_⟩
  exact Binary64.isNaN_add (Binary64.isNaN_of_isFinite Rewards.isFinite_zero)
    (hd.rewardOfState i _)

end Sound

end Walker

end MarkovSim
