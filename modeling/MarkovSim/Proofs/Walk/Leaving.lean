import Mathlib.Data.Rat.Floor
import MarkovSim.Proofs.Gallery
import MarkovSim.Proofs.Walk.Contract
import MarkovSim.Proofs.Walk.Sampling

/-!
# States that can be left

The running sums of a valid row are finite and do not fall (`Row.Valid.graded`), but they may pass one
before the row ends: a sum is accepted that differs from one by a tolerance, and every draw is below one.
So a branch is selected by some draw only if it is in reach (`Row.InReach`), and a state can be left
exactly when one of the branches that lead away from it is (`ExplicitModel.Validated.canLeave_iff`).

A branch is out of reach if the running sum in front of it is one or more. It is in reach if that sum is below
one and the branch is the last of its row or has a probability of at least `2 ^ (-52)`.
-/

namespace MarkovSim

open Binary64

/-! ## Branches in reach -/

namespace Row

variable {row : Row} {states i : ℕ}

theorem Valid.nonneg (h : row.Valid states) (hi : i < row.length) : Nonneg row[i].probability := by
  have hb := h.branches _ (List.getElem_mem hi)
  exact .of_pos hb.isFinite hb.pos

theorem Valid.isFinite_total (h : row.Valid states) : row.total.isFinite = true := by
  have hnan : row.total.isNaN = false := isNaN_total fun b hb => (h.branches b hb).isFinite
  have hone : (1.0 : Float).isFinite = true := by decide +kernel
  have htolerance : Row.tolerance.isFinite = true := by decide +kernel
  exact isFinite_of_sub (isFinite_of_abs_le (isNaN_sub hnan hone) htolerance h.balanced)

theorem Valid.isFinite_sumBefore (h : row.Valid states) (hi : i ≤ row.length) :
    (row.sumBefore i).isFinite = true := by
  induction hi using Nat.decreasingInduction with
  | self =>
    rw [sumBefore_length]
    exact h.isFinite_total
  | of_succ i hi ih =>
    rw [sumBefore_succ hi] at ih
    exact isFinite_of_add ih

theorem Valid.sumBefore_le_succ (h : row.Valid states) (hi : i < row.length)
    (hsum : Nonneg (row.sumBefore i)) :
    Nonneg (row.sumBefore (i + 1)) ∧ value (row.sumBefore i) ≤ value (row.sumBefore (i + 1)) := by
  have hfin := h.isFinite_sumBefore hi
  rw [sumBefore_succ hi] at hfin ⊢
  exact hsum.le_add (h.nonneg hi) hfin hsum (le_add_of_nonneg_right (h.nonneg hi).le_value)

theorem Valid.graded (h : row.Valid states) : row.Graded := by
  have hnonneg : ∀ i ≤ row.length, Nonneg (row.sumBefore i) := by
    intro i
    induction i with
    | zero => exact fun _ => nonneg_zero
    | succ i ih => exact fun hi => (h.sumBefore_le_succ hi (ih (Nat.le_of_succ_le hi))).1
  exact ⟨hnonneg, fun i hi => (h.sumBefore_le_succ hi (hnonneg i hi.le)).2⟩

/-- Some draw lies at or above the running sum in front of a place and below the one after it, unless
the place is the last. -/
def InReach (row : Row) (i : ℕ) : Prop :=
  ∃ n : ℕ, n < 2 ^ 53 ∧ value (row.sumBefore i) ≤ n / 2 ^ 53 ∧
    (n / 2 ^ 53 < value (row.sumBefore (i + 1)) ∨ i + 1 = row.length)

theorem InReach.lt_one (h : row.InReach i) : value (row.sumBefore i) < 1 := by
  obtain ⟨n, hn, hle, -⟩ := h
  refine hle.trans_lt ?_
  rw [div_lt_one (by positivity)]
  exact_mod_cast hn

namespace Graded

variable (h : row.Graded)
include h

/-- The branches in reach are those that some draw picks. -/
theorem exists_pick?_iff {b : Branch} :
    (∃ n < 2 ^ 53, row.pick? (Generator.grid n) = some b) ↔
      ∃ i : ℕ, row[i]? = some b ∧ row.InReach i := by
  constructor
  · rintro ⟨n, hn, hpick⟩
    obtain ⟨hgrid, hvalue⟩ := Generator.value_grid hn.le
    obtain ⟨hi, -⟩ := List.getElem?_eq_some_iff.1 hpick
    have hplace := (h.place_eq_iff hgrid hi).1 rfl
    rw [hvalue] at hplace
    exact ⟨_, hpick, n, hn, hplace⟩
  · rintro ⟨i, hb, n, hn, hreach⟩
    obtain ⟨hgrid, hvalue⟩ := Generator.value_grid hn.le
    obtain ⟨hi, -⟩ := List.getElem?_eq_some_iff.1 hb
    rw [← hvalue] at hreach
    refine ⟨n, hn, ?_⟩
    unfold pick?
    rw [(h.place_eq_iff hgrid hi).2 hreach, hb]

theorem inReach_last (hi : i + 1 = row.length) (hlt : value (row.sumBefore i) < 1) :
    row.InReach i := by
  refine ⟨2 ^ 53 - 1, by norm_num, ?_, .inr hi⟩
  have hle := (h.nonneg i (by omega)).le_of_lt_one hlt
  norm_num at hle ⊢
  exact hle

/-- A probability of two draws is not lost to rounding, wherever the sum in front of it stands. -/
theorem inReach_of_le (hi : i < row.length) (hp : Nonneg row[i].probability)
    (hlt : value (row.sumBefore i) < 1) (hle : 1 / 2 ^ 52 ≤ value row[i].probability) :
    row.InReach i := by
  have hsum := h.nonneg i hi.le
  have hbound := hsum.le_of_lt_one hlt
  -- The least draw at or above the sum.
  obtain ⟨n, hn⟩ : ∃ n, n = ⌈value (row.sumBefore i) * 2 ^ 53⌉₊ := ⟨_, rfl⟩
  have hceil : value (row.sumBefore i) * 2 ^ 53 ≤ n := hn ▸ Nat.le_ceil _
  have hbelow : (n : ℚ) < value (row.sumBefore i) * 2 ^ 53 + 1 :=
    hn ▸ Nat.ceil_lt_add_one (mul_nonneg hsum.le_value (by positivity))
  have hn53 : n < 2 ^ 53 := by
    have hcast : (n : ℚ) < 2 ^ 53 := by linarith
    exact_mod_cast hcast
  obtain ⟨hgrid, hvalue⟩ := Generator.value_grid (k := n + 1) hn53
  have hnext : value (Generator.grid (n + 1)) ≤
      value (row.sumBefore i) + value row[i].probability := by
    rw [hvalue]
    push_cast
    linarith
  have hfin := (h.nonneg (i + 1) hi).isFinite
  rw [sumBefore_succ hi] at hfin
  obtain ⟨-, hafter⟩ := hsum.le_add hp hfin hgrid hnext
  refine ⟨n, hn53, ?_, .inl ?_⟩
  · rwa [le_div_iff₀ (by positivity)]
  · rw [sumBefore_succ hi]
    refine lt_of_lt_of_le ?_ hafter
    rw [hvalue]
    push_cast
    linarith

end Graded

/-- A branch of a valid row is in reach if the running sum in front of it is below one and it is the last
or has a probability of at least two draws. -/
theorem Valid.inReach (h : row.Valid states) {b : Branch} (hb : row[i]? = some b)
    (hlt : value (row.sumBefore i) < 1)
    (hor : 1 / 2 ^ 52 ≤ value b.probability ∨ i + 1 = row.length) : row.InReach i := by
  obtain ⟨hi, rfl⟩ := List.getElem?_eq_some_iff.1 hb
  rcases hor with hle | hlast
  · exact h.graded.inReach_of_le hi (h.nonneg hi) hlt hle
  · exact h.graded.inReach_last hlast hlt

end Row

/-! ## Moves away -/

namespace Walker

variable {d : Dynamics}

/-- Takes an action as `step` does, on the given number in place of the next draw. -/
def stepOn (u : Float) (w : Walker d) (offset : ℕ) : Bool × Walker d :=
  if offset < d.actionCount w.current then
    match (d.row (d.choiceAt w.current offset)).pick? u with
    | none => (false, w)
    | some b => (true, w.follow (d.choiceAt w.current offset) b)
  else (false, w)

theorem step_eq_stepOn (w : Walker d) (offset : ℕ) :
    w.step offset = w.stepOn w.generator.unit.1 offset := rfl

theorem stepOn_eq_follow {u : Float} {w : Walker d} {offset : ℕ} {b : Branch}
    (hoffset : offset < d.actionCount w.current)
    (hb : (d.row (d.choiceAt w.current offset)).pick? u = some b) :
    w.stepOn u offset = (true, w.follow (d.choiceAt w.current offset) b) := by
  unfold stepOn
  rw [if_pos hoffset, hb]

theorem exists_of_stepOn {u : Float} {w : Walker d} {offset : ℕ}
    (h : (w.stepOn u offset).2.current ≠ w.current) :
    offset < d.actionCount w.current ∧ ∃ b,
      (d.row (d.choiceAt w.current offset)).pick? u = some b ∧ b.target ≠ w.current := by
  by_cases hoffset : offset < d.actionCount w.current
  · cases hb : (d.row (d.choiceAt w.current offset)).pick? u with
    | none =>
      unfold stepOn at h
      rw [if_pos hoffset, hb] at h
      exact absurd rfl h
    | some b =>
      rw [stepOn_eq_follow hoffset hb] at h
      exact ⟨hoffset, b, rfl, h⟩
  · unfold stepOn at h
    rw [if_neg hoffset] at h
    exact absurd rfl h

end Walker

namespace Dynamics

variable {d : Dynamics} {s : ℕ}

/-- Some offered action and some draw take every walker in the state to another state. -/
def CanLeave (d : Dynamics) (s : ℕ) : Prop :=
  ∃ offset < d.actionCount s, ∃ n < 2 ^ 53, ∀ w : Walker d, w.current = s →
    (w.stepOn (Generator.grid n) offset).1 = true ∧
      (w.stepOn (Generator.grid n) offset).2.current ≠ s

theorem canLeave_iff :
    d.CanLeave s ↔ ∃ offset < d.actionCount s, ∃ n < 2 ^ 53, ∃ b,
      (d.row (d.choiceAt s offset)).pick? (Generator.grid n) = some b ∧ b.target ≠ s := by
  constructor
  · rintro ⟨offset, hoffset, n, hn, h⟩
    obtain ⟨-, hleft⟩ := h ⟨.ofSeed 0, 0, s, []⟩ rfl
    exact ⟨offset, hoffset, n, hn, (Walker.exists_of_stepOn hleft).2⟩
  · rintro ⟨offset, hoffset, n, hn, b, hpick, htarget⟩
    refine ⟨offset, hoffset, n, hn, ?_⟩
    rintro w rfl
    rw [Walker.stepOn_eq_follow hoffset hpick]
    exact ⟨rfl, htarget⟩

end Dynamics

namespace Walker

variable {d : Dynamics} {w : Walker d} (h : ¬ d.CanLeave w.current)
include h

theorem step_current_of_not_canLeave (offset : ℕ) : (w.step offset).2.current = w.current := by
  by_contra hleft
  obtain ⟨n, hn, hdraw⟩ := w.generator.unit_eq_grid
  rw [step_eq_stepOn, hdraw] at hleft
  obtain ⟨hoffset, hpick⟩ := exists_of_stepOn hleft
  exact h (Dynamics.canLeave_iff.2 ⟨offset, hoffset, n, hn, hpick⟩)

theorem wander_current_of_not_canLeave : w.wander.2.current = w.current := by
  rcases Nat.eq_zero_or_pos (d.actionCount w.current) with hnone | hsome
  · rw [wander_eq_self hnone]
  · obtain ⟨offset, -, g, hstep⟩ := wander_eq_step hsome
    rw [hstep]
    exact step_current_of_not_canLeave (w := { w with generator := g }) h offset

end Walker

/-- A walk that starts where no draw leads away never leaves its start. -/
theorem Walker.Reached.current_of_not_canLeave {d : Dynamics} (h : ¬ d.CanLeave d.initial)
    {w : Walker d} (hw : w.Reached) : w.current = d.initial := by
  induction hw with
  | ofSeed seed => rfl
  | step offset _ ih => rw [step_current_of_not_canLeave (ih ▸ h), ih]
  | wander _ ih => rw [wander_current_of_not_canLeave (ih ▸ h), ih]
  | reseed seed _ ih => exact ih
  | reset _ _ => rfl

namespace ExplicitModel

variable {p : ExplicitModel} {s : ℕ}

/-- A state can be left exactly when a branch that leads away from it is in reach. -/
theorem Validated.canLeave_iff (h : p.Validated) (hs : s < p.dynamics.stateCount) :
    p.dynamics.CanLeave s ↔ ∃ offset < p.dynamics.actionCount s, ∃ (i : ℕ) (b : Branch),
      (p.dynamics.row (p.dynamics.choiceAt s offset))[i]? = some b ∧ b.target ≠ s ∧
        (p.dynamics.row (p.dynamics.choiceAt s offset)).InReach i := by
  rw [Dynamics.canLeave_iff]
  refine exists_congr fun offset => and_congr_right fun hoffset => ?_
  have hgraded := (h.row_valid hs hoffset).graded
  constructor
  · rintro ⟨n, hn, b, hpick, htarget⟩
    obtain ⟨i, hb, hreach⟩ := hgraded.exists_pick?_iff.1 ⟨n, hn, hpick⟩
    exact ⟨i, b, hb, htarget, hreach⟩
  · rintro ⟨i, b, hb, htarget, hreach⟩
    obtain ⟨n, hn, hpick⟩ := hgraded.exists_pick?_iff.2 ⟨i, hb, hreach⟩
    exact ⟨n, hn, b, hpick, htarget⟩

/-- A state of a validated model is no sink exactly when some branch leads away from it, and can be left
exactly when such a branch is in reach. A walker in a state that cannot be left stays there. -/
theorem left_iff_in_reach (h : p.Validated) (hs : s < p.dynamics.stateCount) :
    (p.dynamics.isSink s = false ↔ ∃ offset < p.dynamics.actionCount s, ∃ (i : ℕ) (b : Branch),
      (p.dynamics.row (p.dynamics.choiceAt s offset))[i]? = some b ∧ b.target ≠ s) ∧
    (p.dynamics.CanLeave s ↔ ∃ offset < p.dynamics.actionCount s, ∃ (i : ℕ) (b : Branch),
      (p.dynamics.row (p.dynamics.choiceAt s offset))[i]? = some b ∧ b.target ≠ s ∧
        (p.dynamics.row (p.dynamics.choiceAt s offset)).InReach i) ∧
    (∀ offset < p.dynamics.actionCount s, ∀ (row : Row) (i : ℕ) (b : Branch),
      row = p.dynamics.row (p.dynamics.choiceAt s offset) → row[i]? = some b →
        (row.InReach i → value (row.sumBefore i) < 1) ∧
        (value (row.sumBefore i) < 1 → 1 / 2 ^ 52 ≤ value b.probability ∨ i + 1 = row.length →
          row.InReach i)) ∧
    (¬ p.dynamics.CanLeave s → ∀ w : Walker p.dynamics, w.current = s →
      (∀ offset, (w.step offset).2.current = s) ∧ w.wander.2.current = s) := by
  refine ⟨h.isSink_eq_false_iff hs, h.canLeave_iff hs, ?_, ?_⟩
  · rintro offset hoffset row i b rfl hb
    exact ⟨fun hreach => hreach.lt_one, (h.row_valid hs hoffset).inReach hb⟩
  · rintro hstay w rfl
    exact ⟨Walker.step_current_of_not_canLeave hstay, Walker.wander_current_of_not_canLeave hstay⟩

end ExplicitModel

/-! ## Rows that are full before they end -/

/-- The rows of two states with one action each, that stays or goes to the other state. Staying has the
probability one, and going what the tolerance leaves; the first state lists staying first, the second
going. -/
def Gallery.brimfulRows : List Row :=
  [row [(0, 1.0), (1, 1e-10)], row [(0, 1e-10), (1, 1.0)]]

def Gallery.brimful : Except Defect ExplicitModel := do
  let parts ← startingAtZero (brimfulRows.map fun r => [r])
  ExplicitModel.assemble .dtmc parts

theorem Gallery.brimful_validated : ∃ p, brimful = .ok p ∧ p.Validated ∧ p.initial = 0 ∧
    p.table = Table.ofGroups (brimfulRows.map fun r => [r]) := by
  have hinitial : brimful.toOption.map (fun p => p.initial) = some 0 := by decide +kernel
  obtain ⟨p, hp⟩ := exists_eq_ok (x := brimful) (by decide +kernel)
  rw [hp] at hinitial
  obtain ⟨parts, hparts, h⟩ := bind_eq_ok hp
  obtain ⟨-, hassembled⟩ := ExplicitModel.assemble_eq_ok h
  have htable : p.table = parts.table := by rw [hassembled]
  obtain ⟨hbuild, -⟩ := startingAtZero_eq_ok hparts
  obtain ⟨-, hgroups⟩ := Table.build_eq_ok.1 hbuild
  exact ⟨p, hp, validated_of_startingAtZero h hparts rfl rfl, Option.some.inj hinitial,
    htable.trans hgroups⟩

theorem Gallery.row_brimful {p : ExplicitModel}
    (h : p.table = Table.ofGroups (brimfulRows.map fun r => [r])) {s : ℕ}
    (hs : s < brimfulRows.length) : s < p.dynamics.stateCount ∧ p.dynamics.actionCount s = 1 ∧
      p.dynamics.row (p.dynamics.choiceAt s 0) = brimfulRows[s] := by
  show s < p.table.groupCount ∧ p.table.choiceCount s = 1 ∧
    p.table.row ((p.table.group s).start + 0) = brimfulRows[s]
  have hs' : s < (brimfulRows.map fun r => [r]).length := by rwa [List.length_map]
  rw [h, Table.groupCount_ofGroups, Table.choiceCount_ofGroups _ hs',
    Table.row_choice _ hs' (k := 0) (by simp)]
  simpa using hs

/-- The first state is no sink, but the branch that leads away from it has a sum of one in front of it,
and is out of reach. A walk that starts there never leaves it. -/
theorem ExplicitModel.brimful_never_left :
    ∃ p, Gallery.brimful = .ok p ∧ p.Validated ∧ 0 < p.dynamics.stateCount ∧
      p.dynamics.isSink 0 = false ∧ ¬ p.dynamics.CanLeave 0 ∧
      ∀ w : Walker p.dynamics, w.Reached → w.current = 0 := by
  obtain ⟨p, hp, hvalid, hinitial, htable⟩ := Gallery.brimful_validated
  obtain ⟨hs, hcount, hrow⟩ := Gallery.row_brimful htable (s := 0) (by decide)
  replace hrow : p.dynamics.row (p.dynamics.choiceAt 0 0) = [⟨0, 1.0⟩, ⟨1, 1e-10⟩] := hrow
  have hstay : ¬ p.dynamics.CanLeave 0 := by
    rw [hvalid.canLeave_iff hs]
    rintro ⟨offset, hoffset, i, b, hb, htarget, hreach⟩
    obtain rfl : offset = 0 := by omega
    rw [hrow] at hb hreach
    obtain ⟨hi, hbranch⟩ := List.getElem?_eq_some_iff.1 hb
    have hplace : i = 0 ∨ i = 1 := Nat.le_one_iff_eq_zero_or_eq_one.1 (Nat.le_of_lt_succ hi)
    rcases hplace with rfl | rfl
    · exact htarget (hbranch ▸ rfl)
    · have hsum : Row.sumBefore [⟨0, 1.0⟩, ⟨1, 1e-10⟩] 1 = Generator.grid (2 ^ 53) :=
        eq_of_toNat_toBits (by decide +kernel)
      have hlt := hreach.lt_one
      rw [hsum, (Generator.value_grid le_rfl).2] at hlt
      norm_num at hlt
  refine ⟨p, hp, hvalid, hs, (hvalid.isSink_eq_false_iff hs).2 ?_, hstay, fun w hw => ?_⟩
  · refine ⟨0, by omega, 1, ⟨1, 1e-10⟩, ?_, by decide⟩
    rw [hrow]
    rfl
  · have hstart : p.dynamics.initial = 0 := hinitial
    exact (hw.current_of_not_canLeave (hstart ▸ hstay)).trans hstart

/-- The second state has the same two branches, the one that leads away first, and can be left. -/
theorem ExplicitModel.brimful_second_left :
    ∃ p, Gallery.brimful = .ok p ∧ p.Validated ∧ 1 < p.dynamics.stateCount ∧
      p.dynamics.isSink 1 = false ∧ p.dynamics.CanLeave 1 := by
  obtain ⟨p, hp, hvalid, -, htable⟩ := Gallery.brimful_validated
  obtain ⟨hs, hcount, hrow⟩ := Gallery.row_brimful htable (s := 1) (by decide)
  replace hrow : p.dynamics.row (p.dynamics.choiceAt 1 0) = [⟨0, 1e-10⟩, ⟨1, 1.0⟩] := hrow
  obtain ⟨hsink, hleave, hreach, -⟩ := left_iff_in_reach hvalid hs
  have hoffset : 0 < p.dynamics.actionCount 1 := by omega
  have hb : (p.dynamics.row (p.dynamics.choiceAt 1 0))[0]? = some ⟨0, 1e-10⟩ := by
    rw [hrow]
    rfl
  have hle : 1 / 2 ^ 52 ≤ value (1e-10 : Float) := by
    have hgrid := Generator.value_grid (k := 2) (by norm_num)
    have hfin : (1e-10 : Float).isFinite = true := by decide +kernel
    have hfloat : Generator.grid 2 ≤ 1e-10 := by decide +kernel
    have hvalue := (le_iff_value hgrid.1.isFinite hfin).1 hfloat
    rw [hgrid.2] at hvalue
    norm_num at hvalue ⊢
    exact hvalue
  have hzero : value (Row.sumBefore (p.dynamics.row (p.dynamics.choiceAt 1 0)) 0) < 1 :=
    value_zero.trans_lt one_pos
  exact ⟨p, hp, hvalid, hs, hsink.2 ⟨0, hoffset, 0, _, hb, by decide⟩,
    hleave.2 ⟨0, hoffset, 0, _, hb, by decide, (hreach 0 hoffset _ 0 _ rfl hb).2 hzero (.inl hle)⟩⟩

end MarkovSim
