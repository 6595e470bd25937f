import Mathlib.Order.Interval.Finset.Nat
import MarkovSim.Proofs.Binary64.Scientific
import MarkovSim.Proofs.Binary64.Sum
import MarkovSim.Proofs.Walk

/-!
# Which branch a draw selects

A draw from the unit interval is one of the `2 ^ 53` multiples of `2 ^ (-53)` below one, with its exact
value (`Generator.grid`, `value_grid`). Where the running sums of a row are finite and do not fall
(`Row.Graded`), a draw selects the place whose running sum it is the first to be below, or the last place
(`Graded.place_eq_iff`). When the probabilities are themselves such multiples and make up one, the sums
are exact, and each place is selected by as many draws as its probability says.

No draw is then left to the last place by rounding, and every draw that a walker makes for such a row is one
of the `2 ^ 53`.
-/

namespace MarkovSim

open Binary64

/-! ## Draws -/

namespace Generator

def grid (k : ℕ) : Float := unitFraction (UInt64.ofNat k)

/-- A number of up to 53 digits, multiplied by `2 ^ (-53)`, loses none of them. -/
theorem unitFraction_eq {k : UInt64} {m : ℕ} {e : ℤ} (hk : 0 < k.toNat) (h : Fits m e)
    (hfull : 2 ^ 52 ≤ m) (hv : magnitude k.toNat 0 = magnitude m e) :
    ∃ h' : Fits m (e - 53),
      unitFraction k = .ofModel (.pack (.finite .positive m (e - 53) h'.pos)) := by
  have hlow := h.neg_le_exponent hk ((magnitude_zero _).symm.trans hv)
  have hle := h.exponent_le
  have h' : Fits m (e - 53) := ⟨h.pos, h.lt, by omega, by omega, fun hlt => by omega⟩
  have hunit : (Float.ofBits 0x3CA0000000000000).toModel.unpack =
      .finite .positive (2 ^ 52) (-105) (Nat.two_pow_pos 52) := by
    rfl
  have hvalue : magnitude m e * magnitude (2 ^ 52) (-105) = magnitude m (e - 53) := by
    rw [← magnitude_mul, magnitude_shift]
    congr 1
    push_cast
    ring
  refine ⟨h', ?_⟩
  show Float.ofModel (.pack (Float.Model.UnpackedFloat.mul Float.Model.Format.binary64
    (Float.Model.ofNat k.toNat).unpack (Float.ofBits 0x3CA0000000000000).toModel.unpack)) = _
  rw [unpack_ofNat hk h hv, hunit, mul_exact h' h.pos (Nat.two_pow_pos 52) hvalue (by omega)]

theorem value_grid {k : ℕ} (hk : k ≤ 2 ^ 53) : Nonneg (grid k) ∧ value (grid k) = k / 2 ^ 53 := by
  have hnat : (UInt64.ofNat k).toNat = k := by
    rw [UInt64.toNat_ofNat']
    omega
  have hfull : 0 < k → ∃ m e, Fits m e ∧ 2 ^ 52 ≤ m ∧ magnitude k 0 = magnitude m e := by
    intro hpos
    rcases hk.lt_or_eq with hlt | rfl
    · obtain ⟨m, e, h⟩ := exists_fits hpos hlt (k := 0) (by norm_num)
      rw [pow_zero, mul_one] at h
      exact ⟨m, e, h⟩
    · exact exists_fits (a := 1) one_pos (by norm_num) (k := 53) (by norm_num)
  rcases Nat.eq_zero_or_pos k with rfl | hpos
  · have hzero : grid 0 = 0.0 := eq_of_toNat_toBits (by decide +kernel)
    rw [hzero, value_zero]
    exact ⟨nonneg_zero, by norm_num⟩
  · obtain ⟨m, e, h, hm, hv⟩ := hfull hpos
    obtain ⟨h', hgrid⟩ := unitFraction_eq (hnat.symm ▸ hpos) h hm (by rw [hnat, hv])
    obtain ⟨hnonneg, hvalue⟩ := nonneg_pack h'
    unfold grid
    rw [hgrid, hvalue]
    refine ⟨hnonneg, ?_⟩
    rw [← magnitude_zero k, hv]
    unfold magnitude
    rw [zpow_sub₀ two_ne_zero, mul_div_assoc]
    rfl

theorem unit_eq_grid (g : Generator) : ∃ k < 2 ^ 53, g.unit.1 = grid k := by
  refine ⟨(g.word64.1 >>> 11).toNat, ?_, ?_⟩
  · have hlt := g.word64.1.toNat_lt
    rw [UInt64.toNat_shiftRight, Nat.shiftRight_eq_div_pow,
      show (11 : UInt64).toNat % 64 = 11 from rfl]
    omega
  · unfold grid
    rw [UInt64.ofNat_toNat]
    rfl

end Generator

/-! ## Running sums -/

namespace Row

variable {row : Row} {u sum : Float} {i j : ℕ}

def sumBefore (row : Row) (i : ℕ) : Float := total (row.take i)

theorem sumBefore_succ (hi : i < row.length) :
    row.sumBefore (i + 1) = row.sumBefore i + row[i].probability := by
  unfold sumBefore total
  rw [List.take_succ_eq_append_getElem hi, List.foldl_append]
  rfl

theorem sumBefore_length (row : Row) : row.sumBefore row.length = row.total := by
  unfold sumBefore
  rw [List.take_length]

/-- A draw reaches the first place up to which the running sum, from `sum` on, exceeds it. -/
theorem reached?_eq_some_iff :
    row.reached? u sum = some i ↔ i < row.length ∧
      u < (row.take (i + 1)).foldl (fun sum b => sum + b.probability) sum ∧
      ∀ j < i, ¬ u < (row.take (j + 1)).foldl (fun sum b => sum + b.probability) sum := by
  induction row generalizing sum i with
  | nil => simp [reached?]
  | cons b rest ih =>
    unfold reached?
    by_cases hlt : u < sum + b.probability
    · rw [if_pos hlt]
      cases i with
      | zero => simp [hlt]
      | succ i =>
        refine ⟨fun h => (nomatch h), fun h => absurd ?_ (h.2.2 0 i.succ_pos)⟩
        simpa using hlt
    · rw [if_neg hlt]
      cases i with
      | zero => simp [hlt]
      | succ i =>
        have hfirst : (∀ j < i + 1, ¬ u < ((b :: rest).take (j + 1)).foldl
            (fun sum b => sum + b.probability) sum) ↔
            ∀ j < i, ¬ u < (rest.take (j + 1)).foldl (fun sum b => sum + b.probability)
              (sum + b.probability) := by
          refine ⟨fun h j hj => h (j + 1) (Nat.succ_lt_succ hj), fun h j hj => ?_⟩
          cases j with
          | zero => simpa using hlt
          | succ j => exact h j (Nat.lt_of_succ_lt_succ hj)
        rw [hfirst]
        simpa [Option.map_eq_some_iff] using ih

/-- The running sums of a row are finite and do not fall. -/
structure Graded (row : Row) : Prop where
  nonneg : ∀ i ≤ row.length, Nonneg (row.sumBefore i)
  le_succ : ∀ i < row.length, value (row.sumBefore i) ≤ value (row.sumBefore (i + 1))

namespace Graded

variable (h : row.Graded)
include h

theorem le (hij : i ≤ j) (hj : j ≤ row.length) :
    value (row.sumBefore i) ≤ value (row.sumBefore j) := by
  induction j, hij using Nat.le_induction with
  | base => exact le_rfl
  | succ j _ ih => exact (ih (by omega)).trans (h.le_succ j (by omega))

theorem lt_iff (hu : Nonneg u) (hi : i ≤ row.length) :
    u < row.sumBefore i ↔ value u < value (row.sumBefore i) :=
  lt_iff_value hu.isFinite (h.nonneg i hi).isFinite

/-- A draw reaches the place between whose running sums it lies. -/
theorem reached?_eq_some_iff (hu : Nonneg u) :
    row.reached? u 0.0 = some i ↔ i < row.length ∧ value (row.sumBefore i) ≤ value u ∧
      value u < value (row.sumBefore (i + 1)) := by
  rw [Row.reached?_eq_some_iff]
  refine and_congr_right fun hi => ?_
  show u < row.sumBefore (i + 1) ∧ (∀ j < i, ¬ u < row.sumBefore (j + 1)) ↔ _
  rw [h.lt_iff hu hi, and_comm]
  refine and_congr_left fun _ => ⟨fun hbefore => ?_, fun hle j hj => ?_⟩
  · cases i with
    | zero => exact (show value (row.sumBefore 0) = 0 from value_zero).trans_le hu.le_value
    | succ i =>
      have hnot := hbefore i i.lt_succ_self
      rwa [h.lt_iff hu hi.le, not_lt] at hnot
  · rw [h.lt_iff hu (by omega), not_lt]
    exact (h.le hj hi.le).trans hle

theorem exists_reached (hu : Nonneg u) (hlt : value u < value row.total) :
    ∃ i, row.reached? u 0.0 = some i := by
  classical
  have hsome : ∃ j, j ≤ row.length ∧ value u < value (row.sumBefore j) :=
    ⟨row.length, le_rfl, by rwa [sumBefore_length]⟩
  obtain ⟨hle, hfirst⟩ := Nat.find_spec hsome
  have hmin := @Nat.find_min _ _ hsome
  generalize Nat.find hsome = j at *
  cases j with
  | zero =>
    rw [show value (row.sumBefore 0) = 0 from value_zero] at hfirst
    exact absurd hu.le_value (not_le.2 hfirst)
  | succ i =>
    have hbefore := hmin i.lt_succ_self
    rw [not_and, not_lt] at hbefore
    exact ⟨i, (h.reached?_eq_some_iff hu).2 ⟨hle, hbefore (by omega), hfirst⟩⟩

/-- A draw selects the place that it reaches; one that reaches none selects the last. -/
theorem place_eq_iff (hu : Nonneg u) (hi : i < row.length) :
    row.place u = i ↔ value (row.sumBefore i) ≤ value u ∧
      (value u < value (row.sumBefore (i + 1)) ∨ i + 1 = row.length) := by
  unfold place
  cases hr : row.reached? u 0.0 with
  | some j =>
    obtain ⟨hj, hle, hlt⟩ := (h.reached?_eq_some_iff hu).1 hr
    rw [Option.getD_some]
    constructor
    · rintro rfl
      exact ⟨hle, .inl hlt⟩
    · rintro ⟨hle', hlt'⟩
      -- Sums do not fall, so the draw lies between the sums of one place only.
      rcases lt_trichotomy j i with hji | rfl | hij
      · exact absurd (hlt.trans_le ((h.le hji hi.le).trans hle')) (lt_irrefl _)
      · rfl
      · rcases hlt' with hlt' | hlast
        · exact absurd (hlt'.trans_le ((h.le hij hj.le).trans hle)) (lt_irrefl _)
        · omega
  | none =>
    have hall : value (row.sumBefore row.length) ≤ value u := by
      by_contra hlt
      rw [sumBefore_length, not_le] at hlt
      obtain ⟨j, hj⟩ := h.exists_reached hu hlt
      rw [hj] at hr
      cases hr
    rw [Option.getD_none]
    constructor
    · rintro rfl
      exact ⟨(h.le (by omega) le_rfl).trans hall, .inr (by omega)⟩
    · rintro ⟨-, hlt | hlast⟩
      · exact absurd (hlt.trans_le ((h.le hi le_rfl).trans hall)) (lt_irrefl _)
      · omega

end Graded

/-! ## Probabilities that are multiples of a draw -/

/-- The probabilities are the multiples of `2 ^ (-53)` that the weights give, and make up one. -/
structure Weighted (row : Row) (weights : List ℕ) : Prop where
  probabilities : List.Forall₂ (fun (b : Branch) (m : ℕ) =>
    b.probability.isFinite = true ∧ value b.probability = m / 2 ^ 53) row weights
  pos : ∀ m ∈ weights, 1 ≤ m
  sum : weights.sum = 2 ^ 53

namespace Weighted

variable {weights : List ℕ} (h : row.Weighted weights)
include h

theorem length_eq : row.length = weights.length := h.probabilities.length_eq

theorem sum_take_le (i : ℕ) : (weights.take i).sum ≤ 2 ^ 53 :=
  h.sum ▸ (List.take_sublist i weights).sum_le_sum (fun _ _ => Nat.zero_le _)

theorem sumBefore_eq (hi : i ≤ row.length) :
    Nonneg (row.sumBefore i) ∧ value (row.sumBefore i) = (weights.take i).sum / 2 ^ 53 := by
  induction i with
  | zero =>
    have hzero : value (row.sumBefore 0) = 0 := value_zero
    exact ⟨nonneg_zero, by rw [hzero]; simp⟩
  | succ i ih =>
    obtain ⟨hnonneg, hvalue⟩ := ih (by omega)
    have hi' : i < weights.length := h.length_eq ▸ hi
    obtain ⟨hfin, hprob⟩ : row[i].probability.isFinite = true ∧
        value row[i].probability = weights[i] / 2 ^ 53 := h.probabilities.get hi hi'
    have hweight : Nonneg row[i].probability := ⟨hfin, hprob ▸ by positivity⟩
    obtain ⟨hgrid, hgridv⟩ := Generator.value_grid (h.sum_take_le (i + 1))
    have hexact : value (row.sumBefore i) + value row[i].probability =
        value (Generator.grid (weights.take (i + 1)).sum) := by
      rw [hvalue, hprob, hgridv, List.sum_take_succ _ _ hi']
      push_cast
      ring
    rw [sumBefore_succ hi, ← hgridv]
    exact hnonneg.add_eq hweight hgrid hexact

theorem graded : row.Graded where
  nonneg _ hi := (h.sumBefore_eq hi).1
  le_succ i hi := by
    rw [(h.sumBefore_eq hi.le).2, (h.sumBefore_eq hi).2]
    have hle : (weights.take i).sum ≤ (weights.take (i + 1)).sum := by
      rw [List.sum_take_succ _ _ (h.length_eq ▸ hi)]
      exact Nat.le_add_right _ _
    gcongr

/-- A draw lies below a running sum exactly when its number is below the weights up to there. -/
theorem value_grid_lt_iff (hi : i ≤ row.length) {k : ℕ} (hk : k ≤ 2 ^ 53) :
    value (Generator.grid k) < value (row.sumBefore i) ↔ k < (weights.take i).sum := by
  rw [(Generator.value_grid hk).2, (h.sumBefore_eq hi).2, div_lt_div_iff_of_pos_right (by positivity),
    Nat.cast_lt]

theorem reached?_iff {k : ℕ} (hk : k < 2 ^ 53) :
    row.reached? (Generator.grid k) 0.0 = some i ↔ i < row.length ∧
      (weights.take i).sum ≤ k ∧ k < (weights.take (i + 1)).sum := by
  rw [h.graded.reached?_eq_some_iff (Generator.value_grid hk.le).1]
  refine and_congr_right fun hi => ?_
  rw [h.value_grid_lt_iff hi hk.le, ← not_lt, h.value_grid_lt_iff hi.le hk.le, not_lt]

/-- No draw is left to the last place by rounding. -/
theorem reached?_eq_place {k : ℕ} (hk : k < 2 ^ 53) :
    row.reached? (Generator.grid k) 0.0 = some (row.place (Generator.grid k)) := by
  have hlt : value (Generator.grid k) < value row.total := by
    rw [← sumBefore_length, h.value_grid_lt_iff le_rfl hk.le, h.length_eq, List.take_length, h.sum]
    exact hk
  obtain ⟨i, hi⟩ := h.graded.exists_reached (Generator.value_grid hk.le).1 hlt
  unfold place
  rw [hi, Option.getD_some]

theorem place_eq_iff {k : ℕ} (hk : k < 2 ^ 53) :
    row.place (Generator.grid k) = i ↔ i < row.length ∧
      (weights.take i).sum ≤ k ∧ k < (weights.take (i + 1)).sum := by
  rw [← h.reached?_iff hk, h.reached?_eq_place hk, Option.some.injEq]

/-- The draws that select a place are those between the weights before it and up to it. -/
theorem filter_place_eq (hi : i < weights.length) :
    ((Finset.range (2 ^ 53)).filter fun k => row.place (Generator.grid k) = i) =
      Finset.Ico (weights.take i).sum ((weights.take i).sum + weights[i]) := by
  have hle := h.sum_take_le (i + 1)
  ext k
  rw [Finset.mem_filter, Finset.mem_range, Finset.mem_Ico, ← List.sum_take_succ _ _ hi]
  constructor
  · rintro ⟨hk, hplace⟩
    exact ((h.place_eq_iff hk).1 hplace).2
  · rintro ⟨hge, hlt⟩
    have hk : k < 2 ^ 53 := by omega
    exact ⟨hk, (h.place_eq_iff hk).2 ⟨h.length_eq ▸ hi, hge, hlt⟩⟩

end Weighted

/-- Where the weights of a row make up one, the draw with number `k` selects the place at which the sum of the
weights first exceeds `k`. So each place is selected by as many of the `2 ^ 53` draws as its weight says,
and by at least one. -/
theorem selected_in_proportion {weights : List ℕ} (h : row.Weighted weights) :
    (∀ k < 2 ^ 53, ∀ i, row.place (Generator.grid k) = i ↔ i < row.length ∧
      (weights.take i).sum ≤ k ∧ k < (weights.take (i + 1)).sum) ∧
    (∀ k < 2 ^ 53, row.reached? (Generator.grid k) 0.0 = some (row.place (Generator.grid k))) ∧
    (∀ (i : ℕ) (hi : i < weights.length),
      ((Finset.range (2 ^ 53)).filter fun k => row.place (Generator.grid k) = i).card = weights[i]) ∧
    (∀ i < weights.length, ∃ k < 2 ^ 53, row.place (Generator.grid k) = i) ∧
    ∀ {d : Dynamics} (w : Walker d) (offset : ℕ), offset < d.actionCount w.current →
      d.row (d.choiceAt w.current offset) = row → ∃ k < 2 ^ 53, ∃ b,
        w.generator.unit.1 = Generator.grid k ∧ row[row.place (Generator.grid k)]? = some b ∧
        (w.step offset).1 = true ∧ (w.step offset).2.current = b.target := by
  refine ⟨fun k hk i => h.place_eq_iff hk, fun k hk => h.reached?_eq_place hk, fun i hi => ?_,
    fun i hi => ?_, fun {d} w offset hoffset hrow => ?_⟩
  · rw [h.filter_place_eq hi, Nat.card_Ico, Nat.add_sub_cancel_left]
  · have hmem : (weights.take i).sum ∈
        (Finset.range (2 ^ 53)).filter fun k => row.place (Generator.grid k) = i := by
      rw [h.filter_place_eq hi, Finset.mem_Ico]
      have hpos := h.pos _ (List.getElem_mem hi)
      omega
    obtain ⟨hk, hplace⟩ := Finset.mem_filter.1 hmem
    exact ⟨_, Finset.mem_range.1 hk, hplace⟩
  · have hne : row ≠ [] := by
      rintro rfl
      have hsum := h.sum
      rw [List.forall₂_nil_left_iff.1 h.probabilities] at hsum
      cases hsum
    obtain ⟨k, hk, hdraw⟩ := w.generator.unit_eq_grid
    obtain ⟨b, -, hpick, hstep⟩ := Walker.step_eq_follow hoffset (hrow ▸ hne)
    rw [hrow, hdraw] at hpick
    rw [hstep]
    exact ⟨k, hk, b, hdraw, hpick, rfl, rfl⟩

/-- Of a row of two branches, the first with the least of these probabilities, the first is selected by
one draw alone. -/
theorem least_selected_once :
    ∃ row : Row, row = [⟨1, 1.1102230246251565e-16⟩, ⟨0, 0.9999999999999999⟩] ∧
      row.Weighted [1, 2 ^ 53 - 1] ∧
      (∀ k < 2 ^ 53, row.place (Generator.grid k) = 0 ↔ k = 0) ∧
      ((Finset.range (2 ^ 53)).filter fun k => row.place (Generator.grid k) = 0).card = 1 := by
  have hleast : (1.1102230246251565e-16 : Float) = Generator.grid 1 :=
    eq_of_toNat_toBits (by decide +kernel)
  have hrest : (0.9999999999999999 : Float) = Generator.grid (2 ^ 53 - 1) :=
    eq_of_toNat_toBits (by decide +kernel)
  have hvalue {k : ℕ} (hk : k ≤ 2 ^ 53) : (Generator.grid k).isFinite = true ∧
      value (Generator.grid k) = k / 2 ^ 53 :=
    ⟨(Generator.value_grid hk).1.isFinite, (Generator.value_grid hk).2⟩
  have hrow : Weighted [⟨1, 1.1102230246251565e-16⟩, ⟨0, 0.9999999999999999⟩] [1, 2 ^ 53 - 1] := by
    refine ⟨.cons ?_ (.cons ?_ .nil), by decide, by decide⟩
    · rw [hleast]
      exact hvalue (by norm_num)
    · rw [hrest]
      exact hvalue (by norm_num)
  obtain ⟨hplace, -, hcard, -⟩ := selected_in_proportion hrow
  refine ⟨_, rfl, hrow, fun k hk => ?_, hcard 0 (by decide)⟩
  rw [hplace k hk 0]
  simp

end Row

end MarkovSim
