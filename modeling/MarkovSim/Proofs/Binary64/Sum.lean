import MarkovSim.Proofs.Binary64.Rounding

/-!
# Sums of numbers that are not negative

A sum is rounded to a number next to the exact one, with no binary64 number between the two
(`Nonneg.add_rounds`). So a sum is at most every number that the exact sum is at most
(`Nonneg.add_le`), at least every number that the exact sum is at least (`Nonneg.le_add`), and exact where
the exact sum is a binary64 number (`Nonneg.add_eq`). A sum that is finite has a finite first part
(`isFinite_of_add`).
-/

namespace MarkovSim.Binary64

open Float.Model Float.Model.UnpackedFloat

variable {m n : ℕ} {e : ℤ} {v : ℚ} {x y z : Float}

/-! ## Packing what was rounded -/

theorem isFinite_packedInfinity (s : Sign) :
    (UnpackedFloat.unpack Format.binary64 (packedInfinity Format.binary64 s)).isFinite = false := by
  cases s <;> decide +kernel

theorem exponent_le_of_isFinite (hm : 0 < m) {s : Sign}
    (hfin : (Float.ofModel (.pack (.finite s m e hm))).isFinite = true) : e ≤ 971 := by
  by_contra hlarge
  have hbiased : e + Format.binary64.exponentBias + Format.binary64.mantissaBitsWithoutImplicit =
      e + 1075 := by
    rw [add_assoc]
    rfl
  have hpack : UnpackedFloat.pack Format.binary64 (.finite s m e hm) =
      packedInfinity Format.binary64 s := by
    unfold UnpackedFloat.pack
    dsimp only
    rw [hbiased]
    exact if_pos (show 2 ^ 11 ≤ (e + 1075).toNat + 1 by omega)
  replace hfin : (UnpackedFloat.unpack Format.binary64
      (UnpackedFloat.pack Format.binary64 (.finite s m e hm))).isFinite = true := hfin
  rw [hpack, isFinite_packedInfinity] at hfin
  cases hfin

/-- What is at most a number that fits is not rounded to such a number. -/
theorem Rounds.exponent_le (h : Rounds v m e) {f : ℤ} (hn : Fits n f) (hle : v ≤ magnitude n f) :
    e ≤ 971 := by
  by_contra hlarge
  have hfull : 2 ^ 52 ≤ m := by
    by_contra hlt
    have := h.subnormal (by omega)
    omega
  have hexp := hn.exponent_le
  exact absurd (h.above hn hle) (not_le.2 ((magnitude_lt_full hn.lt (by omega)).trans_le
    (magnitude_mono hfull e)))

/-! ## Adding -/

theorem unpack_add (x y : Float) :
    x + y = .ofModel (.pack (UnpackedFloat.add Format.binary64 x.toModel.unpack y.toModel.unpack)) :=
  rfl

theorem amount_finite (s : Sign) (hm : 0 < m) :
    amount (.finite s m e hm) = ((s.apply m : ℤ) : ℚ) * 2 ^ e := by
  cases s with
  | positive => rfl
  | negative =>
    show -magnitude m e = ((-(m : ℤ) : ℤ) : ℚ) * 2 ^ e
    unfold magnitude
    push_cast
    ring

/-- Numbers of any signs are added exactly, and the sum is normalized. -/
theorem add_signed {m₁ m₂ : ℕ} (s₁ s₂ : Sign) (e₁ e₂ : ℤ) (h₁ : 0 < m₁) (h₂ : 0 < m₂) :
    ∃ z i : ℤ, (z : ℚ) * 2 ^ i = amount (.finite s₁ m₁ e₁ h₁) + amount (.finite s₂ m₂ e₂ h₂) ∧
      UnpackedFloat.add Format.binary64 (.finite s₁ m₁ e₁ h₁) (.finite s₂ m₂ e₂ h₂) =
        UnpackedFloat.normalize Format.binary64 z i .positive := by
  have hshift (s : Sign) (m : ℕ) (e : ℤ) (hle : min e₁ e₂ ≤ e) :
      ((s.apply ((m <<< (e - min e₁ e₂).toNat : ℕ) : ℤ) : ℤ) : ℚ) * 2 ^ min e₁ e₂ =
        ((s.apply m : ℤ) : ℚ) * 2 ^ e := by
    have hmagnitude : magnitude (m <<< (e - min e₁ e₂).toNat) (min e₁ e₂) = magnitude m e := by
      rw [Nat.shiftLeft_eq, magnitude_shift]
      congr 1
      omega
    unfold magnitude at hmagnitude
    cases s with
    | positive => exact hmagnitude
    | negative =>
      show ((-((m <<< (e - min e₁ e₂).toNat : ℕ) : ℤ) : ℤ) : ℚ) * _ = ((-(m : ℤ) : ℤ) : ℚ) * _
      rw [Int.cast_neg, Int.cast_neg, neg_mul, neg_mul, Int.cast_natCast, hmagnitude]
      rfl
  refine ⟨s₁.apply ((m₁ <<< (e₁ - min e₁ e₂).toNat : ℕ) : ℤ) +
    s₂.apply ((m₂ <<< (e₂ - min e₁ e₂).toNat : ℕ) : ℤ), min e₁ e₂, ?_, rfl⟩
  rw [amount_finite, amount_finite, Int.cast_add, add_mul, hshift _ _ _ (min_le_left _ _),
    hshift _ _ _ (min_le_right _ _)]

theorem add_finite {m₁ m₂ : ℕ} {e₁ e₂ : ℤ} (h₁ : Fits m₁ e₁) (h₂ : Fits m₂ e₂) :
    ∃ a i, 0 < a ∧ magnitude a i = magnitude m₁ e₁ + magnitude m₂ e₂ ∧
      UnpackedFloat.add Format.binary64 (.finite .positive m₁ e₁ h₁.pos)
        (.finite .positive m₂ e₂ h₂.pos) = UnpackedFloat.round Format.binary64 .positive a i := by
  obtain ⟨z, i, hsum, hadd⟩ := add_signed .positive .positive e₁ e₂ h₁.pos h₂.pos
  replace hsum : (z : ℚ) * 2 ^ i = magnitude m₁ e₁ + magnitude m₂ e₂ := hsum
  have hz : 0 < z := by
    have hpos := add_pos (magnitude_pos (e := e₁) h₁.pos) (magnitude_pos (e := e₂) h₂.pos)
    rw [← hsum] at hpos
    exact_mod_cast pos_of_mul_pos_left hpos (zpow_pos two_pos i).le
  refine ⟨z.toNat, i, by omega, ?_, ?_⟩
  · unfold magnitude at hsum ⊢
    rw [← hsum, ← Int.cast_natCast, Int.toNat_of_nonneg hz.le]
  · rw [hadd]
    unfold UnpackedFloat.normalize
    rw [Int.compare_eq_gt.2 hz]

/-- A sum that is not zero is the exact sum rounded. -/
theorem Nonneg.add_rounds (hx : Nonneg x) (hy : Nonneg y) (hpos : 0 < value x + value y) :
    ∃ m e, ∃ hm : 0 < m, Rounds (value x + value y) m e ∧
      x + y = .ofModel (.pack (.finite .positive m e hm)) := by
  rw [unpack_add]
  rcases hx.unpack with ⟨s, hux, hvx⟩ | ⟨m₁, e₁, h₁, hux, hvx⟩
  · rcases hy.unpack with ⟨t, huy, hvy⟩ | ⟨m₂, e₂, h₂, huy, hvy⟩
    · rw [hvx, hvy] at hpos
      exact absurd hpos (by norm_num)
    · refine ⟨m₂, e₂, h₂.pos, ?_, ?_⟩
      · rw [hvx, hvy, zero_add]
        exact h₂.rounds
      · rw [hux, huy]
        rfl
  · rcases hy.unpack with ⟨t, huy, hvy⟩ | ⟨m₂, e₂, h₂, huy, hvy⟩
    · refine ⟨m₁, e₁, h₁.pos, ?_, ?_⟩
      · rw [hvx, hvy, add_zero]
        exact h₁.rounds
      · rw [hux, huy]
        rfl
    · obtain ⟨a, i, ha, hexact, hadd⟩ := add_finite h₁ h₂
      obtain ⟨m, e, hrounded, hround⟩ := round_rounded (i := i) .positive ha
      have hrounds := hrounded.rounds
      rw [hexact] at hrounds
      have hm : 0 < m := by
        have hle := hrounds.below h₁ (le_add_of_nonneg_right (magnitude_pos h₂.pos).le)
        by_contra hzero
        obtain rfl : m = 0 := by omega
        refine absurd ((magnitude_pos h₁.pos).trans_le hle) ?_
        unfold magnitude
        simp
      refine ⟨m, e, hm, ?_, ?_⟩
      · rw [hvx, hvy]
        exact hrounds
      · rw [hux, huy, hadd, hround, dif_neg hm.ne']

theorem Nonneg.add_zero_of_value (hx : Nonneg x) (hy : Nonneg y) (h : value x + value y = 0) :
    Nonneg (x + y) ∧ value (x + y) = 0 := by
  have hzero (s : Sign) : (Float.Model.pack (.zero s)).unpack = .zero s := by
    cases s <;> rfl
  have hadd : ∃ s, (x + y).toModel.unpack = .zero s := by
    rw [unpack_add]
    rcases hx.unpack with ⟨s, hux, -⟩ | ⟨m₁, e₁, h₁, -, hvx⟩
    · rcases hy.unpack with ⟨t, huy, -⟩ | ⟨m₂, e₂, h₂, -, hvy⟩
      · rw [hux, huy]
        cases s <;> cases t <;> exact ⟨_, hzero _⟩
      · have := magnitude_pos (e := e₂) h₂.pos
        have := hx.le_value
        exact absurd h (by rw [hvy]; positivity)
    · have := magnitude_pos (e := e₁) h₁.pos
      have := hy.le_value
      exact absurd h (by rw [hvx]; positivity)
  obtain ⟨s, hs⟩ := hadd
  have hvalue : value (x + y) = 0 := by
    unfold value
    rw [hs]
    rfl
  refine ⟨⟨?_, hvalue.ge⟩, hvalue⟩
  show (x + y).toModel.unpack.isFinite = true
  rw [hs]
  rfl

/-- A sum is at most every number that the exact sum is at most. -/
theorem Nonneg.add_le (hx : Nonneg x) (hy : Nonneg y) (hz : Nonneg z)
    (h : value x + value y ≤ value z) : Nonneg (x + y) ∧ value (x + y) ≤ value z := by
  rcases (add_nonneg hx.le_value hy.le_value).eq_or_lt with hzero | hpos
  · obtain ⟨hadd, hvalue⟩ := hx.add_zero_of_value hy hzero.symm
    exact ⟨hadd, hvalue ▸ hz.le_value⟩
  · obtain ⟨m, e, hm, hrounds, hadd⟩ := hx.add_rounds hy hpos
    rcases hz.unpack with ⟨-, -, hvz⟩ | ⟨n, f, hfits, -, hvz⟩
    · rw [hvz] at h
      exact absurd hpos (not_lt.2 h)
    · rw [hvz] at h ⊢
      obtain ⟨hnonneg, hvalue⟩ := nonneg_pack (hrounds.fits hm (hrounds.exponent_le hfits h))
      rw [hadd, hvalue]
      exact ⟨hnonneg, hrounds.above hfits h⟩

/-- A finite sum is at least every number that the exact sum is at least. -/
theorem Nonneg.le_add (hx : Nonneg x) (hy : Nonneg y) (hfin : (x + y).isFinite = true)
    (hz : Nonneg z) (h : value z ≤ value x + value y) : Nonneg (x + y) ∧ value z ≤ value (x + y) := by
  rcases (add_nonneg hx.le_value hy.le_value).eq_or_lt with hzero | hpos
  · obtain ⟨hadd, hvalue⟩ := hx.add_zero_of_value hy hzero.symm
    exact ⟨hadd, by rw [hvalue, hzero]; exact h⟩
  · obtain ⟨m, e, hm, hrounds, hadd⟩ := hx.add_rounds hy hpos
    rw [hadd] at hfin
    obtain ⟨hnonneg, hvalue⟩ := nonneg_pack (hrounds.fits hm (exponent_le_of_isFinite hm hfin))
    rw [hadd, hvalue]
    refine ⟨hnonneg, ?_⟩
    rcases hz.unpack with ⟨-, -, hvz⟩ | ⟨n, f, hfits, -, hvz⟩
    · rw [hvz]
      exact (magnitude_pos hm).le
    · rw [hvz] at h ⊢
      exact hrounds.below hfits h

/-- Where the exact sum is a binary64 number, the sum is exact. -/
theorem Nonneg.add_eq (hx : Nonneg x) (hy : Nonneg y) (hz : Nonneg z)
    (h : value x + value y = value z) : Nonneg (x + y) ∧ value (x + y) = value z := by
  obtain ⟨hadd, hle⟩ := hx.add_le hy hz h.le
  exact ⟨hadd, le_antisymm hle (hx.le_add hy hadd.isFinite hz h.ge).2⟩

/-! ## What makes a number finite -/

theorem isFinite_add_of_not {u : UnpackedFloat} (w : UnpackedFloat) (h : u.isFinite = false) :
    (UnpackedFloat.add Format.binary64 u w).isFinite = false := by
  cases u with
  | notANumber => rfl
  | infinity s =>
    cases w with
    | infinity t => cases s <;> cases t <;> rfl
    | _ => rfl
  | zero s => cases h
  | finite s m e hm => cases h

theorem isFinite_pack_of_not {u : UnpackedFloat} (h : u.isFinite = false) :
    (Float.ofModel (.pack u)).isFinite = false := by
  cases u with
  | notANumber => decide +kernel
  | infinity s => exact isFinite_packedInfinity s
  | zero s => cases h
  | finite s m e hm => cases h

theorem isFinite_of_add (h : (x + y).isFinite = true) : x.isFinite = true := by
  by_contra hx
  have hadd := isFinite_add_of_not y.toModel.unpack (Bool.eq_false_iff.2 hx)
  rw [unpack_add, isFinite_pack_of_not hadd] at h
  cases h

theorem isFinite_of_sub (h : (x - y).isFinite = true) : x.isFinite = true := by
  by_contra hx
  have hadd := isFinite_add_of_not y.toModel.unpack.neg (Bool.eq_false_iff.2 hx)
  rw [← sub_eq_add_neg] at hadd
  replace h : (Float.ofModel (.pack (UnpackedFloat.sub Format.binary64 x.toModel.unpack
      y.toModel.unpack))).isFinite = true := h
  rw [isFinite_pack_of_not hadd] at h
  cases h

/-- No infinity has a finite bound. -/
theorem isFinite_of_abs_le (hx : x.isNaN = false) (hy : y.isFinite = true) (h : x.abs ≤ y) :
    x.isFinite = true := by
  replace hx : x.toModel.unpack.isNaN = false := hx
  replace hy : y.toModel.unpack.isFinite = true := hy
  rw [le_iff] at h
  replace h : ((Float.Model.pack x.toModel.unpack.abs).unpack.compare y.toModel.unpack).any
      (·.isLE) = true := h
  show x.toModel.unpack.isFinite = true
  have hinf : (Float.Model.pack (.infinity .positive)).unpack = .infinity .positive := rfl
  cases hu : x.toModel.unpack with
  | notANumber => rw [hu] at hx; cases hx
  | infinity s =>
    rw [hu, show (UnpackedFloat.infinity s).abs = .infinity .positive from rfl, hinf] at h
    cases hw : y.toModel.unpack with
    | notANumber => rw [hw] at hy; cases hy
    | infinity t => rw [hw] at hy; cases hy
    | zero t => rw [hw] at h; cases h
    | finite t m e hm => rw [hw] at h; cases h
  | zero s => rfl
  | finite s m e hm => rfl

end MarkovSim.Binary64
