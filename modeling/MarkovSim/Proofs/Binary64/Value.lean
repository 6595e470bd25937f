import MarkovSim.Proofs.Binary64.Bits
import MarkovSim.Proofs.Binary64.Order

/-!
# The rational number a binary64 number stands for

A finite number stands for a rational one (`value`), and finite numbers are in the order of the rational
numbers they stand for (`lt_iff_value`, `le_iff_value`). Exponents decide first: of two numbers that fit,
the one with the greater exponent is the greater (`magnitude_lt_of_exponent_lt`).
-/

namespace MarkovSim.Binary64

open Float.Model Float.Model.UnpackedFloat

/-- What an unpacked number stands for; zero where it is none. -/
def amount : UnpackedFloat → ℚ
  | .finite .positive m e _ => magnitude m e
  | .finite .negative m e _ => -magnitude m e
  | _ => 0

/-- The rational number that a finite number stands for. -/
def value (x : Float) : ℚ := amount x.toModel.unpack

variable {m n : ℕ} {e f : ℤ} {x y : Float}

/-! ## Order of mantissas and exponents -/

theorem magnitude_mono (h : m ≤ n) (e : ℤ) : magnitude m e ≤ magnitude n e := by
  unfold magnitude
  gcongr

theorem magnitude_lt_iff : magnitude m e < magnitude n e ↔ m < n := by
  unfold magnitude
  rw [mul_lt_mul_iff_left₀ (by positivity), Nat.cast_lt]

theorem magnitude_le_iff : magnitude m e ≤ magnitude n e ↔ m ≤ n := by
  rw [← not_lt, magnitude_lt_iff, not_lt]

theorem magnitude_lt_full (hm : m < 2 ^ 53) (hef : e < f) : magnitude m e < magnitude (2 ^ 52) f := by
  have hk : e + ((f - e).toNat : ℤ) = f := by omega
  have hpow : 2 ^ 53 ≤ 2 ^ 52 * 2 ^ (f - e).toNat := by
    calc 2 ^ 53 = 2 ^ 52 * 2 ^ 1 := by norm_num
      _ ≤ 2 ^ 52 * 2 ^ (f - e).toNat :=
          Nat.mul_le_mul_left _ (Nat.pow_le_pow_right two_pos (by omega))
  rw [← hk, ← magnitude_shift, magnitude_lt_iff]
  omega

theorem Fits.full (h : Fits n f) (hf : f ≠ -1074) : 2 ^ 52 ≤ n := by
  by_contra hn
  exact hf (h.subnormal (by omega))

theorem magnitude_lt_of_exponent_lt (h : Fits m e) (h' : Fits n f) (hef : e < f) :
    magnitude m e < magnitude n f := by
  have hge := h.le_exponent
  exact (magnitude_lt_full h.lt hef).trans_le (magnitude_mono (h'.full (by omega)) f)

/-- Numbers that fit are compared by their exponents, and then by their mantissas. -/
theorem magnitude_lt_iff_lex (h : Fits m e) (h' : Fits n f) :
    magnitude m e < magnitude n f ↔ (Ord.compare e f).then (Ord.compare m n) = .lt := by
  rcases lt_trichotomy e f with hef | rfl | hef
  · simp [Int.compare_eq_lt.2 hef, magnitude_lt_of_exponent_lt h h' hef]
  · simp [magnitude_lt_iff, Nat.compare_eq_lt]
  · simp [Int.compare_eq_gt.2 hef, (magnitude_lt_of_exponent_lt h' h hef).le]

/-! ## Values -/

theorem value_zero : value 0.0 = 0 := by
  have hunpack : (0.0 : Float).toModel.unpack = .zero .positive := by rfl
  unfold value
  rw [hunpack]
  rfl

theorem compare_positive (hm : 0 < m) (hn : 0 < n) :
    UnpackedFloat.compare (.finite .positive m e hm) (.finite .positive n f hn) =
      some ((Ord.compare e f).then (Ord.compare m n)) := rfl

theorem compare_negative (hm : 0 < m) (hn : 0 < n) :
    UnpackedFloat.compare (.finite .negative m e hm) (.finite .negative n f hn) =
      some ((Ord.compare e f).then (Ord.compare m n)).swap := rfl

/-- Finite numbers are ordered by their values. -/
theorem lt_iff_value (hx : x.isFinite = true) (hy : y.isFinite = true) :
    x < y ↔ value x < value y := by
  rw [lt_iff]
  unfold value
  rcases unpack_eq hx with ⟨-, hux⟩ | ⟨h, hux⟩ <;> rcases unpack_eq hy with ⟨-, huy⟩ | ⟨h', huy⟩
  · rw [hux, huy]
    show some Ordering.eq = some .lt ↔ (0 : ℚ) < 0
    simp
  · have hpos := magnitude_pos (e := (Decimal.mantissa y).2) h'.pos
    rw [hux, huy]
    cases signOf y with
    | positive => exact iff_of_true rfl hpos
    | negative =>
      show some Ordering.gt = some .lt ↔ 0 < -magnitude _ _
      simp [hpos.le]
  · have hpos := magnitude_pos (e := (Decimal.mantissa x).2) h.pos
    rw [hux, huy]
    cases signOf x with
    | positive =>
      show some Ordering.gt = some .lt ↔ magnitude _ _ < 0
      simp [hpos.le]
    | negative => exact iff_of_true rfl (neg_neg_of_pos hpos)
  · have hpos := magnitude_pos (e := (Decimal.mantissa x).2) h.pos
    have hpos' := magnitude_pos (e := (Decimal.mantissa y).2) h'.pos
    rw [hux, huy]
    cases signOf x with
    | positive =>
      cases signOf y with
      | positive =>
        rw [compare_positive, Option.some.injEq]
        exact (magnitude_lt_iff_lex h h').symm
      | negative =>
        show some Ordering.gt = some .lt ↔ magnitude _ _ < -magnitude _ _
        simp [(neg_neg_of_pos hpos').le.trans hpos.le]
    | negative =>
      cases signOf y with
      | positive => exact iff_of_true rfl ((neg_neg_of_pos hpos).trans hpos')
      | negative =>
        rw [compare_negative, Option.some.injEq, Ordering.swap_then, Int.compare_swap,
          Nat.compare_swap, ← magnitude_lt_iff_lex h' h]
        exact neg_lt_neg_iff.symm

theorem le_iff_value (hx : x.isFinite = true) (hy : y.isFinite = true) :
    x ≤ y ↔ value x ≤ value y := by
  rw [← not_lt_iff (isNaN_of_isFinite hy) (isNaN_of_isFinite hx), lt_iff_value hy hx, not_lt]

/-! ## Numbers that are not negative -/

structure Nonneg (x : Float) : Prop where
  isFinite : x.isFinite = true
  le_value : 0 ≤ value x

theorem nonneg_zero : Nonneg 0.0 := ⟨by decide +kernel, value_zero.ge⟩

theorem Nonneg.of_pos (hx : x.isFinite = true) (h : 0.0 < x) : Nonneg x := by
  rw [lt_iff_value nonneg_zero.isFinite hx, value_zero] at h
  exact ⟨hx, h.le⟩

theorem nonneg_pack (h : Fits m e) :
    Nonneg (.ofModel (.pack (.finite .positive m e h.pos))) ∧
      value (.ofModel (.pack (.finite .positive m e h.pos))) = magnitude m e := by
  have hvalue : value (.ofModel (.pack (.finite .positive m e h.pos))) = magnitude m e := by
    show amount (Float.Model.pack (.finite .positive m e h.pos)).unpack = _
    rw [unpack_pack h]
    rfl
  exact ⟨⟨isFinite_pack h _, hvalue ▸ (magnitude_pos h.pos).le⟩, hvalue⟩

theorem Nonneg.unpack (h : Nonneg x) :
    (∃ s, x.toModel.unpack = .zero s ∧ value x = 0) ∨
      ∃ m e, ∃ h : Fits m e, x.toModel.unpack = .finite .positive m e h.pos ∧
        value x = magnitude m e := by
  have hle := h.le_value
  unfold value at hle ⊢
  rcases unpack_eq h.isFinite with ⟨-, hunpack⟩ | ⟨hfits, hunpack⟩
  · exact .inl ⟨_, hunpack, by rw [hunpack]; rfl⟩
  · refine .inr ⟨_, _, hfits, ?_⟩
    cases hs : signOf x with
    | positive =>
      rw [hs] at hunpack
      exact ⟨hunpack, by rw [hunpack]; rfl⟩
    | negative =>
      rw [hunpack, hs] at hle
      exact absurd (magnitude_pos hfits.pos) (not_lt.2 (neg_nonneg.1 hle))

/-- Below one there is no number above the last multiple of `2 ^ (-53)`. -/
theorem Nonneg.le_of_lt_one (h : Nonneg x) (hlt : value x < 1) :
    value x ≤ (2 ^ 53 - 1) / 2 ^ 53 := by
  rcases h.unpack with ⟨-, -, hvalue⟩ | ⟨m, e, hfits, -, hvalue⟩
  · rw [hvalue]
    norm_num
  · rw [hvalue] at hlt ⊢
    have hone : magnitude (2 ^ 52) (-52) = 1 := by norm_num [magnitude]
    have hlast : magnitude (2 ^ 53 - 1) (-53) = (2 ^ 53 - 1) / 2 ^ 53 := by norm_num [magnitude]
    have hm := hfits.lt
    rw [← hone] at hlt
    rw [← hlast]
    rcases lt_trichotomy e (-53) with he | rfl | he
    · exact (magnitude_lt_full hm he).le.trans (magnitude_mono (by norm_num) _)
    · exact magnitude_mono (by omega) _
    · have hfull := magnitude_mono (hfits.full (by omega)) e
      have hexp : magnitude (2 ^ 52) (-52) ≤ magnitude (2 ^ 52) e := by
        unfold magnitude
        exact mul_le_mul_of_nonneg_left (zpow_le_zpow_right₀ one_le_two (by omega)) (by positivity)
      exact absurd (hexp.trans hfull) (not_le.2 hlt)

end MarkovSim.Binary64
