import Mathlib.Algebra.Order.Field.Power
import Mathlib.Algebra.Order.Ring.Rat
import Mathlib.Tactic.NormNum
import Mathlib.Tactic.Positivity
import Mathlib.Tactic.Ring

/-!
# Results that need no rounding

A mantissa `m` and an exponent `e` stand for `m · 2 ^ e`, and those with `Fits m e` are the ones of
finite binary64 numbers. When the exact result of an operation is such a number, the operation gives
it: rounding to an exponent shifts out nothing but zeros (`roundWithAccuracy_exact`), a product is
rounded from its exact digits (`mul_exact`), and a quotient is taken with enough digits to come out
even (`div_exact`).
-/

namespace MarkovSim.Binary64

open Float.Model Float.Model.UnpackedFloat

/-- The mantissas and exponents of the finite numbers apart from zero. -/
structure Fits (m : ℕ) (e : ℤ) : Prop where
  pos : 0 < m
  lt : m < 2 ^ 53
  le_exponent : -1074 ≤ e
  exponent_le : e ≤ 971
  subnormal : m < 2 ^ 52 → e = -1074

def magnitude (m : ℕ) (e : ℤ) : ℚ := m * 2 ^ e

variable {m a b : ℕ} {e i j : ℤ}

theorem magnitude_pos (hm : 0 < m) : 0 < magnitude m e := by
  unfold magnitude
  positivity

theorem magnitude_mul (a b : ℕ) (i j : ℤ) :
    magnitude (a * b) (i + j) = magnitude a i * magnitude b j := by
  unfold magnitude
  rw [zpow_add₀ two_ne_zero]
  push_cast
  ring

theorem magnitude_shift (m k : ℕ) (e : ℤ) : magnitude (m * 2 ^ k) e = magnitude m (e + k) := by
  unfold magnitude
  rw [zpow_add₀ two_ne_zero, zpow_natCast]
  push_cast
  ring

theorem eq_of_magnitude_eq (h : magnitude a i = magnitude b i) : a = b :=
  Nat.cast_injective (mul_right_cancel₀ (zpow_ne_zero i two_ne_zero) h)

theorem eq_shift_of_magnitude_eq (h : magnitude a i = magnitude m e) (hi : i ≤ e) :
    a = m * 2 ^ (e - i).toNat := by
  have hk : i + ((e - i).toNat : ℤ) = e := by omega
  rw [← hk, ← magnitude_shift] at h
  exact eq_of_magnitude_eq h

/-! ## Leading digits -/

theorem two_pow_le_magnitude (hm : 0 < m) (e : ℤ) :
    (2 : ℚ) ^ (totalExponent m e - 1) ≤ magnitude m e := by
  have hlog : (2 : ℚ) ^ m.log2 ≤ m := by exact_mod_cast Nat.log2_self_le hm.ne'
  have hexp : totalExponent m e - 1 = (m.log2 : ℤ) + e := by unfold totalExponent; ring
  rw [hexp, zpow_add₀ two_ne_zero, zpow_natCast]
  exact mul_le_mul_of_nonneg_right hlog (by positivity)

theorem magnitude_lt_two_pow (m : ℕ) (e : ℤ) : magnitude m e < (2 : ℚ) ^ totalExponent m e := by
  have hlog : (m : ℚ) < 2 ^ (m.log2 + 1) := by exact_mod_cast Nat.lt_log2_self
  have hexp : totalExponent m e = ((m.log2 + 1 : ℕ) : ℤ) + e := rfl
  rw [hexp, zpow_add₀ two_ne_zero, zpow_natCast]
  exact mul_lt_mul_of_pos_right hlog (by positivity)

theorem totalExponent_le (ha : 0 < a) (h : magnitude a i ≤ magnitude b j) :
    totalExponent a i ≤ totalExponent b j := by
  have hpow : (2 : ℚ) ^ (totalExponent a i - 1) < 2 ^ totalExponent b j :=
    (two_pow_le_magnitude ha i).trans_lt (h.trans_lt (magnitude_lt_two_pow b j))
  have := (zpow_lt_zpow_iff_right₀ one_lt_two).1 hpow
  omega

theorem totalExponent_eq (ha : 0 < a) (hb : 0 < b) (h : magnitude a i = magnitude b j) :
    totalExponent a i = totalExponent b j :=
  le_antisymm (totalExponent_le ha h.le) (totalExponent_le hb h.ge)

theorem totalExponent_sub_le (ha : 0 < a) (h : magnitude a i = magnitude m e * magnitude b j) :
    totalExponent a i - totalExponent b j ≤ totalExponent m e := by
  have hpow : (2 : ℚ) ^ (totalExponent a i - 1) < 2 ^ (totalExponent m e + totalExponent b j) := by
    rw [zpow_add₀ two_ne_zero]
    calc (2 : ℚ) ^ (totalExponent a i - 1) ≤ magnitude m e * magnitude b j :=
          h ▸ two_pow_le_magnitude ha i
      _ < 2 ^ totalExponent m e * 2 ^ totalExponent b j :=
          mul_lt_mul'' (magnitude_lt_two_pow m e) (magnitude_lt_two_pow b j)
            (by unfold magnitude; positivity) (by unfold magnitude; positivity)
  have := (zpow_lt_zpow_iff_right₀ one_lt_two).1 hpow
  omega

theorem targetExponent_eq (t : ℤ) : Format.binary64.targetExponent t = max (t - 53) (-1074) := rfl

theorem Fits.targetExponent_eq (h : Fits m e) :
    Format.binary64.targetExponent (totalExponent m e) = e := by
  have hlt : m.log2 < 53 := (Nat.log2_lt h.pos.ne').2 h.lt
  have hge := h.le_exponent
  rw [Binary64.targetExponent_eq]
  unfold totalExponent
  by_cases hm : m < 2 ^ 52
  · have := h.subnormal hm
    have : m.log2 < 52 := (Nat.log2_lt h.pos.ne').2 hm
    omega
  · have : 52 ≤ m.log2 := (Nat.le_log2 h.pos.ne').2 (by omega)
    omega

/-! ## Rounding -/

theorem shiftRight_exact (m k : ℕ) :
    (⟨m * 2 ^ k, false, false⟩ : ExtendedMantissa) >>> k = ⟨m, false, false⟩ := by
  show k.repeat ExtendedMantissa.shiftRightOne _ = _
  induction k generalizing m with
  | zero => rw [pow_zero, mul_one]; rfl
  | succ k ih =>
    have hstep := ih (m * 2)
    rw [mul_assoc, ← pow_succ'] at hstep
    show ExtendedMantissa.shiftRightOne (k.repeat ExtendedMantissa.shiftRightOne _) = _
    rw [hstep]
    unfold ExtendedMantissa.shiftRightOne
    simp

theorem shiftToExponent_exact (m k : ℕ) (i : ℤ) :
    shiftToExponent (m * 2 ^ k) i .exact (i + k) = (⟨m, false, false⟩, i + k) := by
  have hk : (i + (k : ℤ) - i).toNat = k := by omega
  unfold shiftToExponent
  rw [hk]
  exact Prod.ext (shiftRight_exact m k) rfl

/-- A number that is given with more digits than it needs is rounded to itself. -/
theorem roundWithAccuracy_exact (h : Fits m e) (s : Sign) (hv : magnitude a i = magnitude m e)
    (hi : i ≤ e) : roundWithAccuracy Format.binary64 s a i .exact = .finite s m e h.pos := by
  obtain rfl := eq_shift_of_magnitude_eq hv hi
  have hk : i + ((e - i).toNat : ℤ) = e := by omega
  have htotal : totalExponent (m * 2 ^ (e - i).toNat) i = totalExponent m e :=
    totalExponent_eq (by have := h.pos; positivity) h.pos hv
  have hfirst := shiftToExponent_exact m (e - i).toNat i
  have hsecond := shiftToExponent_exact m 0 e
  rw [hk] at hfirst
  rw [pow_zero, mul_one, Nat.cast_zero, add_zero] at hsecond
  have hrounded : ExtendedMantissa.roundedMantissa ⟨m, false, false⟩ = m := rfl
  unfold roundWithAccuracy shiftToTargetExponent
  rw [htotal, h.targetExponent_eq, hfirst]
  dsimp only
  rw [hrounded, h.targetExponent_eq, hsecond]
  exact dif_neg h.pos.ne'

/-- Also when digits have to be added first. -/
theorem round_exact (h : Fits m e) (s : Sign) (ha : 0 < a) (hv : magnitude a i = magnitude m e) :
    UnpackedFloat.round Format.binary64 s a i = .finite s m e h.pos := by
  have htarget : Format.binary64.targetExponent (totalExponent a i) = e := by
    rw [totalExponent_eq ha h.pos hv, h.targetExponent_eq]
  unfold UnpackedFloat.round decreaseExponent
  rw [htarget]
  refine roundWithAccuracy_exact h s ?_ (by omega)
  rw [Nat.shiftLeft_eq, magnitude_shift, sub_add_cancel, hv]

/-! ## Multiplying and dividing -/

theorem mul_exact (h : Fits m e) (ha : 0 < a) (hb : 0 < b)
    (hv : magnitude a i * magnitude b j = magnitude m e) (hij : i + j ≤ e) :
    UnpackedFloat.mul Format.binary64 (.finite .positive a i ha) (.finite .positive b j hb) =
      .finite .positive m e h.pos :=
  roundWithAccuracy_exact h .positive ((magnitude_mul a b i j).trans hv) hij

/-- With the exponent that `divCore` chooses, a quotient that fits comes out even. -/
theorem divCore_exact (h : Fits m e) (ha : 0 < a) (hb : 0 < b)
    (hv : magnitude a i = magnitude m e * magnitude b j) :
    ∃ t ≤ e, divCore Format.binary64 a i b j = (m * 2 ^ (e - t).toNat, t, .exact) := by
  have htarget : Format.binary64.targetExponent (totalExponent a i - totalExponent b j) ≤ e := by
    have hsub := totalExponent_sub_le ha hv
    have htotal := h.targetExponent_eq
    rw [targetExponent_eq] at htotal ⊢
    omega
  refine ⟨min (i - j) (Format.binary64.targetExponent (totalExponent a i - totalExponent b j)),
    (min_le_right _ _).trans htarget, ?_⟩
  generalize ht : min (i - j) (Format.binary64.targetExponent
    (totalExponent a i - totalExponent b j)) = t
  have hte : t ≤ e := ht ▸ (min_le_right _ _).trans htarget
  have htij : t ≤ i - j := ht ▸ min_le_left _ _
  -- The shifted dividend is the divisor times the quotient.
  have hdividend : a <<< (i - j - t).toNat = b * (m * 2 ^ (e - t).toNat) := by
    refine eq_of_magnitude_eq (i := j + t) ?_
    rw [Nat.shiftLeft_eq, magnitude_shift, magnitude_mul, magnitude_shift,
      show j + t + ((i - j - t).toNat : ℤ) = i by omega,
      show t + ((e - t).toNat : ℤ) = e by omega, hv, mul_comm]
  unfold divCore
  rw [ht]
  dsimp only
  rw [hdividend, Nat.mul_div_cancel_left _ hb, Nat.mul_mod_right]
  rfl

theorem div_exact (h : Fits m e) (ha : 0 < a) (hb : 0 < b)
    (hv : magnitude a i = magnitude m e * magnitude b j) :
    UnpackedFloat.div Format.binary64 (.finite .positive a i ha) (.finite .positive b j hb) =
      .finite .positive m e h.pos := by
  obtain ⟨t, hte, hcore⟩ := divCore_exact h ha hb hv
  unfold UnpackedFloat.div
  dsimp only
  rw [hcore]
  refine roundWithAccuracy_exact h .positive ?_ hte
  rw [magnitude_shift, show t + ((e - t).toNat : ℤ) = e by omega]

end MarkovSim.Binary64
