import MarkovSim.Proofs.Binary64.Sum

/-!
# Sums that are too large

From halfway between the largest finite number and the next power of two on, an exact number is rounded up
to that power, and no finite number is as large. So the sum of two finite numbers, whatever their signs,
is finite exactly when the exact sum stays between that point and its negative (`isFinite_add_iff`).
-/

namespace MarkovSim.Binary64

open Float.Model Float.Model.UnpackedFloat

variable {a m : ℕ} {e i : ℤ} {v : ℚ} {x y : Float}

/-- Halfway between the largest finite number, `2 ^ 1024 - 2 ^ 971`, and `2 ^ 1024`. -/
def ceiling : ℚ := magnitude (2 ^ 54 - 1) 970

theorem ceiling_pos : 0 < ceiling := magnitude_pos (by norm_num)

/-! ## Rounding up to an infinity -/

theorem magnitude_le_exponent (h : i ≤ e) (m : ℕ) : magnitude m i ≤ magnitude m e := by
  unfold magnitude
  exact mul_le_mul_of_nonneg_left (zpow_le_zpow_right₀ one_le_two h) (Nat.cast_nonneg m)

theorem Rounded.exponent_le_iff (h : Rounded v m e) : e ≤ 971 ↔ v < ceiling := by
  obtain ⟨t, r, hdigit, hnearest, hcarried⟩ := h
  rcases lt_trichotomy t 971 with ht | rfl | ht
  · have hle : magnitude (2 ^ 53) t ≤ ceiling :=
      (magnitude_le_exponent (by omega) _).trans (magnitude_mono (by norm_num) 970)
    refine iff_of_true ?_ (hdigit.lt.trans_le hle)
    cases hcarried <;> omega
  · -- The numbers near `v` are multiples of the last digit, so `v` is carried over from half a digit below
    -- the first power of two with a digit too many.
    have hcarry : 2 ^ 53 ≤ r ↔ ceiling ≤ v := by
      have hdouble : magnitude (2 * 2 ^ 53) 971 = 2 * ceiling + magnitude 1 971 := by
        have hstep : (2 : ℚ) ^ (971 : ℤ) = 2 ^ (970 : ℤ) * 2 := zpow_add_one₀ two_ne_zero 970
        unfold ceiling magnitude
        rw [hstep]
        generalize (2 : ℚ) ^ (970 : ℤ) = p
        push_cast
        ring
      rw [hnearest.even _ (by norm_num), hdouble, add_le_add_iff_right,
        mul_le_mul_iff_right₀ two_pos]
    rw [← not_le, ← hcarry]
    cases hcarried <;> omega
  · have hle : ceiling ≤ v := by
      calc ceiling ≤ magnitude (2 ^ 52 * 2 ^ 2) 970 := magnitude_mono (by norm_num) 970
        _ = magnitude (2 ^ 52) 972 := magnitude_shift _ _ _
        _ ≤ magnitude (2 ^ 52) t := magnitude_le_exponent (by omega) _
        _ ≤ v := hdigit.full (by omega)
    refine iff_of_false ?_ (not_lt.2 hle)
    cases hcarried <;> omega

theorem isFinite_round (s : Sign) (ha : 0 < a) :
    (Float.ofModel (.pack (UnpackedFloat.round Format.binary64 s a i))).isFinite = true ↔
      magnitude a i < ceiling := by
  obtain ⟨m, e, hrounded, hround⟩ := round_rounded (i := i) s ha
  rw [hround, ← hrounded.exponent_le_iff]
  rcases Nat.eq_zero_or_pos m with rfl | hm
  · have he : e = -1074 := hrounded.rounds.subnormal (by norm_num)
    rw [dif_pos rfl]
    refine iff_of_true ?_ (by omega)
    cases s <;> decide +kernel
  · rw [dif_neg hm.ne']
    exact ⟨exponent_le_of_isFinite hm, fun he => isFinite_pack (hrounded.rounds.fits hm he) s⟩

/-! ## Adding numbers of any signs -/

theorem isFinite_normalize (z i : ℤ) :
    (Float.ofModel (.pack (UnpackedFloat.normalize Format.binary64 z i .positive))).isFinite = true ↔
      |(z : ℚ) * 2 ^ i| < ceiling := by
  have habs : |(z : ℚ) * 2 ^ i| = magnitude z.natAbs i := by
    unfold magnitude
    rw [abs_mul, abs_of_pos (zpow_pos two_pos i : (0 : ℚ) < 2 ^ i), Nat.cast_natAbs, Int.cast_abs]
  rw [habs]
  unfold UnpackedFloat.normalize
  rcases lt_trichotomy z 0 with hz | rfl | hz
  · rw [Int.compare_eq_lt.2 hz, show z.natAbs = (-z).toNat by omega]
    exact isFinite_round .negative (by omega)
  · have hfin : (Float.ofModel (.pack (.zero .positive))).isFinite = true := by decide +kernel
    have hzero : magnitude 0 i = 0 := by simp [magnitude]
    exact iff_of_true hfin (hzero.trans_lt ceiling_pos)
  · rw [Int.compare_eq_gt.2 hz, show z.natAbs = z.toNat by omega]
    exact isFinite_round .positive (by omega)

theorem abs_value_lt (hx : x.isFinite = true) : |value x| < ceiling := by
  unfold value
  rcases unpack_eq hx with ⟨-, hunpack⟩ | ⟨hfits, hunpack⟩
  · rw [hunpack]
    exact abs_zero.trans_lt ceiling_pos
  · have hlt : magnitude (Decimal.mantissa x).1 (Decimal.mantissa x).2 < ceiling := by
      calc magnitude (Decimal.mantissa x).1 (Decimal.mantissa x).2
          ≤ magnitude (2 ^ 53 - 1) (Decimal.mantissa x).2 :=
            magnitude_mono (Nat.le_sub_one_of_lt hfits.lt) _
        _ ≤ magnitude (2 ^ 53 - 1) (970 + (1 : ℕ)) := magnitude_le_exponent hfits.exponent_le _
        _ = magnitude ((2 ^ 53 - 1) * 2 ^ 1) 970 := (magnitude_shift _ 1 970).symm
        _ < ceiling := magnitude_lt_iff.2 (by norm_num)
    rw [hunpack]
    cases signOf x with
    | positive => exact (abs_of_pos (magnitude_pos hfits.pos)).trans_lt hlt
    | negative =>
      show |-magnitude _ _| < ceiling
      rwa [abs_neg, abs_of_pos (magnitude_pos hfits.pos)]

/-- The sum of two finite numbers is finite exactly when the exact sum is below the ceiling. -/
theorem isFinite_add_iff (hx : x.isFinite = true) (hy : y.isFinite = true) :
    (x + y).isFinite = true ↔ |value x + value y| < ceiling := by
  have hlt := abs_value_lt hx
  have hlt' := abs_value_lt hy
  have hzero (t : Sign) : amount (.zero t) = 0 := rfl
  rw [unpack_add]
  unfold value at hlt hlt' ⊢
  rcases unpack_eq hx with ⟨-, hux⟩ | ⟨h, hux⟩
  · rcases unpack_eq hy with ⟨-, huy⟩ | ⟨h', huy⟩
    · rw [hux, huy, hzero, hzero, add_zero, abs_zero]
      refine iff_of_true ?_ ceiling_pos
      cases signOf x <;> cases signOf y <;> decide +kernel
    · have hadd : UnpackedFloat.add Format.binary64 x.toModel.unpack y.toModel.unpack =
          y.toModel.unpack := by
        rw [hux, huy]
        rfl
      rw [hadd, pack_unpack hy, hux, hzero, zero_add]
      exact iff_of_true hy hlt'
  · rcases unpack_eq hy with ⟨-, huy⟩ | ⟨h', huy⟩
    · have hadd : UnpackedFloat.add Format.binary64 x.toModel.unpack y.toModel.unpack =
          x.toModel.unpack := by
        rw [hux, huy]
        rfl
      rw [hadd, pack_unpack hx, huy, hzero, add_zero]
      exact iff_of_true hx hlt
    · rw [hux, huy]
      obtain ⟨z, i, hsum, hadd⟩ := add_signed (signOf x) (signOf y) _ _ h.pos h'.pos
      rw [hadd, isFinite_normalize, hsum]

end MarkovSim.Binary64
