import MarkovSim.Proofs.Binary64.Bits

/-!
# Decimal literals that are binary64 numbers

`Float.ofScientific` reads `a · 10 ^ k` or `a / 10 ^ k`. Small literals are multiplied or divided as
numbers, which is exact because both factors are (`unpack_ofNat`), and all others by their digits. In
either way a literal that stands for a binary64 number is read as that number (`ofScientific_mul`,
`ofScientific_div`).
-/

namespace MarkovSim.Binary64

open Float.Model Float.Model.UnpackedFloat

variable {m a b k : ℕ} {e i j : ℤ}

theorem magnitude_zero (a : ℕ) : magnitude a 0 = a := by
  unfold magnitude
  rw [zpow_zero, mul_one]

/-- A whole number with a short odd part has a full mantissa. -/
theorem exists_fits (ha : 0 < a) (hlt : a < 2 ^ 53) (hk : k ≤ 900) :
    ∃ m e, Fits m e ∧ 2 ^ 52 ≤ m ∧ magnitude (a * 2 ^ k) 0 = magnitude m e := by
  have hlog : a.log2 < 53 := (Nat.log2_lt ha.ne').2 hlt
  have hlow := Nat.log2_self_le ha.ne'
  have hhigh := @Nat.lt_log2_self a
  have hpow : 2 ^ a.log2 * 2 ^ (52 - a.log2) = 2 ^ 52 := by
    rw [← pow_add]
    congr 1
    omega
  have hge : 2 ^ 52 ≤ a * 2 ^ (52 - a.log2) := by
    rw [← hpow]
    exact Nat.mul_le_mul_right _ hlow
  refine ⟨a * 2 ^ (52 - a.log2), (k : ℤ) - (52 - a.log2 : ℕ), ⟨?_, ?_, ?_, ?_, ?_⟩, hge, ?_⟩
  · positivity
  · calc a * 2 ^ (52 - a.log2) < 2 ^ (a.log2 + 1) * 2 ^ (52 - a.log2) :=
          Nat.mul_lt_mul_of_pos_right hhigh (by positivity)
      _ = 2 ^ 53 := by rw [pow_succ, mul_right_comm, hpow]; norm_num
  · omega
  · omega
  · omega
  · rw [magnitude_shift, magnitude_shift]
    congr 1
    omega

theorem unpack_ofNat (ha : 0 < a) (h : Fits m e) (hv : magnitude a 0 = magnitude m e) :
    (Float.Model.ofNat a).unpack = .finite .positive m e h.pos := by
  have hround : UnpackedFloat.ofNat Format.binary64 a = .finite .positive m e h.pos := by
    unfold UnpackedFloat.ofNat UnpackedFloat.ofInt UnpackedFloat.normalize
    rw [Int.compare_eq_gt.2 (by omega)]
    exact round_exact h .positive ha hv
  unfold Float.Model.ofNat
  rw [hround, unpack_pack h]

theorem toFloat_toUInt64 (ha : a < 2 ^ 53) :
    a.toUInt64.toFloat = .ofModel (Float.Model.ofNat a) := by
  have hnat : a.toUInt64.toNat = a := by
    rw [Nat.toUInt64_eq, UInt64.toNat_ofNat']
    omega
  show Float.ofModel (Float.Model.ofNat a.toUInt64.toNat) = _
  rw [hnat]

theorem powersOfTen_eq (hk : k ≤ 22)
    (hsize : k < Float.exactlyRepresentablePowersOfTen.size) :
    Float.exactlyRepresentablePowersOfTen[k] = .ofModel (Float.Model.ofNat (10 ^ k)) := by
  have htable : ∀ k : Fin 23, (Float.exactlyRepresentablePowersOfTen[k.1]?.map Float.toBits) =
      some (Float.ofModel (Float.Model.ofNat (10 ^ k.1))).toBits := by
    decide +kernel
  have hentry := htable ⟨k, by omega⟩
  dsimp only at hentry
  rw [Array.getElem?_eq_getElem hsize, Option.map_some] at hentry
  exact eq_of_toNat_toBits (congrArg UInt64.toNat (Option.some.inj hentry))

/-! ## Small literals -/

section Small

variable (ha : 0 < a) (hlt : a < 2 ^ 53) (hk : k ≤ 22) (h : Fits m e)
include ha hlt hk

theorem exists_unpack_small :
    ∃ m₁ e₁ m₂ e₂, ∃ (h₁ : Fits m₁ e₁) (h₂ : Fits m₂ e₂), 2 ^ 52 ≤ m₁ ∧ 2 ^ 52 ≤ m₂ ∧
      magnitude a 0 = magnitude m₁ e₁ ∧ magnitude (10 ^ k) 0 = magnitude m₂ e₂ ∧
      (Float.Model.ofNat a).unpack = .finite .positive m₁ e₁ h₁.pos ∧
      (Float.Model.ofNat (10 ^ k)).unpack = .finite .positive m₂ e₂ h₂.pos := by
  have hfive : 5 ^ k < 2 ^ 53 :=
    (Nat.pow_le_pow_right (by norm_num) hk).trans_lt (by norm_num : 5 ^ 22 < 2 ^ 53)
  obtain ⟨m₁, e₁, h₁, hfull₁, hv₁⟩ := exists_fits ha hlt (k := 0) (by norm_num)
  obtain ⟨m₂, e₂, h₂, hfull₂, hv₂⟩ := exists_fits (a := 5 ^ k) (by positivity) hfive (k := k) (by omega)
  rw [pow_zero, mul_one] at hv₁
  rw [← mul_pow] at hv₂
  exact ⟨m₁, e₁, m₂, e₂, h₁, h₂, hfull₁, hfull₂, hv₁, hv₂, unpack_ofNat ha h₁ hv₁,
    unpack_ofNat (by positivity) h₂ hv₂⟩

theorem mul_small (hv : (a : ℚ) * 10 ^ k = magnitude m e) :
    UnpackedFloat.mul Format.binary64 (Float.Model.ofNat a).unpack (Float.Model.ofNat (10 ^ k)).unpack =
      .finite .positive m e h.pos := by
  obtain ⟨m₁, e₁, m₂, e₂, h₁, h₂, hfull₁, hfull₂, hv₁, hv₂, hu₁, hu₂⟩ :=
    exists_unpack_small ha hlt hk
  have hprod : magnitude m₁ e₁ * magnitude m₂ e₂ = magnitude m e := by
    rw [← hv₁, ← hv₂, magnitude_zero, magnitude_zero, ← hv]
    push_cast
    ring
  rw [hu₁, hu₂]
  refine mul_exact h h₁.pos h₂.pos hprod ?_
  -- The product of two full mantissas has more digits than one mantissa.
  by_contra hlarge
  have hshift := eq_shift_of_magnitude_eq (hprod.symm.trans (magnitude_mul m₁ m₂ e₁ e₂).symm)
    (by omega)
  have hmul : 2 ^ 52 * 2 ^ 52 ≤ m₁ * m₂ := Nat.mul_le_mul hfull₁ hfull₂
  have hpow : m₁ * m₂ ≤ m := by
    rw [hshift]
    exact Nat.le_mul_of_pos_right _ (by positivity)
  have := h.lt
  omega

theorem div_small (hv : (a : ℚ) = magnitude m e * 10 ^ k) :
    UnpackedFloat.div Format.binary64 (Float.Model.ofNat a).unpack (Float.Model.ofNat (10 ^ k)).unpack =
      .finite .positive m e h.pos := by
  obtain ⟨m₁, e₁, m₂, e₂, h₁, h₂, -, -, hv₁, hv₂, hu₁, hu₂⟩ := exists_unpack_small ha hlt hk
  rw [hu₁, hu₂]
  refine div_exact h h₁.pos h₂.pos ?_
  rw [← hv₁, ← hv₂, magnitude_zero, magnitude_zero, hv]
  push_cast
  ring

end Small

/-! ## All others -/

theorem Fits.neg_le_exponent (h : Fits m e) (ha : 0 < a) (hv : (a : ℚ) = magnitude m e) :
    -53 ≤ e := by
  by_contra hlow
  rw [← magnitude_zero] at hv
  have hshift := eq_shift_of_magnitude_eq hv.symm (by omega)
  have hpow : 2 ^ 53 ≤ m := by
    rw [hshift]
    calc 2 ^ 53 ≤ 2 ^ (0 - e).toNat := Nat.pow_le_pow_right (by norm_num) (by omega)
      _ ≤ a * 2 ^ (0 - e).toNat := Nat.le_mul_of_pos_left _ ha
  have := h.lt
  omega

theorem ofScientific_large (ha : 0 < a) (hk : k ≤ 2048) (h : Fits m e)
    (hv : (a : ℚ) * 10 ^ k = magnitude m e) :
    UnpackedFloat.ofScientific Format.binary64 a (k : ℤ) = .finite .positive m e h.pos := by
  unfold UnpackedFloat.ofScientific
  rw [dif_neg ha.ne', if_neg (show ¬ (k : ℤ) > 2 ^ 11 by omega),
    if_neg (show ¬ (k : ℤ) < -((2 : ℤ) ^ 11 + a.log2) by omega), if_pos (by omega)]
  refine mul_exact h _ _ ?_ ?_
  · rw [Nat.shiftLeft_eq, magnitude_shift, neg_add_cancel, magnitude_zero, magnitude_zero,
      Int.toNat_natCast, ← hv]
    push_cast
    rfl
  · have hlow := h.neg_le_exponent (a := a * 10 ^ k) (by positivity) (by rw [← hv]; push_cast; rfl)
    rw [add_zero]
    exact hlow

theorem ofScientific_small (ha : 0 < a) (hk : 0 < k) (hle : k ≤ 2048 + a.log2) (h : Fits m e)
    (hv : (a : ℚ) = magnitude m e * 10 ^ k) :
    UnpackedFloat.ofScientific Format.binary64 a (-(k : ℤ)) = .finite .positive m e h.pos := by
  unfold UnpackedFloat.ofScientific
  rw [dif_neg ha.ne', if_neg (show ¬ -(k : ℤ) > 2 ^ 11 by omega),
    if_neg (show ¬ -(k : ℤ) < -((2 : ℤ) ^ 11 + a.log2) by omega), if_neg (by omega)]
  refine div_exact h _ _ ?_
  rw [magnitude_zero, magnitude_zero, hv, neg_neg, Int.toNat_natCast]
  push_cast
  rfl

/-! ## Literals -/

/-- A literal without a fraction that stands for a binary64 number is read as that number. -/
theorem ofScientific_mul (ha : 0 < a) (hk : k ≤ 2048) (h : Fits m e)
    (hv : (a : ℚ) * 10 ^ k = magnitude m e) :
    Float.ofScientific a false k = .ofModel (.pack (.finite .positive m e h.pos)) := by
  unfold Float.ofScientific
  by_cases hsmall : a < 2 ^ 53 ∧ k ≤ 22
  · rw [dif_pos hsmall]
    dsimp only
    rw [toFloat_toUInt64 hsmall.1, powersOfTen_eq hsmall.2]
    exact congrArg (fun u => Float.ofModel (.pack u)) (mul_small ha hsmall.1 hsmall.2 h hv)
  · rw [dif_neg hsmall]
    exact congrArg (fun u => Float.ofModel (.pack u)) (ofScientific_large ha hk h hv)

/-- So is one with a fraction. -/
theorem ofScientific_div (ha : 0 < a) (hpos : 0 < k) (hk : k ≤ 2048 + a.log2) (h : Fits m e)
    (hv : (a : ℚ) = magnitude m e * 10 ^ k) :
    Float.ofScientific a true k = .ofModel (.pack (.finite .positive m e h.pos)) := by
  unfold Float.ofScientific
  by_cases hsmall : a < 2 ^ 53 ∧ k ≤ 22
  · rw [dif_pos hsmall]
    dsimp only
    rw [toFloat_toUInt64 hsmall.1, powersOfTen_eq hsmall.2]
    exact congrArg (fun u => Float.ofModel (.pack u)) (div_small ha hsmall.1 hsmall.2 h hv)
  · rw [dif_neg hsmall]
    dsimp only
    rw [if_pos rfl, Int.negOfNat_eq]
    exact congrArg (fun u => Float.ofModel (.pack u)) (ofScientific_small ha hpos hk h hv)

end MarkovSim.Binary64
