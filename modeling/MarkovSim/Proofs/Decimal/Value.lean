import MarkovSim.Proofs.Binary64.Scientific

/-!
# What decimals are worth

A decimal stands for `digits · 10 ^ exponent` (`Decimal.value`), and how it is read depends on that
alone (`toFloat_congr`), since decimals without trailing zeros are equal when their values are. A decimal
whose value is that of a binary64 number is read as that number (`toFloat_exact`), whichever way is taken:
both the power of ten and the product or quotient come out without rounding. So the decimal that
`Decimal.shortest` takes is read back as the number it was made from (`toFloat_shortest`): it was tried,
or else it has all digits of the exact value.
-/

namespace MarkovSim

namespace Decimal

def value (d : Decimal) : ℚ := d.digits * 10 ^ d.exponent

/-! ## Trailing zeros -/

theorem value_shift (m k : ℕ) (e : ℤ) : value ⟨m * 10 ^ k, e⟩ = value ⟨m, e + k⟩ := by
  have hten : (10 : ℚ) ≠ 0 := by norm_num
  unfold value
  rw [zpow_add₀ hten, zpow_natCast]
  push_cast
  ring

theorem value_pos {d : Decimal} (h : 0 < d.digits) : 0 < d.value := by
  unfold value
  positivity

theorem eq_shift_of_value_eq {a b : ℕ} {i j : ℤ} (h : value ⟨a, i⟩ = value ⟨b, j⟩) (hij : i ≤ j) :
    a = b * 10 ^ (j - i).toNat := by
  have hk : i + ((j - i).toNat : ℤ) = j := by omega
  rw [← hk, ← value_shift] at h
  exact Nat.cast_injective (mul_right_cancel₀ (zpow_ne_zero i (by norm_num)) h)

theorem dropZeros_spec {fuel m : ℕ} (e : ℤ) (hm : 0 < m) (hf : m ≤ fuel) :
    (dropZeros fuel m e).value = value ⟨m, e⟩ ∧ ¬ 10 ∣ (dropZeros fuel m e).digits := by
  induction fuel generalizing m e with
  | zero => omega
  | succ fuel ih =>
    unfold dropZeros
    by_cases hten : m % 10 = 0
    · rw [if_pos hten]
      obtain ⟨hvalue, hdigits⟩ := ih (m := m / 10) (e + 1) (by omega) (by omega)
      refine ⟨hvalue.trans ?_, hdigits⟩
      have hshift := value_shift (m / 10) 1 e
      rw [pow_one, Nat.div_mul_cancel (Nat.dvd_of_mod_eq_zero hten)] at hshift
      exact hshift.symm
    · rw [if_neg hten]
      exact ⟨rfl, fun h => hten (Nat.mod_eq_zero_of_dvd h)⟩

theorem normal_spec {d : Decimal} (h : 0 < d.digits) :
    d.normal.value = d.value ∧ ¬ 10 ∣ d.normal.digits := by
  unfold normal
  rw [if_neg h.ne']
  exact dropZeros_spec d.exponent h le_rfl

theorem eq_of_value_eq {c d : Decimal} (hc : ¬ 10 ∣ c.digits) (hd : ¬ 10 ∣ d.digits)
    (h : c.value = d.value) : c = d := by
  wlog hle : c.exponent ≤ d.exponent generalizing c d
  · exact (this hd hc h.symm (by omega)).symm
  have hshift := eq_shift_of_value_eq h hle
  obtain hexp : (d.exponent - c.exponent).toNat = 0 := by
    by_contra hne
    exact hc (hshift ▸ Dvd.dvd.mul_left (dvd_pow_self 10 hne) _)
  rw [hexp, pow_zero, mul_one] at hshift
  obtain ⟨a, i⟩ := c
  obtain ⟨b, j⟩ := d
  dsimp only at hshift hexp hle
  rw [hshift, show i = j by omega]

theorem digits_pos_iff {d : Decimal} : 0 < d.digits ↔ d.value ≠ 0 := by
  refine ⟨fun h => (value_pos h).ne', fun h => Nat.pos_of_ne_zero fun hzero => h ?_⟩
  unfold value
  rw [hzero, Nat.cast_zero, zero_mul]

theorem normal_congr {c d : Decimal} (h : c.value = d.value) : c.normal = d.normal := by
  by_cases hc : 0 < c.digits
  · have hd : 0 < d.digits := digits_pos_iff.2 (h ▸ digits_pos_iff.1 hc)
    obtain ⟨hcv, hcd⟩ := normal_spec hc
    obtain ⟨hdv, hdd⟩ := normal_spec hd
    exact eq_of_value_eq hcd hdd (by rw [hcv, hdv, h])
  · have hd : ¬ 0 < d.digits := fun hd => hc (digits_pos_iff.2 (h ▸ digits_pos_iff.1 hd))
    unfold normal
    rw [if_pos (by omega), if_pos (by omega)]

theorem toFloat_congr {c d : Decimal} (h : c.value = d.value) : c.toFloat = d.toFloat := by
  unfold toFloat
  rw [normal_congr h]

theorem toFloat_of_zero {d : Decimal} (h : d.digits = 0) : d.toFloat = 0.0 := by
  have hn : d.normal = ⟨0, 0⟩ := if_pos h
  unfold toFloat
  dsimp only
  rw [hn, if_pos rfl]

/-! ## The number of digits -/

theorem lt_pow_width (n : ℕ) : n < 10 ^ width n :=
  (Nat.length_toDigits_le_iff (by norm_num) Nat.length_toDigits_pos).1 le_rfl

theorem pow_width_le {n : ℕ} (hn : 0 < n) : 10 ^ (width n - 1) ≤ n := by
  by_cases hone : width n = 1
  · rw [hone]
    exact hn
  · have hpos : 0 < width n := Nat.length_toDigits_pos
    by_contra hlt
    have hle := (Nat.length_toDigits_le_iff (b := 10) (n := n) (k := width n - 1) (by norm_num)
      (by omega)).2 (by omega)
    unfold width at *
    omega

theorem width_le_log2 (n : ℕ) : width n ≤ n.log2 + 1 := by
  refine (Nat.length_toDigits_le_iff (by norm_num) (by omega)).2 ?_
  calc n < 2 ^ (n.log2 + 1) := Nat.lt_log2_self
    _ ≤ 10 ^ (n.log2 + 1) := Nat.pow_le_pow_left (by norm_num) _

theorem value_lt_pow (d : Decimal) : d.value < (10 : ℚ) ^ ((width d.digits : ℤ) + d.exponent) := by
  have hlt : (d.digits : ℚ) < 10 ^ width d.digits := by exact_mod_cast lt_pow_width d.digits
  unfold value
  rw [zpow_add₀ (by norm_num), zpow_natCast]
  exact mul_lt_mul_of_pos_right hlt (by positivity)

theorem pow_le_value {d : Decimal} (h : 0 < d.digits) :
    (10 : ℚ) ^ ((width d.digits : ℤ) + d.exponent - 1) ≤ d.value := by
  have hle : (10 : ℚ) ^ (width d.digits - 1) ≤ d.digits := by exact_mod_cast pow_width_le h
  have hpos : 0 < width d.digits := Nat.length_toDigits_pos
  rw [show (width d.digits : ℤ) + d.exponent - 1 = ((width d.digits - 1 : ℕ) : ℤ) + d.exponent by omega]
  unfold value
  rw [zpow_add₀ (by norm_num), zpow_natCast]
  exact mul_le_mul_of_nonneg_right hle (by positivity)

/-! ## Reading -/

open Binary64

theorem magnitude_lt_ten_pow {m : ℕ} {e : ℤ} (h : Fits m e) :
    magnitude m e < (10 : ℚ) ^ ((309 : ℕ) : ℤ) := by
  have hm : (m : ℚ) < 2 ^ 53 := by exact_mod_cast h.lt
  have he : (2 : ℚ) ^ e ≤ 2 ^ ((971 : ℕ) : ℤ) := zpow_le_zpow_right₀ one_le_two h.exponent_le
  have hbound : ((2 ^ 53 * 2 ^ 971 : ℕ) : ℚ) < ((10 ^ 309 : ℕ) : ℚ) :=
    Nat.cast_lt.2 (by decide +kernel)
  rw [zpow_natCast] at he ⊢
  simp only [Nat.cast_mul, Nat.cast_pow, Nat.cast_ofNat] at hbound
  calc magnitude m e ≤ m * 2 ^ 971 := mul_le_mul_of_nonneg_left he (Nat.cast_nonneg m)
    _ < 2 ^ 53 * 2 ^ 971 := mul_lt_mul_of_pos_right hm (pow_pos two_pos 971)
    _ < 10 ^ 309 := hbound

theorem ten_pow_lt_magnitude {m : ℕ} {e : ℤ} (h : Fits m e) :
    (10 : ℚ) ^ (-((330 : ℕ) : ℤ)) < magnitude m e := by
  have hm : (1 : ℚ) ≤ m := by exact_mod_cast h.pos
  have he : (2 : ℚ) ^ (-((1074 : ℕ) : ℤ)) ≤ 2 ^ e := zpow_le_zpow_right₀ one_le_two h.le_exponent
  have hbound : ((2 ^ 1074 : ℕ) : ℚ) < ((10 ^ 330 : ℕ) : ℚ) := Nat.cast_lt.2 (by decide +kernel)
  rw [zpow_neg, zpow_natCast] at he ⊢
  simp only [Nat.cast_pow, Nat.cast_ofNat] at hbound
  calc ((10 : ℚ) ^ 330)⁻¹ < (2 ^ 1074)⁻¹ := inv_strictAnti₀ (by positivity) hbound
    _ ≤ 2 ^ e := he
    _ ≤ magnitude m e := le_mul_of_one_le_left (by positivity) hm

/-- The bounds that spare huge powers of ten leave out no binary64 number. -/
theorem order_of_fits {d : Decimal} {m : ℕ} {e : ℤ} (hd : 0 < d.digits) (h : Fits m e)
    (hv : d.value = magnitude m e) :
    (width d.digits : ℤ) + d.exponent ≤ 310 ∧ -330 ≤ (width d.digits : ℤ) + d.exponent := by
  have hupper := (pow_le_value hd).trans_lt (hv ▸ magnitude_lt_ten_pow h)
  have hlower := (hv ▸ ten_pow_lt_magnitude h).trans (value_lt_pow d)
  rw [zpow_lt_zpow_iff_right₀ (by norm_num)] at hupper hlower
  omega

/-- A decimal that is worth a binary64 number is read as that number. -/
theorem toFloat_exact {d : Decimal} {m : ℕ} {e : ℤ} (h : Fits m e) (hv : d.value = magnitude m e) :
    d.toFloat = .ofModel (.pack (.finite .positive m e h.pos)) := by
  have hd : 0 < d.digits := digits_pos_iff.2 (by rw [hv]; exact (magnitude_pos h.pos).ne')
  obtain ⟨hnormal, -⟩ := normal_spec hd
  unfold toFloat
  generalize d.normal = n at hnormal
  rw [hv] at hnormal
  have hn : 0 < n.digits := digits_pos_iff.2 (by rw [hnormal]; exact (magnitude_pos h.pos).ne')
  obtain ⟨hhigh, hlow⟩ := order_of_fits hn h hnormal
  have hwidth := width_le_log2 n.digits
  dsimp only
  rw [if_neg hn.ne', if_neg (by omega), if_neg (by omega)]
  unfold value at hnormal
  cases hexp : n.exponent with
  | ofNat k =>
    rw [hexp] at hnormal hhigh
    rw [Int.ofNat_eq_natCast] at hhigh
    exact ofScientific_mul hn (by omega) h (by rw [← hnormal]; rfl)
  | negSucc k =>
    rw [hexp] at hnormal hlow
    refine ofScientific_div hn (by omega) (by omega) h ?_
    rw [← hnormal, zpow_negSucc, inv_mul_cancel_right₀ (by positivity)]

/-! ## The shortest decimal -/

theorem normal_value (d : Decimal) : d.normal.value = d.value := by
  by_cases hd : 0 < d.digits
  · exact (normal_spec hd).1
  · have hzero : d.digits = 0 := by omega
    unfold normal value
    rw [if_pos hzero, hzero, Nat.cast_zero, zero_mul, zero_mul]

theorem value_exact (x : Float) : (exact x).value = magnitude (mantissa x).1 (mantissa x).2 := by
  unfold exact
  obtain ⟨m, e⟩ := mantissa x
  cases e with
  | ofNat q =>
    rw [normal_value]
    show ((m * 2 ^ q : ℕ) : ℚ) * 10 ^ (0 : ℤ) = magnitude m (q : ℤ)
    unfold magnitude
    rw [zpow_zero, mul_one, zpow_natCast]
    push_cast
    rfl
  | negSucc q =>
    rw [normal_value]
    show ((m * 5 ^ (q + 1) : ℕ) : ℚ) * 10 ^ (Int.negSucc q) = magnitude m (Int.negSucc q)
    have hten : (10 : ℚ) ^ (q + 1) = 5 ^ (q + 1) * 2 ^ (q + 1) := by rw [← mul_pow]; norm_num
    unfold magnitude
    rw [zpow_negSucc, zpow_negSucc, hten]
    push_cast
    rw [mul_inv, mul_assoc, mul_inv_cancel_left₀ (by positivity)]

theorem readsAs_iff {x : Float} {d : Decimal} : readsAs x d = true ↔ d.toFloat = x := by
  unfold readsAs
  rw [beq_iff_eq]
  exact ⟨fun h => eq_of_toNat_toBits (congrArg UInt64.toNat h), fun h => congrArg Float.toBits h⟩

theorem toFloat_of_withDigits? {half : HalfRule} {x : Float} {k : ℤ} {n : ℕ} {d : Decimal}
    (h : withDigits? half x k n = some d) : d.toFloat = x := by
  unfold withDigits? at h
  exact readsAs_iff.1 (List.find?_some h)

/-- The decimal that is taken for a positive number is read as that number. -/
theorem toFloat_shortest {x : Float} (hx : x.isFinite = true) (hs : signOf x = .positive)
    (hpos : (mantissa x).1 ≠ 0) (half : HalfRule) : (shortest half x).toFloat = x := by
  unfold shortest
  dsimp only
  cases htried : (List.range' 1 17).findSome? (withDigits? half x (order (ratio x))) with
  | some d =>
    obtain ⟨n, -, hn⟩ := List.exists_of_findSome?_eq_some htried
    exact toFloat_of_withDigits? hn
  | none =>
    rcases unpack_eq hx with ⟨hzero, -⟩ | ⟨h, hunpack⟩
    · exact absurd hzero hpos
    · rw [hs] at hunpack
      rw [Option.getD_none, toFloat_exact h (value_exact x), ← hunpack, pack_unpack hx]

theorem toFloat_spelled {x : Float} (hx : x.isFinite = true) (half : HalfRule) :
    (if x.abs.toBits = 0 then ⟨0, 0⟩ else shortest half x.abs : Decimal).toFloat = x.abs := by
  obtain ⟨hfin, hs⟩ := abs_spec hx
  by_cases hzero : x.abs.toBits = 0
  · rw [if_pos hzero]
    refine eq_of_toNat_toBits ?_
    rw [hzero]
    rfl
  · rw [if_neg hzero]
    refine toFloat_shortest hfin hs (fun hm => hzero ?_) half
    rcases unpack_eq hfin with ⟨-, hunpack⟩ | ⟨h, -⟩
    · rw [← pack_unpack hfin, hunpack, hs]
      rfl
    · exact absurd hm h.pos.ne'

end Decimal

end MarkovSim
