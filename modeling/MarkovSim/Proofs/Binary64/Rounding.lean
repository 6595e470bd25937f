import MarkovSim.Proofs.Binary64.Value

/-!
# Rounding

An exact number is rounded at the last digit that a binary64 number near it has: to the nearest multiple
of that digit, and to the even one of two (`Nearest`, `round_rounded`). No number that fits lies between
the exact number and the rounded one (`Rounds`, `Rounded.rounds`).
-/

namespace MarkovSim.Binary64

open Float.Model Float.Model.UnpackedFloat

variable {a k m n : ℕ} {e i : ℤ} {v : ℚ}

/-! ## Rounding to a multiple of a power of two -/

theorem mantissa_shiftRight (em : ExtendedMantissa) (k : ℕ) :
    (em >>> k).mantissa = em.mantissa / 2 ^ k := by
  show (k.repeat ExtendedMantissa.shiftRightOne em).mantissa = _
  induction k with
  | zero => exact (Nat.div_one _).symm
  | succ k ih =>
    show (k.repeat ExtendedMantissa.shiftRightOne em).mantissa / 2 = _
    rw [ih, Nat.div_div_eq_div_mul, pow_succ]

theorem roundedMantissa_bounds (em : ExtendedMantissa) :
    em.mantissa ≤ em.roundedMantissa ∧ em.roundedMantissa ≤ em.mantissa + 1 := by
  obtain ⟨m, r, s⟩ := em
  cases r <;> cases s
  · exact ⟨le_rfl, Nat.le_succ m⟩
  · exact ⟨le_rfl, Nat.le_succ m⟩
  · show m ≤ m + m % 2 ∧ m + m % 2 ≤ m + 1
    omega
  · exact ⟨Nat.le_succ m, le_rfl⟩

/-- Shifted out by `k` digits and rounded, `a` is between the multiples of `2 ^ k` next to it. -/
theorem rounded_shiftRight (a k : ℕ) :
    (∀ n, n * 2 ^ k ≤ a →
      n ≤ ((⟨a, false, false⟩ : ExtendedMantissa) >>> k).roundedMantissa) ∧
    (∀ n, a ≤ n * 2 ^ k →
      ((⟨a, false, false⟩ : ExtendedMantissa) >>> k).roundedMantissa ≤ n) := by
  obtain ⟨hlow, hhigh⟩ := roundedMantissa_bounds ((⟨a, false, false⟩ : ExtendedMantissa) >>> k)
  rw [mantissa_shiftRight] at hlow hhigh
  refine ⟨fun n hn => ?_, fun n hn => ?_⟩
  · exact ((Nat.le_div_iff_mul_le (by positivity)).2 hn).trans hlow
  · rcases hn.eq_or_lt with rfl | hlt
    · rw [shiftRight_exact]
      exact le_rfl
    · have hdiv : a / 2 ^ k < n := (Nat.div_lt_iff_lt_mul (by positivity)).2 hlt
      exact hhigh.trans hdiv

/-- `em` is `a` without its last `k` digits. It keeps the first of them, and whether there is one after it
that is not zero. -/
def Shifted (a k : ℕ) (em : ExtendedMantissa) : Prop :=
  ∃ rest, 2 * a = (2 * em.mantissa + em.roundBit.toNat) * 2 ^ k + rest ∧ rest < 2 ^ k ∧
    (em.stickyBit = true ↔ 0 < rest)

theorem Shifted.shiftRightOne {em : ExtendedMantissa} (h : Shifted a k em) :
    Shifted a (k + 1) em.shiftRightOne := by
  obtain ⟨rest, ha, hlt, hsticky⟩ := h
  obtain ⟨m, r, s⟩ := em
  have hdigits : 2 * (m / 2) + (m % 2 != 0).toNat = m := by
    rcases Nat.mod_two_eq_zero_or_one m with hmod | hmod <;> simp [hmod] <;> omega
  refine ⟨r.toNat * 2 ^ k + rest, ?_, ?_, ?_⟩
  · show 2 * a = (2 * (m / 2) + (m % 2 != 0).toNat) * 2 ^ (k + 1) + _
    rw [hdigits, ha, pow_succ]
    ring
  · rw [pow_succ]
    cases r <;> simp <;> omega
  · show (r || s) = true ↔ _
    cases r with
    | false => simpa using hsticky
    | true => simp

theorem shifted_shiftRight (a k : ℕ) :
    Shifted a k ((⟨a, false, false⟩ : ExtendedMantissa) >>> k) := by
  show Shifted a k (k.repeat ExtendedMantissa.shiftRightOne ⟨a, false, false⟩)
  induction k with
  | zero => exact ⟨0, by simp [Nat.repeat], by simp, by simp [Nat.repeat]⟩
  | succ k ih => exact ih.shiftRightOne

/-- An even number is reached by rounding from half a unit below it. -/
theorem Shifted.even_le_rounded {em : ExtendedMantissa} (h : Shifted a k em) (hn : n % 2 = 0) :
    n ≤ em.roundedMantissa ↔ 2 * n * 2 ^ k ≤ 2 * a + 2 ^ k := by
  obtain ⟨rest, ha, hlt, hsticky⟩ := h
  obtain ⟨m, r, s⟩ := em
  have hpos : 0 < 2 ^ k := Nat.two_pow_pos k
  have hdiv : (2 * a + 2 ^ k) / 2 ^ k = 2 * m + r.toNat + 1 := by
    rw [Nat.add_div_right _ hpos, ha, mul_comm, Nat.mul_add_div hpos, Nat.div_eq_of_lt hlt, add_zero]
  rw [← Nat.le_div_iff_mul_le hpos, hdiv]
  cases r <;> cases s
  · show n ≤ m ↔ 2 * n ≤ 2 * m + 0 + 1
    omega
  · show n ≤ m ↔ 2 * n ≤ 2 * m + 0 + 1
    omega
  · show n ≤ m + m % 2 ↔ 2 * n ≤ 2 * m + 1 + 1
    omega
  · show n ≤ m + 1 ↔ 2 * n ≤ 2 * m + 1 + 1
    omega

/-! ## Rounding to a binary64 number -/

/-- The number with mantissa `m` and exponent `e` is `v` rounded: no number that fits is between the two.
It fits itself, unless it is zero or its exponent is too large. -/
structure Rounds (v : ℚ) (m : ℕ) (e : ℤ) : Prop where
  lt : m < 2 ^ 53
  le_exponent : -1074 ≤ e
  subnormal : m < 2 ^ 52 → e = -1074
  below : ∀ {n f}, Fits n f → magnitude n f ≤ v → magnitude n f ≤ magnitude m e
  above : ∀ {n f}, Fits n f → v ≤ magnitude n f → magnitude m e ≤ magnitude n f

theorem Fits.rounds (h : Fits m e) : Rounds (magnitude m e) m e :=
  ⟨h.lt, h.le_exponent, h.subnormal, fun _ hle => hle, fun _ hle => hle⟩

theorem Rounds.fits (h : Rounds v m e) (hm : 0 < m) (he : e ≤ 971) : Fits m e :=
  ⟨hm, h.lt, h.le_exponent, he, h.subnormal⟩

/-- The digit at `t` is the last of a number that fits and is near `v`. -/
structure LastDigit (v : ℚ) (t : ℤ) : Prop where
  le : -1074 ≤ t
  lt : v < magnitude (2 ^ 53) t
  full : t ≠ -1074 → magnitude (2 ^ 52) t ≤ v

theorem lastDigit (ha : 0 < a) :
    LastDigit (magnitude a i) (Format.binary64.targetExponent (totalExponent a i)) := by
  have hpow (k : ℕ) (t : ℤ) : magnitude (2 ^ k) t = 2 ^ (k + t : ℤ) := by
    unfold magnitude
    rw [zpow_add₀ two_ne_zero, zpow_natCast]
    push_cast
    rfl
  rw [targetExponent_eq]
  refine ⟨le_max_right _ _, ?_, fun ht => ?_⟩
  · refine (magnitude_lt_two_pow a i).trans_le ?_
    rw [hpow]
    refine zpow_le_zpow_right₀ one_le_two ?_
    push_cast
    omega
  · refine le_trans (le_of_eq ?_) (two_pow_le_magnitude ha i)
    rw [hpow]
    congr 1
    push_cast
    omega

/-- The multiple of the last digit that is next to a number is the number rounded. -/
theorem LastDigit.rounds {t : ℤ} {r : ℕ} (h : LastDigit v t) (hlow : ∀ n, magnitude n t ≤ v → n ≤ r)
    (hhigh : ∀ n, v ≤ magnitude n t → r ≤ n) (hlt : m < 2 ^ 53) (he : -1074 ≤ e)
    (hsub : m < 2 ^ 52 → e = -1074) (hm : magnitude m e = magnitude r t) : Rounds v m e := by
  have hshift {n : ℕ} {f : ℤ} (htf : t ≤ f) :
      magnitude n f = magnitude (n * 2 ^ (f - t).toNat) t := by
    rw [magnitude_shift]
    congr 1
    omega
  refine ⟨hlt, he, hsub, fun {n f} hn hle => ?_, fun {n f} hn hle => ?_⟩
  · rw [hm]
    rcases le_or_gt t f with htf | hft
    · rw [hshift htf] at hle ⊢
      exact magnitude_mono (hlow _ hle) t
    · have hge := hn.le_exponent
      have hfull := hlow _ (h.full (by omega))
      exact (magnitude_lt_full hn.lt hft).le.trans (magnitude_mono hfull t)
  · rw [hm]
    rcases le_or_gt t f with htf | hft
    · rw [hshift htf] at hle ⊢
      exact magnitude_mono (hhigh _ hle) t
    · have hge := hn.le_exponent
      have hfull := (h.full (by omega)).trans hle
      exact absurd hfull (not_le.2 (magnitude_lt_full hn.lt hft))

/-- A mantissa that was not carried over stays as it is. -/
theorem shiftToTargetExponent_of_lt {r : ℕ} {t : ℤ} (hr : r < 2 ^ 53) (ht : -1074 ≤ t) :
    shiftToTargetExponent Format.binary64 r t .exact = (⟨r, false, false⟩, t) := by
  have hlog : r.log2 < 53 := by
    rcases Nat.eq_zero_or_pos r with rfl | hpos
    · decide
    · exact (Nat.log2_lt hpos.ne').2 hr
  have hzero : (Format.binary64.targetExponent (totalExponent r t) - t).toNat = 0 := by
    rw [targetExponent_eq]
    unfold totalExponent
    omega
  unfold shiftToTargetExponent shiftToExponent
  dsimp only
  rw [hzero]
  exact Prod.ext rfl (add_zero t)

/-- One that was has a digit to spare. -/
theorem shiftToTargetExponent_carry {t : ℤ} (ht : -1074 ≤ t) :
    shiftToTargetExponent Format.binary64 (2 ^ 53) t .exact = (⟨2 ^ 52, false, false⟩, t + 1) := by
  have htarget : Format.binary64.targetExponent (totalExponent (2 ^ 53) t) = t + 1 := by
    rw [targetExponent_eq]
    unfold totalExponent
    rw [Nat.log2_two_pow]
    omega
  unfold shiftToTargetExponent
  rw [htarget]
  exact shiftToExponent_exact (2 ^ 52) 1 t

/-- The multiple of the digit at `t` that is nearest to `v`, and the even one where two are. -/
structure Nearest (v : ℚ) (t : ℤ) (r : ℕ) : Prop where
  low : ∀ n, magnitude n t ≤ v → n ≤ r
  high : ∀ n, v ≤ magnitude n t → r ≤ n
  even : ∀ n, n % 2 = 0 → (n ≤ r ↔ magnitude (2 * n) t ≤ 2 * v + magnitude 1 t)

theorem nearest_shiftRight {t : ℤ} (hi : i ≤ t) :
    Nearest (magnitude a i) t
      ((⟨a, false, false⟩ : ExtendedMantissa) >>> (t - i).toNat).roundedMantissa := by
  have hmultiple (n : ℕ) : magnitude n t = magnitude (n * 2 ^ (t - i).toNat) i := by
    rw [magnitude_shift]
    congr 1
    omega
  obtain ⟨hlow, hhigh⟩ := rounded_shiftRight a (t - i).toNat
  refine ⟨fun n hn => hlow n ?_, fun n hn => hhigh n ?_, fun n hn => ?_⟩
  · rwa [hmultiple, magnitude_le_iff] at hn
  · rwa [hmultiple, magnitude_le_iff] at hn
  · have htwice : 2 * magnitude a i + magnitude (1 * 2 ^ (t - i).toNat) i =
        magnitude (2 * a + 2 ^ (t - i).toNat) i := by
      unfold magnitude
      push_cast
      ring
    rw [(shifted_shiftRight a _).even_le_rounded hn, hmultiple, hmultiple 1, htwice,
      magnitude_le_iff]

/-- A mantissa at `t` that was rounded, and what is left of it where it was carried over. -/
inductive Carried (r : ℕ) (t : ℤ) : ℕ → ℤ → Prop
  | none : r < 2 ^ 53 → Carried r t r t
  | digit : r = 2 ^ 53 → Carried r t (2 ^ 52) (t + 1)

/-- The number with mantissa `m` and exponent `e` is `v` rounded at its last digit. The exponent can be too
large for a number that fits. -/
def Rounded (v : ℚ) (m : ℕ) (e : ℤ) : Prop :=
  ∃ t r, LastDigit v t ∧ Nearest v t r ∧ Carried r t m e

theorem Rounded.rounds (h : Rounded v m e) : Rounds v m e := by
  obtain ⟨t, r, hdigit, hnearest, hcarried⟩ := h
  have hle := hdigit.le
  cases hcarried with
  | none hr =>
    refine hdigit.rounds hnearest.low hnearest.high hr hdigit.le (fun hlt => ?_) rfl
    by_contra hne
    exact absurd (hnearest.low _ (hdigit.full hne)) (by omega)
  | digit hr =>
    have hcarry : magnitude (2 ^ 52) (t + 1) = magnitude r t := by
      rw [hr]
      exact (magnitude_shift (2 ^ 52) 1 t).symm
    exact hdigit.rounds hnearest.low hnearest.high (by norm_num) (by omega) (by omega) hcarry

/-- A number that is given with enough digits is rounded. -/
theorem roundWithAccuracy_rounded (s : Sign) (ha : 0 < a)
    (hi : i ≤ Format.binary64.targetExponent (totalExponent a i)) :
    ∃ m e, Rounded (magnitude a i) m e ∧ roundWithAccuracy Format.binary64 s a i .exact =
      if h : m = 0 then .zero s else .finite s m e (Nat.pos_of_ne_zero h) := by
  have hdigit := lastDigit (i := i) ha
  have hnearest := nearest_shiftRight (a := a) hi
  unfold roundWithAccuracy
  have hfirst : shiftToTargetExponent Format.binary64 a i .exact =
      ((⟨a, false, false⟩ : ExtendedMantissa) >>>
        (Format.binary64.targetExponent (totalExponent a i) - i).toNat,
        Format.binary64.targetExponent (totalExponent a i)) := by
    unfold shiftToTargetExponent shiftToExponent
    refine Prod.ext rfl ?_
    dsimp only
    omega
  rw [hfirst]
  dsimp only
  generalize Format.binary64.targetExponent (totalExponent a i) = t at *
  generalize ((⟨a, false, false⟩ : ExtendedMantissa) >>> (t - i).toNat).roundedMantissa = r at *
  rcases (hnearest.high _ hdigit.lt.le).lt_or_eq with hr | hr
  · refine ⟨r, t, ⟨t, r, hdigit, hnearest, .none hr⟩, ?_⟩
    rw [shiftToTargetExponent_of_lt hr hdigit.le]
  · refine ⟨2 ^ 52, t + 1, ⟨t, r, hdigit, hnearest, .digit hr⟩, ?_⟩
    rw [hr, shiftToTargetExponent_carry hdigit.le]

/-- So is one to which digits have to be added first. -/
theorem round_rounded (s : Sign) (ha : 0 < a) :
    ∃ m e, Rounded (magnitude a i) m e ∧ UnpackedFloat.round Format.binary64 s a i =
      if h : m = 0 then .zero s else .finite s m e (Nat.pos_of_ne_zero h) := by
  unfold UnpackedFloat.round decreaseExponent
  dsimp only
  generalize ht : Format.binary64.targetExponent (totalExponent a i) = t
  have hvalue : magnitude (a <<< (i - t).toNat) (i - (i - t).toNat) = magnitude a i := by
    rw [Nat.shiftLeft_eq, magnitude_shift, sub_add_cancel]
  have hpos : 0 < a <<< (i - t).toNat := by
    rw [Nat.shiftLeft_eq]
    positivity
  have htarget : i - ((i - t).toNat : ℤ) ≤ Format.binary64.targetExponent
      (totalExponent (a <<< (i - t).toNat) (i - (i - t).toNat)) := by
    rw [totalExponent_eq hpos ha hvalue, ht]
    omega
  obtain ⟨m, e, hrounded, hround⟩ := roundWithAccuracy_rounded s hpos htarget
  rw [hvalue] at hrounded
  exact ⟨m, e, hrounded, hround⟩

end MarkovSim.Binary64
