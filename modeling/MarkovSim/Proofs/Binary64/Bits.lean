import MarkovSim.Decimal.Shortest
import MarkovSim.Proofs.Binary64.Exact

/-!
# Numbers and their bits

The bits of a finite number that is not zero hold its sign, and a mantissa and an exponent that fit
(`unpack_eq`). Packing a number puts them back in their places (`toNat_pack`), so a number is what is
packed from its sign, mantissa and exponent (`pack_unpack`), and it is its absolute value with its sign
(`abs_eq_self`, `neg_abs_eq_self`).
-/

namespace MarkovSim.Binary64

open Float.Model Float.Model.UnpackedFloat

theorem eq_of_toNat_toBits {x y : Float} (h : x.toBits.toNat = y.toBits.toNat) : x = y := by
  obtain ⟨⟨b, hb⟩⟩ := x
  obtain ⟨⟨c, hc⟩⟩ := y
  obtain rfl : b = c := UInt64.toNat_inj.1 h
  rfl

def signOf (x : Float) : Sign :=
  if x.toBits.toNat < 2 ^ 63 then .positive else .negative

/-! ## Taking bits apart -/

theorem finite_congr {s : Sign} {m m' : ℕ} {e e' : ℤ} (hm : m = m') (he : e = e') (h : 0 < m)
    (h' : 0 < m') : UnpackedFloat.finite s m e h = .finite s m' e' h' := by
  subst hm he
  rfl

section Unpack

variable {b : BitVec 64}

theorem toNat_unpackMantissa : (@unpackMantissa Format.binary64 b).toNat = b.toNat % 2 ^ 52 := by
  simp [unpackMantissa]

theorem toNat_unpackExponent :
    (@unpackExponent Format.binary64 b).toNat = b.toNat / 2 ^ 52 % 2 ^ 11 := by
  simp [unpackExponent, Nat.shiftRight_eq_div_pow]

theorem ofBitVec_unpackSign :
    Sign.ofBitVec (@unpackSign Format.binary64 b) =
      if b.toNat < 2 ^ 63 then .positive else .negative := by
  have hsign : (@unpackSign Format.binary64 b).toNat = b.toNat / 2 ^ 63 % 2 := by
    show (b.extractLsb' 63 1).toNat = _
    simp [Nat.shiftRight_eq_div_pow]
  have hb := b.isLt
  unfold Sign.ofBitVec
  refine if_congr ?_ rfl rfl
  rw [← BitVec.toNat_inj, hsign, BitVec.toNat_ofNat]
  omega

theorem toNat_hidden (f : BitVec 52) : (1#1 ++ f).toNat = 2 ^ 52 + f.toNat := by
  rw [BitVec.toNat_append, ← Nat.shiftLeft_add_eq_or_of_lt f.isLt]
  rfl

theorem exponent_ne_of_isFinite (h : (UnpackedFloat.unpack Format.binary64 b).isFinite = true) :
    b.toNat / 2 ^ 52 % 2 ^ 11 ≠ 2047 := by
  intro he
  have hones : @unpackExponent Format.binary64 b = -1#_ := by
    rw [← BitVec.toNat_inj, toNat_unpackExponent, he]
    rfl
  unfold UnpackedFloat.unpack at h
  dsimp only at h
  rw [if_pos hones] at h
  split at h <;> cases h

theorem unpack_normal (hzero : b.toNat / 2 ^ 52 % 2 ^ 11 ≠ 0)
    (hones : b.toNat / 2 ^ 52 % 2 ^ 11 ≠ 2047) :
    UnpackedFloat.unpack Format.binary64 b =
      .finite (if b.toNat < 2 ^ 63 then .positive else .negative) (2 ^ 52 + b.toNat % 2 ^ 52)
        (((b.toNat / 2 ^ 52 % 2 ^ 11 : ℕ) : ℤ) - 1075)
        (Nat.add_pos_left (Nat.two_pow_pos 52) _) := by
  have hzero' : ¬ @unpackExponent Format.binary64 b = 0#_ := by
    rwa [← BitVec.toNat_inj, toNat_unpackExponent]
  have hones' : ¬ @unpackExponent Format.binary64 b = -1#_ := by
    rwa [← BitVec.toNat_inj, toNat_unpackExponent]
  unfold UnpackedFloat.unpack
  dsimp only
  rw [if_neg hones', if_neg hzero', ofBitVec_unpackSign]
  refine finite_congr ?_ ?_ _ _
  · rw [toNat_hidden, toNat_unpackMantissa]
  · rw [toNat_unpackExponent]
    rfl

theorem unpack_subnormal (hzero : b.toNat / 2 ^ 52 % 2 ^ 11 = 0) (hm : 0 < b.toNat % 2 ^ 52) :
    UnpackedFloat.unpack Format.binary64 b =
      .finite (if b.toNat < 2 ^ 63 then .positive else .negative) (b.toNat % 2 ^ 52) (-1074) hm := by
  have hzero' : @unpackExponent Format.binary64 b = 0#_ := by
    rwa [← BitVec.toNat_inj, toNat_unpackExponent]
  have hones' : ¬ @unpackExponent Format.binary64 b = -1#_ := by
    rw [hzero']
    decide
  have hm' : ¬ @unpackMantissa Format.binary64 b = 0#_ := by
    rw [← BitVec.toNat_inj, toNat_unpackMantissa]
    exact hm.ne'
  unfold UnpackedFloat.unpack
  dsimp only
  rw [if_neg hones', if_pos hzero', dif_neg hm', ofBitVec_unpackSign]
  refine finite_congr toNat_unpackMantissa ?_ _ _
  rw [hzero']
  rfl

theorem unpack_zero (hzero : b.toNat / 2 ^ 52 % 2 ^ 11 = 0) (hm : b.toNat % 2 ^ 52 = 0) :
    UnpackedFloat.unpack Format.binary64 b =
      .zero (if b.toNat < 2 ^ 63 then .positive else .negative) := by
  have hzero' : @unpackExponent Format.binary64 b = 0#_ := by
    rwa [← BitVec.toNat_inj, toNat_unpackExponent]
  have hones' : ¬ @unpackExponent Format.binary64 b = -1#_ := by
    rw [hzero']
    decide
  have hm' : @unpackMantissa Format.binary64 b = 0#_ := by
    rwa [← BitVec.toNat_inj, toNat_unpackMantissa]
  unfold UnpackedFloat.unpack
  dsimp only
  rw [if_neg hones', if_pos hzero', dif_pos hm', ofBitVec_unpackSign]

end Unpack

theorem mantissa_eq (x : Float) : Decimal.mantissa x =
    if x.toBits.toNat / 2 ^ 52 % 2 ^ 11 = 0 then (x.toBits.toNat % 2 ^ 52, -1074)
    else (2 ^ 52 + x.toBits.toNat % 2 ^ 52, ((x.toBits.toNat / 2 ^ 52 % 2 ^ 11 : ℕ) : ℤ) - 1075) :=
  rfl

theorem unpack_eq {x : Float} (hx : x.isFinite = true) :
    ((Decimal.mantissa x).1 = 0 ∧ x.toModel.unpack = .zero (signOf x)) ∨
      ∃ h : Fits (Decimal.mantissa x).1 (Decimal.mantissa x).2,
        x.toModel.unpack =
          .finite (signOf x) (Decimal.mantissa x).1 (Decimal.mantissa x).2 h.pos := by
  have hones : x.toBits.toNat / 2 ^ 52 % 2 ^ 11 ≠ 2047 := exponent_ne_of_isFinite hx
  have hlt : x.toBits.toNat % 2 ^ 52 < 2 ^ 52 := Nat.mod_lt _ (by positivity)
  rw [mantissa_eq]
  by_cases hzero : x.toBits.toNat / 2 ^ 52 % 2 ^ 11 = 0
  · rw [if_pos hzero]
    by_cases hm : x.toBits.toNat % 2 ^ 52 = 0
    · exact .inl ⟨hm, unpack_zero hzero hm⟩
    · have hpos := Nat.pos_of_ne_zero hm
      refine .inr ⟨⟨hpos, ?_, le_rfl, by norm_num, fun _ => rfl⟩, unpack_subnormal hzero hpos⟩
      dsimp only
      omega
  · rw [if_neg hzero]
    refine .inr ⟨?_, unpack_normal hzero hones⟩
    constructor <;> dsimp only <;> omega

/-! ## Putting bits together -/

theorem toNat_packComponents (s : Sign) (e : BitVec 11) (m : BitVec 52) :
    (packComponents Format.binary64 s e m).toNat =
      s.toBitVec.toNat * 2 ^ 63 + e.toNat * 2 ^ 52 + m.toNat := by
  have hhigh : (s.toBitVec ++ e).toNat = s.toBitVec.toNat * 2 ^ 11 + e.toNat := by
    rw [BitVec.toNat_append, ← Nat.shiftLeft_add_eq_or_of_lt e.isLt, Nat.shiftLeft_eq]
  unfold packComponents
  rw [BitVec.toNat_append, ← Nat.shiftLeft_add_eq_or_of_lt m.isLt, Nat.shiftLeft_eq, hhigh]
  ring

/-- A number that fits is packed with its exponent, or without one where it is too small. -/
theorem toNat_pack {m : ℕ} {e : ℤ} (h : Fits m e) (s : Sign) :
    (UnpackedFloat.pack Format.binary64 (.finite s m e h.pos)).toNat =
      s.toBitVec.toNat * 2 ^ 63 +
        if m < 2 ^ 52 then m else (e + 1075).toNat * 2 ^ 52 + (m - 2 ^ 52) := by
  have hlt := h.lt
  have hge := h.le_exponent
  have hle := h.exponent_le
  have hbiased : e + Format.binary64.exponentBias + Format.binary64.mantissaBitsWithoutImplicit =
      e + 1075 := by
    rw [add_assoc]
    rfl
  have hbits : Format.binary64.mantissaBits = 53 := rfl
  unfold UnpackedFloat.pack
  dsimp only
  rw [hbiased, hbits, if_neg (show ¬ 2 ^ 11 ≤ (e + 1075).toNat + 1 by omega)]
  by_cases hm : m < 2 ^ 52
  · have hlog : m.log2 < 52 := (Nat.log2_lt h.pos.ne').2 hm
    rw [if_neg (show ¬ m.log2 + 1 = 53 by omega), if_pos hm, toNat_packComponents,
      BitVec.toNat_ofNat, BitVec.toNat_ofNat, Nat.mod_eq_of_lt hm]
    simp
  · have hlog : m.log2 = 52 := (Nat.log2_eq_iff h.pos.ne').2 ⟨by omega, hlt⟩
    rw [if_pos (show m.log2 + 1 = 53 by omega), if_neg hm, toNat_packComponents,
      BitVec.toNat_ofNat, BitVec.toNat_ofNat,
      Nat.mod_eq_of_lt (show (e + 1075).toNat < 2 ^ 11 by omega)]
    omega

theorem sign_of_toNat {s : Sign} {n r : ℕ} (h : n = s.toBitVec.toNat * 2 ^ 63 + r)
    (hr : r < 2 ^ 63) : (if n < 2 ^ 63 then Sign.positive else .negative) = s := by
  cases s with
  | positive =>
    rw [show Sign.positive.toBitVec.toNat = 0 from rfl] at h
    exact if_pos (by omega)
  | negative =>
    rw [show Sign.negative.toBitVec.toNat = 1 from rfl] at h
    exact if_neg (by omega)

/-- A number that fits is the one that is packed. -/
theorem unpack_pack {m : ℕ} {e : ℤ} (h : Fits m e) (s : Sign) :
    (Float.Model.pack (.finite s m e h.pos)).unpack = .finite s m e h.pos := by
  have hpack := toNat_pack h s
  have hlt := h.lt
  have hge := h.le_exponent
  have hle := h.exponent_le
  show UnpackedFloat.unpack Format.binary64 (UnpackedFloat.pack Format.binary64 _) = _
  by_cases hm : m < 2 ^ 52
  · rw [if_pos hm] at hpack
    rw [unpack_subnormal (by omega) (by have := h.pos; omega), sign_of_toNat hpack (by omega)]
    exact finite_congr (by omega) (h.subnormal hm).symm _ _
  · rw [if_neg hm] at hpack
    rw [unpack_normal (by omega) (by omega), sign_of_toNat hpack (by omega)]
    exact finite_congr (by omega) (by omega) _ _

theorem pack_unpack {x : Float} (hx : x.isFinite = true) :
    Float.ofModel (Float.Model.pack x.toModel.unpack) = x := by
  have hsize : x.toBits.toNat < 2 ^ 64 := x.toBits.toNat_lt
  have hsign : (signOf x).toBitVec.toNat = x.toBits.toNat / 2 ^ 63 := by
    unfold signOf
    by_cases hneg : x.toBits.toNat < 2 ^ 63
    · rw [if_pos hneg, Nat.div_eq_of_lt hneg]
      rfl
    · rw [if_neg hneg, show Sign.negative.toBitVec.toNat = 1 from rfl]
      omega
  refine eq_of_toNat_toBits ?_
  show (UnpackedFloat.pack Format.binary64 x.toModel.unpack).toNat = x.toBits.toNat
  rcases unpack_eq hx with ⟨hzero, hunpack⟩ | ⟨h, hunpack⟩
  · rw [hunpack]
    refine (toNat_packComponents _ (BitVec.ofNat 11 0) (BitVec.ofNat 52 0)).trans ?_
    rw [hsign, BitVec.toNat_ofNat, BitVec.toNat_ofNat]
    rw [mantissa_eq] at hzero
    split at hzero
    · dsimp only at hzero
      omega
    · simp at hzero
  · rw [hunpack, toNat_pack h, hsign, mantissa_eq]
    by_cases hexp : x.toBits.toNat / 2 ^ 52 % 2 ^ 11 = 0
    · rw [if_pos hexp, if_pos (by dsimp only; omega)]
      dsimp only
      omega
    · rw [if_neg hexp, if_neg (by dsimp only; omega)]
      dsimp only
      omega

theorem isFinite_pack {m : ℕ} {e : ℤ} (h : Fits m e) (s : Sign) :
    (Float.ofModel (.pack (.finite s m e h.pos))).isFinite = true := by
  show (Float.Model.pack (.finite s m e h.pos)).unpack.isFinite = true
  rw [unpack_pack h]
  rfl

theorem signOf_pack {m : ℕ} {e : ℤ} (h : Fits m e) (s : Sign) :
    signOf (.ofModel (.pack (.finite s m e h.pos))) = s := by
  have hlt := h.lt
  have hle := h.exponent_le
  refine sign_of_toNat (toNat_pack h s) ?_
  by_cases hm : m < 2 ^ 52
  · rw [if_pos hm]
    omega
  · rw [if_neg hm]
    omega

/-! ## Absolute values -/

theorem abs_spec {x : Float} (hx : x.isFinite = true) :
    x.abs.isFinite = true ∧ signOf x.abs = .positive := by
  show (Float.ofModel (.pack x.toModel.unpack.abs)).isFinite = true ∧
    signOf (.ofModel (.pack x.toModel.unpack.abs)) = .positive
  rcases unpack_eq hx with ⟨-, hunpack⟩ | ⟨h, hunpack⟩
  · have hzero : x.toModel.unpack.abs = .zero .positive := by rw [hunpack]; rfl
    rw [hzero]
    exact ⟨by decide +kernel, if_pos (by decide +kernel)⟩
  · rw [hunpack]
    exact ⟨isFinite_pack h .positive, signOf_pack h .positive⟩

theorem abs_eq_self {x : Float} (hx : x.isFinite = true) (hs : signOf x = .positive) :
    x.abs = x := by
  have habs : x.toModel.unpack.abs = x.toModel.unpack := by
    rcases unpack_eq hx with ⟨-, hunpack⟩ | ⟨h, hunpack⟩ <;> rw [hunpack, hs] <;> rfl
  show Float.ofModel (Float.Model.pack x.toModel.unpack.abs) = x
  rw [habs, pack_unpack hx]

theorem neg_abs_eq_self {x : Float} (hx : x.isFinite = true) (hs : signOf x = .negative) :
    -x.abs = x := by
  have hneg : (Float.Model.pack x.toModel.unpack.abs).unpack.neg = x.toModel.unpack := by
    rcases unpack_eq hx with ⟨-, hunpack⟩ | ⟨h, hunpack⟩
    · rw [hunpack, hs]
      rfl
    · rw [hunpack, hs]
      show (Float.Model.pack (.finite .positive _ _ h.pos)).unpack.neg = _
      rw [unpack_pack h]
      rfl
  show Float.ofModel (Float.Model.pack (Float.Model.pack x.toModel.unpack.abs).unpack.neg) = x
  rw [hneg, pack_unpack hx]

end MarkovSim.Binary64
