import Mathlib.Algebra.Order.Ring.Nat
import MarkovSim.Session.Observation
import MarkovSim.Valuation

/-!
# Reports that equal themselves

Reports are compared with their numbers as numbers, so one that holds a NaN differs from itself.
None of a session's does. A finite number added to one that is not NaN never gives NaN, though it may
give an infinity (`Binary64.isNaN_add`), and the record of a state shows no number that is not finite
(`Valuations.record?_beq_self`).

The facts about numbers are read off their unpacked form: rounding gives a zero or a finite number,
and packing never turns one into the bits of a NaN (`Binary64.isNaN_unpack_pack`).
-/

namespace MarkovSim

namespace Binary64

open Float.Model Float.Model.UnpackedFloat

/-! ## Packing -/

theorem ofNat_ne_neg_one {n k : Nat} (hk : k + 1 < 2 ^ n) : BitVec.ofNat n k ≠ -1#n := by
  intro h
  have hnat := congrArg BitVec.toNat h
  simp only [BitVec.toNat_ofNat, BitVec.neg_one_eq_allOnes, BitVec.toNat_allOnes] at hnat
  rw [Nat.mod_eq_of_lt (by omega)] at hnat
  omega

theorem zero_ne_neg_one {n : Nat} (hn : 0 < n) : (0#n) ≠ -1#n :=
  ofNat_ne_neg_one (Nat.one_lt_two_pow (Nat.pos_iff_ne_zero.1 hn))

/-- Bits are those of a NaN only with all bits of the exponent set and some of the mantissa. -/
theorem isNaN_unpack {spec : Format} {b : BitVec spec.numBits}
    (h : (UnpackedFloat.unpack spec b).isNaN = true) :
    unpackExponent b = -BitVec.ofNat spec.exponentBits 1 ∧
      unpackMantissa b ≠ BitVec.ofNat spec.mantissaBitsWithoutImplicit 0 := by
  unfold UnpackedFloat.unpack at h
  by_cases he : unpackExponent b = -BitVec.ofNat spec.exponentBits 1
  · refine ⟨he, fun hm => ?_⟩
    rw [if_pos he, if_pos hm] at h
    cases h
  · rw [if_neg he] at h
    by_cases hzero : unpackExponent b = BitVec.ofNat spec.exponentBits 0
    · rw [if_pos hzero] at h
      by_cases hm : unpackMantissa b = BitVec.ofNat spec.mantissaBitsWithoutImplicit 0
      · rw [dif_pos hm] at h
        cases h
      · rw [dif_neg hm] at h
        cases h
    · rw [if_neg hzero] at h
      cases h

theorem isNaN_unpack_pack {spec : Format} {x : UnpackedFloat} (hx : x.isNaN = false) :
    (UnpackedFloat.unpack spec (UnpackedFloat.pack spec x)).isNaN = false := by
  refine Bool.eq_false_iff.2 fun h => ?_
  obtain ⟨he, hm⟩ := isNaN_unpack h
  have hinf (s : Sign) : unpackMantissa (packedInfinity spec s) = 0#_ :=
    unpackMantissa_packComponents
  cases x with
  | notANumber => cases hx
  | infinity s => exact hm (hinf s)
  | zero s => exact zero_ne_neg_one spec.he (unpackExponent_packComponents.symm.trans he)
  | finite s m e hpos =>
    unfold UnpackedFloat.pack at he hm
    dsimp only at he hm
    split at he
    · next hbig =>
      rw [if_pos hbig] at hm
      exact hm (hinf s)
    · next hsmall =>
      split at he
      · exact ofNat_ne_neg_one (by omega) (unpackExponent_packComponents.symm.trans he)
      · exact zero_ne_neg_one spec.he (unpackExponent_packComponents.symm.trans he)

/-! ## Adding -/

theorem isNaN_rounded (s : Sign) (m : Nat) (e : Int) :
    (if h : m = 0 then zero s else finite s m e (Nat.pos_of_ne_zero h)).isNaN = false := by
  by_cases h : m = 0
  · rw [dif_pos h]
    rfl
  · rw [dif_neg h]
    rfl

theorem isNaN_normalize (spec : Format) (m e : Int) (s : Sign) :
    (UnpackedFloat.normalize spec m e s).isNaN = false := by
  have hround (s : Sign) (m : Nat) : (UnpackedFloat.round spec s m e).isNaN = false :=
    isNaN_rounded _ _ _
  unfold UnpackedFloat.normalize
  split
  · exact hround _ _
  · rfl
  · exact hround _ _

theorem isNaN_add_unpacked (spec : Format) {x y : UnpackedFloat} (hx : x.isNaN = false)
    (hy : y.isFinite = true) : (UnpackedFloat.add spec x y).isNaN = false := by
  cases x with
  | notANumber => cases hx
  | infinity s =>
    cases y with
    | notANumber => cases hy
    | infinity t => cases hy
    | zero t => rfl
    | finite t m e hpos => rfl
  | zero s =>
    cases y with
    | notANumber => cases hy
    | infinity t => cases hy
    | zero t =>
      unfold UnpackedFloat.add
      dsimp only
      split <;> rfl
    | finite t m e hpos => rfl
  | finite s m e hpos =>
    cases y with
    | notANumber => cases hy
    | infinity t => cases hy
    | zero t => rfl
    | finite t m' e' hpos' => exact isNaN_normalize _ _ _ _

theorem isNaN_add {x y : Float} (hx : x.isNaN = false) (hy : y.isFinite = true) :
    (x + y).isNaN = false :=
  isNaN_unpack_pack (isNaN_add_unpacked Format.binary64 hx hy)

theorem isNaN_of_isFinite {x : Float} (hx : x.isFinite = true) : x.isNaN = false := by
  have hx' : x.toModel.unpack.isFinite = true := hx
  show x.toModel.unpack.isNaN = false
  cases h : x.toModel.unpack with
  | notANumber => rw [h] at hx'; cases hx'
  | infinity s => rfl
  | zero s => rfl
  | finite s m e hpos => rfl

/-! ## Comparing -/

theorem compare_self {x : UnpackedFloat} (hx : x.isNaN = false) : x.compare x = some .eq := by
  cases x with
  | notANumber => cases hx
  | infinity s => cases s <;> rfl
  | zero s => rfl
  | finite s m e hpos =>
    cases s with
    | positive =>
      show some ((Ord.compare e e).then (Ord.compare m m)) = some .eq
      simp
    | negative =>
      show some ((Ord.compare e e).then (Ord.compare m m)).swap = some .eq
      simp

theorem beq_self {x : Float} (hx : x.isNaN = false) : (x == x) = true := by
  show (x.toModel.unpack.compare x.toModel.unpack == some .eq) = true
  rw [compare_self hx]
  rfl

end Binary64

/-! ## Records -/

namespace Json.Value

theorem eqMembers_self {members : List (String × Value)}
    (h : ∀ e ∈ members, eq e.2 e.2 = true) : eqMembers members members = true := by
  induction members with
  | nil => rfl
  | cons e rest ih =>
    obtain ⟨key, v⟩ := e
    have hv : eq v v = true := h (key, v) List.mem_cons_self
    have hrest := ih fun e he => h e (List.mem_cons_of_mem _ he)
    simp only [eqMembers, beq_self_eq_true, hv, hrest, Bool.and_self]

theorem mem_insert {key : String} {v : Value} {members : List (String × Value)}
    {e : String × Value} (h : e ∈ insert key v members) : e = (key, v) ∨ e ∈ members := by
  induction members with
  | nil => exact Or.inl (List.mem_singleton.1 h)
  | cons f rest ih =>
    unfold insert at h
    split at h
    · rcases List.mem_cons.1 h with h | h
      · exact Or.inl h
      · exact Or.inr h
    · split at h
      · rcases List.mem_cons.1 h with h | h
        · exact Or.inl h
        · exact Or.inr (List.mem_cons_of_mem _ h)
      · rcases List.mem_cons.1 h with h | h
        · exact Or.inr (h ▸ List.mem_cons_self)
        · rcases ih h with h | h
          · exact Or.inl h
          · exact Or.inr (List.mem_cons_of_mem _ h)

theorem mem_foldl_insert {members : List (String × Value)} {e : String × Value} :
    ∀ {sorted : List (String × Value)},
      e ∈ members.foldl (fun sorted f => insert f.1 f.2 sorted) sorted →
        e ∈ members ∨ e ∈ sorted := by
  induction members with
  | nil => exact fun h => Or.inr h
  | cons f rest ih =>
    intro sorted h
    rcases ih h with h | h
    · exact Or.inl (List.mem_cons_of_mem _ h)
    · rcases mem_insert h with rfl | h
      · exact Or.inl List.mem_cons_self
      · exact Or.inr h

theorem record_beq_self {members : List (String × Value)}
    (h : ∀ e ∈ members, eq e.2 e.2 = true) : (record members == record members) = true := by
  refine eqMembers_self fun e he => h e ?_
  exact (mem_foldl_insert he).resolve_right List.not_mem_nil

end Json.Value

theorem Datum.plain_eq_self (x : Datum) : x.plain.eq x.plain = true := by
  cases x with
  | bool b => exact beq_self_eq_true b
  | int n => exact beq_self_eq_true n
  | real x =>
    show (Json.Value.ofFloat x).eq (Json.Value.ofFloat x) = true
    unfold Json.Value.ofFloat
    split
    · next hx => exact Binary64.beq_self (Binary64.isNaN_of_isFinite hx)
    · rfl

theorem Valuations.record?_beq_self {v : Valuations} {s : Nat} {record : Json.Value}
    (h : v.record? s = some record) : (record == record) = true := by
  obtain ⟨row, -, rfl⟩ := Option.map_eq_some_iff.1 h
  refine Json.Value.record_beq_self fun e he => ?_
  obtain ⟨i, hi, rfl⟩ := List.getElem_of_mem he
  rw [List.getElem_zipWith]
  exact Datum.plain_eq_self _

theorem Report.beq_self {r : Report} (ho : (r.observation == r.observation) = true)
    (hr : r.reward.isNaN = false) : (r == r) = true := by
  show (r.observation == r.observation && r.reward == r.reward) = true
  rw [ho, Binary64.beq_self hr]
  rfl

end MarkovSim
