import MarkovSim.Proofs.Comparison

/-!
# Numbers in order

NaN apart, two numbers are always in order (`not_lt_iff`), and a positive number is not zero
(`beq_zero_of_pos`). Subtracting a finite number and taking the absolute value give no NaN where there
was none.
-/

namespace MarkovSim.Binary64

open Float.Model Float.Model.UnpackedFloat

theorem compare_swap (x y : UnpackedFloat) : y.compare x = (x.compare y).map Ordering.swap := by
  have hfinite (m m' : Nat) (e e' : Int) : (Ord.compare e' e).then (Ord.compare m' m) =
      ((Ord.compare e e').then (Ord.compare m m')).swap := by
    rw [Ordering.swap_then, Int.compare_swap, Nat.compare_swap]
  cases x with
  | notANumber => cases y <;> rfl
  | infinity s => cases s <;> cases y with
    | infinity t => cases t <;> rfl
    | _ => rfl
  | zero s => cases y with
    | infinity t => cases t <;> rfl
    | finite t m e h => cases t <;> rfl
    | _ => rfl
  | finite s m e h => cases y with
    | infinity t => cases s <;> cases t <;> rfl
    | finite t m' e' h' => cases s with
      | positive => cases t with
        | positive => exact congrArg some (hfinite m m' e e')
        | negative => rfl
      | negative => cases t with
        | positive => rfl
        | negative => exact congrArg (some ∘ Ordering.swap) (hfinite m m' e e')
    | _ => cases s <;> rfl

theorem exists_compare {x y : UnpackedFloat} (hx : x.isNaN = false) (hy : y.isNaN = false) :
    ∃ o, x.compare y = some o := by
  cases x with
  | notANumber => cases hx
  | infinity s => cases s <;> cases y with
    | notANumber => cases hy
    | infinity t => cases t <;> exact ⟨_, rfl⟩
    | _ => exact ⟨_, rfl⟩
  | zero s => cases y with
    | notANumber => cases hy
    | infinity t => cases t <;> exact ⟨_, rfl⟩
    | zero t => exact ⟨_, rfl⟩
    | finite t m e h => cases t <;> exact ⟨_, rfl⟩
  | finite s m e h => cases s <;> cases y with
    | notANumber => cases hy
    | infinity t => cases t <;> exact ⟨_, rfl⟩
    | zero t => exact ⟨_, rfl⟩
    | finite t m' e' h' => cases t <;> exact ⟨_, rfl⟩

theorem lt_iff {x y : Float} :
    x < y ↔ x.toModel.unpack.compare y.toModel.unpack = some .lt := by
  show decide (x.toModel < y.toModel) = true ↔ _
  rw [decide_eq_true_iff]
  show (x.toModel.unpack.compare y.toModel.unpack == some .lt) = true ↔ _
  rw [beq_iff_eq]

theorem le_iff {x y : Float} :
    x ≤ y ↔ (x.toModel.unpack.compare y.toModel.unpack).any (·.isLE) = true := by
  show decide (x.toModel ≤ y.toModel) = true ↔ _
  rw [decide_eq_true_iff]
  rfl

theorem not_lt_iff {x y : Float} (hx : x.isNaN = false) (hy : y.isNaN = false) :
    ¬ x < y ↔ y ≤ x := by
  obtain ⟨o, ho⟩ := exists_compare (x := x.toModel.unpack) (y := y.toModel.unpack) hx hy
  rw [lt_iff, le_iff, compare_swap x.toModel.unpack, ho]
  cases o <;> decide

theorem beq_zero_of_pos {x : Float} (h : 0.0 < x) : (x == 0.0) = false := by
  rw [lt_iff] at h
  show (x.toModel.unpack.compare (0.0 : Float).toModel.unpack == some .eq) = false
  rw [compare_swap (0.0 : Float).toModel.unpack, h]
  rfl

/-! ## Subtracting and taking away the sign -/

theorem sub_eq_add_neg (spec : Format) (x y : UnpackedFloat) :
    UnpackedFloat.sub spec x y = UnpackedFloat.add spec x y.neg := by
  cases x with
  | finite s m e h =>
    cases y with
    | finite t m' e' h' =>
      have hsign (n : Int) : (-t).apply n = -t.apply n := by
        cases t with
        | positive => rfl
        | negative => exact (Int.neg_neg n).symm
      dsimp only [UnpackedFloat.sub, UnpackedFloat.add, UnpackedFloat.neg]
      rw [hsign, Int.sub_eq_add_neg]
    | _ => rfl
  | _ => cases y <;> rfl

theorem isFinite_neg (x : UnpackedFloat) : x.neg.isFinite = x.isFinite := by
  cases x <;> rfl

theorem isNaN_sub {x y : Float} (hx : x.isNaN = false) (hy : y.isFinite = true) :
    (x - y).isNaN = false := by
  refine @isNaN_unpack_pack Format.binary64 _ ?_
  rw [sub_eq_add_neg]
  exact isNaN_add_unpacked _ hx ((isFinite_neg _).trans hy)

theorem isNaN_abs {x : Float} (hx : x.isNaN = false) : x.abs.isNaN = false := by
  have hx' : x.toModel.unpack.isNaN = false := hx
  refine @isNaN_unpack_pack Format.binary64 x.toModel.unpack.abs ?_
  cases h : x.toModel.unpack with
  | notANumber => rw [h] at hx'; cases hx'
  | infinity s => rfl
  | zero s => rfl
  | finite s m e hpos => rfl

end MarkovSim.Binary64
