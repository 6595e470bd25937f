import MarkovSim.Decimal.Layout
import MarkovSim.Proofs.Decimal.Value

/-!
# Spelled decimals

A spelling holds the digits before and after the point and the exponent of a number without its sign.
The one that JSON text has for a decimal (`Layout.spelling`) is that of a number with a fraction or an
exponent, and is worth as much as the decimal (`spells_spelling`). What is spelled for a finite number
is therefore read as its absolute value (`Layout.toFloat_spelled`), and the sign before it gives the
number back with all its bits (`Layout.signed_abs`).
-/

namespace MarkovSim

/-- A number without its sign, as it is spelled. -/
structure Spelling where
  whole : List Char
  fraction : List Char
  exponent : Option ℤ

namespace Spelling

/-- An exponent stands after its mark and sign. -/
def exponentChars : Option ℤ → List Char
  | none => []
  | some (.ofNat e) => 'e' :: '+' :: Nat.toDigits 10 e
  | some (.negSucc e) => 'e' :: '-' :: Nat.toDigits 10 (e + 1)

/-- A point stands only before digits. -/
def fractionChars : List Char → List Char
  | [] => []
  | d :: ds => '.' :: d :: ds

theorem fractionChars_of_ne_nil {ds : List Char} (h : ds ≠ []) : fractionChars ds = '.' :: ds := by
  obtain ⟨d, ds, rfl⟩ := List.exists_cons_of_ne_nil h
  rfl

def chars (s : Spelling) : List Char :=
  s.whole ++ (fractionChars s.fraction ++ exponentChars s.exponent)

/-- The decimal that is read from the spelling. -/
def decimal (s : Spelling) : Decimal :=
  ⟨Nat.ofDigitChars 10 (s.whole ++ s.fraction) 0, s.exponent.getD 0 - s.fraction.length⟩

/-- Whether only a whole number is spelled this way. -/
def isWhole (s : Spelling) : Bool :=
  s.fraction.isEmpty && s.exponent.isNone

/-- All digits are digits, with no leading zero but a single one. -/
structure Valid (s : Spelling) : Prop where
  whole_ne_nil : s.whole ≠ []
  whole_digit : ∀ c ∈ s.whole, c.isDigit = true
  leading : s.whole = ['0'] ∨ s.whole.head? ≠ some '0'
  fraction_digit : ∀ c ∈ s.fraction, c.isDigit = true

end Spelling

/-! ## Digits -/

theorem head?_toDigits {n : ℕ} (hn : 0 < n) : (Nat.toDigits 10 n).head? ≠ some '0' := by
  induction n using Nat.strongRecOn with
  | ind n ih =>
    by_cases hten : n < 10
    · rw [Nat.toDigits_of_lt_base hten]
      have hdigit : ∀ n : Fin 10, 0 < n.1 → n.1.digitChar ≠ '0' := by decide
      intro h
      exact hdigit ⟨n, hten⟩ hn (Option.some.inj h)
    · rw [Nat.toDigits_of_base_le (by norm_num) (by omega),
        List.head?_append_of_ne_nil _ Nat.toDigits_ne_nil]
      exact ih (n / 10) (by omega) (by omega)

theorem isDigit_toDigits {n : ℕ} : ∀ c ∈ Nat.toDigits 10 n, c.isDigit = true :=
  fun _ => Nat.isDigit_of_mem_toDigits (by norm_num) (by norm_num)

theorem isDigit_zeros {k : ℕ} {c : Char} (hc : c ∈ List.replicate k '0') : c.isDigit = true := by
  rw [List.eq_of_mem_replicate hc]
  rfl

theorem ofDigitChars_replicate_append (k : ℕ) (ds : List Char) :
    Nat.ofDigitChars 10 (List.replicate k '0' ++ ds) 0 = Nat.ofDigitChars 10 ds 0 := by
  rw [Nat.ofDigitChars_append, Nat.ofDigitChars_replicate_zero, mul_zero]

/-! ## The spelling of JSON text -/

/-- The spelling gives the characters, and is read as a fraction of the value of the decimal. -/
structure Spelling.Spells (s : Spelling) (cs : List Char) (d : Decimal) : Prop where
  chars_eq : s.chars = cs
  valid : s.Valid
  isWhole_eq : s.isWhole = false
  value_eq : s.decimal.value = d.value

namespace Layout

/-- The spelling of a decimal in JSON text. -/
def spelling (d : Decimal) : Spelling :=
  let ds := Nat.toDigits 10 d.digits
  let e := d.exponent + ((ds.length : ℤ) - 1)
  if json.positional e then
    match e with
    | .ofNat e =>
      if ds.length ≤ e + 1 then ⟨ds ++ List.replicate (e + 1 - ds.length) '0', ['0'], none⟩
      else ⟨ds.take (e + 1), ds.drop (e + 1), none⟩
    | .negSucc e => ⟨['0'], List.replicate e '0' ++ ds, none⟩
  else ⟨ds.take 1, ds.drop 1, some e⟩

section Cases

variable {d : Decimal} {ds : List Char} (hds : ds = Nat.toDigits 10 d.digits)
include hds

theorem leading_of_pos (hpos : 0 < d.digits) : ds.head? ≠ some '0' :=
  hds ▸ head?_toDigits hpos

theorem digit_of_mem {c : Char} (hc : c ∈ ds) : c.isDigit = true :=
  isDigit_toDigits c (hds ▸ hc)

theorem ofDigitChars_digits : Nat.ofDigitChars 10 ds 0 = d.digits := by
  rw [hds, Nat.ofDigitChars_ten_toDigits]

/-- All digits before the point, filled up with zeros. -/
theorem spells_padded {k : ℕ} (hk : ds.length ≤ k + 1)
    (hexp : d.exponent + ((ds.length : ℤ) - 1) = k) (hd : 0 < d.digits ∨ d = ⟨0, 0⟩) :
    Spelling.Spells ⟨ds ++ List.replicate (k + 1 - ds.length) '0', ['0'], none⟩
      (placePoint true ds k) d := by
  have hlen : 0 < ds.length := hds ▸ Nat.length_toDigits_pos
  refine ⟨?_, ⟨?_, ?_, ?_, fun c hc => isDigit_zeros (k := 1) hc⟩, rfl, ?_⟩
  · show _ = placePoint true ds (Int.ofNat k)
    unfold placePoint
    dsimp only
    rw [if_pos hk]
    simp [Spelling.chars, Spelling.fractionChars, Spelling.exponentChars]
  · exact List.append_ne_nil_of_left_ne_nil (List.length_pos_iff.1 hlen) _
  · intro c hc
    rcases List.mem_append.1 hc with hc | hc
    · exact digit_of_mem hds hc
    · exact isDigit_zeros hc
  · rcases hd with hd | rfl
    · right
      dsimp only
      rw [List.head?_append_of_ne_nil _ (List.length_pos_iff.1 hlen)]
      exact leading_of_pos hds hd
    · left
      obtain rfl : ds = ['0'] := hds
      obtain rfl : k = 0 := by simpa using hexp.symm
      rfl
  · have hdigits : Nat.ofDigitChars 10 (ds ++ List.replicate (k + 1 - ds.length) '0' ++ ['0']) 0 =
        d.digits * 10 ^ (k + 1 - ds.length + 1) := by
      rw [Nat.ofDigitChars_append, Nat.ofDigitChars_append, ofDigitChars_digits hds,
        Nat.ofDigitChars_replicate_zero, pow_succ, mul_comm (10 ^ _), ← mul_assoc]
      exact mul_comm _ _
    rw [Spelling.decimal, hdigits, Decimal.value_shift, Option.getD_none, List.length_singleton]
    congr 2
    omega

theorem valid_split {j : ℕ} (hj : 0 < j) (hd : 0 < d.digits) (e : Option ℤ) :
    Spelling.Valid ⟨ds.take j, ds.drop j, e⟩ := by
  have hne : ds ≠ [] := hds ▸ Nat.toDigits_ne_nil
  refine ⟨?_, fun c hc => digit_of_mem hds (List.mem_of_mem_take hc), .inr ?_,
    fun c hc => digit_of_mem hds (List.mem_of_mem_drop hc)⟩
  · rw [Ne, List.take_eq_nil_iff]
    rintro (rfl | h)
    · exact hj.false
    · exact hne h
  · dsimp only
    rw [List.head?_take, if_neg hj.ne']
    exact leading_of_pos hds hd

theorem value_split {j : ℕ} (hj : j ≤ ds.length) {e : Option ℤ}
    (he : e.getD 0 = d.exponent + (ds.length - j)) :
    (Spelling.decimal ⟨ds.take j, ds.drop j, e⟩).value = d.value := by
  have hlen : ((ds.drop j).length : ℤ) = ds.length - j := by
    rw [List.length_drop]
    omega
  rw [Spelling.decimal, List.take_append_drop, ofDigitChars_digits hds, hlen, he,
    add_sub_cancel_right]

/-- The point between two digits. -/
theorem spells_split {k : ℕ} (hk : ¬ ds.length ≤ k + 1)
    (hexp : d.exponent + ((ds.length : ℤ) - 1) = k) (hd : 0 < d.digits) :
    Spelling.Spells ⟨ds.take (k + 1), ds.drop (k + 1), none⟩ (placePoint true ds k) d := by
  have hrest : ds.drop (k + 1) ≠ [] := by
    rw [Ne, List.drop_eq_nil_iff]
    exact hk
  refine ⟨?_, valid_split hds k.succ_pos hd _, ?_, value_split hds (by omega) ?_⟩
  · show _ = placePoint true ds (Int.ofNat k)
    unfold placePoint
    dsimp only
    rw [if_neg hk]
    simp [Spelling.chars, Spelling.fractionChars_of_ne_nil hrest, Spelling.exponentChars]
  · rw [Spelling.isWhole, List.isEmpty_eq_false_iff.2 hrest, Bool.false_and]
  · rw [Option.getD_none]
    omega

/-- All digits after the point, behind zeros. -/
theorem spells_small {k : ℕ} (hexp : d.exponent + ((ds.length : ℤ) - 1) = Int.negSucc k) :
    Spelling.Spells ⟨['0'], List.replicate k '0' ++ ds, none⟩
      (placePoint true ds (Int.negSucc k)) d := by
  have hrest : List.replicate k '0' ++ ds ≠ [] :=
    List.append_ne_nil_of_right_ne_nil _ (hds ▸ Nat.toDigits_ne_nil)
  refine ⟨?_, ⟨by simp, ?_, .inl rfl, ?_⟩, ?_, ?_⟩
  · simp [Spelling.chars, Spelling.fractionChars_of_ne_nil hrest, Spelling.exponentChars, placePoint]
  · exact fun c hc => isDigit_zeros (k := 1) hc
  · intro c hc
    rcases List.mem_append.1 hc with hc | hc
    · exact isDigit_zeros hc
    · exact digit_of_mem hds hc
  · rw [Spelling.isWhole, List.isEmpty_eq_false_iff.2 hrest, Bool.false_and]
  · have hlen : ((List.replicate k '0' ++ ds).length : ℤ) = k + ds.length := by
      rw [List.length_append, List.length_replicate, Nat.cast_add]
    have hdigits : Nat.ofDigitChars 10 (['0'] ++ (List.replicate k '0' ++ ds)) 0 = d.digits :=
      (ofDigitChars_replicate_append k ds).trans (ofDigitChars_digits hds)
    rw [Spelling.decimal, hdigits, Option.getD_none, hlen]
    congr 2
    omega

/-- The point after the first digit, with an exponent. -/
theorem spells_scaled {e : ℤ} (hexp : d.exponent + ((ds.length : ℤ) - 1) = e) (hd : 0 < d.digits) :
    Spelling.Spells ⟨ds.take 1, ds.drop 1, some e⟩ (withExponent ds e) d := by
  have hlen : 0 < ds.length := hds ▸ Nat.length_toDigits_pos
  have hbody : (if (ds.drop 1).isEmpty then ds.take 1 else ds.take 1 ++ '.' :: ds.drop 1) =
      ds.take 1 ++ Spelling.fractionChars (ds.drop 1) := by
    by_cases hrest : ds.drop 1 = []
    · simp [hrest, Spelling.fractionChars]
    · rw [if_neg (by simpa using hrest), Spelling.fractionChars_of_ne_nil hrest]
  refine ⟨?_, valid_split hds one_pos hd _, Bool.and_false _, value_split hds hlen hexp.symm⟩
  rw [withExponent.eq_def]
  dsimp only
  rw [hbody]
  cases e with
  | ofNat e => simp [Spelling.chars, Spelling.exponentChars]
  | negSucc e => simp [Spelling.chars, Spelling.exponentChars]

end Cases

theorem spells_spelling {d : Decimal} (hd : 0 < d.digits ∨ d = ⟨0, 0⟩) :
    (spelling d).Spells (json.decimal d) d := by
  -- Only a decimal with digits other than a single zero is split or scaled.
  have hpos : d ≠ ⟨0, 0⟩ → 0 < d.digits := hd.resolve_right
  unfold spelling decimal
  dsimp only
  generalize hexp : d.exponent + (((Nat.toDigits 10 d.digits).length : ℤ) - 1) = e
  by_cases hp : json.positional e = true
  · rw [if_pos hp, if_pos hp]
    cases e with
    | ofNat k =>
      dsimp only
      by_cases hk : (Nat.toDigits 10 d.digits).length ≤ k + 1
      · rw [if_pos hk]
        exact spells_padded rfl hk hexp hd
      · rw [if_neg hk]
        refine spells_split rfl hk hexp (hpos ?_)
        rintro rfl
        exact hk (Nat.succ_le_succ (Nat.zero_le k))
    | negSucc k => exact spells_small rfl hexp
  · rw [if_neg hp, if_neg hp]
    refine spells_scaled rfl hexp (hpos ?_)
    rintro rfl
    subst hexp
    exact hp rfl

/-! ## Finite numbers -/

/-- The decimal that stands for the number without its sign. -/
def magnitude (x : Float) : Decimal :=
  if x.abs.toBits = 0 then ⟨0, 0⟩ else Decimal.shortest json.half x.abs

theorem toFloat_magnitude {x : Float} (hx : x.isFinite = true) : (magnitude x).toFloat = x.abs :=
  Decimal.toFloat_spelled hx json.half

theorem digits_magnitude {x : Float} (hx : x.isFinite = true) :
    0 < (magnitude x).digits ∨ magnitude x = ⟨0, 0⟩ := by
  by_cases hzero : x.abs.toBits = 0
  · exact .inr (if_pos hzero)
  · left
    by_contra hdigits
    have hread : (magnitude x).toFloat = 0.0 := Decimal.toFloat_of_zero (by omega)
    rw [toFloat_magnitude hx] at hread
    exact hzero (hread ▸ rfl)

def spelled (x : Float) : Spelling :=
  spelling (magnitude x)

theorem spells_spelled {x : Float} (hx : x.isFinite = true) :
    (spelled x).Spells (json.decimal (magnitude x)) (magnitude x) :=
  spells_spelling (digits_magnitude hx)

def isNegative (x : Float) : Bool :=
  decide ¬ x.toBits < 0x8000000000000000

theorem finite_eq {x : Float} (hx : x.isFinite = true) :
    json.finite x = if isNegative x then '-' :: (spelled x).chars else (spelled x).chars := by
  rw [(spells_spelled hx).chars_eq]
  by_cases hs : x.toBits < 0x8000000000000000
  · have hneg : isNegative x = false := by simp [isNegative, hs]
    rw [hneg]
    exact if_pos hs
  · have hneg : isNegative x = true := by simp [isNegative, hs]
    rw [hneg]
    exact if_neg hs

theorem toFloat_spelled {x : Float} (hx : x.isFinite = true) :
    (spelled x).decimal.toFloat = x.abs := by
  rw [Decimal.toFloat_congr (spells_spelled hx).value_eq, toFloat_magnitude hx]

/-- A finite number is its absolute value with its sign, bit for bit. -/
theorem signed_abs {x : Float} (hx : x.isFinite = true) :
    (if isNegative x then -x.abs else x.abs) = x := by
  unfold isNegative
  by_cases hs : x.toBits < 0x8000000000000000
  · rw [if_neg (by simp [hs])]
    exact Binary64.abs_eq_self hx (if_pos (UInt64.lt_iff_toNat_lt.1 hs))
  · rw [if_pos (by simp [hs])]
    exact Binary64.neg_abs_eq_self hx (if_neg fun h => hs (UInt64.lt_iff_toNat_lt.2 h))

end Layout

end MarkovSim
