import MarkovSim.Json.Value
import MarkovSim.Proofs.Decimal.Spelling

/-!
# Reading what was written

The tree of a value (`Value.tree`) holds its numbers by the digits they are written with and its strings
by their pieces. Reading the text of a value gives this tree and leaves what stands after the text
(`tree?_chars`), provided a number could not go on there (`Closes`). The depth of the readers is bounded
by the number of characters, so `Tree.ofText?` reads every written text (`ofText?_toText`).
-/

namespace MarkovSim.Json

/-! ## The tree of a value -/

def Numeral.ofInt (n : ℤ) : Numeral := ⟨decide (n < 0), true, ⟨n.natAbs, 0⟩⟩

def Numeral.ofFloat (x : Float) : Numeral :=
  ⟨Layout.isNegative x, false, (Layout.spelled x).decimal⟩

/-- A character as it is written in a string: controls without an escape of their own are units. -/
def piece (c : Char) : Piece :=
  if c.toNat < 0x20 ∧ c ∉ ['\x08', '\t', '\n', '\x0c', '\r'] then .unit c.toNat else .char c

def pieces (s : String) : Quoted := s.toList.map piece

namespace Value

mutual

/-- The tree that is read from the text of a value. -/
def tree : Value → Tree
  | .null => .null
  | .bool b => .bool b
  | .whole n => .number (.ofInt n)
  | .real x => if x.isFinite then .number (.ofFloat x) else .null
  | .text s => .string (pieces s)
  | .array items => .array (itemTrees items)
  | .object members => .object (memberTrees members)

def itemTrees : List Value → List Tree
  | [] => []
  | v :: vs => tree v :: itemTrees vs

def memberTrees : List (String × Value) → List (Quoted × Tree)
  | [] => []
  | (k, v) :: ms => (pieces k, tree v) :: memberTrees ms

end

end Value

namespace Reader

/-! ## Numbers -/

/-- After a value stands nothing, or a mark that no number holds. -/
def Closes (rest : List Char) : Prop :=
  ∀ c ∈ rest.head?, c = ',' ∨ c = ']' ∨ c = '}'

theorem closes_nil : Closes [] := by
  intro c hc
  simp at hc

theorem closes_cons {c : Char} (rest : List Char) (h : c = ',' ∨ c = ']' ∨ c = '}') :
    Closes (c :: rest) := by
  intro d hd
  rw [List.head?_cons, Option.mem_some_iff] at hd
  exact hd ▸ h

theorem digit_ne {c d : Char} (hc : c.isDigit = true) (hd : d.isDigit = false) : c ≠ d := by
  rintro rfl
  rw [hc] at hd
  exact absurd hd (by decide)

/-- Digits are read up to the first character that is none. -/
theorem digits?_append {ds rest : List Char} (hne : ds ≠ []) (hds : ∀ c ∈ ds, c.isDigit = true)
    (hrest : ∀ c ∈ rest.head?, c.isDigit = false) : digits? (ds ++ rest) = some (ds, rest) := by
  have hstop : rest.takeWhile Char.isDigit = [] ∧ rest.dropWhile Char.isDigit = rest := by
    cases rest with
    | nil => exact ⟨rfl, rfl⟩
    | cons c rest =>
      have hc : ¬ c.isDigit = true := by simp [hrest c rfl]
      exact ⟨List.takeWhile_cons_of_neg hc, List.dropWhile_cons_of_neg hc⟩
  obtain ⟨d, ds, rfl⟩ := List.exists_cons_of_ne_nil hne
  unfold digits?
  rw [List.takeWhile_append_of_pos hds, List.dropWhile_append_of_pos hds, hstop.1, hstop.2,
    List.append_nil]

theorem whole?_append {ds rest : List Char} (hne : ds ≠ []) (hds : ∀ c ∈ ds, c.isDigit = true)
    (hlead : ds = ['0'] ∨ ds.head? ≠ some '0') (hrest : ∀ c ∈ rest.head?, c.isDigit = false) :
    whole? (ds ++ rest) = some (ds, rest) := by
  rcases hlead with rfl | hlead
  · rfl
  · rw [← digits?_append hne hds hrest]
    obtain ⟨d, ds, rfl⟩ := List.exists_cons_of_ne_nil hne
    have hd : d ≠ '0' := by simpa using hlead
    rw [List.cons_append, whole?.eq_def]
    split
    · simp_all
    · rfl

theorem fraction?_append {ds rest : List Char} (hds : ∀ c ∈ ds, c.isDigit = true)
    (hrest : ∀ c ∈ rest.head?, c.isDigit = false ∧ c ≠ '.') :
    fraction? (Spelling.fractionChars ds ++ rest) = some (ds, rest) := by
  by_cases hne : ds = []
  · subst hne
    rw [Spelling.fractionChars, List.nil_append, fraction?.eq_def]
    split
    · exact absurd rfl (hrest '.' rfl).2
    · rfl
  · rw [Spelling.fractionChars_of_ne_nil hne, List.cons_append, fraction?]
    exact digits?_append hne hds fun c hc => (hrest c hc).1

theorem Closes.head {rest : List Char} (h : Closes rest) :
    ∀ c ∈ rest.head?, c.isDigit = false ∧ c ≠ '.' := by
  intro c hc
  rcases h c hc with rfl | rfl | rfl <;> decide

theorem exponent?_append (e : Option ℤ) {rest : List Char} (hrest : Closes rest) :
    exponent? (Spelling.exponentChars e ++ rest) = some (e, rest) := by
  have hdigits (n : ℕ) : digits? (Nat.toDigits 10 n ++ rest) = some (Nat.toDigits 10 n, rest) :=
    digits?_append Nat.toDigits_ne_nil isDigit_toDigits fun c hc => (hrest.head c hc).1
  rcases e with _ | ⟨n | n⟩
  · rw [Spelling.exponentChars, List.nil_append, exponent?.eq_def]
    split
    · exact absurd (hrest 'e' rfl) (by decide)
    · exact absurd (hrest 'E' rfl) (by decide)
    · rfl
  · simp only [Spelling.exponentChars, List.cons_append, exponent?, scale?, hdigits, natOf,
      Nat.ofDigitChars_ten_toDigits, Option.map_some, Int.ofNat_eq_natCast]
  · simp only [Spelling.exponentChars, List.cons_append, exponent?, scale?, hdigits, natOf,
      Nat.ofDigitChars_ten_toDigits, Option.map_some, Int.negSucc_eq, Nat.cast_succ]

theorem head_exponent (e : Option ℤ) {rest : List Char} (hrest : Closes rest) :
    ∀ c ∈ (Spelling.exponentChars e ++ rest).head?, c.isDigit = false ∧ c ≠ '.' := by
  rcases e with _ | ⟨n | n⟩
  · exact hrest.head
  · rintro c ⟨⟩
    decide
  · rintro c ⟨⟩
    decide

theorem head_fraction (ds : List Char) {rest : List Char}
    (hrest : ∀ c ∈ rest.head?, c.isDigit = false ∧ c ≠ '.') :
    ∀ c ∈ (Spelling.fractionChars ds ++ rest).head?, c.isDigit = false := by
  rcases ds with _ | ⟨d, ds⟩
  · exact fun c hc => (hrest c hc).1
  · rintro c ⟨⟩
    decide

/-- A spelled number is read with its form and its decimal. -/
theorem unsigned?_chars (negative : Bool) {s : Spelling} (hs : s.Valid) {rest : List Char}
    (hrest : Closes rest) : unsigned? negative (s.chars ++ rest) =
      some (⟨negative, s.isWhole, s.decimal⟩, rest) := by
  have hexponent := head_exponent s.exponent hrest
  have hfraction := head_fraction s.fraction hexponent
  unfold unsigned?
  rw [Spelling.chars, List.append_assoc, List.append_assoc,
    whole?_append hs.whole_ne_nil hs.whole_digit hs.leading hfraction]
  show (fraction? _ >>= _) = _
  rw [fraction?_append hs.fraction_digit hexponent]
  show (exponent? _ >>= _) = _
  rw [exponent?_append s.exponent hrest]
  rfl

theorem head_chars_of_valid {s : Spelling} (hs : s.Valid) :
    ∃ c cs, s.chars = c :: cs ∧ c.isDigit = true := by
  obtain ⟨c, cs, hcs⟩ := List.exists_cons_of_ne_nil hs.whole_ne_nil
  have hc : c.isDigit = true := hs.whole_digit c (hcs ▸ List.mem_cons_self)
  rw [Spelling.chars, hcs, List.cons_append]
  exact ⟨c, _, rfl, hc⟩

theorem numeral?_chars {s : Spelling} (hs : s.Valid) {rest : List Char} (hrest : Closes rest) :
    numeral? (s.chars ++ rest) = some (⟨false, s.isWhole, s.decimal⟩, rest) := by
  rw [← unsigned?_chars false hs hrest]
  obtain ⟨c, cs, hcs, hc⟩ := head_chars_of_valid hs
  have hne : c ≠ '-' := digit_ne hc (by decide)
  rw [hcs, List.cons_append, numeral?.eq_def]
  split
  · simp_all
  · rfl

def StartsNumeral (cs : List Char) : Prop :=
  ∃ c rest, cs = c :: rest ∧ (c = '-' ∨ c.isDigit = true)

theorem numeral_ne {c d : Char} (hc : c = '-' ∨ c.isDigit = true) (hd : d.isDigit = false)
    (hsign : d ≠ '-') : c ≠ d := by
  rcases hc with rfl | hc
  · exact hsign.symm
  · exact digit_ne hc hd

theorem isBlank_numeral {c : Char} (hc : c = '-' ∨ c.isDigit = true) : isBlank c = false := by
  have hne : c ≠ ' ' ∧ c ≠ '\n' ∧ c ≠ '\t' ∧ c ≠ '\r' :=
    ⟨numeral_ne hc rfl (by decide), numeral_ne hc rfl (by decide), numeral_ne hc rfl (by decide),
      numeral_ne hc rfl (by decide)⟩
  simp [isBlank, hne]

theorem skip_cons {c : Char} (hc : isBlank c = false) (rest : List Char) :
    skip (c :: rest) = c :: rest :=
  List.dropWhile_cons_of_neg (by simp [hc])

theorem tree?_of_startsNumeral {cs : List Char} (h : StartsNumeral cs) (fuel : ℕ) :
    tree? (fuel + 1) cs = (numeral? cs).map fun p => (.number p.1, p.2) := by
  obtain ⟨c, rest, rfl, hc⟩ := h
  rw [tree?.eq_def]
  dsimp only
  rw [skip_cons (isBlank_numeral hc)]
  split
  rotate_right
  · rfl
  all_goals
    rename_i heq
    exact absurd (List.cons.inj heq).1 (numeral_ne hc rfl (by decide))

def natural (n : ℕ) : Spelling := ⟨Nat.toDigits 10 n, [], none⟩

theorem chars_natural (n : ℕ) : (natural n).chars = Nat.toDigits 10 n :=
  List.append_nil _

theorem valid_natural (n : ℕ) : (natural n).Valid := by
  refine ⟨Nat.toDigits_ne_nil, isDigit_toDigits, ?_, by simp [natural]⟩
  rcases Nat.eq_zero_or_pos n with rfl | hn
  · exact .inl (Nat.toDigits_zero 10)
  · exact .inr (head?_toDigits hn)

theorem decimal_natural (n : ℕ) : (natural n).decimal = ⟨n, 0⟩ := by
  simp [Spelling.decimal, natural]

/-- The characters of a number, with a sign or without, are read as the number's. -/
theorem numeral?_signed {s : Spelling} (hs : s.Valid) (negative : Bool) {rest : List Char}
    (hrest : Closes rest) : numeral? ((if negative then '-' :: s.chars else s.chars) ++ rest) =
      some (⟨negative, s.isWhole, s.decimal⟩, rest) := by
  cases negative with
  | false => exact numeral?_chars hs hrest
  | true => exact unsigned?_chars true hs hrest

theorem startsNumeral_signed {s : Spelling} (hs : s.Valid) (negative : Bool) :
    StartsNumeral (if negative then '-' :: s.chars else s.chars) := by
  cases negative with
  | false =>
    obtain ⟨c, cs, hcs, hc⟩ := head_chars_of_valid hs
    exact ⟨c, cs, hcs, .inr hc⟩
  | true => exact ⟨'-', s.chars, rfl, .inl rfl⟩

theorem wholeChars_eq (n : ℤ) : wholeChars n =
    if decide (n < 0) then '-' :: (natural n.natAbs).chars else (natural n.natAbs).chars := by
  rw [chars_natural]
  cases n with
  | ofNat n => rfl
  | negSucc n =>
    rw [if_pos (decide_eq_true (Int.negSucc_lt_zero n))]
    rfl

theorem tree?_signed {s : Spelling} (hs : s.Valid) (negative : Bool) (fuel : ℕ) {rest : List Char}
    (hrest : Closes rest) :
    tree? (fuel + 1) ((if negative then '-' :: s.chars else s.chars) ++ rest) =
      some (.number ⟨negative, s.isWhole, s.decimal⟩, rest) := by
  obtain ⟨c, cs, hcs, hc⟩ := startsNumeral_signed hs negative
  have hstarts : StartsNumeral ((if negative then '-' :: s.chars else s.chars) ++ rest) :=
    ⟨c, cs ++ rest, by rw [hcs, List.cons_append], hc⟩
  rw [tree?_of_startsNumeral hstarts, numeral?_signed hs negative hrest]
  rfl

/-! ## Strings -/

theorem hexDigit?_hexDigit : ∀ n < 16, hexDigit? (hexDigit n) = some n := by decide

theorem quoted?_cons {c : Char} (hquote : c ≠ '"') (hslash : c ≠ '\\') (hplain : ¬ c.toNat < 0x20)
    (rest : List Char) : quoted? (c :: rest) = (quoted? rest).map fun p => (.char c :: p.1, p.2) := by
  rw [quoted?.eq_def]
  split
  · next heq => cases heq
  · next heq => exact absurd (List.cons.inj heq).1 hquote
  · next heq => exact absurd (List.cons.inj heq).1 hslash
  · next heq => exact absurd (List.cons.inj heq).1 hslash
  · next heq =>
    obtain ⟨rfl, rfl⟩ := List.cons.inj heq
    rw [if_neg (by simp [hplain, hslash])]
    cases quoted? rest <;> rfl

theorem quoted?_escaped {e c : Char} (he : escaped? e = some c) (hu : e ≠ 'u') (rest : List Char) :
    quoted? (['\\', e] ++ rest) = (quoted? rest).map fun p => (.char c :: p.1, p.2) := by
  rw [List.cons_append, List.cons_append, List.nil_append, quoted?.eq_def]
  split
  · next heq => cases heq
  · next heq => exact absurd (List.cons.inj heq).1 (by decide)
  · next heq => exact absurd (List.cons.inj (List.cons.inj heq).2).1 hu
  · next heq =>
    obtain ⟨-, heq⟩ := List.cons.inj heq
    obtain ⟨rfl, rfl⟩ := List.cons.inj heq
    rw [he]
    cases quoted? rest <;> rfl
  · next hne heq =>
    obtain ⟨rfl, rfl⟩ := List.cons.inj heq
    exact absurd rfl (hne e rest rfl)

theorem quoted?_unit {n : ℕ} (hn : n < 0x20) (rest : List Char) :
    quoted? (['\\', 'u', '0', '0', hexDigit (n / 16), hexDigit (n % 16)] ++ rest) =
      (quoted? rest).map fun p => (.unit n :: p.1, p.2) := by
  have hunit : hexUnit? '0' '0' (hexDigit (n / 16)) (hexDigit (n % 16)) = some n := by
    have hzero : hexDigit? '0' = some 0 := rfl
    rw [hexUnit?, hzero, hexDigit?_hexDigit _ (by omega), hexDigit?_hexDigit _ (by omega)]
    show some _ = _
    congr 1
    omega
  simp only [List.cons_append, List.nil_append]
  rw [quoted?, hunit]
  cases quoted? rest <;> rfl

/-- A character is read as its piece, however it is escaped. -/
theorem quoted?_escape (c : Char) (rest : List Char) :
    quoted? (escape c ++ rest) = (quoted? rest).map fun p => (piece c :: p.1, p.2) := by
  by_cases hshort : c ∈ ['"', '\\', '\x08', '\t', '\n', '\x0c', '\r']
  · simp only [List.mem_cons, List.not_mem_nil, or_false] at hshort
    rcases hshort with rfl | rfl | rfl | rfl | rfl | rfl | rfl
    · exact quoted?_escaped (e := '"') rfl (by decide) rest
    · exact quoted?_escaped (e := '\\') rfl (by decide) rest
    · exact quoted?_escaped (e := 'b') rfl (by decide) rest
    · exact quoted?_escaped (e := 't') rfl (by decide) rest
    · exact quoted?_escaped (e := 'n') rfl (by decide) rest
    · exact quoted?_escaped (e := 'f') rfl (by decide) rest
    · exact quoted?_escaped (e := 'r') rfl (by decide) rest
  · simp only [List.mem_cons, List.not_mem_nil, or_false, not_or] at hshort
    obtain ⟨hquote, hslash, hb, ht, hn, hf, hr⟩ := hshort
    unfold escape
    rw [if_neg hquote, if_neg hslash, if_neg hb, if_neg ht, if_neg hn, if_neg hf, if_neg hr]
    by_cases hcontrol : c.toNat < 0x20
    · rw [if_pos hcontrol, quoted?_unit hcontrol, piece, if_pos (by simp [*])]
    · rw [if_neg hcontrol, piece, if_neg (fun h => hcontrol h.1)]
      exact quoted?_cons hquote hslash hcontrol rest

theorem quoted?_flatMap (cs rest : List Char) :
    quoted? (cs.flatMap escape ++ '"' :: rest) = some (cs.map piece, rest) := by
  induction cs with
  | nil => rfl
  | cons c cs ih =>
    rw [List.flatMap_cons, List.append_assoc, quoted?_escape, ih]
    rfl

theorem key?_quote (k : String) (rest : List Char) :
    key? (quote k ++ ':' :: rest) = some (pieces k, rest) := by
  have hquote : quote k ++ ':' :: rest = '"' :: (k.toList.flatMap escape ++ '"' :: ':' :: rest) := by
    simp [quote]
  rw [hquote, key?]
  show (quoted? _ >>= _) = _
  rw [quoted?_flatMap]
  rfl

/-! ## Values -/

open Value

/-- The text of a value starts with no blank and no closing bracket. -/
theorem head_chars (v : Value) : ∃ c cs, v.chars = c :: cs ∧ isBlank c = false ∧ c ≠ ']' := by
  have hnumeral {cs : List Char} (h : StartsNumeral cs) :
      ∃ c t, cs = c :: t ∧ isBlank c = false ∧ c ≠ ']' := by
    obtain ⟨c, t, rfl, hc⟩ := h
    exact ⟨c, t, rfl, isBlank_numeral hc, numeral_ne hc rfl (by decide)⟩
  cases v with
  | null => exact ⟨'n', _, rfl, rfl, by decide⟩
  | bool b => cases b with
    | true => exact ⟨'t', _, rfl, rfl, by decide⟩
    | false => exact ⟨'f', _, rfl, rfl, by decide⟩
  | whole n =>
    rw [chars, wholeChars_eq]
    exact hnumeral (startsNumeral_signed (valid_natural _) _)
  | real x =>
    rw [chars]
    by_cases hx : x.isFinite = true
    · rw [if_pos hx, Layout.finite_eq hx]
      exact hnumeral (startsNumeral_signed (Layout.spells_spelled hx).valid _)
    · rw [if_neg hx]
      exact ⟨'n', _, rfl, rfl, by decide⟩
  | text s => exact ⟨'"', _, rfl, rfl, by decide⟩
  | array vs => exact ⟨'[', _, by rw [chars]; rfl, rfl, by decide⟩
  | object ms => exact ⟨'{', _, by rw [chars]; rfl, rfl, by decide⟩

theorem chars_pos (v : Value) : 0 < v.chars.length := by
  obtain ⟨c, cs, hcs, -⟩ := head_chars v
  rw [hcs]
  exact Nat.succ_pos _

theorem head_itemChars (v : Value) (vs : List Value) :
    ∃ c cs, itemChars (v :: vs) = c :: cs ∧ isBlank c = false ∧ c ≠ ']' := by
  obtain ⟨c, cs, hcs, hc⟩ := head_chars v
  cases vs with
  | nil => exact ⟨c, cs, by rw [itemChars, hcs], hc⟩
  | cons w vs => exact ⟨c, _, by rw [itemChars, hcs, List.cons_append], hc⟩

theorem head_memberChars (m : String × Value) (ms : List (String × Value)) :
    ∃ cs, memberChars (m :: ms) = '"' :: cs := by
  cases ms with
  | nil => exact ⟨_, by rw [memberChars, quote]; rfl⟩
  | cons n ms => exact ⟨_, by rw [memberChars, quote]; rfl⟩

theorem tree?_bracket {c : Char} (hblank : isBlank c = false) (hc : c ≠ ']') (fuel : ℕ)
    (cs : List Char) : tree? (fuel + 1) ('[' :: c :: cs) =
      (items? fuel (c :: cs)).map fun p => (.array p.1, p.2) := by
  simp only [tree?, skip_cons (c := '[') rfl, skip_cons hblank]
  split
  · next heq => exact absurd (List.cons.inj heq).1 hc
  · rfl

mutual

/-- The text of a value is read as its tree, up to what closes it. -/
theorem tree?_chars : ∀ (v : Value) (fuel : ℕ) (rest : List Char), v.chars.length ≤ fuel →
    Closes rest → tree? fuel (v.chars ++ rest) = some (v.tree, rest)
  | v, 0, rest, hfuel, _ => absurd hfuel (Nat.not_le_of_lt (chars_pos v))
  | .null, fuel + 1, rest, _, _ => rfl
  | .bool true, fuel + 1, rest, _, _ => rfl
  | .bool false, fuel + 1, rest, _, _ => rfl
  | .whole n, fuel + 1, rest, _, hrest => by
    rw [chars, tree, wholeChars_eq, tree?_signed (valid_natural _) _ fuel hrest, decimal_natural]
    rfl
  | .real x, fuel + 1, rest, _, hrest => by
    rw [chars, tree]
    by_cases hx : x.isFinite = true
    · have hspelled := Layout.spells_spelled hx
      rw [if_pos hx, if_pos hx, Layout.finite_eq hx, tree?_signed hspelled.valid _ fuel hrest,
        hspelled.isWhole_eq]
      rfl
    · rw [if_neg hx, if_neg hx]
      rfl
  | .text s, fuel + 1, rest, _, _ => by
    have hquote : quote s ++ rest = '"' :: (s.toList.flatMap escape ++ '"' :: rest) := by
      simp [quote]
    rw [chars, tree, hquote]
    show (quoted? _).map _ = _
    rw [quoted?_flatMap]
    rfl
  | .array [], fuel + 1, rest, _, _ => by
    rw [chars, tree, itemChars, itemTrees]
    rfl
  | .array (v :: vs), fuel + 1, rest, hfuel, _ => by
    have hitems := items?_itemChars v vs fuel rest (by simpa [chars] using hfuel)
    obtain ⟨c, cs, hcs, hblank, hc⟩ := head_itemChars v vs
    rw [hcs, List.cons_append] at hitems
    rw [chars, tree, hcs]
    simp only [List.cons_append, List.append_assoc, List.nil_append]
    rw [tree?_bracket hblank hc]
    exact congrArg (Option.map _) hitems
  | .object [], fuel + 1, rest, _, _ => by
    rw [chars, tree, memberChars, memberTrees]
    rfl
  | .object (m :: ms), fuel + 1, rest, hfuel, _ => by
    have hmembers := members?_memberChars m ms fuel rest (by simpa [chars] using hfuel)
    obtain ⟨cs, hcs⟩ := head_memberChars m ms
    rw [hcs, List.cons_append] at hmembers
    rw [chars, tree, hcs]
    simp only [List.cons_append, List.append_assoc, List.nil_append]
    exact congrArg (Option.map _) hmembers

theorem items?_itemChars : ∀ (v : Value) (vs : List Value) (fuel : ℕ) (rest : List Char),
    (itemChars (v :: vs)).length + 1 ≤ fuel →
    items? fuel (itemChars (v :: vs) ++ ']' :: rest) = some (itemTrees (v :: vs), rest)
  | v, [], fuel + 1, rest, hfuel => by
    have hv := tree?_chars v fuel (']' :: rest) (by simpa [itemChars] using hfuel)
      (closes_cons _ (by simp))
    rw [itemChars, items?, hv]
    rfl
  | v, w :: vs, fuel + 1, rest, hfuel => by
    rw [itemChars, List.length_append, List.length_cons] at hfuel
    have hv := tree?_chars v fuel (',' :: (itemChars (w :: vs) ++ ']' :: rest)) (by omega)
      (closes_cons _ (by simp))
    have hvs := items?_itemChars w vs fuel rest (by omega)
    rw [itemChars, List.append_assoc, List.cons_append, items?, hv]
    show (items? _ _ >>= _) = _
    rw [hvs]
    rfl

theorem members?_memberChars : ∀ (m : String × Value) (ms : List (String × Value)) (fuel : ℕ)
    (rest : List Char), (memberChars (m :: ms)).length + 1 ≤ fuel →
    members? fuel (memberChars (m :: ms) ++ '}' :: rest) = some (memberTrees (m :: ms), rest)
  | (k, v), [], fuel + 1, rest, hfuel => by
    rw [memberChars, List.length_append, List.length_cons] at hfuel
    have hv := tree?_chars v fuel ('}' :: rest) (by omega) (closes_cons _ (by simp))
    rw [memberChars, List.append_assoc, List.cons_append, members?, key?_quote]
    show (tree? _ _ >>= _) = _
    rw [hv]
    rfl
  | (k, v), m :: ms, fuel + 1, rest, hfuel => by
    rw [memberChars, List.length_append, List.length_append, List.length_cons,
      List.length_cons] at hfuel
    have hv := tree?_chars v fuel (',' :: (memberChars (m :: ms) ++ '}' :: rest)) (by omega)
      (closes_cons _ (by simp))
    have hms := members?_memberChars m ms fuel rest (by omega)
    rw [memberChars, List.append_assoc, List.append_assoc, List.cons_append, List.cons_append,
      members?, key?_quote]
    show (tree? _ _ >>= _) = _
    rw [hv]
    show (members? _ _ >>= _) = _
    rw [hms]
    rfl

end

end Reader

/-- Every written text is read, as the tree of its value. -/
theorem ofText?_toText (v : Value) : Tree.ofText? v.toText = some v.tree := by
  have hread := Reader.tree?_chars v (2 * v.toText.length + 2) [] (by simp [Value.toText]; omega)
    Reader.closes_nil
  rw [List.append_nil] at hread
  rw [Tree.ofText?, Value.toText, String.toList_ofList, ← Value.toText, hread]
  rfl

end MarkovSim.Json
