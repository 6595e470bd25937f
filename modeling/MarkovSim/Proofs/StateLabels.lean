import MarkovSim.Label.OfState

/-!
# Labels given to states

Halving finds a number in an ascending array, or the place that keeps the array ascending with it
(`search_spec`). `StateLabels.Written` holds of the labels that can be written with the operations: none
at first, then declared or given to a state one at a time. In such labels the states of a label are
listed in ascending order, each once (`Written.sorted`), so a search finds exactly those that carry it
(`Written.has_iff`), and only states that exist do (`Written.lt_states`).
-/

namespace MarkovSim

namespace Registry

variable {α : Type}

theorem lookup_cons_ite (key n : String) (a : α) (rest : List (String × α)) :
    ((key, a) :: rest).lookup n = if n = key then some a else rest.lookup n := by
  by_cases h : n = key
  · rw [if_pos h, h, List.lookup_cons_self]
  · rw [if_neg h, List.lookup_cons, beq_false_of_ne h]

theorem lookup_alterEntries (name n : String) (default : α) (f : α → α)
    (entries : List (String × α)) :
    (alterEntries name default f entries).lookup n =
      if n = name then some (f ((entries.lookup name).getD default)) else entries.lookup n := by
  induction entries with
  | nil => rw [alterEntries, lookup_cons_ite]; rfl
  | cons e rest ih =>
    obtain ⟨key, a⟩ := e
    unfold alterEntries
    by_cases hk : key = name
    · subst hk
      rw [if_pos rfl, lookup_cons_ite, lookup_cons_ite, lookup_cons_ite, if_pos rfl, Option.getD_some]
      by_cases hn : n = key
      · rw [if_pos hn, if_pos hn]
      · rw [if_neg hn, if_neg hn, if_neg hn]
    · rw [if_neg hk, lookup_cons_ite, lookup_cons_ite, lookup_cons_ite, ih,
        if_neg (fun h => hk h.symm : ¬ name = key)]
      by_cases hn : n = key
      · subst hn
        rw [if_pos rfl, if_pos rfl, if_neg hk]
      · rw [if_neg hn, if_neg hn]

theorem get?_alter (r : Registry α) (name n : String) (default : α) (f : α → α) :
    (r.alter name default f).get? n =
      if n = name then some (f ((r.get? name).getD default)) else r.get? n :=
  lookup_alterEntries name n default f r.entries

end Registry

namespace StateLabels

/-! ## Searching by halves -/

section Search

variable {xs : Array Nat} {s base size : Nat}

/-- The last entry that is not above `s` stands in the stretch of `size` entries from `base` on, unless
all entries are above `s`. -/
structure Straddles (xs : Array Nat) (s base size : Nat) : Prop where
  fits : base + size ≤ xs.size
  low : base = 0 ∨ xs.getD base 0 ≤ s
  high : ∀ j t, base + size ≤ j → xs[j]? = some t → s < t

theorem lt_of_ascending (h : xs.toList.Pairwise (· < ·)) {i j a b : Nat} (hij : i < j)
    (ha : xs[i]? = some a) (hb : xs[j]? = some b) : a < b := by
  obtain ⟨hi, rfl⟩ := Array.getElem?_eq_some_iff.1 ha
  obtain ⟨hj, rfl⟩ := Array.getElem?_eq_some_iff.1 hb
  exact List.pairwise_iff_getElem.1 h i j hi hj hij

theorem getD_of_getElem? {i t : Nat} (h : xs[i]? = some t) : xs.getD i 0 = t := by
  rw [Array.getD_eq_getD_getElem?, h, Option.getD_some]

/-- A comparison with the middle entry halves the stretch. -/
theorem Straddles.halve (hxs : xs.toList.Pairwise (· < ·)) (h : Straddles xs s base size)
    (hsize : 1 < size) :
    Straddles xs s (if xs.getD (base + size / 2) 0 ≤ s then base + size / 2 else base)
      (size - size / 2) := by
  have hfits := h.fits
  by_cases hmid : xs.getD (base + size / 2) 0 ≤ s
  · rw [if_pos hmid]
    refine ⟨by omega, Or.inr hmid, fun j t hj ht => h.high j t (by omega) ht⟩
  · rw [if_neg hmid]
    refine ⟨by omega, h.low, fun j t hj ht => ?_⟩
    -- From the middle entry on all entries are above `s`.
    obtain ⟨m, hm⟩ : ∃ m, xs[base + size / 2]? = some m :=
      ⟨_, Array.getElem?_eq_getElem (by omega)⟩
    rw [getD_of_getElem? hm] at hmid
    rcases Nat.eq_or_lt_of_le (by omega : base + size / 2 ≤ j) with rfl | hbefore
    · obtain rfl := Option.some.inj (hm.symm.trans ht)
      omega
    · have hless := lt_of_ascending hxs hbefore hm ht
      omega

theorem Straddles.narrow (hxs : xs.toList.Pairwise (· < ·)) (h : Straddles xs s base size)
    (hsize : 0 < size) : Straddles xs s (narrow xs s base size) 1 := by
  fun_induction StateLabels.narrow xs s base size with
  | case1 base size hone =>
    obtain rfl : size = 1 := by omega
    exact h
  | case2 base size hmore mid ih => exact ih (h.halve hxs (by omega)) (by omega)

/-- Behind the entry that the search is left with all entries are above `s`. -/
theorem Straddles.lt_of_mem_drop {i : Nat} (h : Straddles xs s i 1) :
    ∀ t ∈ xs.toList.drop (i + 1), s < t := by
  intro t ht
  obtain ⟨j, hj⟩ := List.getElem?_of_mem ht
  rw [List.getElem?_drop, Array.getElem?_toList] at hj
  exact h.high _ t (by omega) hj

theorem le_of_mem_take (hxs : xs.toList.Pairwise (· < ·)) {i a : Nat} (ha : xs[i]? = some a) :
    ∀ t ∈ xs.toList.take (i + 1), t ≤ a := by
  intro t ht
  obtain ⟨j, hj⟩ := List.getElem?_of_mem ht
  rw [List.getElem?_take, Array.getElem?_toList] at hj
  split at hj
  case isFalse => cases hj
  case isTrue hji =>
    rcases Nat.eq_or_lt_of_le (Nat.le_of_lt_succ hji) with rfl | hbefore
    · exact Nat.le_of_eq (Option.some.inj (hj.symm.trans ha))
    · exact Nat.le_of_lt (lt_of_ascending hxs hbefore hj ha)

/-- In an ascending array a number is found where it stands, or missed where everything before is below
and everything after is above it. -/
theorem search_spec (hxs : xs.toList.Pairwise (· < ·)) (s : Nat) :
    (∃ i, search xs s = .found i ∧ xs[i]? = some s) ∨
      ∃ i, search xs s = .missing i ∧ (∀ t ∈ xs.toList.take i, t < s) ∧
        ∀ t ∈ xs.toList.drop i, s < t := by
  unfold search
  by_cases hempty : xs.isEmpty = true
  · rw [if_pos hempty]
    have hnil : xs.toList = [] := by simpa using hempty
    exact Or.inr ⟨0, rfl, by simp, by simp [hnil]⟩
  · rw [if_neg hempty]
    have hpos : 0 < xs.size := by
      rw [Array.isEmpty_iff_size_eq_zero] at hempty
      omega
    have hwhole : Straddles xs s 0 xs.size := by
      refine ⟨by omega, Or.inl rfl, fun j t hj ht => ?_⟩
      have hlt := (Array.getElem?_eq_some_iff.1 ht).1
      omega
    have hlast := hwhole.narrow hxs hpos
    simp only
    generalize narrow xs s 0 xs.size = i at hlast
    have hi : i < xs.size := hlast.fits
    have hentry : xs[i]? = some xs[i] := Array.getElem?_eq_getElem hi
    have hlow := hlast.low
    rw [getD_of_getElem? hentry] at hlow ⊢
    by_cases heq : xs[i] = s
    · rw [if_pos heq]
      exact Or.inl ⟨i, rfl, by rw [hentry, heq]⟩
    · rw [if_neg heq]
      by_cases hlt : xs[i] < s
      · rw [if_pos hlt]
        exact Or.inr ⟨i + 1, rfl, fun t ht => Nat.lt_of_le_of_lt (le_of_mem_take hxs hentry t ht) hlt,
          hlast.lt_of_mem_drop⟩
      · rw [if_neg hlt]
        obtain rfl : i = 0 := by omega
        refine Or.inr ⟨0, rfl, by simp, fun t ht => ?_⟩
        rw [List.drop_eq_getElem_cons (by simpa using hi)] at ht
        rcases List.mem_cons.1 ht with rfl | ht
        · simp only [Array.getElem_toList]
          omega
        · exact hlast.lt_of_mem_drop t ht

theorem isFound_search_iff (hxs : xs.toList.Pairwise (· < ·)) :
    (search xs s).isFound = true ↔ s ∈ xs.toList := by
  rcases search_spec hxs s with ⟨i, hi, hentry⟩ | ⟨i, hi, hbelow, habove⟩
  · simp [hi, Place.isFound, Array.mem_of_getElem? hentry]
  · refine iff_of_false (by simp [hi, Place.isFound]) fun hmem => ?_
    rw [← List.take_append_drop i xs.toList, List.mem_append] at hmem
    rcases hmem with hmem | hmem
    · exact Nat.lt_irrefl s (hbelow s hmem)
    · exact Nat.lt_irrefl s (habove s hmem)

theorem toList_split (xs : Array Nat) (s i : Nat) :
    (xs.take i ++ #[s] ++ xs.drop i).toList = xs.toList.take i ++ s :: xs.toList.drop i := by
  simp [List.take_of_length_le]

theorem mem_insertState (hxs : xs.toList.Pairwise (· < ·)) {t : Nat} :
    t ∈ (insertState s xs).toList ↔ t = s ∨ t ∈ xs.toList := by
  unfold insertState
  rcases search_spec hxs s with ⟨i, hi, hentry⟩ | ⟨i, hi, -, -⟩
  · have hmem : s ∈ xs.toList := Array.mem_toList_iff.2 (Array.mem_of_getElem? hentry)
    rw [hi]
    exact ⟨Or.inr, fun h => h.elim (fun heq => heq ▸ hmem) id⟩
  · have hparts : t ∈ xs.toList ↔ t ∈ xs.toList.take i ∨ t ∈ xs.toList.drop i := by
      rw [← List.mem_append, List.take_append_drop]
    rw [hi, hparts]
    show t ∈ (xs.take i ++ #[s] ++ xs.drop i).toList ↔ _
    rw [toList_split, List.mem_append, List.mem_cons, or_left_comm]

theorem sorted_insertState (hxs : xs.toList.Pairwise (· < ·)) :
    (insertState s xs).toList.Pairwise (· < ·) := by
  unfold insertState
  rcases search_spec hxs s with ⟨i, hi, -⟩ | ⟨i, hi, hbelow, habove⟩
  · rw [hi]
    exact hxs
  · rw [hi]
    show (xs.take i ++ #[s] ++ xs.drop i).toList.Pairwise (· < ·)
    rw [toList_split, List.pairwise_append, List.pairwise_cons]
    refine ⟨hxs.sublist (List.take_sublist i _), ⟨habove, hxs.sublist (List.drop_sublist i _)⟩, ?_⟩
    intro a ha b hb
    rcases List.mem_cons.1 hb with rfl | hb
    · exact hbelow a ha
    · exact Nat.lt_trans (hbelow a ha) (habove b hb)

end Search

/-! ## Labels written one at a time -/

inductive Written : StateLabels → Prop
  | empty (states : Nat) : Written (empty states)
  | declare {l : StateLabels} (label : String) : Written l → Written (l.declare label)
  | attach {l : StateLabels} (label : String) (s : Nat) :
      Written l → Written (l.attach label s).2

theorem holdersOf_declare (l : StateLabels) (label other : String) :
    (l.declare label).holdersOf other = l.holdersOf other := by
  unfold holdersOf declare
  rw [Registry.get?_alter]
  by_cases h : other = label
  · subst h
    simp
  · simp [h]

section Attach

variable {l : StateLabels} {s : Nat}

theorem attach_of_lt (hs : s < l.states) (label : String) :
    l.attach label s =
      (.ok (), { l with holders := l.holders.alter label #[] (insertState s) }) := if_pos hs

theorem attach_of_le (hs : l.states ≤ s) (label : String) :
    l.attach label s = (.error (.strayLabel label s l.states), l) := if_neg (Nat.not_lt.2 hs)

theorem states_attach (l : StateLabels) (label : String) (s : Nat) :
    (l.attach label s).2.states = l.states := by
  rcases Nat.lt_or_ge s l.states with hs | hs
  · rw [attach_of_lt hs]
  · rw [attach_of_le hs]

theorem holdersOf_attach (hs : s < l.states) (label other : String) :
    (l.attach label s).2.holdersOf other =
      if other = label then insertState s (l.holdersOf other) else l.holdersOf other := by
  rw [attach_of_lt hs]
  unfold holdersOf
  rw [Registry.get?_alter]
  by_cases ho : other = label
  · rw [if_pos ho, if_pos ho, ho, Option.getD_some]
  · rw [if_neg ho, if_neg ho]

end Attach

theorem Written.sorted {l : StateLabels} (h : Written l) (label : String) :
    (l.statesWith label).Pairwise (· < ·) := by
  unfold statesWith
  induction h with
  | empty states => exact List.Pairwise.nil
  | declare other _ ih => rwa [holdersOf_declare]
  | @attach l other s _ ih =>
    rcases Nat.lt_or_ge s l.states with hs | hs
    · rw [holdersOf_attach hs]
      split
      · exact sorted_insertState ih
      · exact ih
    · rwa [attach_of_le hs]

theorem Written.has_iff {l : StateLabels} (h : Written l) {s : Nat} {label : String} :
    l.has s label = true ↔ s ∈ l.statesWith label :=
  isFound_search_iff (h.sorted label)

theorem Written.statesWith_ne_nil_iff {l : StateLabels} (h : Written l) {label : String} :
    l.statesWith label ≠ [] ↔ ∃ s, l.has s label = true := by
  simp only [h.has_iff]
  exact ⟨List.exists_mem_of_ne_nil _, fun ⟨s, hs⟩ => List.ne_nil_of_mem hs⟩

theorem Written.mem_statesWith_attach {l : StateLabels} (hw : Written l) {label other : String}
    {s t : Nat} (hs : s < l.states) :
    t ∈ (l.attach label s).2.statesWith other ↔ (t = s ∧ other = label) ∨ t ∈ l.statesWith other := by
  unfold statesWith
  rw [holdersOf_attach hs]
  by_cases ho : other = label
  · simp [ho, mem_insertState (hw.sorted label)]
  · simp [ho]

theorem Written.lt_states {l : StateLabels} (h : Written l) (label : String) :
    ∀ s ∈ l.statesWith label, s < l.states := by
  induction h with
  | empty states =>
    intro s hs
    simp [StateLabels.empty, statesWith, holdersOf, Registry.get?, Registry.empty] at hs
  | declare other _ ih =>
    intro s hs
    exact ih s (by rwa [statesWith, holdersOf_declare] at hs)
  | @attach l other t hw ih =>
    intro s hs
    rw [states_attach]
    rcases Nat.lt_or_ge t l.states with ht | ht
    · rcases (hw.mem_statesWith_attach ht).1 hs with ⟨rfl, -⟩ | hs
      · exact ht
      · exact ih s hs
    · rw [attach_of_le ht] at hs
      exact ih s hs

end StateLabels

end MarkovSim
