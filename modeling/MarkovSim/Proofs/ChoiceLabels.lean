import Mathlib.Data.List.Induction
import Mathlib.Data.List.Nodup
import MarkovSim.Label.OfChoice

/-!
# Labels given to choices

The labels after a list of requests are read off the requests that were granted: the names are their
labels in order of first use, and a choice holds the numbers of the labels given to it
(`Tracks.attachAll`). While numbers do not run out, a number stands for one label, so both look-ups
answer from the requests. That they agree with each other needs no history (`mem_labelsOf_iff`,
`mem_choicesWith_iff`): it also holds of labels that were read, whatever numbers stand in them.

Of the labels of `n` choices after requests for labels, made from none:

1. A request is granted exactly for a choice below `n`. One that is not changes nothing: the requests
   that were granted lead to the same labels by themselves.
2. The names are the labels given to any choice, in the order in which they were first given.
3. While numbers do not run out, the labels of a choice are those it was given, in the order in which it
   was first given them, and the choices with a label are those that were given it, ascending.
4. In all labels a choice has a label if and only if it is among the choices with that label.
-/

namespace MarkovSim

theorem eraseDups_concat {α : Type} [BEq α] [LawfulBEq α] [DecidableEq α] (xs : List α) (x : α) :
    (xs ++ [x]).eraseDups =
      if x ∈ xs.eraseDups then xs.eraseDups else xs.eraseDups ++ [x] := by
  rw [List.eraseDups_append]
  simp only [List.mem_eraseDups]
  by_cases hx : x ∈ xs
  · simp [List.removeAll, hx]
  · simp [List.removeAll, hx, List.eraseDups_cons]

/-- Values that tell the entries apart repeat where the entries do. -/
theorem eraseDups_map_of_injOn {α β : Type} [BEq α] [LawfulBEq α] [DecidableEq α] [BEq β]
    [LawfulBEq β] [DecidableEq β] {f : α → β} (xs : List α)
    (hf : ∀ x ∈ xs, ∀ y ∈ xs, f x = f y → x = y) :
    (xs.map f).eraseDups = xs.eraseDups.map f := by
  induction xs using List.reverseRecOn with
  | nil => rfl
  | append_singleton xs x ih =>
    have hiff : f x ∈ xs.eraseDups.map f ↔ x ∈ xs.eraseDups := by
      refine ⟨fun hmem => ?_, List.mem_map_of_mem⟩
      obtain ⟨y, hy, heq⟩ := List.mem_map.1 hmem
      exact hf y (List.mem_append_left _ (List.mem_eraseDups.1 hy)) x (by simp) heq ▸ hy
    have hrest := ih fun y hy z hz => hf y (List.mem_append_left _ hy) z (List.mem_append_left _ hz)
    rw [List.map_append, List.map_singleton, eraseDups_concat, eraseDups_concat, hrest]
    by_cases hx : x ∈ xs.eraseDups
    · rw [if_pos hx, if_pos (hiff.2 hx)]
    · rw [if_neg hx, if_neg (mt hiff.1 hx), List.map_append, List.map_singleton]

namespace ChoiceLabels

/-! ## Numbers of labels -/

/-- The number of a label among the names. -/
def number (names : List String) (label : String) : UInt32 := UInt32.ofNat (names.idxOf label)

theorem toNat_number {names : List String} (hcount : names.length ≤ UInt32.size) {label : String}
    (h : label ∈ names) : (number names label).toNat = names.idxOf label :=
  UInt32.toNat_ofNat_of_lt' (Nat.lt_of_lt_of_le (List.idxOf_lt_length_iff.2 h) hcount)

theorem getElem?_number {names : List String} (hcount : names.length ≤ UInt32.size) {label : String}
    (h : label ∈ names) : names[(number names label).toNat]? = some label := by
  rw [toNat_number hcount h]
  exact List.getElem?_idxOf h

theorem number_of_getElem? {names : List String} (hdistinct : names.Nodup) {id : UInt32} {label : String}
    (h : names[id.toNat]? = some label) : number names label = id := by
  obtain ⟨hlt, rfl⟩ := List.getElem?_eq_some_iff.1 h
  rw [number, hdistinct.idxOf_getElem _ hlt, UInt32.ofNat_toNat]

theorem number_injOn {names : List String} (hcount : names.length ≤ UInt32.size) {a b : String}
    (ha : a ∈ names) (hb : b ∈ names) (h : number names a = number names b) : a = b := by
  have hget := getElem?_number hcount ha
  rw [h, getElem?_number hcount hb] at hget
  exact (Option.some.inj hget).symm

theorem intern_of_mem {names : List String} {label : String} (h : label ∈ names) :
    intern names label = (names, number names label) := by
  cases hi : names.idxOf? label with
  | none => exact absurd h (List.idxOf?_eq_none_iff.1 hi)
  | some i =>
    rw [intern, number, List.idxOf_eq_getD_idxOf?, hi]
    rfl

theorem intern_of_not_mem {names : List String} {label : String} (h : label ∉ names) :
    intern names label = (names ++ [label], number (names ++ [label]) label) := by
  have hplace : (names ++ [label]).idxOf label = names.length := by
    simp [List.idxOf_append_of_notMem h]
  rw [intern, List.idxOf?_eq_none_iff.2 h, number, hplace]

theorem intern_fst (names : List String) (label : String) :
    (intern names label).1 = if label ∈ names then names else names ++ [label] := by
  by_cases h : label ∈ names
  · rw [intern_of_mem h, if_pos h]
  · rw [intern_of_not_mem h, if_neg h]

theorem intern_snd (names : List String) (label : String) :
    (intern names label).2 = number (intern names label).1 label := by
  by_cases h : label ∈ names
  · rw [intern_of_mem h]
  · rw [intern_of_not_mem h]

theorem number_intern {names : List String} {other : String} (h : other ∈ names) (label : String) :
    number (intern names label).1 other = number names other := by
  rw [intern_fst]
  by_cases hlabel : label ∈ names
  · rw [if_pos hlabel]
  · rw [if_neg hlabel, number, List.idxOf_append_of_mem h, number]

/-! ## Requests -/

/-- Asks in turn for labels to be given to choices: whether each was given, and the labels after that. -/
def attachAll (l : ChoiceLabels) : List (String × ℕ) → List Bool × ChoiceLabels
  | [] => ([], l)
  | g :: rest =>
    ((l.attach g.1 g.2).1 :: ((l.attach g.1 g.2).2.attachAll rest).1,
      ((l.attach g.1 g.2).2.attachAll rest).2)

def accepted (n : ℕ) (given : List (String × ℕ)) : List (String × ℕ) :=
  given.filter fun g => g.2 < n

/-- The labels that a choice was given, as often as it was. -/
def givenTo (c : ℕ) (given : List (String × ℕ)) : List String :=
  (given.filter fun g => g.2 = c).map Prod.fst

theorem givenTo_append (c : ℕ) (given rest : List (String × ℕ)) :
    givenTo c (given ++ rest) = givenTo c given ++ givenTo c rest := by
  simp [givenTo]

theorem givenTo_concat (c : ℕ) (given : List (String × ℕ)) (label : String) (choice : ℕ) :
    givenTo c (given ++ [(label, choice)]) =
      givenTo c given ++ if choice = c then [label] else [] := by
  by_cases h : choice = c
  · simp [givenTo, h]
  · simp [givenTo, h]

theorem mem_givenTo {c : ℕ} {given : List (String × ℕ)} {label : String} :
    label ∈ givenTo c given ↔ (label, c) ∈ given := by
  simp [givenTo]

theorem attach_of_le {l : ChoiceLabels} {c : ℕ} (hc : l.choiceCount ≤ c) (label : String) :
    l.attach label c = (false, l) := by
  unfold attach
  rw [Array.getElem?_eq_none hc]

/-- A label that is given joins the names, and its number joins those of the choice unless it is there. -/
theorem attach_of_lt {l : ChoiceLabels} {c : ℕ} (hc : c < l.choiceCount) (label : String) :
    ∃ l', l.attach label c = (true, l') ∧ l'.choiceCount = l.choiceCount ∧
      l'.names = (intern l.names label).1 ∧
      ∀ other, l'.idsOf other =
        if other = c ∧ number l'.names label ∉ l.idsOf c then l.idsOf c ++ [number l'.names label]
        else l.idsOf other := by
  replace hc : c < l.ids.size := hc
  have hgiven : l.ids[c]? = some (l.idsOf c) := by
    rw [idsOf, Array.getElem?_eq_getElem hc, Option.getD_some]
  obtain ⟨l', hattach, hnames, hids⟩ : ∃ l', l.attach label c = (true, l') ∧
      l'.names = (intern l.names label).1 ∧
      l'.ids = if (l.idsOf c).contains (intern l.names label).2 then l.ids
        else l.ids.setIfInBounds c (l.idsOf c ++ [(intern l.names label).2]) := by
    refine ⟨(l.attach label c).2, ?_⟩
    unfold attach
    rw [hgiven]
    exact ⟨rfl, rfl, rfl⟩
  rw [intern_snd, ← hnames] at hids
  simp only [List.contains_iff_mem] at hids
  refine ⟨l', hattach, ?_⟩
  by_cases hmem : number l'.names label ∈ l.idsOf c
  · rw [if_pos hmem] at hids
    refine ⟨by rw [choiceCount, choiceCount, hids], hnames, fun other => ?_⟩
    rw [if_neg fun hboth => hboth.2 hmem, idsOf, hids, idsOf]
  · rw [if_neg hmem] at hids
    refine ⟨by rw [choiceCount, choiceCount, hids, Array.size_setIfInBounds], hnames, fun other => ?_⟩
    by_cases ho : other = c
    · rw [if_pos ⟨ho, hmem⟩, idsOf, hids, Array.getElem?_setIfInBounds, if_pos ho.symm, if_pos hc,
        Option.getD_some]
    · rw [if_neg fun hboth => ho hboth.1, idsOf, hids, Array.getElem?_setIfInBounds,
        if_neg (Ne.symm ho), idsOf]

/-! ## What the requests leave behind -/

/-- The labels of `n` choices after the given requests, all of them granted. -/
structure Tracks (n : ℕ) (given : List (String × ℕ)) (l : ChoiceLabels) : Prop where
  count : l.choiceCount = n
  names : l.names = (given.map Prod.fst).eraseDups
  ids : ∀ c, l.idsOf c = ((givenTo c given).map (number l.names)).eraseDups

theorem tracks_empty (n : ℕ) : Tracks n [] (empty n) where
  count := Array.size_replicate
  names := rfl
  ids c := by
    rw [idsOf, empty, Array.getElem?_replicate]
    split <;> rfl

theorem Tracks.mem_names {n : ℕ} {given : List (String × ℕ)} {l : ChoiceLabels}
    (h : Tracks n given l) {label : String} : label ∈ l.names ↔ ∃ c, (label, c) ∈ given := by
  rw [h.names, List.mem_eraseDups]
  simp

theorem Tracks.attach {n : ℕ} {given : List (String × ℕ)} {l : ChoiceLabels} {c : ℕ}
    (h : Tracks n given l) (hc : c < n) (label : String) :
    ∃ l', l.attach label c = (true, l') ∧ Tracks n (given ++ [(label, c)]) l' := by
  obtain ⟨l', hattach, hcount, hnames, hids⟩ := attach_of_lt (h.count.symm ▸ hc) label
  have hkept (other : ℕ) : (givenTo other given).map (number l'.names) =
      (givenTo other given).map (number l.names) := by
    refine List.map_congr_left fun a ha => ?_
    rw [hnames, number_intern (h.mem_names.2 ⟨other, mem_givenTo.1 ha⟩)]
  refine ⟨l', hattach, hcount.trans h.count, ?_, fun other => ?_⟩
  · rw [hnames, intern_fst, List.map_append, List.map_singleton, eraseDups_concat, ← h.names]
  · rw [hids, givenTo_concat]
    by_cases ho : other = c
    · subst ho
      rw [if_pos rfl, List.map_append, List.map_singleton, eraseDups_concat, hkept, ← h.ids]
      by_cases hid : number l'.names label ∈ l.idsOf other
      · rw [if_neg (fun hboth => hboth.2 hid), if_pos hid]
      · rw [if_pos ⟨rfl, hid⟩, if_neg hid]
    · rw [if_neg (fun hboth => ho hboth.1), if_neg (Ne.symm ho), List.append_nil, hkept, h.ids]

/-- Requests are granted for the choices there are, and leave behind what those that were granted do. -/
theorem Tracks.attachAll {n : ℕ} (rest : List (String × ℕ)) : ∀ {given : List (String × ℕ)}
    {l : ChoiceLabels}, Tracks n given l →
      (l.attachAll rest).1 = rest.map (fun g => decide (g.2 < n)) ∧
        Tracks n (given ++ accepted n rest) (l.attachAll rest).2 := by
  induction rest with
  | nil =>
    intro given l h
    refine ⟨rfl, ?_⟩
    rw [accepted, List.filter_nil, List.append_nil]
    exact h
  | cons g rest ih =>
    intro given l h
    by_cases hg : g.2 < n
    · obtain ⟨l', hattach, htracks⟩ := h.attach hg g.1
      obtain ⟨hanswers, htracks⟩ := ih htracks
      simp only [ChoiceLabels.attachAll, hattach, List.map_cons, hg, decide_true, accepted,
        List.filter_cons, if_true]
      refine ⟨by rw [hanswers], ?_⟩
      rwa [List.append_assoc] at htracks
    · have hattach := attach_of_le (h.count.symm ▸ Nat.not_lt.1 hg) g.1
      obtain ⟨hanswers, htracks⟩ := ih h
      simp only [ChoiceLabels.attachAll, hattach, List.map_cons, hg, decide_false, accepted,
        List.filter_cons, Bool.false_eq_true, if_false]
      exact ⟨by rw [hanswers], htracks⟩

theorem ids_eq_of_idsOf {a b : ChoiceLabels} (hcount : a.choiceCount = b.choiceCount)
    (h : ∀ c, a.idsOf c = b.idsOf c) : a.ids = b.ids := by
  refine Array.ext hcount fun c ha hb => ?_
  have hc := h c
  rwa [idsOf, idsOf, Array.getElem?_eq_getElem ha, Array.getElem?_eq_getElem hb] at hc

theorem Tracks.unique {n : ℕ} {given : List (String × ℕ)} {a b : ChoiceLabels} (ha : Tracks n given a)
    (hb : Tracks n given b) : a = b := by
  have hnames : a.names = b.names := ha.names.trans hb.names.symm
  have hids : a.ids = b.ids :=
    ids_eq_of_idsOf (ha.count.trans hb.count.symm) fun c => by rw [ha.ids, hb.ids, hnames]
  obtain ⟨names, distinct, ids⟩ := a
  subst hnames hids
  rfl

/-! ## Look-ups -/

theorem lt_of_mem_idsOf {l : ChoiceLabels} {c : ℕ} {id : UInt32} (h : id ∈ l.idsOf c) :
    c < l.choiceCount := by
  by_contra hc
  rw [idsOf, Array.getElem?_eq_none (Nat.not_lt.1 hc)] at h
  cases h

/-- A choice has a label if it holds the label's number. -/
theorem mem_labelsOf_iff {l : ChoiceLabels} (hcount : l.names.length ≤ UInt32.size) {label : String}
    {c : ℕ} : label ∈ l.labelsOf c ↔ label ∈ l.names ∧ number l.names label ∈ l.idsOf c := by
  rw [labelsOf, List.mem_filterMap]
  constructor
  · rintro ⟨id, hid, hlabel⟩
    exact ⟨List.mem_of_getElem? hlabel, number_of_getElem? l.distinct hlabel ▸ hid⟩
  · rintro ⟨hlabel, hid⟩
    exact ⟨_, hid, getElem?_number hcount hlabel⟩

theorem choicesWith_of_mem {l : ChoiceLabels} {label : String} (h : label ∈ l.names) :
    l.choicesWith label =
      (List.range l.choiceCount).filter fun c => number l.names label ∈ l.idsOf c := by
  unfold choicesWith number
  cases hi : l.names.idxOf? label with
  | none => exact absurd h (List.idxOf?_eq_none_iff.1 hi)
  | some i =>
    rw [List.idxOf_eq_getD_idxOf?, hi]
    exact List.filter_congr fun c _ => List.elem_eq_mem _ _

theorem choicesWith_of_not_mem {l : ChoiceLabels} {label : String} (h : label ∉ l.names) :
    l.choicesWith label = [] := by
  rw [choicesWith, List.idxOf?_eq_none_iff.2 h]

theorem mem_choicesWith_iff {l : ChoiceLabels} {label : String} {c : ℕ} :
    c ∈ l.choicesWith label ↔ label ∈ l.names ∧ number l.names label ∈ l.idsOf c := by
  by_cases h : label ∈ l.names
  · rw [choicesWith_of_mem h, List.mem_filter, List.mem_range, decide_eq_true_eq]
    exact ⟨fun hc => ⟨h, hc.2⟩, fun hc => ⟨lt_of_mem_idsOf hc.2, hc.2⟩⟩
  · rw [choicesWith_of_not_mem h]
    exact iff_of_false List.not_mem_nil fun hc => h hc.1

section Tracks

variable {n : ℕ} {given : List (String × ℕ)} {l : ChoiceLabels}

theorem Tracks.number_injOn (h : Tracks n given l) (hcount : l.names.length ≤ UInt32.size) {a b : String}
    {c e : ℕ} (ha : (a, c) ∈ given) (hb : (b, e) ∈ given)
    (hab : number l.names a = number l.names b) : a = b :=
  ChoiceLabels.number_injOn hcount (h.mem_names.2 ⟨c, ha⟩) (h.mem_names.2 ⟨e, hb⟩) hab

theorem Tracks.labelsOf_eq (h : Tracks n given l) (hcount : l.names.length ≤ UInt32.size) (c : ℕ) :
    l.labelsOf c = (givenTo c given).eraseDups := by
  have hids : l.idsOf c = (givenTo c given).eraseDups.map (number l.names) := by
    rw [h.ids]
    refine eraseDups_map_of_injOn _ fun a ha b hb hab => ?_
    exact h.number_injOn hcount (mem_givenTo.1 ha) (mem_givenTo.1 hb) hab
  rw [labelsOf, hids, List.filterMap_map]
  calc (givenTo c given).eraseDups.filterMap
        ((fun id : UInt32 => l.names[id.toNat]?) ∘ number l.names)
      = (givenTo c given).eraseDups.filterMap some := by
        refine List.filterMap_congr fun a ha => getElem?_number hcount ?_
        exact h.mem_names.2 ⟨c, mem_givenTo.1 (List.mem_eraseDups.1 ha)⟩
    _ = (givenTo c given).eraseDups := List.filterMap_some

theorem Tracks.mem_idsOf_iff (h : Tracks n given l) (hcount : l.names.length ≤ UInt32.size)
    {label : String} (hlabel : label ∈ l.names) {c : ℕ} :
    number l.names label ∈ l.idsOf c ↔ (label, c) ∈ given := by
  rw [h.ids, List.mem_eraseDups, List.mem_map]
  constructor
  · rintro ⟨a, ha, hnumber⟩
    obtain ⟨e, he⟩ := h.mem_names.1 hlabel
    have ha := mem_givenTo.1 ha
    exact h.number_injOn hcount ha he hnumber ▸ ha
  · intro hmem
    exact ⟨label, mem_givenTo.2 hmem, rfl⟩

theorem Tracks.choicesWith_eq (h : Tracks n given l) (hcount : l.names.length ≤ UInt32.size)
    (label : String) :
    l.choicesWith label = (List.range n).filter fun c => (label, c) ∈ given := by
  by_cases hlabel : label ∈ l.names
  · rw [choicesWith_of_mem hlabel, h.count]
    exact List.filter_congr fun c _ => decide_eq_decide.2 (h.mem_idsOf_iff hcount hlabel)
  · rw [choicesWith_of_not_mem hlabel, eq_comm, List.filter_eq_nil_iff]
    intro c _ hmem
    exact hlabel (h.mem_names.2 ⟨c, of_decide_eq_true hmem⟩)

end Tracks

theorem tracks_attachAll (n : ℕ) (given : List (String × ℕ)) :
    Tracks n (accepted n given) ((empty n).attachAll given).2 :=
  ((tracks_empty n).attachAll given).2

/-- Look-ups answer from the requests that were granted, and agree with each other in all labels, also in
those that were read with numbers of no label among them. -/
theorem lookups_follow_requests (n : ℕ) (given : List (String × ℕ)) {answers : List Bool}
    {l : ChoiceLabels} (h : (empty n).attachAll given = (answers, l)) :
    (answers = given.map (fun g => decide (g.2 < n)) ∧ l.choiceCount = n ∧
      (empty n).attachAll (accepted n given) = ((accepted n given).map (fun _ => true), l)) ∧
    l.names = ((accepted n given).map Prod.fst).eraseDups ∧
    (l.names.length ≤ UInt32.size →
      (∀ c, l.labelsOf c =
        (((accepted n given).filter fun g => g.2 = c).map Prod.fst).eraseDups) ∧
      ∀ label, l.choicesWith label = (List.range n).filter fun c => (label, c) ∈ given) ∧
    ∀ k : ChoiceLabels, k.names.length ≤ UInt32.size →
      ∀ label c, label ∈ k.labelsOf c ↔ c ∈ k.choicesWith label := by
  have hanswers := ((tracks_empty n).attachAll given).1
  have htracks := tracks_attachAll n given
  rw [h] at hanswers htracks
  have hgranted := ((tracks_empty n).attachAll (accepted n given)).1
  have hagain := tracks_attachAll n (accepted n given)
  have hself : accepted n (accepted n given) = accepted n given := by
    simp only [accepted, List.filter_filter, Bool.and_self]
  refine ⟨⟨hanswers, htracks.count, Prod.ext ?_ ?_⟩, htracks.names, fun hcount => ⟨fun c => ?_,
    fun label => ?_⟩, fun k hcount label c => ?_⟩
  · rw [hgranted]
    refine List.map_congr_left fun g hg => ?_
    exact (List.mem_filter.1 hg).2
  · rw [hself] at hagain
    exact hagain.unique htracks
  · exact htracks.labelsOf_eq hcount c
  · rw [htracks.choicesWith_eq hcount]
    refine List.filter_congr fun c hc => decide_eq_decide.2 ?_
    simp [accepted, List.mem_range.1 hc]
  · rw [mem_labelsOf_iff hcount, mem_choicesWith_iff]

/-- Six requests for three choices, of which one is refused, and labels that were read with two numbers
of no label. -/
theorem interleaved_lookups :
    ∃ answers l, (empty 3).attachAll
        [("go", 1), ("stop", 1), ("go", 1), ("turn", 7), ("stop", 0), ("go", 2)] = (answers, l) ∧
      answers = [true, true, true, false, true, true] ∧ l.names = ["go", "stop"] ∧
      l.labelsOf 1 = ["go", "stop"] ∧ l.choicesWith "stop" = [0, 1] ∧
      "go" ∈ (⟨["go"], List.pairwise_singleton _ _, #[[], [5, 0, 9]]⟩ : ChoiceLabels).labelsOf 1 := by
  obtain ⟨⟨hanswers, -⟩, hnames, hlook, hboth⟩ := lookups_follow_requests 3
    [("go", 1), ("stop", 1), ("go", 1), ("turn", 7), ("stop", 0), ("go", 2)] (Prod.eta _).symm
  replace hnames := hnames.trans (by decide +kernel : _ = ["go", "stop"])
  obtain ⟨hlabels, hchoices⟩ := hlook (by rw [hnames]; decide)
  exact ⟨_, _, (Prod.eta _).symm, hanswers.trans (by decide), hnames,
    (hlabels 1).trans (by decide +kernel), (hchoices "stop").trans (by decide +kernel),
    (hboth _ (by decide) "go" 1).2 (by decide +kernel)⟩

end ChoiceLabels

end MarkovSim
