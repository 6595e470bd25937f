import Mathlib.Data.List.Perm.Subperm
import MarkovSim.Proofs.ChoiceLabels

/-!
# Labels that compare equal

The comparison takes names in any order and numbers as they are. A number stands for a label by the
order of the names, so equal labels are the same only up to a renaming: that of each name of the one to
the name in its place in the other (`labelsOf_renamed`). They say the same of the choices exactly where
the names come in the same order.

Two labels that requests led to compare equal if and only if they are for as many choices, have the same
names in whatever order, and each choice has in the second the labels that it has in the first, each renamed
to the name that stands in its place.
-/

namespace MarkovSim

namespace ChoiceLabels

def Built (l : ChoiceLabels) : Prop := ∃ n given, ((empty n).attachAll given).2 = l

/-- The name that stands in `b` where the label stands in `a`. -/
def renamed (a b : ChoiceLabels) (label : String) : String :=
  (b.names[a.names.idxOf label]?).getD label

theorem Built.tracks {l : ChoiceLabels} (h : l.Built) : ∃ n given, Tracks n given l := by
  obtain ⟨n, given, rfl⟩ := h
  exact ⟨n, _, tracks_attachAll n given⟩

theorem Built.toNat_lt {l : ChoiceLabels} (h : l.Built) {c : ℕ} {id : UInt32} (hid : id ∈ l.idsOf c) :
    id.toNat < l.names.length := by
  obtain ⟨n, given, htracks⟩ := h.tracks
  rw [htracks.ids, List.mem_eraseDups] at hid
  obtain ⟨label, hlabel, rfl⟩ := List.mem_map.1 hid
  have hmem : label ∈ l.names := htracks.mem_names.2 ⟨c, mem_givenTo.1 hlabel⟩
  rw [number, UInt32.toNat_ofNat']
  exact Nat.lt_of_le_of_lt (Nat.mod_le _ _) (List.idxOf_lt_length_iff.2 hmem)

theorem Built.exists_mem_idsOf {l : ChoiceLabels} (h : l.Built) {label : String}
    (hlabel : label ∈ l.names) : ∃ c, number l.names label ∈ l.idsOf c := by
  obtain ⟨n, given, htracks⟩ := h.tracks
  obtain ⟨c, hc⟩ := htracks.mem_names.1 hlabel
  refine ⟨c, ?_⟩
  rw [htracks.ids, List.mem_eraseDups]
  exact List.mem_map_of_mem (mem_givenTo.2 hc)

theorem Built.idsOf_eq {l : ChoiceLabels} (h : l.Built) (c : ℕ) :
    l.idsOf c = (l.labelsOf c).map (number l.names) := by
  rw [labelsOf, List.map_filterMap]
  calc l.idsOf c = (l.idsOf c).filterMap some := List.filterMap_some.symm
    _ = (l.idsOf c).filterMap fun id => (l.names[id.toNat]?).map (number l.names) := by
      refine List.filterMap_congr fun id hid => ?_
      obtain ⟨label, hname⟩ : ∃ label, l.names[id.toNat]? = some label :=
        ⟨_, List.getElem?_eq_getElem (h.toNat_lt hid)⟩
      rw [hname, Option.map_some, number_of_getElem? l.distinct hname]

theorem beq_iff {a b : ChoiceLabels} :
    (a == b) = true ↔ a.names.Perm b.names ∧ a.ids = b.ids := by
  have hnames : (a.names.length = b.names.length ∧ ∀ label ∈ a.names, label ∈ b.names) ↔
      a.names.Perm b.names := by
    constructor
    · rintro ⟨hlength, hsubset⟩
      exact (List.subperm_of_subset a.distinct hsubset).perm_of_length_le
        (Nat.le_of_eq hlength.symm)
    · intro hperm
      exact ⟨hperm.length_eq, fun label hlabel => hperm.mem_iff.1 hlabel⟩
  show eq a b = true ↔ _
  simp only [eq, Bool.and_eq_true, beq_iff_eq, List.all_eq_true, List.contains_iff_mem, hnames]

section Renamed

variable {a b : ChoiceLabels}

theorem getElem?_renamed (hlength : a.names.length = b.names.length) (i : ℕ) :
    (a.names[i]?).map (a.renamed b) = b.names[i]? := by
  rcases Nat.lt_or_ge i a.names.length with hi | hi
  · rw [List.getElem?_eq_getElem hi, Option.map_some, renamed, a.distinct.idxOf_getElem i hi,
      List.getElem?_eq_getElem (hlength ▸ hi), Option.getD_some]
  · rw [List.getElem?_eq_none hi, List.getElem?_eq_none (hlength ▸ hi), Option.map_none]

/-- With the same numbers at its choices, the one has the labels of the other, renamed. -/
theorem labelsOf_renamed (hlength : a.names.length = b.names.length) {c : ℕ}
    (hids : a.idsOf c = b.idsOf c) : b.labelsOf c = (a.labelsOf c).map (a.renamed b) := by
  rw [labelsOf, labelsOf, List.map_filterMap, ← hids]
  exact List.filterMap_congr fun id _ => (getElem?_renamed hlength id.toNat).symm

theorem number_renamed (hlength : a.names.length = b.names.length) {label : String}
    (h : label ∈ a.names) : number b.names (a.renamed b label) = number a.names label := by
  have hlt := List.idxOf_lt_length_iff.2 h
  have hname := getElem?_renamed (a := a) hlength (a.names.idxOf label)
  rw [List.getElem?_idxOf h, Option.map_some, List.getElem?_eq_getElem (hlength ▸ hlt)] at hname
  rw [number, Option.some.inj hname, b.distinct.idxOf_getElem, number]

theorem mem_names_of_mem_labelsOf {c : ℕ} {label : String} (h : label ∈ a.labelsOf c) :
    label ∈ a.names := by
  obtain ⟨id, -, hid⟩ := List.mem_filterMap.1 h
  exact List.mem_of_getElem? hid

/-- Labels that are renamed tell the numbers they had before. -/
theorem Built.idsOf_of_renamed (ha : a.Built) (hb : b.Built)
    (hlength : a.names.length = b.names.length) {c : ℕ}
    (h : b.labelsOf c = (a.labelsOf c).map (a.renamed b)) : a.idsOf c = b.idsOf c := by
  rw [ha.idsOf_eq, hb.idsOf_eq, h, List.map_map]
  exact List.map_congr_left fun label hlabel =>
    (number_renamed hlength (mem_names_of_mem_labelsOf hlabel)).symm

/-- Names that are looked up at all come in the same order. -/
theorem Built.take_names (ha : a.Built) (hlength : a.names.length = b.names.length)
    (h : ∀ c, ∀ label ∈ a.labelsOf c, a.renamed b label = label) :
    a.names.take UInt32.size = b.names.take UInt32.size := by
  refine List.ext_getElem? fun i => ?_
  rw [List.getElem?_take, List.getElem?_take]
  by_cases hi : i < UInt32.size
  · rw [if_pos hi, if_pos hi, ← getElem?_renamed hlength]
    cases hname : a.names[i]? with
    | none => rfl
    | some label =>
      obtain ⟨hlt, hlabel⟩ := List.getElem?_eq_some_iff.1 hname
      have hnumber : (number a.names label).toNat = i := by
        rw [number, ← hlabel, a.distinct.idxOf_getElem i hlt, UInt32.toNat_ofNat_of_lt' hi]
      obtain ⟨c, hc⟩ := ha.exists_mem_idsOf (List.mem_of_getElem? hname)
      have hmem : label ∈ a.labelsOf c :=
        List.mem_filterMap.2 ⟨_, hc, by rw [hnumber, hname]⟩
      rw [Option.map_some, h c label hmem]
  · rw [if_neg hi, if_neg hi]

theorem labelsOf_of_take_names (h : a.names.take UInt32.size = b.names.take UInt32.size) {c : ℕ}
    (hids : a.idsOf c = b.idsOf c) : a.labelsOf c = b.labelsOf c := by
  rw [labelsOf, labelsOf, hids]
  refine List.filterMap_congr fun id _ => ?_
  have hid : id.toNat < UInt32.size := id.toNat_lt_size
  have hname := congrArg (fun names => names[id.toNat]?) h
  simpa only [List.getElem?_take, if_pos hid] using hname

end Renamed

/-- Labels compare equal exactly when they are the same up to a renaming. Each choice then has the same in
both exactly when the names come in the same order, as far as there are numbers for them. -/
theorem equal_up_to_renaming {a b : ChoiceLabels} (ha : a.Built) (hb : b.Built) :
    ((a == b) = true ↔ a.choiceCount = b.choiceCount ∧ a.names.Perm b.names ∧
      ∀ c, b.labelsOf c = (a.labelsOf c).map (a.renamed b)) ∧
    ((a == b) = true → ((∀ c, a.labelsOf c = b.labelsOf c) ↔
      a.names.take UInt32.size = b.names.take UInt32.size)) := by
  rw [beq_iff]
  constructor
  · constructor
    · rintro ⟨hnames, hids⟩
      refine ⟨by rw [choiceCount, hids, choiceCount], hnames, fun c => ?_⟩
      exact labelsOf_renamed hnames.length_eq (by rw [idsOf, hids, idsOf])
    · rintro ⟨hcount, hnames, hlabels⟩
      refine ⟨hnames, ids_eq_of_idsOf hcount fun c => ?_⟩
      exact ha.idsOf_of_renamed hb hnames.length_eq (hlabels c)
  · rintro ⟨hnames, hids⟩
    have hsame (c : ℕ) : a.idsOf c = b.idsOf c := by rw [idsOf, hids, idsOf]
    constructor
    · intro halike
      refine ha.take_names hnames.length_eq fun c => ?_
      have hmap := labelsOf_renamed hnames.length_eq (hsame c)
      rw [← halike c, eq_comm] at hmap
      exact List.map_inj_left.1 (hmap.trans (List.map_id _).symm)
    · intro horder c
      exact labelsOf_of_take_names horder (hsame c)

/-- Three names that come in another order: the labels compare equal, each choice has other labels, and
each of them is the one in its place. -/
theorem turned_labels_renamed :
    ∃ a b : ChoiceLabels, a.Built ∧ b.Built ∧ (a == b) = true ∧
      a.names = ["go", "stop", "turn"] ∧ b.names = ["turn", "go", "stop"] ∧
      (∀ c, b.labelsOf c = (a.labelsOf c).map (a.renamed b)) ∧
      ¬ ∀ c, a.labelsOf c = b.labelsOf c := by
  obtain ⟨hequal, halike⟩ := equal_up_to_renaming
    (a := ((empty 2).attachAll [("go", 0), ("stop", 1), ("turn", 1)]).2)
    (b := ((empty 2).attachAll [("turn", 0), ("go", 1), ("stop", 1)]).2) ⟨2, _, rfl⟩ ⟨2, _, rfl⟩
  have hbeq : (((empty 2).attachAll [("go", 0), ("stop", 1), ("turn", 1)]).2 ==
      ((empty 2).attachAll [("turn", 0), ("go", 1), ("stop", 1)]).2) = true := by decide +kernel
  refine ⟨_, _, ⟨2, _, rfl⟩, ⟨2, _, rfl⟩, hbeq, by decide +kernel, by decide +kernel,
    (hequal.1 hbeq).2.2, fun h => ?_⟩
  have horder := congrArg List.head? ((halike hbeq).1 h)
  revert horder
  decide +kernel

/-- Two labels with their choices exchanged compare equal, though each choice has the other label. -/
theorem exchanged_labels_equal :
    ∃ a b : ChoiceLabels, ((empty 2).attachAll [("left", 0), ("right", 1)]).2 = a ∧
      ((empty 2).attachAll [("right", 0), ("left", 1)]).2 = b ∧ (a == b) = true ∧
      a.labelsOf 0 = ["left"] ∧ b.labelsOf 0 = ["right"] ∧ ¬ ∀ c, a.labelsOf c = b.labelsOf c := by
  refine ⟨_, _, rfl, rfl, by decide +kernel, by decide +kernel, by decide +kernel, fun h => ?_⟩
  have hfirst := h 0
  revert hfirst
  decide +kernel

end ChoiceLabels

end MarkovSim
