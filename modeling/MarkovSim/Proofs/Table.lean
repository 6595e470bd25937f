import Mathlib.Algebra.BigOperators.Group.List.Basic
import Mathlib.Algebra.Order.Ring.Nat
import MarkovSim.Proofs.Binary64.Order
import MarkovSim.Table.Draft

/-!
# Reading a packed table

A table packed from groups of rows gives the groups back: state `s` has the choices of group `s`
(`choiceCount_ofGroups`), and the choice with offset `k` of state `s` has row `k` of that group
(`row_choice`). A draft packs the groups it is given in this way, and is built if they fit: there is
some group, every group has a row and all rows are valid (`Draft.build_eq_ok`).
-/

namespace MarkovSim

namespace Table

/-! ## Running sums -/

theorem getElem?_offsets (n : Nat) (ls : List Nat) {i : Nat} (hi : i ≤ ls.length) :
    (offsets n ls)[i]? = some (n + (ls.take i).sum) := by
  induction ls generalizing n i with
  | nil =>
    obtain rfl : i = 0 := by simpa using hi
    rfl
  | cons l ls ih =>
    cases i with
    | zero => simp [offsets]
    | succ i =>
      rw [offsets, List.getElem?_cons_succ, ih (n + l) (by simpa using hi), List.take_succ_cons,
        List.sum_cons, Nat.add_assoc]

/-- Where the offsets of `ls` put item `i`. -/
theorem span_offsets (ls : List Nat) {i : Nat} (hi : i < ls.length) :
    span (offsets 0 ls).toArray i = ⟨(ls.take i).sum, (ls.take i).sum + ls[i]⟩ := by
  have hstart := getElem?_offsets 0 ls (Nat.le_of_lt hi)
  have hstop := getElem?_offsets 0 ls (i := i + 1) hi
  unfold span between
  rw [List.getElem?_toArray, List.getElem?_toArray, hstart, hstop, List.sum_take_succ ls i hi]
  simp only [Nat.zero_add]

theorem span_offsets_of_le (ls : List Nat) {i : Nat} (hi : ls.length ≤ i) :
    span (offsets 0 ls).toArray i = ⟨0, 0⟩ := by
  have hlen := length_offsets 0 ls
  have hstop : (offsets 0 ls)[i + 1]? = none := List.getElem?_eq_none (by omega)
  unfold span between
  rw [List.getElem?_toArray, List.getElem?_toArray, hstop]
  split <;> simp_all

/-! ## Groups and rows read back -/

variable (groups : List (List Row))

@[simp] theorem groupCount_ofGroups : (ofGroups groups).groupCount = groups.length := by
  simp [groupCount, ofGroups, length_offsets]

theorem group_ofGroups {s : Nat} (hs : s < groups.length) :
    (ofGroups groups).group s =
      ⟨((groups.map List.length).take s).sum,
        ((groups.map List.length).take s).sum + groups[s].length⟩ := by
  unfold group ofGroups
  rw [span_offsets _ (by simpa using hs)]
  simp

theorem choiceCount_ofGroups {s : Nat} (hs : s < groups.length) :
    (ofGroups groups).choiceCount s = groups[s].length := by
  unfold choiceCount Span.size
  rw [group_ofGroups groups hs]
  simp

/-- Taking the part of a concatenation that its lengths give to item `i`. -/
theorem extract_flatten {α : Type} (xss : List (List α)) {i : Nat} (hi : i < xss.length) :
    (xss.flatten.toArray.extract ((xss.map List.length).take i).sum
      (((xss.map List.length).take i).sum + xss[i].length)).toList = xss[i] := by
  rw [Array.toList_extract, List.extract_eq_take_drop, List.drop_sum_flatten, Nat.add_sub_cancel_left,
    List.drop_eq_getElem_cons hi, List.flatten_cons, List.take_left]

theorem row_ofGroups {r : Nat} (hr : r < groups.flatten.length) :
    (ofGroups groups).row r = groups.flatten[r] := by
  have hspan := span_offsets (groups.flatten.map List.length) (i := r) (by rwa [List.length_map])
  rw [List.getElem_map] at hspan
  show (groups.flatten.flatten.toArray.extract _ _).toList = _
  rw [show span (ofGroups groups).rowStarts r = _ from hspan]
  exact extract_flatten groups.flatten hr

theorem row_ofGroups_of_le {r : Nat} (hr : groups.flatten.length ≤ r) :
    (ofGroups groups).row r = [] := by
  have hspan := span_offsets_of_le (groups.flatten.map List.length) (i := r)
    (by rwa [List.length_map])
  show (groups.flatten.flatten.toArray.extract _ _).toList = _
  rw [show span (ofGroups groups).rowStarts r = _ from hspan]
  simp

theorem row_choice {s k : Nat} (hs : s < groups.length) (hk : k < groups[s].length) :
    (ofGroups groups).row (((ofGroups groups).group s).start + k) = groups[s][k] := by
  have hdrop := List.drop_sum_flatten groups s
  rw [List.drop_eq_getElem_cons hs, List.flatten_cons] at hdrop
  have hget : groups.flatten[((groups.map List.length).take s).sum + k]? = some groups[s][k] := by
    rw [← List.getElem?_drop, hdrop, List.getElem?_append_left hk, List.getElem?_eq_getElem hk]
  obtain ⟨hlt, heq⟩ := List.getElem?_eq_some_iff.1 hget
  rw [group_ofGroups groups hs, row_ofGroups groups hlt, heq]

end Table

/-! ## What is packed -/

/-- What a table of `states` states asks of each branch. -/
structure Branch.Valid (states : Nat) (b : Branch) : Prop where
  target_lt : b.target < states
  isFinite : b.probability.isFinite = true
  pos : 0.0 < b.probability
  le_one : b.probability ≤ 1.0

/-- What a table of `states` states asks of each of its rows. -/
structure Row.Valid (states : Nat) (row : Row) : Prop where
  ne_nil : row ≠ []
  branches : ∀ b ∈ row, b.Valid states
  balanced : (row.total - 1.0).abs ≤ Row.tolerance

namespace Row

theorem isProbability_iff {p : Float} :
    isProbability p = true ↔ p.isFinite = true ∧ 0.0 < p ∧ p ≤ 1.0 := by
  simp [isProbability, and_assoc]

theorem branchDefect?_eq_none_iff {states r : Nat} {b : Branch} :
    branchDefect? states r b = none ↔ b.Valid states := by
  unfold branchDefect?
  by_cases ht : states ≤ b.target
  · rw [if_pos ht]
    exact ⟨fun h => (nomatch h), fun h => absurd h.target_lt (Nat.not_lt.2 ht)⟩
  · rw [if_neg ht]
    by_cases hp : isProbability b.probability = true
    · obtain ⟨hfin, hpos, hle⟩ := isProbability_iff.1 hp
      rw [if_pos hp]
      exact ⟨fun _ => ⟨Nat.lt_of_not_le ht, hfin, hpos, hle⟩, fun _ => rfl⟩
    · rw [if_neg hp]
      exact ⟨fun h => (nomatch h),
        fun h => absurd (isProbability_iff.2 ⟨h.isFinite, h.pos, h.le_one⟩) hp⟩

/-- The sum of finite numbers may be infinite but is a number. -/
theorem isNaN_total {row : Row} (h : ∀ b ∈ row, b.probability.isFinite = true) :
    row.total.isNaN = false := by
  have hsum (sum : Float) (hsum : sum.isNaN = false) :
      (row.foldl (fun sum b => sum + b.probability) sum).isNaN = false := by
    induction row generalizing sum with
    | nil => exact hsum
    | cons b row ih =>
      exact ih (fun b hb => h b (List.mem_cons_of_mem _ hb)) _
        (Binary64.isNaN_add hsum (h b List.mem_cons_self))
  exact hsum 0.0 (by decide +kernel)

theorem not_far_iff {row : Row} (h : ∀ b ∈ row, b.probability.isFinite = true) :
    ¬ tolerance < (row.total - 1.0).abs ↔ (row.total - 1.0).abs ≤ tolerance :=
  Binary64.not_lt_iff (by decide +kernel)
    (Binary64.isNaN_abs (Binary64.isNaN_sub (isNaN_total h) (by decide +kernel)))

theorem defect?_eq_none_iff {states r : Nat} {row : Row} :
    row.defect? states r = none ↔ row.Valid states := by
  unfold defect?
  by_cases hnil : row = []
  · subst hnil
    exact ⟨fun h => (nomatch h), fun h => absurd rfl h.ne_nil⟩
  rw [if_neg (by simpa using hnil)]
  constructor
  · intro h
    split at h
    · cases h
    · next hb =>
      have hvalid : ∀ b ∈ row, b.Valid states := fun b hmem =>
        branchDefect?_eq_none_iff.1 (List.findSome?_eq_none_iff.1 hb b hmem)
      refine ⟨hnil, hvalid, (not_far_iff fun b hmem => (hvalid b hmem).isFinite).1 fun hfar => ?_⟩
      rw [if_pos hfar] at h
      cases h
  · intro h
    have hb : row.findSome? (branchDefect? states r) = none :=
      List.findSome?_eq_none_iff.2 fun b hmem => branchDefect?_eq_none_iff.2 (h.branches b hmem)
    rw [hb]
    exact if_neg ((not_far_iff fun b hmem => (h.branches b hmem).isFinite).2 h.balanced)

end Row

namespace Table

/-- The groups a table can be built from. -/
structure Fit (groups : List (List Row)) : Prop where
  ne_nil : groups ≠ []
  group_ne_nil : ∀ g ∈ groups, g ≠ []
  valid : ∀ row ∈ groups.flatten, row.Valid groups.length

theorem find?_choiceCount_eq_none {groups : List (List Row)} :
    ((List.range groups.length).find? fun s => (ofGroups groups).choiceCount s = 0) = none ↔
      ∀ g ∈ groups, g ≠ [] := by
  rw [List.find?_eq_none]
  constructor
  · intro h g hg
    obtain ⟨s, hs, rfl⟩ := List.getElem_of_mem hg
    have hcount := h s (List.mem_range.2 hs)
    rw [choiceCount_ofGroups groups hs] at hcount
    simpa using hcount
  · intro h s hs
    rw [choiceCount_ofGroups groups (List.mem_range.1 hs)]
    simpa using h _ (List.getElem_mem (List.mem_range.1 hs))

theorem defect?_eq_none_iff {groups : List (List Row)} :
    (ofGroups groups).defect? = none ↔ Fit groups := by
  unfold defect?
  rw [groupCount_ofGroups, rowCount_ofGroups]
  by_cases hnil : groups = []
  · subst hnil
    exact ⟨fun h => by simp at h, fun h => absurd rfl h.ne_nil⟩
  rw [if_neg (by simpa using hnil)]
  constructor
  · intro h
    split at h
    · cases h
    · next hgroup =>
      rw [List.findSome?_eq_none_iff] at h
      refine ⟨hnil, find?_choiceCount_eq_none.1 hgroup, fun row hrow => ?_⟩
      obtain ⟨r, hr, rfl⟩ := List.getElem_of_mem hrow
      have hnone := h r (List.mem_range.2 hr)
      rw [row_ofGroups groups hr] at hnone
      exact Row.defect?_eq_none_iff.1 hnone
  · intro h
    rw [find?_choiceCount_eq_none.2 h.group_ne_nil]
    simp only [List.findSome?_eq_none_iff, List.mem_range]
    intro r hr
    rw [row_ofGroups groups hr]
    exact Row.defect?_eq_none_iff.2 (h.valid _ (List.getElem_mem hr))

end Table

namespace Draft

variable {d : Draft} {groups : List (List Row)}

/-! ## What is written -/

theorem table_append {g : List Row} (h : d.table = Table.ofGroups (groups ++ [g])) (row : Row) :
    (d.append row).table = Table.ofGroups (groups ++ [g ++ [row]]) := by
  unfold append
  rw [dif_neg (by simp [size_groupStarts h])]
  exact packed_extend h row

theorem table_foldl_append {g : List Row} (h : d.table = Table.ofGroups (groups ++ [g]))
    (rows : List Row) :
    (rows.foldl append d).table = Table.ofGroups (groups ++ [g ++ rows]) := by
  induction rows generalizing d g with
  | nil => rw [List.append_nil, List.foldl_nil, h]
  | cons row rows ih => simpa using ih (table_append h row)

theorem table_ofGroups (groups : List (List Row)) :
    (ofGroups groups).table = Table.ofGroups groups := by
  have hfold (d : Draft) (before : List (List Row)) (h : d.table = Table.ofGroups before) :
      (groups.foldl (fun d g => g.foldl append d.openGroup) d).table =
        Table.ofGroups (before ++ groups) := by
    induction groups generalizing d before with
    | nil => rw [List.append_nil, List.foldl_nil, h]
    | cons g groups ih => simpa using ih _ _ (table_foldl_append (table_openGroup h) g)
  exact hfold empty [] rfl

/-- Building succeeds on the groups that fit, and gives their table. -/
theorem build_eq_ok (h : d.table = Table.ofGroups groups) {t : Table} :
    d.build.1 = .ok t ↔ Table.Fit groups ∧ t = Table.ofGroups groups := by
  unfold build
  rw [h, ← Table.defect?_eq_none_iff]
  cases (Table.ofGroups groups).defect? with
  | none => simp [eq_comm]
  | some d => simp

end Draft

namespace Table

theorem build_eq_ok {groups : List (List Row)} {t : Table} :
    build groups = .ok t ↔ Fit groups ∧ t = ofGroups groups :=
  Draft.build_eq_ok (Draft.table_ofGroups groups)

section Fit

variable {groups : List (List Row)} (h : Fit groups)
include h

theorem Fit.choiceCount_pos {s : Nat} (hs : s < groups.length) :
    0 < (ofGroups groups).choiceCount s := by
  rw [choiceCount_ofGroups groups hs]
  exact List.length_pos_iff.2 (h.group_ne_nil _ (List.getElem_mem hs))

theorem Fit.row_valid {s k : Nat} (hs : s < groups.length)
    (hk : k < (ofGroups groups).choiceCount s) :
    Row.Valid groups.length ((ofGroups groups).row (((ofGroups groups).group s).start + k)) := by
  rw [choiceCount_ofGroups groups hs] at hk
  rw [row_choice groups hs hk]
  exact h.valid _ (List.mem_flatten.2 ⟨_, List.getElem_mem hs, List.getElem_mem hk⟩)

theorem Fit.branch_valid {r : Nat} {b : Branch} (hb : b ∈ (ofGroups groups).row r) :
    b.Valid groups.length := by
  by_cases hr : r < groups.flatten.length
  · rw [row_ofGroups groups hr] at hb
    exact (h.valid _ (List.getElem_mem hr)).branches b hb
  · rw [row_ofGroups_of_le groups (Nat.le_of_not_lt hr)] at hb
    cases hb

/-- As no branch has probability zero, every branch of an absorbing state leads back to it. -/
theorem Fit.target_of_isAbsorbing {s k : Nat} (hs : (ofGroups groups).isAbsorbing s = true)
    (hk : k < (ofGroups groups).choiceCount s) {b : Branch}
    (hb : b ∈ (ofGroups groups).row (((ofGroups groups).group s).start + k)) : b.target = s := by
  obtain ⟨-, hall⟩ := Bool.and_eq_true_iff.1 hs
  have hchoice : ((ofGroups groups).group s).start + k ∈ ((ofGroups groups).group s).toList :=
    List.mem_range'_1.2 ⟨Nat.le_add_right _ _, Nat.add_lt_add_left hk _⟩
  have hbranch := List.all_eq_true.1 (List.all_eq_true.1 hall _ hchoice) b hb
  rw [Binary64.beq_zero_of_pos (h.branch_valid hb).pos, Bool.or_false] at hbranch
  exact beq_iff_eq.1 hbranch

theorem Fit.isAbsorbing_of_target {s : Nat} (hs : s < groups.length)
    (htarget : ∀ k < (ofGroups groups).choiceCount s,
      ∀ b ∈ (ofGroups groups).row (((ofGroups groups).group s).start + k), b.target = s) :
    (ofGroups groups).isAbsorbing s = true := by
  refine Bool.and_eq_true_iff.2 ⟨decide_eq_true (h.choiceCount_pos hs), ?_⟩
  refine List.all_eq_true.2 fun r hr => List.all_eq_true.2 fun b hb => ?_
  obtain ⟨hle, hlt⟩ := List.mem_range'_1.1 hr
  obtain ⟨k, rfl⟩ := Nat.exists_eq_add_of_le hle
  rw [htarget k (Nat.lt_of_add_lt_add_left hlt) b hb, beq_self_eq_true, Bool.true_or]

end Fit

end Table

end MarkovSim
