import Mathlib.Data.List.Perm.Subperm
import Mathlib.Logic.Relation
import Mathlib.Tactic.IntervalCases
import MarkovSim.Gallery.Corridor
import MarkovSim.Proofs.ChoiceLabels
import MarkovSim.Proofs.Gallery

/-!
# Corridors of every length

The parts of a corridor are laid out one beside the other: rows by groups, labels and costs by the
numbers of the choices. They fit together for every length and seed (`corridor_eq_ok`), since the rows of
a cell stay inside the corridor (`cellRows_valid`) and choice `k` of cell `c` has the number `4 * c + k`
(`start_corridor`). A jump goes up to three cells ahead and never past the goal, whatever number it is
drawn from (`jumpTarget_mem`). Every cell can be left forward (`leads_forward`), so the goal is the only
sink and can be reached from everywhere.

A corridor has a state for each cell and the goal after the last.

1. The goal is its only sink.
2. A cell has the choices forward, back, jump and wait, each with that one label. They lead to the next
   cell or the same one, to the one before, to one or more cells of the next three within the corridor,
   and to the same cell.
3. The goal has one choice, without a label.
4. The reward for entering a state is a hundred at the goal and zero elsewhere, under the name of the goal.
5. The position of a state is its number.
6. The goal can be reached from every state.
-/

namespace MarkovSim

/-- Some choice in the first state leads to the second with a probability above zero. -/
def Dynamics.Leads (d : Dynamics) (s t : ℕ) : Prop :=
  ∃ k < d.actionCount s, ∃ b ∈ d.row (d.choiceAt s k), b.target = t ∧ 0.0 < b.probability

/-- For each choice of a state, by its offset, the states it leads to. -/
def Dynamics.successors (d : Dynamics) (s : ℕ) : List (List ℕ) :=
  (List.range (d.actionCount s)).map fun k => (d.row (d.choiceAt s k)).map Branch.target

/-- For each choice of a state, by its offset, its labels; nothing where choices have no labels. -/
def Dynamics.labelsAt (d : Dynamics) (s : ℕ) : Option (List (List String)) :=
  d.choiceLabels.map fun l =>
    (List.range (d.actionCount s)).map fun k => l.labelsOf (d.choiceAt s k)

namespace Table

variable {groups : List (List Row)} {s k : ℕ} {g : List Row} {r : Row}

theorem choiceCount_of_getElem? (hg : groups[s]? = some g) :
    (ofGroups groups).choiceCount s = g.length := by
  obtain ⟨hs, rfl⟩ := List.getElem?_eq_some_iff.1 hg
  exact choiceCount_ofGroups groups hs

theorem row_of_getElem? (hg : groups[s]? = some g) (hr : g[k]? = some r) :
    (ofGroups groups).row (((ofGroups groups).group s).start + k) = r := by
  obtain ⟨hs, rfl⟩ := List.getElem?_eq_some_iff.1 hg
  obtain ⟨hk, rfl⟩ := List.getElem?_eq_some_iff.1 hr
  exact row_choice groups hs hk

end Table

namespace Gallery

/-! ## Rows -/

theorem valid_row {n : ℕ} {branches : List (ℕ × Float)} (hne : branches ≠ [])
    (htarget : ∀ b ∈ branches, b.1 < n) (hprob : ∀ b ∈ branches, Row.isProbability b.2 = true)
    (hsum : ((branches.map Prod.snd).foldl (· + ·) 0.0 - 1.0).abs ≤ Row.tolerance) :
    (row branches).Valid n := by
  refine ⟨by simpa [row] using hne, fun b hb => ?_, ?_⟩
  · obtain ⟨q, hq, rfl⟩ := List.mem_map.1 hb
    obtain ⟨hfinite, hpos, hle⟩ := Row.isProbability_iff.1 (hprob q hq)
    exact ⟨htarget q hq, hfinite, hpos, hle⟩
  · have htotal : (row branches).total = (branches.map Prod.snd).foldl (· + ·) 0.0 := by
      rw [Row.total, row, List.foldl_map, List.foldl_map]
    rw [htotal]
    exact hsum

theorem valid_sure {n t : ℕ} (ht : t < n) : (row [(t, 1.0)]).Valid n := by
  refine valid_row (List.cons_ne_nil _ _) (List.forall_mem_singleton.2 ht)
    (List.forall_mem_singleton.2 ?_) ?_
  · show Row.isProbability 1.0 = true
    decide +kernel
  · show ((0.0 + 1.0 : Float) - 1.0).abs ≤ Row.tolerance
    decide +kernel

theorem valid_pair {n t u : ℕ} {a b : Float} (ht : t < n) (hu : u < n)
    (ha : Row.isProbability a = true) (hb : Row.isProbability b = true)
    (hsum : (0.0 + a + b - 1.0).abs ≤ Row.tolerance) : (row [(t, a), (u, b)]).Valid n := by
  refine valid_row (List.cons_ne_nil _ _) ?_ ?_ hsum
  · exact List.forall_mem_cons.2 ⟨ht, List.forall_mem_singleton.2 hu⟩
  · exact List.forall_mem_cons.2 ⟨ha, List.forall_mem_singleton.2 hb⟩

/-! ## Cells -/

variable {length c : ℕ} {seed : UInt64}

/-- A jump leads ahead by one to three cells and not past the goal. -/
theorem jumpTarget_mem (seed : UInt64) (hc : c < length) :
    c + 1 ≤ jumpTarget length seed c ∧ jumpTarget length seed c ≤ min (c + 3) length := by
  have hhop : (scramble seed (UInt64.ofNat c) % 3).toNat < 3 := by
    rw [UInt64.toNat_mod]
    exact Nat.mod_lt _ (by decide)
  unfold jumpTarget
  simp only [le_min_iff, min_le_iff]
  omega

/-- Where a jump lands: its target, or one cell short of it but not where it started. -/
theorem mem_landingRow {target t : ℕ} (htarget : c + 1 ≤ target)
    (ht : t ∈ (landingRow c target).map Branch.target) : c + 1 ≤ t ∧ t ≤ target := by
  unfold landingRow at ht
  by_cases h : target = c + 1
  · rw [if_pos h] at ht
    obtain rfl := List.mem_singleton.1 ht
    exact ⟨htarget, Nat.le_refl _⟩
  · rw [if_neg h] at ht
    simp only [row, List.map_cons, List.map_nil, List.mem_cons, List.not_mem_nil, or_false] at ht
    omega

theorem landingRow_valid {n target : ℕ} (h : target < n) : (landingRow c target).Valid n := by
  unfold landingRow
  split
  · exact valid_sure h
  · exact valid_pair h (by omega) (by decide +kernel) (by decide +kernel) (by decide +kernel)

theorem cellRows_valid (hc : c < length) : ∀ r ∈ cellRows length seed c, r.Valid (length + 1) := by
  have hjump := (jumpTarget_mem seed hc).2
  rw [le_min_iff] at hjump
  refine List.forall_mem_cons.2 ⟨?_, List.forall_mem_cons.2 ⟨?_, List.forall_mem_cons.2 ⟨?_, ?_⟩⟩⟩
  · exact valid_pair (by omega) (by omega) (by decide +kernel) (by decide +kernel) (by decide +kernel)
  · exact valid_sure (by omega)
  · exact landingRow_valid (by omega)
  · exact List.forall_mem_singleton.2 (valid_sure (by omega))

/-! ## The table -/

theorem length_corridorGroups (length : ℕ) (seed : UInt64) :
    (corridorGroups length seed).length = length + 1 := by
  simp [corridorGroups]

theorem corridorGroups_cell (hc : c < length) :
    (corridorGroups length seed)[c]? = some (cellRows length seed c) := by
  simp [corridorGroups, List.getElem?_append_left, hc]

theorem corridorGroups_goal (length : ℕ) (seed : UInt64) :
    (corridorGroups length seed)[length]? = some [row [(length, 1.0)]] := by
  simp [corridorGroups]

/-- Every group of a corridor is a cell or the goal. -/
theorem forall_mem_corridorGroups {P : List Row → Prop}
    (hcell : ∀ c < length, P (cellRows length seed c)) (hgoal : P [row [(length, 1.0)]]) :
    ∀ g ∈ corridorGroups length seed, P g := by
  intro g hg
  rcases List.mem_append.1 hg with hg | hg
  · obtain ⟨c, hc, rfl⟩ := List.mem_map.1 hg
    exact hcell c (List.mem_range.1 hc)
  · obtain rfl := List.mem_singleton.1 hg
    exact hgoal

theorem fit_corridor (length : ℕ) (seed : UInt64) : Table.Fit (corridorGroups length seed) := by
  refine ⟨by simp [corridorGroups], ?_, fun r hr => ?_⟩
  · exact forall_mem_corridorGroups (fun _ _ => List.cons_ne_nil _ _) (List.cons_ne_nil _ _)
  · rw [length_corridorGroups]
    obtain ⟨g, hg, hr⟩ := List.mem_flatten.1 hr
    refine forall_mem_corridorGroups (P := fun g => ∀ r ∈ g, r.Valid (length + 1))
      (fun c hc => cellRows_valid hc) ?_ g hg r hr
    exact List.forall_mem_singleton.2 (valid_sure (Nat.lt_succ_self length))

theorem map_length_corridorGroups (length : ℕ) (seed : UInt64) :
    (corridorGroups length seed).map List.length = List.replicate length 4 ++ [1] := by
  unfold corridorGroups
  rw [List.map_append, List.map_map]
  congr 1
  exact List.eq_replicate_iff.2 ⟨by simp, by simp [cellRows]⟩

theorem rowCount_corridor (length : ℕ) (seed : UInt64) :
    (Table.ofGroups (corridorGroups length seed)).rowCount = 4 * length + 1 := by
  rw [Table.rowCount_ofGroups, List.length_flatten, map_length_corridorGroups]
  simp [Nat.mul_comm]

/-- The choices are numbered four to a cell. -/
theorem start_corridor (hc : c ≤ length) :
    ((Table.ofGroups (corridorGroups length seed)).group c).start = 4 * c := by
  rw [Table.group_ofGroups _ (by rw [length_corridorGroups]; omega), map_length_corridorGroups]
  simp [List.take_append_of_le_length, hc, Nat.mul_comm]

/-! ## Labels of the choices -/

def cellActions : List String := ["forward", "back", "jump", "wait"]

theorem choiceLabels_eq_attachAll (n : ℕ) (given : List (String × ℕ)) :
    choiceLabels n given = ((ChoiceLabels.empty n).attachAll given).2 := by
  unfold choiceLabels
  generalize ChoiceLabels.empty n = l
  induction given generalizing l with
  | nil => rfl
  | cons g rest ih =>
    obtain ⟨label, choice⟩ := g
    simp [ChoiceLabels.attachAll, ih]

/-- The names that the choices of a cell are given. -/
def cellLabels (c : ℕ) : List (String × ℕ) :=
  [("forward", 4 * c), ("back", 4 * c + 1), ("jump", 4 * c + 2), ("wait", 4 * c + 3)]

theorem corridorLabels_succ (length : ℕ) :
    corridorLabels (length + 1) = corridorLabels length ++ cellLabels length := by
  simp [corridorLabels, cellLabels, List.range_succ]

theorem givenTo_cellLabels (c c' : ℕ) {k : ℕ} (hk : k < 4) :
    ChoiceLabels.givenTo (4 * c + k) (cellLabels c') =
      if c = c' then cellActions[k]?.toList else [] := by
  by_cases hc : c = c'
  · subst hc
    rw [if_pos rfl]
    interval_cases k <;> simp [ChoiceLabels.givenTo, cellLabels, cellActions]
  · rw [if_neg hc, ChoiceLabels.givenTo, List.map_eq_nil_iff, List.filter_eq_nil_iff]
    simp only [cellLabels, List.forall_mem_cons, decide_eq_true_eq]
    refine ⟨by omega, by omega, by omega, by omega, by simp⟩

/-- Each choice of a cell is given the name of its action once, and the choice of the goal none. -/
theorem givenTo_corridorLabels (length c : ℕ) {k : ℕ} (hk : k < 4) :
    ChoiceLabels.givenTo (4 * c + k) (corridorLabels length) =
      if c < length then cellActions[k]?.toList else [] := by
  induction length with
  | zero => rfl
  | succ length ih =>
    rw [corridorLabels_succ, ChoiceLabels.givenTo_append, ih, givenTo_cellLabels c length hk]
    rcases Nat.lt_trichotomy c length with hlt | heq | hgt
    · rw [if_pos hlt, if_neg (by omega), if_pos (by omega), List.append_nil]
    · rw [if_neg (by omega), if_pos heq, if_pos (by omega), List.nil_append]
    · rw [if_neg (by omega), if_neg (by omega), if_neg (by omega), List.nil_append]

theorem mem_corridorLabels {length : ℕ} {g : String × ℕ} (h : g ∈ corridorLabels length) :
    g.1 ∈ cellActions ∧ g.2 < 4 * length + 1 := by
  obtain ⟨c, hc, hg⟩ := List.mem_flatMap.1 h
  have hlt := List.mem_range.1 hc
  simp only [List.mem_cons, List.not_mem_nil, or_false] at hg
  rcases hg with rfl | rfl | rfl | rfl
  all_goals
    refine ⟨by simp [cellActions], ?_⟩
    simp only
    omega

theorem labelsOf_corridor (length c : ℕ) {k : ℕ} (hk : k < 4) :
    (choiceLabels (4 * length + 1) (corridorLabels length)).labelsOf (4 * c + k) =
      if c < length then cellActions[k]?.toList else [] := by
  have htracks := ((ChoiceLabels.tracks_empty (4 * length + 1)).attachAll (corridorLabels length)).2
  have hall : ChoiceLabels.accepted (4 * length + 1) (corridorLabels length) = corridorLabels length :=
    List.filter_eq_self.2 fun g hg => decide_eq_true (mem_corridorLabels hg).2
  rw [List.nil_append, hall, ← choiceLabels_eq_attachAll] at htracks
  generalize choiceLabels (4 * length + 1) (corridorLabels length) = l at htracks ⊢
  -- Only four names are ever interned, so the numbers of labels do not run out.
  have hnames : l.names.length ≤ cellActions.length := by
    refine (List.subperm_of_subset l.distinct fun label hlabel => ?_).length_le
    obtain ⟨choice, hgiven⟩ := htracks.mem_names.1 hlabel
    exact (mem_corridorLabels hgiven).1
  rw [htracks.labelsOf_eq (hnames.trans (by decide)), givenTo_corridorLabels length c hk]
  split
  · cases cellActions[k]? <;> rfl
  · rfl

/-! ## Positions, costs and goals -/

theorem foldlM_push {names : List String} (rows : List (List Int))
    (hrows : ∀ r ∈ rows, r.length = names.length) (done : Array (List Datum)) :
    rows.foldlM (fun v row => granted (v.push (row.map .int)))
        (⟨names.map Variable.mk, done⟩ : Valuations) =
      (.ok ⟨names.map Variable.mk, done ++ (rows.map fun r => r.map Datum.int).toArray⟩ :
        Except Defect Valuations) := by
  induction rows generalizing done with
  | nil => simp [pure, Except.pure]
  | cons r rows ih =>
    obtain ⟨hr, hrows⟩ := List.forall_mem_cons.1 hrows
    have hpush : (⟨names.map Variable.mk, done⟩ : Valuations).push (r.map .int) =
        (.ok done.size, ⟨names.map Variable.mk, done.push (r.map .int)⟩) := if_pos (by simpa using hr)
    rw [List.foldlM_cons, hpush]
    refine (ih hrows _).trans ?_
    simp

theorem valuations_eq_ok {names : List String} {rows : List (List Int)}
    (hrows : ∀ r ∈ rows, r.length = names.length) :
    valuations names rows =
      .ok ⟨names.map Variable.mk, (rows.map fun r => r.map Datum.int).toArray⟩ := by
  refine (foldlM_push rows hrows #[]).trans ?_
  simp

/-- The position of each state, which is its number. -/
def positions (length : ℕ) : Valuations :=
  ⟨[⟨"pos"⟩], ((List.range (length + 1)).map fun s => [Datum.int (Int.ofNat s)]).toArray⟩

theorem valuations_corridor (length : ℕ) :
    valuations ["pos"] ((List.range (length + 1)).map fun s => [Int.ofNat s]) =
      .ok (positions length) := by
  rw [valuations_eq_ok (by simp)]
  simp [positions]

theorem value?_positions {length s : ℕ} (hs : s ≤ length) :
    (positions length).value? s "pos" = .ok (some (.int s)) := by
  have hrow : (positions length).row? s = some [.int s] := by
    simp [positions, Valuations.row?, Nat.lt_succ_of_le hs]
  have hcolumn : (positions length).column? "pos" = some 0 := rfl
  simp only [Valuations.value?, hcolumn, hrow]
  rfl

theorem covers_costs (length : ℕ) :
    (corridorCosts length).toArray.size = 4 * length + 1 ∧
      ∀ x ∈ (corridorCosts length).toArray.toList, x.isFinite = true := by
  refine ⟨by simp [corridorCosts, List.length_flatMap, Nat.mul_comm], fun x hx => ?_⟩
  rcases List.mem_append.1 hx with hx | hx
  · obtain ⟨c, -, hx⟩ := List.mem_flatMap.1 hx
    simp only [List.mem_cons, List.not_mem_nil, or_false] at hx
    rcases hx with rfl | rfl | rfl | rfl
    all_goals decide +kernel
  · obtain rfl := List.mem_singleton.1 hx
    decide +kernel

theorem covers_goals (length : ℕ) :
    (corridorGoals length).toArray.size = length + 1 ∧
      ∀ x ∈ (corridorGoals length).toArray.toList, x.isFinite = true := by
  refine ⟨by simp [corridorGoals], fun x hx => ?_⟩
  rcases List.mem_append.1 hx with hx | hx
  · obtain rfl := List.eq_of_mem_replicate hx
    decide +kernel
  · obtain rfl := List.mem_singleton.1 hx
    decide +kernel

theorem state_goals (length s : ℕ) :
    Rewards.state ⟨some (corridorGoals length).toArray, none⟩ s =
      if s = length then 100.0 else 0.0 := by
  show (((corridorGoals length).toArray)[s]?).getD 0.0 = _
  rw [List.getElem?_toArray, corridorGoals, List.getElem?_append, List.length_replicate]
  by_cases hlt : s < length
  · rw [if_pos hlt, List.getElem?_replicate, if_pos hlt, if_neg (by omega), Option.getD_some]
  · rw [if_neg hlt]
    by_cases heq : s = length
    · rw [if_pos heq, heq, Nat.sub_self]
      rfl
    · rw [if_neg heq, List.getElem?_eq_none (by simp; omega)]
      rfl

/-! ## The corridor -/

/-- The parts of a corridor, with the labels of its states. -/
def corridorParts (length : ℕ) (seed : UInt64) (stateLabels : StateLabels) : Components where
  table := Table.ofGroups (corridorGroups length seed)
  stateLabels := stateLabels
  rewards := ⟨[("cost", ⟨none, some (corridorCosts length).toArray⟩),
    ("goal", ⟨some (corridorGoals length).toArray, none⟩)]⟩
  choiceLabels := some (choiceLabels (4 * length + 1) (corridorLabels length))
  valuations := some (positions length)

theorem granted_attach {l : StateLabels} (h : l.Written) {s : ℕ} (hs : s < l.states) (label : String) :
    ∃ l', granted (l.attach label s) = .ok l' ∧ l'.Written ∧ l'.states = l.states ∧
      ∀ t other, t ∈ l'.statesWith other ↔ (t = s ∧ other = label) ∨ t ∈ l.statesWith other :=
  ⟨_, granted_of_fst (congrArg Prod.fst (StateLabels.attach_of_lt hs label)), h.attach label s,
    StateLabels.states_attach l label s, fun _ _ => h.mem_statesWith_attach hs⟩

/-- A corridor starts in its first cell, and its parts are put together as they were laid out. -/
theorem corridor_eq_assemble (length : ℕ) (seed : UInt64) :
    ∃ l : StateLabels, l.Written ∧ l.states = length + 1 ∧ 0 ∈ l.statesWith StateLabels.initial ∧
      corridor length seed = ExplicitModel.assemble .mdp (corridorParts length seed l) := by
  obtain ⟨l, hstart, hwritten, hstates, hfirst⟩ :=
    granted_attach (.empty (length + 1)) (Nat.succ_pos length) StateLabels.initial
  have hlt : length < l.states := hstates.symm ▸ Nat.lt_succ_self length
  obtain ⟨l', hgoal, hwritten', hstates', hholders⟩ := granted_attach hwritten hlt "goal"
  refine ⟨l', hwritten', hstates'.trans hstates,
    (hholders _ _).2 (.inr ((hfirst _ _).2 (.inl ⟨rfl, rfl⟩))), ?_⟩
  have htable := Table.build_eq_ok.2 ⟨fit_corridor length seed, rfl⟩
  unfold corridor
  rw [bind_of_eq_ok htable, bind_of_eq_ok hstart, bind_of_eq_ok hgoal,
    bind_of_eq_ok (valuations_corridor length)]
  simp [corridorParts, Components.withRewards, Registry.insert, Registry.alter,
    Registry.alterEntries, Registry.empty]

theorem corridorParts_checked {length : ℕ} {l : StateLabels} (seed : UInt64)
    (hstates : l.states = length + 1) (hinitial : 0 ∈ l.statesWith StateLabels.initial) :
    (corridorParts length seed l).Checked .mdp := by
  have hgroups : (corridorParts length seed l).table.groupCount = length + 1 := by
    rw [← length_corridorGroups length seed]
    exact Table.groupCount_ofGroups _
  have hrows : (corridorParts length seed l).table.rowCount = 4 * length + 1 :=
    rowCount_corridor length seed
  refine
    { stateLabels := hgroups.trans hstates.symm
      initial := List.ne_nil_of_mem hinitial
      chain := fun h => by cases h
      rewards := ?_
      choiceLabels := ?_
      valuations := ?_
      classes := rfl }
  · rw [hgroups, hrows]
    refine List.forall_mem_cons.2 ⟨?_, List.forall_mem_singleton.2 ?_⟩
    · exact Rewards.defect?_eq_none_iff.2 ⟨rfl, Rewards.partDefect?_eq_none_iff.2 (covers_costs length)⟩
    · exact Rewards.defect?_eq_none_iff.2 ⟨Rewards.partDefect?_eq_none_iff.2 (covers_goals length), rfl⟩
  · intro labels hlabels
    obtain rfl := Option.some.inj hlabels
    have htracks :=
      ((ChoiceLabels.tracks_empty (4 * length + 1)).attachAll (corridorLabels length)).2
    rw [hrows, choiceLabels_eq_attachAll]
    exact htracks.count.symm
  · intro v hv
    obtain rfl := Option.some.inj hv
    rw [hgroups]
    simp [positions, Valuations.stateCount]

theorem corridor_eq_ok (length : ℕ) (seed : UInt64) :
    ∃ p l, corridor length seed = .ok p ∧ p.Validated ∧ p.kind = .mdp ∧
      p.toComponents = corridorParts length seed l := by
  obtain ⟨l, hwritten, hstates, hinitial, hcorridor⟩ := corridor_eq_assemble length seed
  have hchecked := corridorParts_checked seed hstates hinitial
  obtain ⟨p, hp⟩ := ExplicitModel.assemble_of_checked hchecked
  obtain ⟨-, rfl⟩ := ExplicitModel.assemble_eq_ok hp
  have hbuild := Table.build_eq_ok.2 ⟨fit_corridor length seed, rfl⟩
  exact ⟨_, l, hcorridor.trans hp, .intro (Draft.ofGroups (corridorGroups length seed))
    (corridorParts length seed l) .mdp hbuild hwritten hp, rfl, rfl⟩

/-! ## Ways through the corridor -/

section Dynamics

variable {p : ExplicitModel} (ht : p.table = Table.ofGroups (corridorGroups length seed))
include ht

theorem choiceAt_corridor (hc : c ≤ length) (k : ℕ) : p.dynamics.choiceAt c k = 4 * c + k := by
  show (p.table.group c).start + k = _
  rw [ht, start_corridor hc]

theorem actionCount_cell (hc : c < length) : p.dynamics.actionCount c = 4 := by
  show p.table.choiceCount c = _
  rw [ht, Table.choiceCount_of_getElem? (corridorGroups_cell hc)]
  rfl

theorem actionCount_goal : p.dynamics.actionCount length = 1 := by
  show p.table.choiceCount length = _
  rw [ht, Table.choiceCount_of_getElem? (corridorGroups_goal length seed)]
  rfl

theorem row_cell (hc : c < length) {k : ℕ} {r : Row} (hr : (cellRows length seed c)[k]? = some r) :
    p.dynamics.row (p.dynamics.choiceAt c k) = r := by
  show p.table.row ((p.table.group c).start + k) = r
  rw [ht]
  exact Table.row_of_getElem? (corridorGroups_cell hc) hr

theorem row_goal : p.dynamics.row (p.dynamics.choiceAt length 0) = row [(length, 1.0)] := by
  show p.table.row ((p.table.group length).start + 0) = _
  rw [ht]
  exact Table.row_of_getElem? (corridorGroups_goal length seed) rfl

/-- What the choices of a cell lead to: forward, back, jump and wait. -/
theorem successors_cell (hc : c < length) :
    p.dynamics.successors c = [[c + 1, c], [c - 1],
      (landingRow c (jumpTarget length seed c)).map Branch.target, [c]] := by
  unfold Dynamics.successors
  rw [actionCount_cell ht hc]
  simp only [List.range_succ_eq_map, List.range_zero, List.map_cons, List.map_nil]
  rw [row_cell ht hc (k := 0) rfl, row_cell ht hc (k := 1) rfl, row_cell ht hc (k := 2) rfl,
    row_cell ht hc (k := 3) rfl]
  rfl

theorem leads_forward (hc : c < length) : p.dynamics.Leads c (c + 1) := by
  refine ⟨0, by rw [actionCount_cell ht hc]; decide, ⟨c + 1, 0.8⟩, ?_, rfl, ?_⟩
  · rw [row_cell ht hc (k := 0) rfl]
    exact List.mem_cons_self
  · show (0.0 : Float) < 0.8
    decide +kernel

/-- The goal is the only sink, since every cell can be left forward. -/
theorem isSink_corridor (hp : p.Validated) (hc : c ≤ length) :
    p.dynamics.isSink c = true ↔ c = length := by
  constructor
  · intro hsink
    by_contra hne
    obtain ⟨k, hk, b, hb, htarget, -⟩ := leads_forward ht (Nat.lt_of_le_of_ne hc hne)
    have hstay : b.target = c := hp.trap_of_isSink hsink k hk b hb
    omega
  · rintro rfl
    show p.table.isAbsorbing c = true
    rw [ht]
    refine (fit_corridor c seed).isAbsorbing_of_target (by rw [length_corridorGroups]; omega) ?_
    rw [← ht]
    intro k hk b hb
    obtain rfl : k = 0 := by
      have hone : p.table.choiceCount c = 1 := actionCount_goal ht
      omega
    rw [show p.table.row ((p.table.group c).start + 0) = _ from row_goal ht] at hb
    rw [List.mem_singleton.1 hb]

/-- Going forward leads to the goal from everywhere. -/
theorem reaches_goal (hc : c ≤ length) : Relation.ReflTransGen p.dynamics.Leads c length := by
  induction hc using Nat.decreasingInduction with
  | self => exact .refl
  | of_succ c hc ih => exact .head (leads_forward ht hc) ih

variable (hl : p.choiceLabels = some (choiceLabels (4 * length + 1) (corridorLabels length)))
include hl

theorem labelsAt_corridor (hc : c ≤ length) (hcount : p.dynamics.actionCount c ≤ 4) :
    p.dynamics.labelsAt c = some ((List.range (p.dynamics.actionCount c)).map fun k =>
      if c < length then cellActions[k]?.toList else []) := by
  unfold Dynamics.labelsAt
  rw [show p.dynamics.choiceLabels = _ from hl, Option.map_some]
  refine congrArg some (List.map_congr_left fun k hk => ?_)
  rw [choiceAt_corridor ht hc, labelsOf_corridor length c (by rw [List.mem_range] at hk; omega)]

theorem labelsAt_cell (hc : c < length) :
    p.dynamics.labelsAt c = some [["forward"], ["back"], ["jump"], ["wait"]] := by
  have hcount := actionCount_cell ht hc
  rw [labelsAt_corridor ht hl hc.le hcount.le, hcount]
  simp only [if_pos hc]
  rfl

theorem labelsAt_goal : p.dynamics.labelsAt length = some [[]] := by
  have hcount := actionCount_goal ht
  rw [labelsAt_corridor ht hl (Nat.le_refl _) (by omega), hcount]
  simp only [if_neg (Nat.lt_irrefl length)]
  rfl

end Dynamics

/-- The corridor is well formed for every length and every seed: a validated decision process with four
choices for each cell and one for the goal, which is its only sink and can be reached from everywhere. -/
theorem corridor_well_formed (length : ℕ) (seed : UInt64) :
    ∃ p, corridor length seed = .ok p ∧ p.Validated ∧ p.kind = .mdp ∧
      p.dynamics.stateCount = length + 1 ∧ p.table.rowCount = 4 * length + 1 ∧
      (∀ s ≤ length, p.dynamics.isSink s = true ↔ s = length) ∧
      (∀ c < length, p.dynamics.labelsAt c = some [["forward"], ["back"], ["jump"], ["wait"]] ∧
        ∃ landings, p.dynamics.successors c = [[c + 1, c], [c - 1], landings, [c]] ∧
          landings ≠ [] ∧ ∀ t ∈ landings, c + 1 ≤ t ∧ t ≤ min (c + 3) length) ∧
      p.dynamics.labelsAt length = some [[]] ∧
      (∃ r, p.rewards.get? "goal" = some r ∧
        ∀ s ≤ length, r.state s = if s = length then 100.0 else 0.0) ∧
      (∃ v, p.valuations = some v ∧ ∀ s ≤ length, v.value? s "pos" = .ok (some (.int s))) ∧
      ∀ s ≤ length, Relation.ReflTransGen p.dynamics.Leads s length := by
  obtain ⟨p, l, hp, hvalid, hkind, hparts⟩ := corridor_eq_ok length seed
  have ht : p.table = Table.ofGroups (corridorGroups length seed) := by rw [hparts]; rfl
  have hl : p.choiceLabels = some (choiceLabels (4 * length + 1) (corridorLabels length)) := by
    rw [hparts]; rfl
  have hcount : p.dynamics.stateCount = length + 1 := by
    show p.table.groupCount = _
    rw [ht, Table.groupCount_ofGroups, length_corridorGroups]
  refine ⟨p, hp, hvalid, hkind, hcount, by rw [ht, rowCount_corridor],
    fun s hs => isSink_corridor ht hvalid hs, fun c hc => ⟨labelsAt_cell ht hl hc, _,
      successors_cell ht hc, ?_, fun t htarget => ?_⟩, labelsAt_goal ht hl,
    ⟨_, by rw [hparts]; rfl, fun s _ => state_goals length s⟩,
    ⟨_, by rw [hparts]; rfl, fun s hs => value?_positions hs⟩, fun s hs => reaches_goal ht hs⟩
  · have hvalidRow := landingRow_valid (c := c) (Nat.lt_succ_self (jumpTarget length seed c))
    exact fun hnil => hvalidRow.ne_nil (List.map_eq_nil_iff.1 hnil)
  · obtain ⟨hahead, hwithin⟩ := jumpTarget_mem seed hc
    obtain ⟨hlow, hhigh⟩ := mem_landingRow hahead htarget
    exact ⟨hlow, hhigh.trans hwithin⟩

/-- The last cell of a corridor of two. A hop of two or three cells would go past the goal from there, and
every jump leads to the goal. -/
theorem corridor_of_two_well_formed :
    ∃ p, corridor 2 7 = .ok p ∧ p.Validated ∧ p.dynamics.isSink 1 = false ∧
      p.dynamics.labelsAt 1 = some [["forward"], ["back"], ["jump"], ["wait"]] ∧
      (∃ landings, p.dynamics.successors 1 = [[2, 1], [0], landings, [1]] ∧
        landings ≠ [] ∧ ∀ t ∈ landings, t = 2) ∧
      Relation.ReflTransGen p.dynamics.Leads 0 2 := by
  obtain ⟨p, hp, hvalid, -, -, -, hsink, hcells, -, -, -, hreach⟩ := corridor_well_formed 2 7
  obtain ⟨hlabels, landings, hsuccessors, hne, hlandings⟩ := hcells 1 (by decide)
  refine ⟨p, hp, hvalid, ?_, hlabels, ⟨landings, hsuccessors, hne, fun t ht => ?_⟩,
    hreach 0 (by decide)⟩
  · refine Bool.eq_false_iff.2 fun hgoal => ?_
    exact absurd ((hsink 1 (by decide)).1 hgoal) (by decide)
  · obtain ⟨hlow, hhigh⟩ := hlandings t ht
    omega

end Gallery

end MarkovSim
