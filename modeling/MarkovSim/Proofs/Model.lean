import MarkovSim.Model.Explicit
import MarkovSim.Proofs.StateLabels
import MarkovSim.Proofs.Table

/-!
# Dynamics of a model whose parts fit together

`Dynamics.Sound` collects what a session relies on: every state offers an action, every offered
action leads to a state, and whatever the modes may show of a state is there. The parts of an
assembled model are checked one by one; `Validated.sound` draws all of it from these checks.
-/

namespace MarkovSim

/-- Dynamics that can be walked from every state, with all that may be shown of a state. -/
structure Dynamics.Sound (d : Dynamics) : Prop where
  initial_lt : d.initial < d.stateCount
  actionCount_pos : ∀ s < d.stateCount, 0 < d.actionCount s
  actionCount_chain : d.nondeterministic = false → ∀ s < d.stateCount, d.actionCount s = 1
  row_ne_nil : ∀ s < d.stateCount, ∀ k < d.actionCount s, d.row (d.choiceAt s k) ≠ []
  target_lt : ∀ c, ∀ b ∈ d.row c, b.target < d.stateCount
  record : ∀ v, d.valuations = some v → ∀ s < d.stateCount, (v.record? s).isSome
  observation : d.partiallyObservable = true → ∀ s < d.stateCount, (d.observation s).isSome
  rewardOfState : ∀ i s, (d.rewardOfState i s).isFinite = true
  rewardOfChoice : ∀ i c, (d.rewardOfChoice i c).isFinite = true

/-- A state whose actions all lead back to it. -/
def Dynamics.Trap (d : Dynamics) (s : Nat) : Prop :=
  ∀ k < d.actionCount s, ∀ b ∈ d.row (d.choiceAt s k), b.target = s

/-! ## Rewards -/

namespace Rewards

theorem isFinite_zero : (0.0 : Float).isFinite = true := by decide +kernel

theorem partDefect?_eq_none_iff {name : String} {part : Part} {n : Nat} {xs : Array Float} :
    partDefect? name part n (some xs) = none ↔
      xs.size = n ∧ ∀ x ∈ xs.toList, x.isFinite = true := by
  simp only [partDefect?]
  by_cases hn : xs.size = n
  · rw [if_neg (not_not_intro hn), List.findSome?_eq_none_iff]
    refine ⟨fun h => ⟨hn, fun x hx => ?_⟩, fun h => ?_⟩
    · obtain ⟨i, hi, rfl⟩ := List.getElem_of_mem hx
      have := h (xs.toList[i], i) (List.mem_zipIdx_iff_getElem?.2 (List.getElem?_eq_getElem hi))
      simpa using this
    · rintro ⟨x, i⟩ hx
      have := h.2 x (List.mem_of_getElem? (List.mem_zipIdx_iff_getElem?.1 hx))
      simp [this]
  · simp [hn]

theorem defect?_eq_none_iff {r : Rewards} {name : String} {states choices : Nat} :
    r.defect? name states choices = none ↔
      partDefect? name .rewardsOfStates states r.ofStates = none ∧
        partDefect? name .rewardsOfChoices choices r.ofChoices = none := by
  unfold defect?
  cases partDefect? name .rewardsOfStates states r.ofStates <;> simp

/-- A part without defect gives a finite reward at every place, zero where it has none. -/
theorem isFinite_of_partDefect? {name : String} {part : Part} {n : Nat}
    {xs : Option (Array Float)} (h : partDefect? name part n xs = none) (i : Nat) :
    ((xs.bind fun xs => xs[i]?).getD 0.0).isFinite = true := by
  cases xs with
  | none => exact isFinite_zero
  | some xs =>
    have hfin := (partDefect?_eq_none_iff.1 h).2
    rw [Option.bind_some]
    cases hx : xs[i]? with
    | none => exact isFinite_zero
    | some x =>
      obtain ⟨hi, rfl⟩ := Array.getElem?_eq_some_iff.1 hx
      exact hfin _ (Array.getElem_mem_toList hi)

end Rewards

/-! ## The checks of the parts -/

namespace Components

theorem lengthDefect?_eq_none_iff {part : Part} {expected got : Nat} :
    lengthDefect? part expected got = none ↔ expected = got := by
  unfold lengthDefect?
  split <;> simp_all

theorem branchingState?_eq_none_iff {c : Components} :
    c.branchingState? = none ↔ ∀ s < c.table.groupCount, c.table.choiceCount s = 1 := by
  unfold branchingState?
  simp only [List.findSome?_eq_none_iff, List.mem_range]
  exact forall₂_congr fun s _ => by split <;> simp_all

theorem classes_of_classDefect? {c : Components} (h : c.classDefect? .pomdp = none) :
    ∃ classes, c.classes = some classes ∧ classes.size = c.table.groupCount := by
  unfold classDefect? at h
  cases hc : c.classes with
  | none => simp [hc] at h
  | some classes =>
    refine ⟨classes, rfl, ?_⟩
    simp only [hc] at h
    cases hl : lengthDefect? .classes c.table.groupCount classes.size with
    | none => exact (lengthDefect?_eq_none_iff.1 hl).symm
    | some d => simp [hl] at h

/-- What the checks before the last establish, one field for each in their order. -/
structure Framed (c : Components) (kind : ModelKind) : Prop where
  stateLabels : c.table.groupCount = c.stateLabels.states
  initial : c.stateLabels.statesWith StateLabels.initial ≠ []
  chain : kind = .dtmc → ∀ s < c.table.groupCount, c.table.choiceCount s = 1
  rewards : ∀ e ∈ c.rewards.entries, e.2.defect? e.1 c.table.groupCount c.table.rowCount = none
  choiceLabels : ∀ l, c.choiceLabels = some l → c.table.rowCount = l.choiceCount
  valuations : ∀ v, c.valuations = some v → c.table.groupCount = v.stateCount

structure Checked (c : Components) (kind : ModelKind) : Prop extends Framed c kind where
  classes : c.classDefect? kind = none

/-- The classes are checked last. -/
theorem defect?_eq_or (c : Components) (kind : ModelKind) :
    c.defect? kind = ((c.checks kind).dropLast.findSome? id).or (c.classDefect? kind) := by
  have hchecks : c.checks kind = (c.checks kind).dropLast ++ [c.classDefect? kind] := rfl
  unfold defect?
  rw [hchecks, List.findSome?_append, List.dropLast_concat]
  cases c.classDefect? kind <;> rfl

theorem findSome?_dropLast_eq_none_iff {c : Components} {kind : ModelKind} :
    (c.checks kind).dropLast.findSome? id = none ↔ c.Framed kind := by
  simp only [checks, List.dropLast, List.findSome?_eq_none_iff, List.forall_mem_cons, List.not_mem_nil,
    id_eq, lengthDefect?_eq_none_iff, Option.bind_eq_none_iff, ite_eq_right_iff, reduceCtorEq,
    imp_false, List.isEmpty_iff, branchingState?_eq_none_iff, false_implies, implies_true, and_true,
    Prod.forall]
  constructor
  · rintro ⟨h₁, h₂, h₃, h₄, h₅, h₆⟩
    exact ⟨h₁, h₂, h₃, fun e he => h₄ e.1 e.2 he, h₅, h₆⟩
  · rintro ⟨h₁, h₂, h₃, h₄, h₅, h₆⟩
    exact ⟨h₁, h₂, h₃, fun name r he => h₄ (name, r) he, h₅, h₆⟩

theorem defect?_eq_none_iff {c : Components} {kind : ModelKind} :
    c.defect? kind = none ↔ c.Checked kind := by
  rw [defect?_eq_or, Option.or_eq_none_iff, findSome?_dropLast_eq_none_iff]
  exact ⟨fun h => ⟨h.1, h.2⟩, fun h => ⟨h.toFramed, h.classes⟩⟩

end Components

/-! ## Validated models -/

namespace ExplicitModel

/-- Models assembled from a table that was built and state labels that were written. Nothing is asked
of the choice labels and valuations, which may be stored ones. -/
inductive Validated (p : ExplicitModel) : Prop
  | intro (draft : Draft) (c : Components) (kind : ModelKind) (table : draft.build.1 = .ok c.table)
      (labels : c.stateLabels.Written) (assembled : assemble kind c = .ok p) : Validated p

theorem assemble_eq_ok {kind : ModelKind} {c : Components} {p : ExplicitModel}
    (h : assemble kind c = .ok p) :
    c.Checked kind ∧
      p = { c with
        kind := kind
        initial := ((c.stateLabels.statesWith StateLabels.initial).head?).getD 0 } := by
  unfold assemble at h
  cases hd : c.defect? kind with
  | none => rw [hd] at h; exact ⟨Components.defect?_eq_none_iff.1 hd, (Except.ok.inj h).symm⟩
  | some d => rw [hd] at h; cases h

theorem assemble_of_checked {kind : ModelKind} {c : Components} (h : c.Checked kind) :
    ∃ p, assemble kind c = .ok p := by
  unfold assemble
  rw [Components.defect?_eq_none_iff.2 h]
  exact ⟨_, rfl⟩

theorem initial_lt {c : Components} {kind : ModelKind} (hw : c.stateLabels.Written)
    (hc : c.Checked kind) :
    ((c.stateLabels.statesWith StateLabels.initial).head?).getD 0 < c.table.groupCount := by
  rw [hc.stateLabels]
  cases hs : c.stateLabels.statesWith StateLabels.initial with
  | nil => exact absurd hs hc.initial
  | cons s rest => exact hw.lt_states _ s (by rw [hs]; exact List.mem_cons_self)

theorem reward_isFinite {c : Components} {kind : ModelKind} (hc : c.Checked kind)
    {f : Rewards → Float} (hf : ∀ r name, r.defect? name c.table.groupCount c.table.rowCount = none →
      (f r).isFinite = true) (i : Nat) : (((c.rewards.at? i).map f).getD 0.0).isFinite = true := by
  unfold Registry.at?
  cases he : c.rewards.entries[i]? with
  | none => exact Rewards.isFinite_zero
  | some e => exact hf e.2 e.1 (hc.rewards e (List.mem_of_getElem? he))

theorem record?_isSome {v : Valuations} {s : Nat} (hs : s < v.stateCount) :
    (v.record? s).isSome := by
  unfold Valuations.record? Valuations.row?
  rw [Array.getElem?_eq_getElem hs]
  rfl

theorem Validated.table_fits {p : ExplicitModel} (h : p.Validated) :
    ∃ groups, Table.Fit groups ∧ p.table = Table.ofGroups groups := by
  obtain ⟨draft, c, kind, htable, -, hp⟩ := h
  obtain ⟨groups, hgroups⟩ := draft.packed
  obtain ⟨-, rfl⟩ := assemble_eq_ok hp
  exact ⟨groups, (Draft.build_eq_ok hgroups).1 htable⟩

theorem Validated.sound {p : ExplicitModel} (h : p.Validated) : p.dynamics.Sound := by
  obtain ⟨groups, hfit, ht⟩ := h.table_fits
  obtain ⟨draft, c, kind, -, hw, hp⟩ := h
  obtain ⟨hc, rfl⟩ := assemble_eq_ok hp
  replace ht : c.table = Table.ofGroups groups := ht
  have hcount : c.table.groupCount = groups.length := by rw [ht, Table.groupCount_ofGroups]
  refine
    { initial_lt := initial_lt hw hc
      actionCount_pos := ?_
      actionCount_chain := ?_
      row_ne_nil := ?_
      target_lt := ?_
      record := ?_
      observation := ?_
      rewardOfState := ?_
      rewardOfChoice := ?_ }
  · intro s hs
    show 0 < c.table.choiceCount s
    rw [ht]
    exact hfit.choiceCount_pos (hcount ▸ hs)
  · intro hdet s hs
    exact hc.chain (by cases kind <;> simp_all [dynamics, ModelKind.nondeterministic]) s hs
  · intro s hs k hk
    show c.table.row ((c.table.group s).start + k) ≠ []
    have hk' : k < c.table.choiceCount s := hk
    rw [ht] at hk' ⊢
    exact (hfit.row_valid (hcount ▸ hs) hk').ne_nil
  · intro r b hb
    show b.target < c.table.groupCount
    rw [hcount]
    exact (hfit.branch_valid (r := r) (by rw [← ht]; exact hb)).target_lt
  · intro v hv s hs
    exact record?_isSome (hc.valuations v hv ▸ hs)
  · intro hpart s hs
    obtain rfl : kind = .pomdp := by cases kind <;> simp_all [dynamics, ModelKind.partiallyObservable]
    obtain ⟨classes, hclasses, hsize⟩ := Components.classes_of_classDefect? hc.classes
    show (c.classes.bind fun classes => classes[s]?).isSome
    rw [hclasses, Option.bind_some, Array.getElem?_eq_getElem (hsize ▸ hs)]
    rfl
  · intro i s
    exact reward_isFinite hc (f := fun r => r.state s) (fun r name hr =>
      Rewards.isFinite_of_partDefect? (Rewards.defect?_eq_none_iff.1 hr).1 s) i
  · intro i s
    exact reward_isFinite hc (f := fun r => r.choice s) (fun r name hr =>
      Rewards.isFinite_of_partDefect? (Rewards.defect?_eq_none_iff.1 hr).2 s) i

theorem Validated.row_valid {p : ExplicitModel} (h : p.Validated) {s k : Nat}
    (hs : s < p.dynamics.stateCount) (hk : k < p.dynamics.actionCount s) :
    (p.dynamics.row (p.dynamics.choiceAt s k)).Valid p.dynamics.stateCount := by
  obtain ⟨groups, hfit, ht⟩ := h.table_fits
  replace hs : s < p.table.groupCount := hs
  replace hk : k < p.table.choiceCount s := hk
  show Row.Valid p.table.groupCount (p.table.row ((p.table.group s).start + k))
  rw [ht, Table.groupCount_ofGroups] at hs
  rw [ht] at hk
  rw [ht, Table.groupCount_ofGroups]
  exact hfit.row_valid hs hk

theorem Validated.trap_of_isSink {p : ExplicitModel} (h : p.Validated) {s : Nat}
    (hs : p.dynamics.isSink s = true) : p.dynamics.Trap s := by
  obtain ⟨groups, hfit, ht⟩ := h.table_fits
  intro k hk b hb
  replace hs : p.table.isAbsorbing s = true := hs
  replace hk : k < p.table.choiceCount s := hk
  replace hb : b ∈ p.table.row ((p.table.group s).start + k) := hb
  rw [ht] at hs hk hb
  exact hfit.target_of_isAbsorbing hs hk hb

/-- A state that is no sink has a branch that leads to another state, and a sink has none. -/
theorem Validated.isSink_eq_false_iff {p : ExplicitModel} (h : p.Validated) {s : Nat}
    (hs : s < p.dynamics.stateCount) :
    p.dynamics.isSink s = false ↔ ∃ k < p.dynamics.actionCount s, ∃ (i : Nat) (b : Branch),
      (p.dynamics.row (p.dynamics.choiceAt s k))[i]? = some b ∧ b.target ≠ s := by
  constructor
  · refine fun hsink => Classical.byContradiction fun hnone => ?_
    obtain ⟨groups, hfit, ht⟩ := h.table_fits
    replace hs : s < p.table.groupCount := hs
    replace hsink : p.table.isAbsorbing s = false := hsink
    have htrap : p.table.isAbsorbing s = true := by
      rw [ht, Table.groupCount_ofGroups] at hs
      rw [ht]
      refine hfit.isAbsorbing_of_target hs fun k hk b hb => ?_
      rw [← ht] at hk hb
      by_contra htarget
      obtain ⟨i, hi⟩ := List.getElem?_of_mem hb
      exact hnone ⟨k, hk, i, b, hi, htarget⟩
    rw [htrap] at hsink
    cases hsink
  · rintro ⟨k, hk, i, b, hb, htarget⟩
    refine Bool.eq_false_iff.2 fun hsink => htarget ?_
    exact h.trap_of_isSink hsink k hk b (List.mem_of_getElem? hb)

end ExplicitModel

end MarkovSim
