import MarkovSim.Proofs.Trace

/-!
# Traces that are not read back

A number that is not finite is stored as `null`, and `null` is read as no number. A list is not read where
one of its items is not, and a record not where one of its fields is not. So a trace that holds a reward
that is not finite is written, but its text is not read (`Trace.ofText?_toText_cases`).
-/

namespace MarkovSim

namespace Json

theorem float?_tree_of_not {x : Float} (hx : x.isFinite = false) (depth : ℕ) :
    float? depth (Value.ofFloat x).tree = none := by
  rw [Value.ofFloat, if_neg (by simp [hx])]
  rfl

theorem mapM_eq_none {α β : Type} {read : α → Option β} {as : List α} {a : α} (ha : a ∈ as)
    (h : read a = none) : as.mapM read = none := by
  induction as with
  | nil => cases ha
  | cons b as ih =>
    rw [List.mapM_cons]
    rcases List.mem_cons.1 ha with rfl | ha
    · rw [h]
      rfl
    · simp [ih ha]

theorem list?_eq_none {α : Type} {item : Decoder α} {write : α → Value} {depth : ℕ} {as : List α}
    {a : α} (ha : a ∈ as) (h : item depth (write a).tree = none) :
    list? item (depth + 1) (Value.array (as.map write)).tree = none := by
  rw [Value.tree, itemTrees_map, list?]
  exact mapM_eq_none (List.mem_map_of_mem ha) h

end Json

open Json

theorem Report.ofJson?_eq_none {r : Report} (h : r.reward.isFinite = false) (depth : ℕ) :
    Report.ofJson? (depth + 1) r.toJson.tree = none := by
  have hnodup : ["observation", "reward"].Nodup := by decide
  refine (record?_tree hnodup rfl).trans ?_
  show (do
    let observation ← Observation.ofJson? depth r.observation.toJson.tree
    let reward ← float? depth (Value.ofFloat r.reward).tree
    some ⟨observation, reward⟩ : Option Report) = _
  simp [float?_tree_of_not h]

theorem Event.ofJson?_eq_none {e : Event} (h : e.report.reward.isFinite = false) (depth : ℕ) :
    Event.ofJson? (depth + 2) e.toJson.tree = none := by
  have hnodup : ["action", "result"].Nodup := by decide
  refine (record?_tree hnodup rfl).trans ?_
  show (do
    let move ← Move.ofJson? (depth + 1) e.move.toJson.tree
    let report ← Report.ofJson? (depth + 1) e.report.toJson.tree
    some ⟨move, report⟩ : Option Event) = _
  simp [Report.ofJson?_eq_none h]

theorem Trace.ofJson?_eq_none {t : Trace} {e : Event} (he : e ∈ t.events)
    (h : e.report.reward.isFinite = false) (depth : ℕ) :
    Trace.ofJson? (depth + 4) t.toJson.tree = none := by
  have hevents : list? Event.ofJson? (depth + 3) (Value.array (t.events.map Event.toJson)).tree =
      none := list?_eq_none he (Event.ofJson?_eq_none h depth)
  have hnodup : ["seed", "observation_mode", "action_mode", "full_observability", "steps"].Nodup := by
    decide
  refine (record?_tree hnodup rfl).trans ?_
  show (do
    let seed ← nat64? (depth + 3) (Value.whole t.seed.toNat).tree
    let observation ← Perspective.ofJson? (depth + 3) t.perspective.toJson.tree
    let action ← Addressing.ofJson? (depth + 3) t.addressing.toJson.tree
    let full ← bool? (depth + 3) (Value.bool t.full).tree
    let events ← list? Event.ofJson? (depth + 3) (Value.array (t.events.map Event.toJson)).tree
    some ⟨UInt64.ofNat seed, observation, action, full, events⟩ : Option Trace) = _
  simp [hevents]

theorem Trace.ofText?_toText_eq_none {t : Trace} {e : Event} (he : e ∈ t.events)
    (h : e.report.reward.isFinite = false) : Trace.ofText? t.toText = none := by
  rw [ofText?, decode?, toText, ofText?_toText]
  exact Trace.ofJson?_eq_none he h 123

/-- What a trace holds apart from its rewards can be stored. -/
def Trace.Sized (t : Trace) : Prop :=
  ∀ e ∈ t.events, e.move.Storable ∧ e.report.observation.Storable

/-- A trace comes back unchanged if its rewards are finite, and not at all otherwise. -/
theorem Trace.ofText?_toText_cases {t : Trace} (h : t.Sized) :
    ((∀ e ∈ t.events, e.report.reward.isFinite = true) ∧ Trace.ofText? t.toText = some t) ∨
      (∃ e ∈ t.events, e.report.reward.isFinite = false) ∧ Trace.ofText? t.toText = none := by
  by_cases hfinite : ∀ e ∈ t.events, e.report.reward.isFinite = true
  · have hread : Trace.ofJson? (121 + 6) t.toJson.tree = some t :=
      Trace.ofJson?_tree (fun e he => ⟨(h e he).1, (h e he).2, hfinite e he⟩) 121
    refine .inl ⟨hfinite, ?_⟩
    rw [ofText?, decode?, toText, ofText?_toText]
    exact hread
  · push Not at hfinite
    obtain ⟨e, he, hnot⟩ := hfinite
    have hnot := Bool.eq_false_iff.2 hnot
    exact .inr ⟨⟨e, he, hnot⟩, ofText?_toText_eq_none he hnot⟩

end MarkovSim
