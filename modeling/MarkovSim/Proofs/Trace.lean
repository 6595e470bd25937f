import MarkovSim.Proofs.Json.Decoding
import MarkovSim.Trace.Basic

/-!
# Stored traces

A trace is stored as text and read back. What its parts may hold is bounded by the width of their
numbers (`Trace.Storable`): offsets and states have 64 bits, classes 32, rewards are finite, and a
record is one that a valuation shows. Each part is read from the tree that it is written as, with as
much depth to spare as its own parts open, so the whole comes back unchanged.
-/

namespace MarkovSim

open Json

/-! ## What can be stored -/

/-- An offset has 64 bits. -/
def Action.Storable : Action → Prop
  | .index k => k < UInt64.size
  | .name _ => True

def Move.Storable : Move → Prop
  | .step (some a) => a.Storable
  | _ => True

/-- A whole number has 64 bits with its sign. -/
def Datum.Storable : Datum → Prop
  | .int n => -0x8000000000000000 ≤ n ∧ n < 0x8000000000000000
  | _ => True

def Valuations.Storable (v : Valuations) : Prop :=
  ∀ row ∈ v.rows.toList, ∀ d ∈ row, d.Storable

/-- A state has 64 bits and a class 32; a record is that of a state. -/
def Observation.Storable : Observation → Prop
  | .state s => s < UInt64.size
  | .valuation record => ∃ (v : Valuations) (s : ℕ), v.Storable ∧ v.record? s = some record
  | .classOf o => o < UInt32.size

structure Report.Storable (r : Report) : Prop where
  observation : r.observation.Storable
  reward : r.reward.isFinite = true

def Trace.Storable (t : Trace) : Prop :=
  ∀ e ∈ t.events, e.move.Storable ∧ e.report.Storable

/-! ## Moves -/

theorem Action.ofJson?_tree {a : Action} (h : a.Storable) (depth : ℕ) :
    Action.ofJson? depth a.toJson.tree = some a := by
  cases a with
  | index k =>
    have hread : nat64? depth (Value.whole k).tree = some k := natBelow?_tree le_rfl h depth
    rw [toJson, ofJson?, hread]
  | name l =>
    have hread : nat64? depth (Value.text l).tree = none := rfl
    rw [toJson, ofJson?, hread, text?_tree]
    rfl

theorem Action.tree_ne_null (a : Action) : a.toJson.tree ≠ .null := by
  cases a with
  | index k => exact nofun
  | name l => exact nofun

theorem Move.ofJson?_tree {m : Move} (h : m.Storable) (depth : ℕ) :
    Move.ofJson? (depth + 1) m.toJson.tree = some m := by
  cases m with
  | restart =>
    rw [toJson, ofJson?, alternative?_text]
    rfl
  | wander =>
    rw [toJson, ofJson?, alternative?_text]
    rfl
  | step a =>
    cases a with
    | none =>
      rw [toJson, ofJson?, alternative?_object]
      rfl
    | some a =>
      have hread : optional? Action.ofJson? depth a.toJson.tree = some (some a) :=
        optional?_eq_some (Action.tree_ne_null a) (Action.ofJson?_tree h depth)
      rw [toJson, ofJson?, alternative?_object]
      show (optional? Action.ofJson? depth a.toJson.tree).map Move.step = _
      rw [hread]
      rfl

/-! ## Reports -/

theorem Datum.value?_plain {d : Datum} (h : d.Storable) (depth : ℕ) :
    value? depth d.plain.tree = some d.plain := by
  cases d with
  | bool b => rfl
  | int n => exact value?_whole h.1 (h.2.trans (by decide)) depth
  | real x => exact value?_ofFloat x depth

theorem Valuations.value?_record {v : Valuations} (hv : v.Storable) {s : ℕ} {record : Value}
    (h : v.record? s = some record) (depth : ℕ) :
    Json.value? (depth + 1) record.tree = some record := by
  obtain ⟨row, hrow, rfl⟩ := Option.map_eq_some_iff.1 h
  obtain ⟨sorted, heq, hsorted, hmem⟩ := Value.record_spec
    (List.zipWith (fun (x : Variable) (d : Datum) => (x.name, d.plain)) v.declared row)
  rw [heq]
  refine value?_object hsorted fun m hm => ?_
  obtain ⟨i, hi, rfl⟩ := List.getElem_of_mem (hmem m hm)
  rw [List.getElem_zipWith]
  have hmem : row ∈ v.rows.toList := Array.mem_toList_iff.2 (Array.mem_of_getElem? hrow)
  exact Datum.value?_plain (hv row hmem _ (List.getElem_mem _)) depth

theorem Observation.ofJson?_tree {o : Observation} (h : o.Storable) (depth : ℕ) :
    Observation.ofJson? (depth + 2) o.toJson.tree = some o := by
  cases o with
  | state s =>
    have hread : nat64? (depth + 1) (Value.whole s).tree = some s := natBelow?_tree le_rfl h _
    rw [toJson, ofJson?, alternative?_object]
    show (nat64? (depth + 1) (Value.whole s).tree).map state = _
    rw [hread]
    rfl
  | valuation record =>
    obtain ⟨v, s, hv, hrecord⟩ := h
    rw [toJson, ofJson?, alternative?_object]
    show (value? (depth + 1) record.tree).map valuation = _
    rw [Valuations.value?_record hv hrecord]
    rfl
  | classOf o =>
    have hread : nat32? (depth + 1) (Value.whole o).tree = some o :=
      natBelow?_tree (by decide) h _
    rw [toJson, ofJson?, alternative?_object]
    show (nat32? (depth + 1) (Value.whole o).tree).map classOf = _
    rw [hread]
    rfl

theorem Report.ofJson?_tree {r : Report} (h : r.Storable) (depth : ℕ) :
    Report.ofJson? (depth + 3) r.toJson.tree = some r := by
  refine record?_eq_some (by decide) rfl ?_
  show (do
    let observation ← Observation.ofJson? (depth + 2) r.observation.toJson.tree
    let reward ← float? (depth + 2) (Value.ofFloat r.reward).tree
    some ⟨observation, reward⟩ : Option Report) = _
  rw [Observation.ofJson?_tree h.observation, float?_tree h.reward]
  rfl

/-! ## Traces -/

theorem Perspective.ofJson?_tree (m : Perspective) (depth : ℕ) :
    Perspective.ofJson? depth m.toJson.tree = some m := by
  cases m with
  | states => exact name?_text rfl depth
  | records => exact name?_text rfl depth

theorem Addressing.ofJson?_tree (m : Addressing) (depth : ℕ) :
    Addressing.ofJson? depth m.toJson.tree = some m := by
  cases m with
  | offsets => exact name?_text rfl depth
  | names => exact name?_text rfl depth

theorem Event.ofJson?_tree {e : Event} (hm : e.move.Storable) (hr : e.report.Storable) (depth : ℕ) :
    Event.ofJson? (depth + 4) e.toJson.tree = some e := by
  refine record?_eq_some (by decide) rfl ?_
  show (do
    let move ← Move.ofJson? (depth + 3) e.move.toJson.tree
    let report ← Report.ofJson? (depth + 3) e.report.toJson.tree
    some ⟨move, report⟩ : Option Event) = _
  rw [Move.ofJson?_tree hm, Report.ofJson?_tree hr]
  rfl

theorem Trace.ofJson?_tree {t : Trace} (h : t.Storable) (depth : ℕ) :
    Trace.ofJson? (depth + 6) t.toJson.tree = some t := by
  have hseed : nat64? (depth + 5) (Value.whole t.seed.toNat).tree = some t.seed.toNat :=
    natBelow?_tree le_rfl t.seed.toNat_lt_size _
  have hevents : list? Event.ofJson? (depth + 5) (Value.array (t.events.map Event.toJson)).tree =
      some t.events :=
    list?_tree fun e he => Event.ofJson?_tree (h e he).1 (h e he).2 depth
  refine record?_eq_some (by decide) rfl ?_
  show (do
    let seed ← nat64? (depth + 5) (Value.whole t.seed.toNat).tree
    let observation ← Perspective.ofJson? (depth + 5) t.perspective.toJson.tree
    let action ← Addressing.ofJson? (depth + 5) t.addressing.toJson.tree
    let full ← bool? (depth + 5) (Value.bool t.full).tree
    let events ← list? Event.ofJson? (depth + 5) (Value.array (t.events.map Event.toJson)).tree
    some ⟨UInt64.ofNat seed, observation, action, full, events⟩ : Option Trace) = _
  rw [hseed, Perspective.ofJson?_tree, Addressing.ofJson?_tree, hevents]
  show some _ = _
  rw [UInt64.ofNat_toNat]

/-- A trace that is stored comes back unchanged, with every reward bit for bit. -/
theorem Trace.stored_unchanged (t : Trace) (h : t.Storable) :
    Trace.ofText? t.toText = some t := by
  rw [ofText?, decode?, toText, ofText?_toText]
  exact Trace.ofJson?_tree h 121

/-- A trace with every kind of move and of observation, at the ends of their ranges. -/
def Trace.mixed : Trace where
  seed := 0xFFFFFFFFFFFFFFFF
  perspective := .records
  addressing := .names
  full := true
  events := [
    ⟨.restart, ⟨.valuation
      (.record [("x", .whole (-0x8000000000000000)), ("p\n", .ofFloat 0.1)]), -0.0⟩⟩,
    ⟨.step none, ⟨.state 0xFFFFFFFFFFFFFFFF, 5e-324⟩⟩,
    ⟨.step (some (.index 0xFFFFFFFFFFFFFFFF)), ⟨.classOf 0xFFFFFFFF, 0.1⟩⟩,
    ⟨.step (some (.name "\"north\" \\ \x01é")), ⟨.state 0, 1.5e300⟩⟩,
    ⟨.wander, ⟨.state 1, -1.0⟩⟩]

theorem Trace.storable_mixed : Trace.mixed.Storable := by
  have hlast : 0xFFFFFFFFFFFFFFFF < UInt64.size := by decide
  intro e he
  simp only [mixed, List.mem_cons, List.not_mem_nil, or_false] at he
  rcases he with rfl | rfl | rfl | rfl | rfl
  · refine ⟨trivial, ⟨⟨⟨[⟨"x"⟩, ⟨"p\n"⟩], #[[.int (-0x8000000000000000), .real 0.1]]⟩, 0, ?_, rfl⟩,
      by decide +kernel⟩⟩
    intro row hrow d hd
    obtain rfl := List.mem_singleton.1 hrow
    simp only [List.mem_cons, List.not_mem_nil, or_false] at hd
    rcases hd with rfl | rfl
    · exact ⟨le_rfl, by decide⟩
    · trivial
  · exact ⟨trivial, ⟨hlast, by decide +kernel⟩⟩
  · exact ⟨hlast, ⟨(by decide : 0xFFFFFFFF < UInt32.size), by decide +kernel⟩⟩
  · exact ⟨trivial, ⟨(by decide : 0 < UInt64.size), by decide +kernel⟩⟩
  · exact ⟨trivial, ⟨(by decide : 1 < UInt64.size), by decide +kernel⟩⟩

theorem Trace.mixed_unchanged :
    Trace.mixed.Storable ∧ Trace.ofText? Trace.mixed.toText = some Trace.mixed :=
  ⟨Trace.storable_mixed, Trace.stored_unchanged Trace.mixed Trace.storable_mixed⟩

end MarkovSim
