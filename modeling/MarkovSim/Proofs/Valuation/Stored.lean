import MarkovSim.Proofs.Trace
import MarkovSim.Proofs.Valuation

/-!
# Valuations that are read

A stored valuation is read field by field, and its rows are taken as they are, whatever their lengths
(`Valuations.decode?_toText`). Rows that are added later do not change them. So a look-up can run past the
end of a row, and exactly at a row that was read too short for it.

Take any valuations, be they declared or read, and those after rows were added, some of them refused.

1. The rows before are the same and all new ones have one value for each variable. So all rows do if and
   only if they did before, as they do where the variables were declared and no row was read.
2. If all rows do, every look-up has an answer. A look-up runs past the end exactly at a row of before
   that ends in front of the name's first column.
3. Rows that do not can be read: there is a text for rows of any lengths.
-/

namespace MarkovSim

namespace Valuations

/-- What a stored valuation can hold: whole numbers of 64 bits and finite numbers, in rows of any
lengths. -/
def Readable (v : Valuations) : Prop :=
  v.Storable ∧ ∀ row ∈ v.rows.toList, ∀ x, .real x ∈ row → x.isFinite = true

end Valuations

theorem Json.int64?_tree {n : ℤ} (hlow : -0x8000000000000000 ≤ n) (hhigh : n < 0x8000000000000000)
    (depth : ℕ) : Json.int64? depth (Json.Value.whole n).tree = some n := by
  have hint : (Json.Numeral.ofInt n).toInt? = some n :=
    Json.toInt?_ofInt hlow (hhigh.trans (by decide))
  rw [Json.Value.tree, Json.int64?, hint]
  simp [Option.filter, hhigh]

theorem Datum.ofJson?_tree {d : Datum} (h : d.Storable) (hreal : ∀ x, d = .real x → x.isFinite = true)
    (depth : ℕ) : Datum.ofJson? (depth + 1) d.toJson.tree = some d := by
  cases d with
  | bool b =>
    rw [toJson, ofJson?, Json.alternative?_object]
    rfl
  | int n =>
    rw [toJson, ofJson?, Json.alternative?_object]
    show (Json.int64? depth (Json.Value.whole n).tree).map int = _
    rw [Json.int64?_tree h.1 h.2]
    rfl
  | real x =>
    rw [toJson, ofJson?, Json.alternative?_object]
    show (Json.float? depth (Json.Value.ofFloat x).tree).map real = _
    rw [Json.float?_tree (hreal x rfl)]
    rfl

theorem Variable.ofJson?_tree (x : Variable) (depth : ℕ) :
    Variable.ofJson? (depth + 1) x.toJson.tree = some x := by
  refine Json.record?_eq_some (by decide) rfl ?_
  show (Json.text? depth (Json.Value.text x.name).tree).map Variable.mk = _
  rw [Json.text?_tree]
  rfl

namespace Valuations

theorem ofJson?_tree {v : Valuations} (h : v.Readable) (depth : ℕ) :
    Valuations.ofJson? (depth + 4) v.toJson.tree = some v := by
  have hdeclared : Json.list? Variable.ofJson? (depth + 3)
      (Json.Value.array (v.declared.map Variable.toJson)).tree = some v.declared :=
    Json.list?_tree fun x _ => Variable.ofJson?_tree x _
  have hrows : Json.list? (Json.list? Datum.ofJson?) (depth + 3)
      (Json.Value.array (v.rows.toList.map fun row => .array (row.map Datum.toJson))).tree =
        some v.rows.toList := by
    refine Json.list?_tree fun row hrow => Json.list?_tree fun d hd => ?_
    exact Datum.ofJson?_tree (h.1 row hrow d hd) (fun x hx => h.2 row hrow x (hx ▸ hd)) depth
  refine Json.record?_eq_some (by decide) rfl ?_
  show (do
    let declared ← Json.list? Variable.ofJson? (depth + 3)
      (Json.Value.array (v.declared.map Variable.toJson)).tree
    let rows ← Json.list? (Json.list? Datum.ofJson?) (depth + 3)
      (Json.Value.array (v.rows.toList.map fun row => .array (row.map Datum.toJson))).tree
    some ⟨declared, rows.toArray⟩ : Option Valuations) = _
  rw [hdeclared, hrows]
  rfl

theorem decode?_toText {v : Valuations} (h : v.Readable) :
    Json.decode? Valuations.ofJson? v.toJson.toText = some v := by
  rw [Json.decode?, Json.ofText?_toText]
  exact ofJson?_tree h 123

/-- A look-up runs past the end of a row only if the row was read that short. Rows that are added have one
value for each variable, and rows of any lengths can be read. -/
theorem overrun_only_if_read (before : Valuations) (rows : List (List Datum))
    {answers : List (Except Defect ℕ)} {v : Valuations} (h : before.pushAll rows = (answers, v)) :
    (v.declared = before.declared ∧ (∀ s < before.stateCount, v.row? s = before.row? s) ∧
      (∀ s row, before.stateCount ≤ s → v.row? s = some row → row.length = v.declared.length) ∧
      (v.Aligned ↔ before.Aligned) ∧ ∀ names, before = declare names → v.Aligned) ∧
    (v.Aligned → ∀ s name, ∃ found, v.value? s name = .ok found) ∧
    (∀ s name e, v.value? s name = .error e ↔ ∃ c row, before.column? name = some c ∧
      before.row? s = some row ∧ row.length ≤ c ∧ e = ⟨s, c⟩) ∧
    (before.Readable → ∃ text, Json.decode? Valuations.ofJson? text = some before) := by
  have hpushed := pushAll_rows rows before
  have haligned := aligned_pushAll_iff (v := before) rows
  rw [h] at hpushed haligned
  obtain ⟨hdeclared, hrows⟩ := Valuations.mk.inj hpushed
  have hold (s : ℕ) (hs : s < before.stateCount) : v.row? s = before.row? s := by
    rw [row?, hrows, Array.getElem?_append_left hs]
    rfl
  have hnew (s : ℕ) (row : List Datum) (hs : before.stateCount ≤ s) (hsome : v.row? s = some row) :
      row.length = v.declared.length := by
    rw [row?, hrows, Array.getElem?_append_right hs] at hsome
    have hmem := List.mem_filter.1 (Array.mem_toList_iff.2 (Array.mem_of_getElem? hsome))
    rw [hdeclared]
    simpa using hmem.2
  refine ⟨⟨hdeclared, hold, hnew, haligned, ?_⟩, Aligned.value?_eq_ok, fun s name e => ?_,
    fun hreadable => ⟨_, decode?_toText hreadable⟩⟩
  · rintro names rfl
    exact haligned.2 (aligned_declare names)
  · have hcolumn : v.column? name = before.column? name := by rw [column?, column?, hdeclared]
    rw [value?_eq_error_iff, hcolumn]
    refine exists_congr fun c => exists_congr fun row => and_congr_right fun hc => ?_
    rcases Nat.lt_or_ge s before.stateCount with hs | hs
    · rw [hold s hs]
    · -- A row that was added reaches past every column.
      have hnone : before.row? s = none := Array.getElem?_eq_none hs
      have hlt := column?_lt hc
      rw [hnone]
      refine iff_of_false ?_ (by simp)
      rintro ⟨hsome, hle, -⟩
      rw [hnew s row hs hsome, hdeclared] at hle
      omega

/-- Two variables with a row of one value and one of three. The one value has no second, the three have
more than they need, a row of one value is refused, and the row that is added has both. -/
theorem uneven_rows_overrun :
    ∃ v, Valuations.pushAll ⟨[⟨"x"⟩, ⟨"y"⟩], #[[.int 1], [.int 2, .int 3, .int 4]]⟩
        [[.int 5], [.int 6, .int 7]] = ([.error (.wrongArity 2 1), .ok 2], v) ∧
      ¬ v.Aligned ∧ v.value? 0 "x" = .ok (some (.int 1)) ∧ v.value? 0 "y" = .error ⟨0, 1⟩ ∧
      v.value? 1 "y" = .ok (some (.int 3)) ∧ v.value? 2 "y" = .ok (some (.int 7)) := by
  obtain ⟨⟨-, -, -, haligned, -⟩, -, herror, -⟩ := overrun_only_if_read
    ⟨[⟨"x"⟩, ⟨"y"⟩], #[[.int 1], [.int 2, .int 3, .int 4]]⟩ [[.int 5], [.int 6, .int 7]] rfl
  refine ⟨_, rfl, fun h => ?_, rfl,
    (herror 0 "y" ⟨0, 1⟩).2 ⟨1, [.int 1], by decide, rfl, le_rfl, rfl⟩, rfl, rfl⟩
  have hlength := haligned.1 h [.int 1] (by simp)
  simp at hlength

/-- A row without values is read for a variable, and a look-up of the variable runs past its end. -/
theorem empty_row_read :
    ∃ v, Json.decode? Valuations.ofJson?
        "\x7b\"variables\":[\x7b\"name\":\"x\"\x7d],\"rows\":[[]]\x7d" = some v ∧
      ¬ v.Aligned ∧ v.value? 0 "x" = .error ⟨0, 0⟩ := by
  have hread : Valuations.Readable ⟨[⟨"x"⟩], #[[]]⟩ := by
    constructor <;> simp [Storable]
  have htext : "\x7b\"variables\":[\x7b\"name\":\"x\"\x7d],\"rows\":[[]]\x7d" =
      (toJson ⟨[⟨"x"⟩], #[[]]⟩).toText := by
    decide +kernel
  refine ⟨_, htext ▸ decode?_toText hread, fun h => ?_, rfl⟩
  have hlength := h [] (by simp)
  simp at hlength

end Valuations

end MarkovSim
