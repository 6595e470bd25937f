import Mathlib.Algebra.Order.Ring.Nat
import MarkovSim.Proofs.StateLabels
import MarkovSim.Valuation

/-!
# Rows, records and look-ups

Rows that are added to a valuation have one value for each variable (`pushAll_rows`). A look-up takes the
first column of a name, and a record keeps the last value given to a key (`Json.Value.get?_record`). In an
aligned row both find a value (`Aligned.exists_values`), so the two agree where a name is declared once and
may differ where it is declared again.

Of the valuations that declare `names` and to which rows were added:

1. The rows of another length than `names` are refused and change nothing; the others get the numbers from
   zero on, in order.
2. The record of a state has exactly the declared names as keys. Under each it shows the value in the
   last column of the name, while a look-up finds the value in the first column.
3. So if no name is declared again, the record shows under every name what a look-up finds, and nothing
   where that finds nothing.
-/

namespace MarkovSim

/-! ## Records by key -/

namespace Json.Value

theorem lookup_insert (key : String) (v : Value) (members : List (String × Value)) (k : String) :
    (insert key v members).lookup k = if k = key then some v else members.lookup k := by
  induction members with
  | nil => rw [insert, Registry.lookup_cons_ite]
  | cons m rest ih =>
    obtain ⟨l, w⟩ := m
    unfold insert
    by_cases hlt : key < l
    · rw [if_pos hlt, Registry.lookup_cons_ite]
    · by_cases heq : key = l
      · subst heq
        rw [if_neg hlt, if_pos rfl, Registry.lookup_cons_ite, Registry.lookup_cons_ite]
        by_cases hk : k = key <;> simp [hk]
      · rw [if_neg hlt, if_neg heq, Registry.lookup_cons_ite, Registry.lookup_cons_ite, ih]
        by_cases hk : k = key
        · subst hk
          simp [heq]
        · simp [hk]

theorem lookup_foldl_insert (members : List (String × Value)) (k : String) :
    ∀ done : List (String × Value),
      (members.foldl (fun sorted m => insert m.1 m.2 sorted) done).lookup k =
        (members.reverse.lookup k).or (done.lookup k) := by
  induction members with
  | nil =>
    intro done
    rfl
  | cons m rest ih =>
    intro done
    rw [List.foldl_cons, ih, lookup_insert, List.reverse_cons, List.lookup_append,
      Registry.lookup_cons_ite]
    cases rest.reverse.lookup k with
    | some v => rfl
    | none => by_cases hk : k = m.1 <;> simp [hk]

/-- Under each key a record holds the last of the values given for it. -/
theorem get?_record (members : List (String × Value)) (k : String) :
    (record members).get? k = members.reverse.lookup k := by
  show (members.foldl (fun sorted m => insert m.1 m.2 sorted) []).lookup k = _
  rw [lookup_foldl_insert]
  simp

end Json.Value

namespace Valuations

/-! ## Adding rows -/

/-- Adds rows in turn, going on after one that is refused. -/
def pushAll (v : Valuations) : List (List Datum) → List (Except Defect Nat) × Valuations
  | [] => ([], v)
  | row :: rest =>
    ((v.push row).1 :: ((v.push row).2.pushAll rest).1, ((v.push row).2.pushAll rest).2)

/-- The rows with one value for each of `n` variables. -/
def suiting (n : Nat) (rows : List (List Datum)) : List (List Datum) :=
  rows.filter fun row => row.length = n

variable {v : Valuations}

theorem push_of_length {row : List Datum} (h : row.length = v.declared.length) :
    v.push row = (.ok v.stateCount, { v with rows := v.rows.push row }) := if_pos h

theorem push_of_length_ne {row : List Datum} (h : row.length ≠ v.declared.length) :
    v.push row = (.error (.wrongArity v.declared.length row.length), v) := if_neg h

/-- The rows that suit the variables are added in order, and nothing else changes. -/
theorem pushAll_rows (rows : List (List Datum)) : ∀ v : Valuations,
    (v.pushAll rows).2 =
      { v with rows := v.rows ++ (suiting v.declared.length rows).toArray } := by
  induction rows with
  | nil =>
    intro v
    simp [pushAll, suiting]
  | cons row rest ih =>
    intro v
    by_cases h : row.length = v.declared.length
    · simp [pushAll, push_of_length h, ih, suiting, h]
    · simp [pushAll, push_of_length_ne h, ih, suiting, h]

/-- Each row is answered by the number of rows before it, or refused for its length. -/
theorem pushAll_answer (rows : List (List Datum)) : ∀ (v : Valuations) (i : Nat) (row : List Datum),
    rows[i]? = some row → (v.pushAll rows).1[i]? =
      some (if row.length = v.declared.length
        then .ok (v.stateCount + (suiting v.declared.length (rows.take i)).length)
        else .error (.wrongArity v.declared.length row.length)) := by
  induction rows with
  | nil =>
    intro v i row hi
    simp at hi
  | cons head rest ih =>
    intro v i row hi
    cases i with
    | zero =>
      obtain rfl : head = row := by simpa using hi
      by_cases h : head.length = v.declared.length
      · simp [pushAll, push_of_length h, h, suiting]
      · simp [pushAll, push_of_length_ne h, h]
    | succ i =>
      rw [List.getElem?_cons_succ] at hi
      by_cases h : head.length = v.declared.length
      · have hcount : stateCount { v with rows := v.rows.push head } = v.stateCount + 1 :=
          Array.size_push head
        simp [pushAll, push_of_length h, h, suiting, ih _ i row hi, hcount, Nat.add_assoc,
          Nat.add_comm 1]
      · simp [pushAll, push_of_length_ne h, h, suiting, ih v i row hi]

theorem length_pushAll (rows : List (List Datum)) : ∀ v : Valuations,
    (v.pushAll rows).1.length = rows.length := by
  induction rows with
  | nil =>
    intro v
    rfl
  | cons row rest ih =>
    intro v
    simp [pushAll, ih]

theorem getElem?_suiting {n i : Nat} {rows : List (List Datum)} {row : List Datum}
    (hi : rows[i]? = some row) (hrow : row.length = n) :
    (suiting n rows)[(suiting n (rows.take i)).length]? = some row := by
  obtain ⟨hlt, rfl⟩ := List.getElem?_eq_some_iff.1 hi
  have hsplit : rows.take i ++ rows[i] :: rows.drop (i + 1) = rows := by simp
  have hsuiting : suiting n rows =
      suiting n (rows.take i) ++ rows[i] :: suiting n (rows.drop (i + 1)) := by
    rw [← congrArg (suiting n) hsplit]
    unfold suiting
    rw [List.filter_append, List.filter_cons_of_pos (by simpa using hrow)]
  simp [hsuiting]

def Aligned (v : Valuations) : Prop :=
  ∀ row ∈ v.rows.toList, row.length = v.declared.length

theorem aligned_declare (names : List String) : (declare names).Aligned := by
  intro row hrow
  simp [declare] at hrow

/-- Adding rows leaves it to the rows before whether all are aligned. -/
theorem aligned_pushAll_iff (rows : List (List Datum)) :
    (v.pushAll rows).2.Aligned ↔ v.Aligned := by
  rw [pushAll_rows]
  constructor
  · intro h row hrow
    exact h row (by simp_all)
  · intro h row hrow
    simp only [Array.toList_append, List.mem_append, suiting, List.mem_filter, decide_eq_true_eq] at hrow
    rcases hrow with hrow | ⟨-, hlength⟩
    · exact h row hrow
    · exact hlength

theorem Aligned.length_row (h : v.Aligned) {s : Nat} {row : List Datum} (hrow : v.row? s = some row) :
    row.length = v.declared.length :=
  h row (Array.mem_toList_iff.2 (Array.mem_of_getElem? hrow))

/-! ## Columns -/

/-- The first and the last column of a name. -/
structure Columns (names : List String) (name : String) (first last : Nat) : Prop where
  ofFirst : names[first]? = some name
  ofLast : names[last]? = some name
  between : ∀ i, names[i]? = some name → first ≤ i ∧ i ≤ last

theorem exists_columns {names : List String} {name : String} (h : name ∈ names) :
    ∃ first last, Columns names name first last := by
  induction names with
  | nil => simp at h
  | cons n rest ih =>
    by_cases hrest : name ∈ rest
    · obtain ⟨first, last, hcolumns⟩ := ih hrest
      by_cases hn : n = name
      · subst hn
        refine ⟨0, last + 1, rfl, hcolumns.ofLast, fun i hi => ⟨Nat.zero_le i, ?_⟩⟩
        cases i with
        | zero => exact Nat.zero_le _
        | succ i => exact Nat.succ_le_succ (hcolumns.between i hi).2
      · refine ⟨first + 1, last + 1, hcolumns.ofFirst, hcolumns.ofLast, fun i hi => ?_⟩
        cases i with
        | zero => exact absurd (Option.some.inj hi) hn
        | succ i =>
          have hle := hcolumns.between i hi
          omega
    · obtain rfl : name = n := by simpa [hrest] using h
      refine ⟨0, 0, rfl, rfl, fun i hi => ?_⟩
      cases i with
      | zero => simp
      | succ i => exact absurd (List.mem_of_getElem? (by simpa using hi : rest[i]? = some name)) hrest

theorem Columns.eq_of_nodup {names : List String} {name : String} {first last : Nat}
    (h : Columns names name first last) (hnodup : names.Nodup) : first = last := by
  have hlt := (List.getElem?_eq_some_iff.1 h.ofFirst).1
  exact (List.getElem?_inj hlt hnodup).1 (h.ofFirst.trans h.ofLast.symm)

theorem lookup_reverse_of_last {α : Type} {entries : List (String × α)} {k : String} {a : α} {j : Nat}
    (hj : entries[j]? = some (k, a)) (hlast : ∀ i b, entries[i]? = some (k, b) → i ≤ j) :
    entries.reverse.lookup k = some a := by
  obtain ⟨hlt, hentry⟩ := List.getElem?_eq_some_iff.1 hj
  have hsplit : entries.take j ++ (k, a) :: entries.drop (j + 1) = entries := by simp [← hentry]
  refine List.lookup_eq_some_iff.2
    ⟨(entries.drop (j + 1)).reverse, (entries.take j).reverse, ?_, fun p hp => ?_⟩
  · rw [← congrArg List.reverse hsplit]
    simp only [List.reverse_append, List.reverse_cons, List.append_assoc, List.singleton_append]
  · obtain ⟨i, hi⟩ := List.getElem?_of_mem (List.mem_reverse.1 hp)
    rw [List.getElem?_drop] at hi
    rw [bne_iff_ne]
    rintro rfl
    have hle := hlast _ p.2 hi
    omega

section LookUps

variable {s : Nat} {name : String} {row : List Datum} {first last : Nat}

theorem column?_of_columns (h : Columns (v.declared.map Variable.name) name first last) :
    v.column? name = some first := by
  obtain ⟨hlt, hname⟩ := List.getElem?_eq_some_iff.1 h.ofFirst
  refine List.idxOf?_eq_some_iff.2 ⟨hlt, hname, fun j hj hsame => ?_⟩
  have hle := (h.between j (List.getElem?_eq_some_iff.2 ⟨hj.trans hlt, hsame⟩)).1
  omega

theorem value?_of_columns (h : Columns (v.declared.map Variable.name) name first last)
    (hrow : v.row? s = some row) {d : Datum} (hd : row[first]? = some d) :
    v.value? s name = .ok (some d) := by
  simp only [value?, column?_of_columns h, hrow, hd]

theorem value?_of_not_mem (h : name ∉ v.declared.map Variable.name) :
    v.value? s name = .ok none := by
  have hnone : v.column? name = none := List.idxOf?_eq_none_iff.2 h
  simp only [value?, hnone]

theorem name_of_member {i : Nat} {p : String × Json.Value}
    (h : (List.zipWith (fun (x : Variable) (d : Datum) => (x.name, d.plain)) v.declared row)[i]? =
      some p) : (v.declared.map Variable.name)[i]? = some p.1 := by
  obtain ⟨x, d, hx, -, rfl⟩ := List.getElem?_zipWith_eq_some.1 h
  simp [hx]

/-- What a record shows under a name is what its row holds in the name's last column. -/
theorem get?_of_columns (h : Columns (v.declared.map Variable.name) name first last)
    (hrow : v.row? s = some row) {d : Datum} (hd : row[last]? = some d) {record : Json.Value}
    (hrecord : v.record? s = some record) : record.get? name = some d.plain := by
  obtain ⟨row', hrow', rfl⟩ := Option.map_eq_some_iff.1 hrecord
  obtain rfl : row = row' := Option.some.inj (hrow.symm.trans hrow')
  rw [Json.Value.get?_record]
  refine lookup_reverse_of_last (j := last) ?_ fun i x hi => (h.between i (name_of_member hi)).2
  have hlast := h.ofLast
  rw [List.getElem?_map, Option.map_eq_some_iff] at hlast
  obtain ⟨x, hx, rfl⟩ := hlast
  exact List.getElem?_zipWith_eq_some.2 ⟨x, d, hx, hd, rfl⟩

theorem get?_of_not_mem (h : name ∉ v.declared.map Variable.name) {record : Json.Value}
    (hrecord : v.record? s = some record) : record.get? name = none := by
  obtain ⟨row, -, rfl⟩ := Option.map_eq_some_iff.1 hrecord
  rw [Json.Value.get?_record, List.lookup_eq_none_iff]
  intro p hp
  obtain ⟨i, hi⟩ := List.getElem?_of_mem (List.mem_reverse.1 hp)
  rw [bne_iff_ne]
  rintro rfl
  exact h (List.mem_of_getElem? (name_of_member hi))

/-- A look-up runs past the end of a row exactly where the row is too short for the column. -/
theorem value?_eq_error_iff {e : ShortRow} :
    v.value? s name = .error e ↔ ∃ c row, v.column? name = some c ∧ v.row? s = some row ∧
      row.length ≤ c ∧ e = ⟨s, c⟩ := by
  constructor
  · intro h
    cases hc : v.column? name with
    | none => simp [value?, hc] at h
    | some c =>
      cases hrow : v.row? s with
      | none => simp [value?, hc, hrow] at h
      | some row =>
        cases hd : row[c]? with
        | none =>
          simp only [value?, hc, hrow, hd, Except.error.injEq] at h
          exact ⟨c, row, rfl, rfl, List.getElem?_eq_none_iff.1 hd, h.symm⟩
        | some d => simp [value?, hc, hrow, hd] at h
  · rintro ⟨c, row, hc, hrow, hle, rfl⟩
    simp only [value?, hc, hrow, List.getElem?_eq_none_iff.2 hle]

theorem column?_lt {c : Nat} (h : v.column? name = some c) : c < v.declared.length := by
  simpa using (List.idxOf?_eq_some_iff.1 h).1

theorem Aligned.value?_eq_ok (hv : v.Aligned) (s : Nat) (name : String) :
    ∃ found, v.value? s name = .ok found := by
  cases hvalue : v.value? s name with
  | ok found => exact ⟨found, rfl⟩
  | error e =>
    obtain ⟨c, row, hc, hrow, hle, -⟩ := value?_eq_error_iff.1 hvalue
    have hlt := column?_lt hc
    rw [← hv.length_row hrow] at hlt
    omega

/-- In an aligned row both the first and the last column of a name hold a value: a look-up finds the one
and the record shows the other. -/
theorem Aligned.exists_values (hv : v.Aligned)
    (h : Columns (v.declared.map Variable.name) name first last) (hrow : v.row? s = some row)
    {record : Json.Value} (hrecord : v.record? s = some record) :
    ∃ d d', row[first]? = some d ∧ row[last]? = some d' ∧ v.value? s name = .ok (some d) ∧
      record.get? name = some d'.plain := by
  have hlength := hv.length_row hrow
  have hfirst := (List.getElem?_eq_some_iff.1 h.ofFirst).1
  have hlast := (List.getElem?_eq_some_iff.1 h.ofLast).1
  rw [List.length_map, ← hlength] at hfirst hlast
  exact ⟨row[first], row[last], List.getElem?_eq_getElem hfirst, List.getElem?_eq_getElem hlast,
    value?_of_columns h hrow (List.getElem?_eq_getElem hfirst),
    get?_of_columns h hrow (List.getElem?_eq_getElem hlast) hrecord⟩

theorem Aligned.isSome_get?_iff (hv : v.Aligned) (hrow : v.row? s = some row) {record : Json.Value}
    (hrecord : v.record? s = some record) :
    (record.get? name).isSome = true ↔ name ∈ v.declared.map Variable.name := by
  constructor
  · intro hsome
    by_contra hnot
    simp [get?_of_not_mem hnot hrecord] at hsome
  · intro hmem
    obtain ⟨first, last, hcolumns⟩ := exists_columns hmem
    obtain ⟨d, d', -, -, -, hget⟩ := hv.exists_values hcolumns hrow hrecord
    simp [hget]

/-- Where no name is declared again, a record shows what a look-up finds. -/
theorem Aligned.get?_eq_value? (hv : v.Aligned) (hnodup : (v.declared.map Variable.name).Nodup)
    (hrow : v.row? s = some row) {record : Json.Value} (hrecord : v.record? s = some record)
    (name : String) :
    ∃ found, v.value? s name = .ok found ∧ record.get? name = found.map Datum.plain := by
  by_cases hmem : name ∈ v.declared.map Variable.name
  · obtain ⟨first, last, hcolumns⟩ := exists_columns hmem
    obtain rfl := hcolumns.eq_of_nodup hnodup
    obtain ⟨d, d', hd, hd', hvalue, hget⟩ := hv.exists_values hcolumns hrow hrecord
    obtain rfl : d = d' := Option.some.inj (hd.symm.trans hd')
    exact ⟨some d, hvalue, hget⟩
  · exact ⟨none, value?_of_not_mem hmem, get?_of_not_mem hmem hrecord⟩

end LookUps

/-- A record agrees with the look-ups of all names that are declared once: it shows the value in the last
column of a name, and a look-up finds the value in the first. -/
theorem record_agrees_once_declared (names : List String) (rows : List (List Datum))
    {answers : List (Except Defect Nat)} {v : Valuations}
    (h : (declare names).pushAll rows = (answers, v)) :
    (v.rows.toList = suiting names.length rows ∧ answers.length = rows.length ∧
      ∀ i row, rows[i]? = some row →
        row.length ≠ names.length ∧
            answers[i]? = some (.error (.wrongArity names.length row.length)) ∨
          row.length = names.length ∧ ∃ s, s = (suiting names.length (rows.take i)).length ∧
            answers[i]? = some (.ok s) ∧ v.row? s = some row) ∧
    ∀ s row, v.row? s = some row → ∃ record, v.record? s = some record ∧
      (∀ name, (record.get? name).isSome = true ↔ name ∈ names) ∧
      (∀ name, name ∉ names → v.value? s name = .ok none) ∧
      (∀ name first last, Columns names name first last →
        ∃ d d', row[first]? = some d ∧ row[last]? = some d' ∧ v.value? s name = .ok (some d) ∧
          record.get? name = some d'.plain) ∧
      (names.Nodup → ∀ name, ∃ found, v.value? s name = .ok found ∧
        record.get? name = found.map Datum.plain) := by
  have hpushed := pushAll_rows rows (declare names)
  have haligned := (aligned_pushAll_iff rows).2 (aligned_declare names)
  have hlength : (declare names).declared.length = names.length := List.length_map _
  rw [h] at haligned hpushed
  obtain ⟨hdeclared, hpushed⟩ := Valuations.mk.inj hpushed
  have hnames : v.declared.map Variable.name = names := by
    simp [hdeclared, declare, Function.comp_def]
  have hrows : v.rows.toList = suiting names.length rows := by
    simp [hpushed, declare]
  refine ⟨⟨hrows, ?_, fun i row hi => ?_⟩, fun s row hrow => ?_⟩
  · rw [← length_pushAll rows (declare names), h]
  · have hanswer := pushAll_answer rows (declare names) i row hi
    rw [h, hlength] at hanswer
    by_cases hfits : row.length = names.length
    · refine Or.inr ⟨hfits, _, rfl, ?_, ?_⟩
      · simpa [hfits, declare, stateCount] using hanswer
      · rw [row?, ← Array.getElem?_toList, hrows]
        exact getElem?_suiting hi hfits
    · exact Or.inl ⟨hfits, by simpa [hfits] using hanswer⟩
  · obtain ⟨record, hrecord⟩ : ∃ record, v.record? s = some record := by simp [record?, hrow]
    rw [← hnames]
    exact ⟨record, hrecord, fun name => haligned.isSome_get?_iff hrow hrecord,
      fun name => value?_of_not_mem, fun name first last hcolumns =>
        haligned.exists_values hcolumns hrow hrecord,
      fun hnodup => haligned.get?_eq_value? hnodup hrow hrecord⟩

/-- The first row is refused, and the second is that of state zero. It gives `x` two values: a look-up
finds the first and the record shows the second. Both agree on `done`. -/
theorem repeated_beside_single :
    ∃ v, (declare ["x", "done", "x"]).pushAll [[.int 7], [.int 0, .bool false, .int 5]] =
        ([.error (.wrongArity 3 1), .ok 0], v) ∧
      ∃ record, v.record? 0 = some record ∧
        v.value? 0 "x" = .ok (some (.int 0)) ∧ record.get? "x" = some (.whole 5) ∧
        v.value? 0 "done" = .ok (some (.bool false)) ∧ record.get? "done" = some (.bool false) := by
  have hx : Columns ["x", "done", "x"] "x" 0 2 :=
    ⟨rfl, rfl, fun i hi => by rcases i with _ | _ | _ | i <;> simp_all⟩
  have hdone : Columns ["x", "done", "x"] "done" 1 1 :=
    ⟨rfl, rfl, fun i hi => by rcases i with _ | _ | _ | i <;> simp_all⟩
  obtain ⟨-, hlook⟩ := record_agrees_once_declared ["x", "done", "x"]
    [[.int 7], [.int 0, .bool false, .int 5]] rfl
  obtain ⟨record, hrecord, -, -, hcolumns, -⟩ := hlook 0 _ rfl
  obtain ⟨d, d', hd, hd', hvalue, hget⟩ := hcolumns "x" 0 2 hx
  obtain ⟨b, b', hb, hb', hvalue', hget'⟩ := hcolumns "done" 1 1 hdone
  cases hd
  cases hd'
  cases hb
  cases hb'
  exact ⟨_, rfl, record, hrecord, hvalue, hget, hvalue', hget'⟩

/-- Of a variable that is declared twice a look-up and the record give different values. -/
theorem repeated_disagrees :
    ∃ v record, (declare ["x", "x"]).pushAll [[.int 1, .int 2]] = ([.ok 0], v) ∧
      v.record? 0 = some record ∧ v.value? 0 "x" = .ok (some (.int 1)) ∧
      record.get? "x" = some (.whole 2) ∧ record.get? "x" ≠ some (Datum.int 1).plain := by
  refine ⟨_, _, rfl, rfl, rfl, rfl, ?_⟩
  show some (Json.Value.whole 2) ≠ some (.whole 1)
  simp

end Valuations

end MarkovSim
