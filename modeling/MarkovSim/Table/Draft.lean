import MarkovSim.Table.Basic

/-!
# Writing a table

A draft takes the groups and rows of a table one at a time and packs them as they come, so it
always holds the table of the groups written so far. Building checks that table and leaves an
empty draft, whether the table is refused or not.
-/

namespace MarkovSim

namespace Table

/-! ## One more group, one more row -/

theorem length_offsets (n : Nat) (ls : List Nat) : (offsets n ls).length = ls.length + 1 := by
  induction ls generalizing n with
  | nil => rfl
  | cons l ls ih => simp [offsets, ih]

theorem offsets_concat {α : Type} (n : Nat) (xss : List (List α)) (xs : List α) :
    offsets n ((xss ++ [xs]).map List.length) =
      offsets n (xss.map List.length) ++ [n + (xss ++ [xs]).flatten.length] := by
  induction xss generalizing n with
  | nil =>
    rw [List.nil_append, List.flatten_cons, List.flatten_nil, List.append_nil]
    rfl
  | cons ys xss ih =>
    have h := ih (n + ys.length)
    rw [List.cons_append, List.map_cons, offsets, h, List.map_cons, offsets, List.cons_append,
      List.flatten_cons, List.length_append, Nat.add_assoc]

theorem flatten_addRow (groups : List (List Row)) (g : List Row) (row : Row) :
    (groups ++ [g ++ [row]]).flatten = (groups ++ [g]).flatten ++ [row] := by
  simp only [List.flatten_append, List.flatten_cons, List.flatten_nil, List.append_nil,
    List.append_assoc]

theorem rowCount_ofGroups (groups : List (List Row)) :
    (ofGroups groups).rowCount = groups.flatten.length := by
  unfold rowCount ofGroups
  rw [List.size_toArray, length_offsets, List.length_map, Nat.add_sub_cancel]

theorem groupStarts_concat (groups : List (List Row)) (g : List Row) :
    (ofGroups (groups ++ [g])).groupStarts =
      (ofGroups groups).groupStarts.push (ofGroups (groups ++ [g])).rowCount := by
  rw [rowCount_ofGroups]
  dsimp only [ofGroups]
  rw [offsets_concat, Nat.zero_add, ← List.push_toArray]

theorem branches_addRow (groups : List (List Row)) (g : List Row) (row : Row) :
    (ofGroups (groups ++ [g ++ [row]])).branches =
      (ofGroups (groups ++ [g])).branches ++ row.toArray := by
  dsimp only [ofGroups]
  rw [flatten_addRow, List.flatten_concat, List.append_toArray]

theorem rowStarts_addRow (groups : List (List Row)) (g : List Row) (row : Row) :
    (ofGroups (groups ++ [g ++ [row]])).rowStarts =
      (ofGroups (groups ++ [g])).rowStarts.push
        (ofGroups (groups ++ [g ++ [row]])).branches.size := by
  dsimp only [ofGroups]
  rw [flatten_addRow, offsets_concat, Nat.zero_add, ← List.push_toArray, List.size_toArray]

end Table

/-- A table that is being written. -/
structure Draft where
  /-- The first row of each group. -/
  groupStarts : Array Nat
  /-- The first branch of each row, and after them the number of branches. -/
  rowStarts : Array Nat
  branches : Array Branch
  /-- With the number of rows after the group starts, this is the table of some groups. -/
  packed : ∃ groups, Table.mk (groupStarts.push (rowStarts.size - 1)) rowStarts branches =
    Table.ofGroups groups

namespace Draft

/-- The table of what is written so far. -/
def table (d : Draft) : Table :=
  ⟨d.groupStarts.push (d.rowStarts.size - 1), d.rowStarts, d.branches⟩

/-- Nothing written yet. -/
def empty : Draft := ⟨#[], #[0], #[], [], rfl⟩

section Groups

variable {d : Draft} {groups : List (List Row)} (h : d.table = Table.ofGroups groups)
include h

theorem rowCount_eq : d.rowStarts.size - 1 = (Table.ofGroups groups).rowCount := by
  rw [← h]
  rfl

theorem groupStarts_push :
    d.groupStarts.push (Table.ofGroups groups).rowCount = (Table.ofGroups groups).groupStarts := by
  rw [← h]
  rfl

theorem size_groupStarts : d.groupStarts.size = groups.length := by
  have hsize := congrArg Array.size (groupStarts_push h)
  simpa [Table.ofGroups, Table.length_offsets] using hsize

theorem packed_openGroup :
    Table.mk ((d.groupStarts.push (d.rowStarts.size - 1)).push (d.rowStarts.size - 1))
      d.rowStarts d.branches = Table.ofGroups (groups ++ [[]]) := by
  have hrows : (groups ++ [[]]).flatten = groups.flatten := by
    rw [List.flatten_concat, List.append_nil]
  apply Table.ext
  · rw [Table.groupStarts_concat, Table.rowCount_ofGroups, hrows, ← Table.rowCount_ofGroups,
      ← groupStarts_push h, rowCount_eq h]
  · show d.table.rowStarts = _
    rw [h]
    dsimp only [Table.ofGroups]
    rw [hrows]
  · show d.table.branches = _
    rw [h]
    dsimp only [Table.ofGroups]
    rw [hrows]

end Groups

/-- Starts the group of the next state. -/
def openGroup (d : Draft) : Draft where
  groupStarts := d.groupStarts.push (d.rowStarts.size - 1)
  rowStarts := d.rowStarts
  branches := d.branches
  packed := by
    obtain ⟨groups, h⟩ := d.packed
    exact ⟨groups ++ [[]], packed_openGroup h⟩

theorem table_openGroup {d : Draft} {groups : List (List Row)}
    (h : d.table = Table.ofGroups groups) : d.openGroup.table = Table.ofGroups (groups ++ [[]]) :=
  packed_openGroup h

/-- A new row is packed after the others and ends the newest group. -/
theorem packed_extend {d : Draft} {groups : List (List Row)} {g : List Row}
    (h : d.table = Table.ofGroups (groups ++ [g])) (row : Row) :
    Table.mk (d.groupStarts.push ((d.rowStarts.push (d.branches ++ row.toArray).size).size - 1))
        (d.rowStarts.push (d.branches ++ row.toArray).size) (d.branches ++ row.toArray) =
      Table.ofGroups (groups ++ [g ++ [row]]) := by
  have hbranches : d.branches ++ row.toArray =
      (Table.ofGroups (groups ++ [g ++ [row]])).branches := by
    rw [Table.branches_addRow, ← h]
    rfl
  have hrows : d.rowStarts.push (d.branches ++ row.toArray).size =
      (Table.ofGroups (groups ++ [g ++ [row]])).rowStarts := by
    rw [Table.rowStarts_addRow, ← hbranches, ← h]
    rfl
  have hgroups : d.groupStarts = (Table.ofGroups groups).groupStarts := by
    have hpush := groupStarts_push h
    rw [Table.groupStarts_concat] at hpush
    exact (Array.push_inj_left).1 hpush
  apply Table.ext
  · rw [Table.groupStarts_concat, hgroups, hrows]
    rfl
  · exact hrows
  · exact hbranches

/-- Adds a row to the newest group. -/
def extend (d : Draft) (h : d.groupStarts.size ≠ 0) (row : Row) : Draft where
  groupStarts := d.groupStarts
  rowStarts := d.rowStarts.push (d.branches ++ row.toArray).size
  branches := d.branches ++ row.toArray
  packed := by
    obtain ⟨groups, hgroups⟩ := d.packed
    rcases List.eq_nil_or_concat groups with rfl | ⟨gs, g, rfl⟩
    · exact absurd (size_groupStarts hgroups) h
    · rw [List.concat_eq_append] at hgroups
      exact ⟨gs ++ [g ++ [row]], packed_extend hgroups row⟩

theorem size_openGroup (d : Draft) : d.openGroup.groupStarts.size ≠ 0 := by
  simp [openGroup]

/-- Adds a row to the newest group, and starts the first group if there is none. -/
def append (d : Draft) (row : Row) : Draft :=
  if h : d.groupStarts.size = 0 then d.openGroup.extend d.size_openGroup row else d.extend h row

/-- The table of the groups written, and the empty draft. -/
def build (d : Draft) : Except Defect Table × Draft :=
  (match d.table.defect? with
    | some e => .error e
    | none => .ok d.table, empty)

/-- The draft of a list of groups. -/
def ofGroups (groups : List (List Row)) : Draft :=
  groups.foldl (fun d g => g.foldl append d.openGroup) empty

end Draft

/-- The table of a list of groups, if nothing is wrong with it. -/
def Table.build (groups : List (List Row)) : Except Defect Table :=
  (Draft.ofGroups groups).build.1

end MarkovSim
