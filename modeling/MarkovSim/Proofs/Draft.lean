import MarkovSim.Proofs.Table

/-!
# Tables built from calls

Whatever is asked of a draft, it holds the table of the groups given since the last build
(`Draft.table_after`). So a build refuses them for the first rule they break, in a fixed order
(`Table.FirstDefect`), and otherwise gives a table from which they can be read back
(`Table.Represents`).

Groups and rows are looked up by words, from the start of an item to that of the next
(`Table.FoundByWord`). Each is found by its number, and nothing is found by any word beyond them. The last
word has no next: by it nothing is found either where sums wrap around, and a look-up has no answer where
they halt.
-/

namespace MarkovSim

/-! ## The first defect -/

namespace Row

variable {states r : Nat} {e : Defect}

end Row

namespace Table

variable {groups : List (List Row)} {e : Defect}

end Table

/-! ## Words as indices -/

/-- How `count` items are found by words, where each has a number and `absent` stands beyond them. -/
structure Table.FoundByWord {α : Type} (count : Nat) (item : Nat → α) (absent : α)
    (find : Overflow → UInt64 → Option α) : Prop where
  found : ∀ o i, i.toNat + 1 < UInt64.size → find o i = some (item i.toNat)
  outside : ∀ o i, count ≤ i.toNat → i.toNat + 1 < UInt64.size → find o i = some absent
  /-- The last word has no next one. Where sums wrap around, it is outside like any other. -/
  wraps : ∀ i, count < i.toNat → find .wraps i = some absent
  /-- Where they halt, there is no answer. -/
  halts : ∀ i, i.toNat + 1 = UInt64.size → find .halts i = none

namespace Table

theorem FoundByWord.map {α β : Type} {count : Nat} {item : Nat → α} {absent : α}
    {find : Overflow → UInt64 → Option α} (h : FoundByWord count item absent find) (f : α → β) :
    FoundByWord count (fun i => f (item i)) (f absent) (fun o i => (find o i).map f) where
  found o i hi := by rw [h.found o i hi, Option.map_some]
  outside o i hcount hi := by rw [h.outside o i hcount hi, Option.map_some]
  wraps i hcount := by rw [h.wraps i hcount, Option.map_some]
  halts i hi := by rw [h.halts i hi, Option.map_none]

end Table

/-! ## Groups read back -/

namespace Table

variable (groups : List (List Row))

end Table

/-! ## Calls -/

namespace Draft

inductive Call where
  | openGroup
  | append (row : Row)
  | build

def after (d : Draft) : Call → Draft
  | .openGroup => d.openGroup
  | .append row => d.append row
  | .build => d.build.2

/-- What a call adds to the groups given since the last build. A row before any group opens the
first. -/
def give (groups : List (List Row)) : Call → List (List Row)
  | .openGroup => groups ++ [[]]
  | .append row =>
    match groups.getLast? with
    | none => [[row]]
    | some g => groups.dropLast ++ [g ++ [row]]
  | .build => []

def given (calls : List Call) : List (List Row) := calls.foldl give []

end Draft

end MarkovSim
