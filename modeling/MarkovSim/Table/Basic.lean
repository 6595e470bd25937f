import MarkovSim.Model.Defect

/-!
# Tables of transition probabilities

A model's transitions are a list of groups of rows: one group per state, one row per choice of
the state, and in a row the branches with their probabilities. A `Table` stores all rows one
after the other, with the places where rows and groups start: `Table.ofGroups` is the table of a
list of groups. `Table.group` and `Table.row` read the groups and rows back, and `Table.defect?`
finds what is wrong with them.

Stored places are words of 64 bits, and the end of an item is looked up under the next word. After the
last word there is none, so `Table.group?` and `Table.row?`, which take words, depend there on what
becomes of a sum that is too large.
-/

namespace MarkovSim

/-- One possible outcome of a choice. -/
structure Branch where
  target : Nat
  probability : Float
deriving BEq

/-- The outcomes of one choice. -/
abbrev Row := List Branch

/-- The numbers from `start` up to `stop`, which is left out. -/
structure Span where
  start : Nat
  stop : Nat
deriving DecidableEq

namespace Span

def size (s : Span) : Nat := s.stop - s.start

def toList (s : Span) : List Nat := List.range' s.start s.size

end Span

/-- What becomes of a sum that is no word: nothing comes of it, or it wraps around to zero. -/
inductive Overflow where
  | halts
  | wraps
deriving DecidableEq

/-- The word after a word. -/
def Overflow.next? (o : Overflow) (i : UInt64) : Option UInt64 :=
  if o = .wraps ∨ i.toNat + 1 < UInt64.size then some (i + 1) else none

/-- The rows of all states, packed. -/
@[ext]
structure Table where
  /-- The first row of each group, and after them the number of rows. -/
  groupStarts : Array Nat
  /-- The first branch of each row, and after them the number of branches. -/
  rowStarts : Array Nat
  branches : Array Branch
deriving BEq

namespace Row

/-- How far the sum of a row may be from one. -/
def tolerance : Float := 1e-9

/-- The sum of the probabilities, from left to right. -/
def total (row : Row) : Float :=
  row.foldl (fun sum b => sum + b.probability) 0.0

/-- Whether a probability is a number above zero and at most one. -/
def isProbability (p : Float) : Bool :=
  p.isFinite && 0.0 < p && p ≤ 1.0

/-- What is wrong with a branch of row `r` in a model of `states` states. -/
def branchDefect? (states r : Nat) (b : Branch) : Option Defect :=
  if states ≤ b.target then some (.strayTarget r b.target states)
  else if isProbability b.probability then none
  else some (.badProbability r b.target b.probability)

/-- What is wrong with row `r` in a model of `states` states. -/
def defect? (states r : Nat) (row : Row) : Option Defect :=
  if row.isEmpty then some (.emptyRow r)
  else match row.findSome? (branchDefect? states r) with
    | some d => some d
    | none => if tolerance < (row.total - 1.0).abs then some (.unbalancedRow r row.total) else none

end Row

namespace Table

/-- The running sums of `lengths`, from `n` on. -/
def offsets (n : Nat) : List Nat → List Nat
  | [] => [n]
  | l :: ls => n :: offsets (n + l) ls

/-- The groups packed one after the other. -/
def ofGroups (groups : List (List Row)) : Table where
  groupStarts := (offsets 0 (groups.map List.length)).toArray
  rowStarts := (offsets 0 (groups.flatten.map List.length)).toArray
  branches := groups.flatten.flatten.toArray

/-- The numbers from entry `i` of `starts` up to entry `j`; empty where one of them is missing. -/
def between (starts : Array Nat) (i j : Nat) : Span :=
  match starts[i]?, starts[j]? with
  | some start, some stop => ⟨start, stop⟩
  | _, _ => ⟨0, 0⟩

/-- The part of `starts` that belongs to item `i`. -/
def span (starts : Array Nat) (i : Nat) : Span := between starts i (i + 1)

/-- The part of `starts` that belongs to the item with a word for its number. -/
def span? (o : Overflow) (starts : Array Nat) (i : UInt64) : Option Span :=
  (o.next? i).map fun j => between starts i.toNat j.toNat

/-- How many states there are. -/
def groupCount (t : Table) : Nat := t.groupStarts.size - 1

/-- How many choices there are. -/
def rowCount (t : Table) : Nat := t.rowStarts.size - 1

/-- How many branches there are. -/
def branchCount (t : Table) : Nat := t.branches.size

/-- The rows of a state. -/
def group (t : Table) (s : Nat) : Span := span t.groupStarts s

/-- How many choices a state has. -/
def choiceCount (t : Table) (s : Nat) : Nat := (t.group s).size

/-- The branches with the numbers of a span. -/
def branchesIn (t : Table) (s : Span) : Row := (t.branches.extract s.start s.stop).toList

/-- The branches of a row. -/
def row (t : Table) (r : Nat) : Row := t.branchesIn (span t.rowStarts r)

/-- The branches of a row that is given by a word. -/
def row? (t : Table) (o : Overflow) (r : UInt64) : Option Row :=
  (span? o t.rowStarts r).map t.branchesIn

/-- The first defect of the table: no group at all, then an empty group, then row by row. -/
def defect? (t : Table) : Option Defect :=
  if t.groupCount = 0 then some .noStates
  else match (List.range t.groupCount).find? fun s => t.choiceCount s = 0 with
    | some s => some (.noChoices s)
    | none => (List.range t.rowCount).findSome? fun r => (t.row r).defect? t.groupCount r

/-- Whether a state has choices and none of them leaves it. -/
def isAbsorbing (t : Table) (s : Nat) : Bool :=
  let g := t.group s
  0 < g.size &&
    g.toList.all fun r => (t.row r).all fun b => b.target == s || b.probability == 0.0

end Table

end MarkovSim
