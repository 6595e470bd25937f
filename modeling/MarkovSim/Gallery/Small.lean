import MarkovSim.Model.Explicit
import MarkovSim.Table.Draft

/-!
# Small models

A chain of two states, a decision process of four states with no, one or several labels on a
choice, and a process with two states that look alike.
-/

namespace MarkovSim.Gallery

/-- A row from pairs of target and probability. -/
def row (branches : List (Nat × Float)) : Row :=
  branches.map fun b => ⟨b.1, b.2⟩

/-- What a call leaves behind that must be granted. -/
def granted {ε α σ : Type} (call : Except ε α × σ) : Except ε σ := call.1.map fun _ => call.2

/-- The parts of a model of these groups that starts in state zero. -/
def startingAtZero (groups : List (List Row)) : Except Defect Components := do
  let table ← Table.build groups
  let stateLabels ← granted ((StateLabels.empty table.groupCount).attach StateLabels.initial 0)
  return { table, stateLabels }

/-- Valuations with the given rows. -/
def valuations (names : List String) (rows : List (List Int)) : Except Defect Valuations :=
  rows.foldlM (fun v row => granted (v.push (row.map .int))) (.declare names)

/-- Labels given to choices one after the other. -/
def choiceLabels (choices : Nat) (labels : List (String × Nat)) : ChoiceLabels :=
  labels.foldl (fun l (label, c) => (l.attach label c).2) (.empty choices)

/-- A chain that goes from one state to the other and stays there. -/
def chain : Except Defect ExplicitModel := do
  let parts ← startingAtZero [[row [(1, 1.0)]], [row [(1, 1.0)]]]
  let parts := parts.withRewards "reward" ⟨none, some #[1.5, 2.5]⟩
  let pos ← valuations ["pos"] [[0], [1]]
  ExplicitModel.assemble .dtmc { parts with valuations := some pos }

/-- The rows of the four-state decision process. -/
def gridGroups : List (List Row) :=
  [ [row [(1, 1.0)], row [(2, 0.5), (3, 0.5)], row [(0, 1.0)]],
    [row [(3, 1.0)]],
    [row [(3, 1.0)], row [(3, 1.0)]],
    [row [(3, 1.0)]] ]

/-- The four-state decision process with its costs. -/
def gridParts : Except Defect Components := do
  let parts ← startingAtZero gridGroups
  return parts.withRewards "cost" ⟨none, some #[1.0, 2.0, 3.0, 4.0, 5.0, 6.0, 7.0]⟩

/-- The labels of its choices; two choices have none. -/
def gridLabels : List (String × Nat) :=
  [("north", 0), ("south", 1), ("north", 3), ("south", 5), ("stay", 6)]

/-- The decision process with labels and valuations. -/
def labeledGrid : Except Defect ExplicitModel := do
  let parts ← gridParts
  let xy ← valuations ["x", "y"] [[0, 0], [0, 1], [1, 0], [1, 1]]
  ExplicitModel.assemble .mdp { parts with
    choiceLabels := some (choiceLabels 7 gridLabels)
    valuations := some xy }

/-- The decision process without labels and valuations. -/
def plainGrid : Except Defect ExplicitModel := do
  ExplicitModel.assemble .mdp (← gridParts)

/-- The decision process with a choice of two labels. -/
def crowdedGrid : Except Defect ExplicitModel := do
  let parts ← gridParts
  ExplicitModel.assemble .mdp { parts with
    choiceLabels := some (choiceLabels 7 (gridLabels ++ [("east", 1)])) }

/-- A process whose two middle states look alike. -/
def twins : Except Defect ExplicitModel := do
  let parts ← startingAtZero
    [ [row [(1, 0.5), (2, 0.5)], row [(0, 1.0)]],
      [row [(3, 1.0)], row [(1, 1.0)]],
      [row [(1, 1.0)], row [(3, 1.0)]],
      [row [(3, 1.0)]] ]
  let parts := parts.withRewards "goal" ⟨some #[0.0, 0.0, 0.0, 10.0], none⟩
  let s ← valuations ["s"] [[0], [1], [2], [3]]
  ExplicitModel.assemble .pomdp { parts with valuations := some s, classes := some #[0, 1, 1, 2] }

end MarkovSim.Gallery
