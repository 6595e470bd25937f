import MarkovSim.Gallery.Small

/-!
# Corridors

A corridor is a row of cells with a goal at its end. In each cell one can go forward, which may
fail, go back, jump ahead by up to three cells, or wait. How far a jump leads is fixed by a
seed.
-/

namespace MarkovSim.Gallery

/-- A number that depends on seed and cell without visible pattern. -/
def scramble (seed cell : UInt64) : UInt64 :=
  let z := seed ^^^ (cell * 0x9E3779B97F4A7C15)
  let z := (z ^^^ (z >>> 30)) * 0xBF58476D1CE4E5B9
  let z := (z ^^^ (z >>> 27)) * 0x94D049BB133111EB
  z ^^^ (z >>> 31)

/-- Where a jump from a cell leads. -/
def jumpTarget (length : Nat) (seed : UInt64) (cell : Nat) : Nat :=
  let hop := 1 + (scramble seed (UInt64.ofNat cell) % 3).toNat
  min (cell + hop) length

/-- A jump lands on its target, or one cell short of it unless that is the next cell. -/
def landingRow (cell target : Nat) : Row :=
  if target = cell + 1 then row [(target, 1.0)] else row [(target, 0.5), (target - 1, 0.5)]

/-- The choices of a cell: forward, back, jump, wait. -/
def cellRows (length : Nat) (seed : UInt64) (cell : Nat) : List Row :=
  [ row [(cell + 1, 0.8), (cell, 0.2)],
    row [(cell - 1, 1.0)],
    landingRow cell (jumpTarget length seed cell),
    row [(cell, 1.0)] ]

/-- The rows of a corridor; the goal keeps whoever reaches it. -/
def corridorGroups (length : Nat) (seed : UInt64) : List (List Row) :=
  (List.range length).map (cellRows length seed) ++ [[row [(length, 1.0)]]]

/-- The labels of the choices of all cells. -/
def corridorLabels (length : Nat) : List (String × Nat) :=
  (List.range length).flatMap fun cell =>
    [("forward", 4 * cell), ("back", 4 * cell + 1), ("jump", 4 * cell + 2), ("wait", 4 * cell + 3)]

/-- The cost of each choice: waiting costs half, staying at the goal nothing. -/
def corridorCosts (length : Nat) : List Float :=
  (List.range length).flatMap (fun _ => [1.0, 1.0, 1.0, 0.5]) ++ [0.0]

/-- The rewards for entering a state: a hundred at the goal. -/
def corridorGoals (length : Nat) : List Float :=
  List.replicate length 0.0 ++ [100.0]

/-- A corridor of the given number of cells. -/
def corridor (length : Nat) (seed : UInt64) : Except Defect ExplicitModel := do
  let table ← Table.build (corridorGroups length seed)
  let labels ← granted ((StateLabels.empty (length + 1)).attach StateLabels.initial 0)
  let labels ← granted (labels.attach "goal" length)
  let pos ← valuations ["pos"] ((List.range (length + 1)).map fun s => [Int.ofNat s])
  let parts : Components :=
    { table
      stateLabels := labels
      choiceLabels := some (choiceLabels (4 * length + 1) (corridorLabels length))
      valuations := some pos }
  let parts := parts.withRewards "cost" ⟨none, some (corridorCosts length).toArray⟩
  let parts := parts.withRewards "goal" ⟨some (corridorGoals length).toArray, none⟩
  ExplicitModel.assemble .mdp parts

end MarkovSim.Gallery
