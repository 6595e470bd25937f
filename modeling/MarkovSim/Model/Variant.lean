import MarkovSim.Model.Basic

/-!
# Variants of a model

Changes to what a model answers, for trying how a simulation copes with them: another
storage, answers that are lost, and answers that contradict the model's rows.
-/

namespace MarkovSim

/-- The answers a model has lost. -/
structure Losses where
  /-- Whether the choice labels are lost. -/
  labels : Bool := false
  /-- Whether the dynamics are no longer given out. -/
  dynamics : Bool := false
  /-- The states whose observation class is lost. -/
  hidden : List Nat := []

/-- The answers that replace a model's own. -/
structure Overrides where
  /-- By state, how many actions it offers. -/
  actionCounts : List (Nat × Nat) := []
  /-- The choices without outcomes. -/
  emptyRows : List Nat := []
  valuations : Option Valuations := none
  /-- Whether the dynamics are not given out. -/
  withheld : Bool := false

namespace Source

/-- The model under another storage. It still gives out the dynamics of the first. -/
def represented (src : Source) (r : Storage) : Source :=
  { src with own := { src.own with storage := r } }

/-- The model without the lost answers. -/
def losing (src : Source) (lost : Losses) : Source :=
  let own := { src.own with
    choiceLabels := if lost.labels then none else src.own.choiceLabels
    observation := fun s => if lost.hidden.contains s then none else src.own.observation s }
  ⟨own, if lost.dynamics then none else some own⟩

/-- The model with some answers replaced. -/
def overriding (src : Source) (o : Overrides) : Source :=
  let own := { src.own with
    actionCount := fun s => (o.actionCounts.lookup s).getD (src.own.actionCount s)
    row := fun c => if o.emptyRows.contains c then [] else src.own.row c
    valuations := o.valuations <|> src.own.valuations }
  ⟨own, if o.withheld then none else some own⟩

end Source

end MarkovSim
