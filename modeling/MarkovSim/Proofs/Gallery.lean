import MarkovSim.Gallery.Small
import MarkovSim.Proofs.Model

/-!
# Models of the gallery

A model is validated however its parts came about, as long as its table was built from groups of rows
and its states were labeled one by one. So are those that start in state zero
(`validated_of_startingAtZero`), whatever rewards, labels, valuations and classes they were given.
-/

namespace MarkovSim

namespace Gallery

theorem bind_eq_ok {ε α β : Type} {x : Except ε α} {f : α → Except ε β} {b : β}
    (h : x >>= f = .ok b) : ∃ a, x = .ok a ∧ f a = .ok b := by
  cases x with
  | error e => cases h
  | ok a => exact ⟨a, rfl, h⟩

theorem bind_of_eq_ok {ε α β : Type} {x : Except ε α} {a : α} (h : x = .ok a) (f : α → Except ε β) :
    x >>= f = f a := by
  rw [h]
  rfl

theorem eq_ok_of_toOption {ε α : Type} {x : Except ε α} {a : α} (h : x.toOption = some a) :
    x = .ok a := by
  cases x with
  | error e => cases h
  | ok b => exact congrArg Except.ok (Option.some.inj h)

theorem exists_eq_ok {ε α : Type} {x : Except ε α} (h : x.toOption.isSome = true) :
    ∃ a, x = .ok a := by
  obtain ⟨a, ha⟩ := Option.isSome_iff_exists.1 h
  exact ⟨a, eq_ok_of_toOption ha⟩

theorem granted_eq_ok {ε α σ : Type} {call : Except ε α × σ} {s : σ} (h : granted call = .ok s) :
    call.2 = s := by
  obtain ⟨_ | a, t⟩ := call
  · cases h
  · exact Except.ok.inj h

theorem granted_of_fst {ε α σ : Type} {call : Except ε α × σ} {a : α} (h : call.1 = .ok a) :
    granted call = .ok call.2 := by
  unfold granted
  rw [h]
  rfl

theorem startingAtZero_eq_ok {groups : List (List Row)} {parts : Components}
    (h : startingAtZero groups = .ok parts) :
    Table.build groups = .ok parts.table ∧ parts.stateLabels.Written := by
  obtain ⟨t, ht, h⟩ := bind_eq_ok h
  obtain ⟨l, hl, h⟩ := bind_eq_ok h
  obtain rfl := Except.ok.inj h
  refine ⟨ht, ?_⟩
  rw [← granted_eq_ok hl]
  exact .attach _ _ (.empty _)

theorem bare_of_startingAtZero {groups : List (List Row)} {parts : Components}
    (h : startingAtZero groups = .ok parts) :
    parts.rewards = .empty ∧ parts.choiceLabels = none ∧ parts.valuations = none ∧
      parts.classes = none := by
  obtain ⟨t, -, h⟩ := bind_eq_ok h
  obtain ⟨l, -, h⟩ := bind_eq_ok h
  obtain rfl := Except.ok.inj h
  exact ⟨rfl, rfl, rfl, rfl⟩

theorem validated_of_startingAtZero {kind : ModelKind} {c parts : Components} {p : ExplicitModel}
    {groups : List (List Row)} (hp : ExplicitModel.assemble kind c = .ok p)
    (hparts : startingAtZero groups = .ok parts) (htable : c.table = parts.table)
    (hlabels : c.stateLabels = parts.stateLabels) : p.Validated := by
  obtain ⟨hbuild, hwritten⟩ := startingAtZero_eq_ok hparts
  refine .intro (Draft.ofGroups groups) c kind ?_ ?_ hp
  · rw [htable]
    exact hbuild
  · rw [hlabels]
    exact hwritten

theorem chain_validated : ∃ p, chain = .ok p ∧ p.Validated := by
  obtain ⟨p, hp⟩ := exists_eq_ok (x := chain) (by decide +kernel)
  obtain ⟨parts, hparts, h⟩ := bind_eq_ok hp
  obtain ⟨pos, -, h⟩ := bind_eq_ok h
  exact ⟨p, hp, validated_of_startingAtZero h hparts rfl rfl⟩

theorem labeledGrid_validated : ∃ p, labeledGrid = .ok p ∧ p.Validated := by
  obtain ⟨p, hp⟩ := exists_eq_ok (x := labeledGrid) (by decide +kernel)
  obtain ⟨costed, hcosted, h⟩ := bind_eq_ok hp
  obtain ⟨parts, hparts, hcosts⟩ := bind_eq_ok hcosted
  obtain rfl := Except.ok.inj hcosts
  obtain ⟨xy, -, h⟩ := bind_eq_ok h
  exact ⟨p, hp, validated_of_startingAtZero h hparts rfl rfl⟩

/-- The process with two states that look alike can be simulated; it starts in a state with two
choices. -/
theorem twins_validated : ∃ p, twins = .ok p ∧ p.Validated ∧
    p.dynamics.partiallyObservable = true ∧ p.dynamics.nondeterministic = true ∧
    p.table.choiceCount p.initial = 2 := by
  have hfacts : twins.toOption.map (fun p => (p.dynamics.partiallyObservable,
      p.dynamics.nondeterministic, p.table.choiceCount p.initial)) = some (true, true, 2) := by
    decide +kernel
  obtain ⟨p, hp⟩ := exists_eq_ok (x := twins) (by decide +kernel)
  rw [hp] at hfacts
  obtain ⟨hpart, hrest⟩ := Prod.mk.inj (Option.some.inj hfacts)
  obtain ⟨hnondet, hcount⟩ := Prod.mk.inj hrest
  obtain ⟨parts, hparts, h⟩ := bind_eq_ok hp
  obtain ⟨s, -, h⟩ := bind_eq_ok h
  exact ⟨p, hp, validated_of_startingAtZero h hparts rfl rfl, hpart, hnondet, hcount⟩

end Gallery

end MarkovSim
