import MarkovSim.Proofs.Gallery

/-!
# Which parts make a model

`Components.Coherent` says when parts fit together, without reference to the checks: all that is asked
of sizes, labels and rewards (`Components.Matching`), and as many choices in any two states of one
observation class. The last is checked in one pass that holds each class to the number of choices of
its first state; the pass finds nothing exactly when all pairs agree, and otherwise it finds the first
state that is out of line (`unevenFrom?_spec`). So parts are assembled exactly when they are coherent.
-/

namespace MarkovSim

namespace Components

/-! ## One pass over the classes -/

structure Leads (classes : Array Nat) (o i : Nat) : Prop where
  member : classes[i]? = some o
  first : ∀ j < i, classes[j]? ≠ some o

/-- State `s` has as many choices as the first state of its class. -/
def Level (table : Table) (classes : Array Nat) (s : Nat) : Prop :=
  ∀ o i, classes[s]? = some o → Leads classes o i → table.choiceCount i = table.choiceCount s

/-- State `s` of class `o` is the first that has not as many choices as the first state of its class:
it has `got` and not `expected`. -/
structure FirstUneven (table : Table) (classes : Array Nat) (o s expected got : Nat) : Prop where
  member : classes[s]? = some o
  leader : ∃ i, Leads classes o i ∧ expected = table.choiceCount i
  choices : got = table.choiceCount s
  differs : expected ≠ got
  least : ∀ t < s, Level table classes t

section Classes

variable {table : Table} {classes : Array Nat}

theorem Leads.eq {o i j : Nat} (hi : Leads classes o i) (hj : Leads classes o j) : i = j := by
  rcases Nat.lt_trichotomy i j with h | h | h
  · exact absurd hi.member (hj.first i h)
  · exact h
  · exact absurd hj.member (hi.first j h)

theorem exists_leads {o s : Nat} (h : classes[s]? = some o) : ∃ i ≤ s, Leads classes o i := by
  induction s using Nat.strongRecOn with
  | ind s ih =>
    by_cases hfirst : ∀ j < s, classes[j]? ≠ some o
    · exact ⟨s, Nat.le_refl s, h, hfirst⟩
    · simp only [Classical.not_forall, not_not] at hfirst
      obtain ⟨j, hj, hmember⟩ := hfirst
      obtain ⟨i, hi, hlead⟩ := ih j hj hmember
      exact ⟨i, Nat.le_trans hi (Nat.le_of_lt hj), hlead⟩

theorem Leads.level {o s : Nat} (h : Leads classes o s) : Level table classes s := by
  intro o' i hs hi
  obtain rfl : o = o' := Option.some.inj (h.member.symm.trans hs)
  rw [hi.eq h]

/-- To agree with the first state of the class is to agree with every state of it. -/
theorem level_iff_pairs :
    (∀ s, Level table classes s) ↔
      ∀ s t o, classes[s]? = some o → classes[t]? = some o →
        table.choiceCount s = table.choiceCount t := by
  constructor
  · intro h s t o hs ht
    obtain ⟨i, -, hi⟩ := exists_leads hs
    exact (h s o i hs hi).symm.trans (h t o i ht hi)
  · intro h s o i hs hi
    exact h i s o hi.member hs

theorem FirstUneven.not_level {o s expected got : Nat}
    (h : FirstUneven table classes o s expected got) : ¬ Level table classes s := by
  intro hs
  obtain ⟨i, hi, hexpected⟩ := h.leader
  exact h.differs (by rw [hexpected, h.choices, hs o i h.member hi])

theorem FirstUneven.unique {o s e g o' s' e' g' : Nat} (h : FirstUneven table classes o s e g)
    (h' : FirstUneven table classes o' s' e' g') : o = o' ∧ s = s' ∧ e = e' ∧ g = g' := by
  obtain rfl : s = s' := by
    rcases Nat.lt_trichotomy s s' with hlt | heq | hlt
    · exact absurd (h'.least s hlt) h.not_level
    · exact heq
    · exact absurd (h.least s' hlt) h'.not_level
  obtain rfl : o = o' := Option.some.inj (h.member.symm.trans h'.member)
  obtain ⟨i, hi, rfl⟩ := h.leader
  obtain ⟨i', hi', rfl⟩ := h'.leader
  exact ⟨rfl, rfl, by rw [hi.eq hi'], h.choices.trans h'.choices.symm⟩

/-- The classes of the first `n` states are held to the numbers of choices of their first states. -/
def Held (table : Table) (classes : Array Nat) (n : Nat) (held : List (Nat × Nat)) : Prop :=
  ∀ o x, held.lookup o = some x ↔ ∃ i < n, Leads classes o i ∧ x = table.choiceCount i

theorem held_nil : Held table classes 0 [] := by
  intro o x
  simp

theorem Held.leads {n o : Nat} {held : List (Nat × Nat)} (h : Held table classes n held)
    (ho : classes[n]? = some o) (hnone : held.lookup o = none) : Leads classes o n := by
  obtain ⟨i, hi, hlead⟩ := exists_leads ho
  rcases Nat.lt_or_eq_of_le hi with hlt | rfl
  · have hsome := (h o _).2 ⟨i, hlt, hlead, rfl⟩
    rw [hnone] at hsome
    cases hsome
  · exact hlead

theorem Held.cons {n o : Nat} {held : List (Nat × Nat)} (h : Held table classes n held)
    (hlead : Leads classes o n) :
    Held table classes (n + 1) ((o, table.choiceCount n) :: held) := by
  intro o' x
  rw [List.lookup_cons]
  by_cases ho : o' = o
  · subst ho
    simp only [beq_self_eq_true, Option.some.injEq]
    constructor
    · rintro rfl
      exact ⟨n, Nat.lt_succ_self n, hlead, rfl⟩
    · rintro ⟨i, -, hi, rfl⟩
      rw [hi.eq hlead]
  · simp only [beq_false_of_ne ho]
    rw [h o' x]
    constructor
    · rintro ⟨i, hi, hrest⟩
      exact ⟨i, Nat.lt_succ_of_lt hi, hrest⟩
    · rintro ⟨i, hi, hlead', hx⟩
      rcases Nat.lt_succ_iff_lt_or_eq.1 hi with hlt | rfl
      · exact ⟨i, hlt, hlead', hx⟩
      · exact absurd (Option.some.inj (hlead'.member.symm.trans hlead.member)) ho

theorem Held.skip {n o expected : Nat} {held : List (Nat × Nat)} (h : Held table classes n held)
    (ho : classes[n]? = some o) (hsome : held.lookup o = some expected) :
    Held table classes (n + 1) held := by
  obtain ⟨j, hj, hlead, -⟩ := (h o expected).1 hsome
  intro o' x
  rw [h o' x]
  constructor
  · rintro ⟨i, hi, hrest⟩
    exact ⟨i, Nat.lt_succ_of_lt hi, hrest⟩
  · rintro ⟨i, hi, hlead', hx⟩
    rcases Nat.lt_succ_iff_lt_or_eq.1 hi with hlt | rfl
    · exact ⟨i, hlt, hlead', hx⟩
    · obtain rfl : o = o' := Option.some.inj (ho.symm.trans hlead'.member)
      exact absurd hlead.member (hlead'.first j hj)

/-- The pass from state `n` on, when the states before are level: it finds nothing and all states are
level, or it finds the first that is not. -/
theorem unevenFrom?_spec {rest : List Nat} {n : Nat} {held : List (Nat × Nat)}
    (hrest : classes.toList.drop n = rest) (hheld : Held table classes n held)
    (hlevel : ∀ t < n, Level table classes t) :
    unevenFrom? table held n rest = none ∧ (∀ t, Level table classes t) ∨
      ∃ o s expected got, unevenFrom? table held n rest = some (.unevenClass o s expected got) ∧
        FirstUneven table classes o s expected got := by
  induction rest generalizing n held with
  | nil =>
    refine Or.inl ⟨rfl, fun t => ?_⟩
    by_cases ht : t < n
    · exact hlevel t ht
    · have hsize : classes.size ≤ n := by simpa using List.drop_eq_nil_iff.1 hrest
      intro o i hmember
      rw [Array.getElem?_eq_none (by omega)] at hmember
      cases hmember
  | cons o rest ih =>
    have hmember : classes[n]? = some o := by
      rw [← Array.getElem?_toList, ← List.head?_drop, hrest, List.head?_cons]
    have hnext : classes.toList.drop (n + 1) = rest := by
      rw [← List.drop_drop, hrest, List.drop_one, List.tail_cons]
    have hlevels : Level table classes n → ∀ t < n + 1, Level table classes t := by
      intro hn t ht
      rcases Nat.lt_succ_iff_lt_or_eq.1 ht with hlt | rfl
      · exact hlevel t hlt
      · exact hn
    unfold unevenFrom?
    cases hlookup : held.lookup o with
    | none =>
      have hlead := hheld.leads hmember hlookup
      exact ih hnext (hheld.cons hlead) (hlevels hlead.level)
    | some expected =>
      obtain ⟨i, -, hlead, hexpected⟩ := (hheld o expected).1 hlookup
      by_cases heq : expected = table.choiceCount n
      · have hn : Level table classes n := by
          intro o' j ho' hj
          obtain rfl : o = o' := Option.some.inj (hmember.symm.trans ho')
          rw [hj.eq hlead, ← hexpected, heq]
        simp only [if_pos heq]
        exact ih hnext (hheld.skip hmember hlookup) (hlevels hn)
      · simp only [if_neg heq]
        exact Or.inr ⟨o, n, _, _, rfl, hmember, ⟨i, hlead, hexpected⟩, rfl, heq, hlevel⟩

theorem unevenState?_spec (table : Table) (classes : Array Nat) :
    unevenState? table classes = none ∧ (∀ t, Level table classes t) ∨
      ∃ o s expected got, unevenState? table classes = some (.unevenClass o s expected got) ∧
        FirstUneven table classes o s expected got :=
  unevenFrom?_spec rfl held_nil nofun

theorem unevenState?_eq_none_iff :
    unevenState? table classes = none ↔
      ∀ s t o, classes[s]? = some o → classes[t]? = some o →
        table.choiceCount s = table.choiceCount t := by
  rw [← level_iff_pairs]
  rcases unevenState?_spec table classes with ⟨hnone, hlevel⟩ | ⟨o, s, e, g, hsome, hfirst⟩
  · exact ⟨fun _ => hlevel, fun _ => hnone⟩
  · refine ⟨fun hnone => ?_, fun hlevel => absurd (hlevel s) hfirst.not_level⟩
    rw [hsome] at hnone
    cases hnone

theorem unevenState?_eq_some_iff {o s expected got : Nat} :
    unevenState? table classes = some (.unevenClass o s expected got) ↔
      FirstUneven table classes o s expected got := by
  rcases unevenState?_spec table classes with ⟨hnone, hlevel⟩ | ⟨o', s', e', g', hsome, hfirst⟩
  · refine ⟨fun hsome => ?_, fun hfirst => absurd (hlevel s) hfirst.not_level⟩
    rw [hnone] at hsome
    cases hsome
  · rw [hsome]
    constructor
    · intro h
      cases h
      exact hfirst
    · intro h
      obtain ⟨rfl, rfl, rfl, rfl⟩ := h.unique hfirst
      rfl

end Classes

/-! ## Parts that fit together -/

/-- An array that is there has one finite value for each of `n` places. -/
def Covers (n : Nat) (xs : Option (Array Float)) : Prop :=
  ∀ values, xs = some values → values.size = n ∧ ∀ x ∈ values.toList, x.isFinite = true

/-- The classes are there exactly where states may be hidden, one for each state. -/
structure Classified (c : Components) (kind : ModelKind) : Prop where
  present : c.classes.isSome ↔ kind = .pomdp
  size : ∀ classes, c.classes = some classes → classes.size = c.table.groupCount

/-- Parts of the sizes their table gives, with finite rewards and a state to start in. -/
structure Matching (c : Components) (kind : ModelKind) : Prop extends Classified c kind where
  stateLabels : c.stateLabels.states = c.table.groupCount
  initial : ∃ s, c.stateLabels.has s StateLabels.initial = true
  chain : kind = .dtmc → ∀ s < c.table.groupCount, c.table.choiceCount s = 1
  rewards : ∀ e ∈ c.rewards.entries,
    Covers c.table.groupCount e.2.ofStates ∧ Covers c.table.rowCount e.2.ofChoices
  choiceLabels : ∀ l, c.choiceLabels = some l → l.choiceCount = c.table.rowCount
  valuations : ∀ v, c.valuations = some v → v.stateCount = c.table.groupCount

/-- Parts that fit together: besides, any two states of one class have equally many choices. -/
structure Coherent (c : Components) (kind : ModelKind) : Prop extends Matching c kind where
  even : ∀ classes, c.classes = some classes → ∀ s t o, classes[s]? = some o → classes[t]? = some o →
    c.table.choiceCount s = c.table.choiceCount t

theorem covers_iff {name : String} {part : Part} {n : Nat} {xs : Option (Array Float)} :
    Rewards.partDefect? name part n xs = none ↔ Covers n xs := by
  cases xs with
  | none => simp [Rewards.partDefect?, Covers]
  | some values =>
    rw [Rewards.partDefect?_eq_none_iff]
    simp [Covers]

theorem matching_iff {c : Components} (hw : c.stateLabels.Written) {kind : ModelKind} :
    c.Matching kind ↔ c.Framed kind ∧ c.Classified kind := by
  constructor
  · intro h
    refine ⟨⟨h.stateLabels.symm, hw.statesWith_ne_nil_iff.2 h.initial, h.chain,
      fun e he => ?_, fun l hl => (h.choiceLabels l hl).symm,
      fun v hv => (h.valuations v hv).symm⟩, h.toClassified⟩
    rw [Rewards.defect?_eq_none_iff, covers_iff, covers_iff]
    exact h.rewards e he
  · rintro ⟨h, hclasses⟩
    refine ⟨hclasses, h.stateLabels.symm, hw.statesWith_ne_nil_iff.1 h.initial, h.chain,
      fun e he => ?_, fun l hl => (h.choiceLabels l hl).symm,
      fun v hv => (h.valuations v hv).symm⟩
    have hrewards := h.rewards e he
    rwa [Rewards.defect?_eq_none_iff, covers_iff, covers_iff] at hrewards

theorem Classified.classDefect?_eq {c : Components} {kind : ModelKind} (h : c.Classified kind) :
    c.classDefect? kind = c.classes.bind (unevenState? c.table) := by
  unfold classDefect?
  cases hc : c.classes with
  | none =>
    have hkind : kind ≠ .pomdp := fun hk => by simpa [hc] using h.present.2 hk
    cases kind <;> first | rfl | exact absurd rfl hkind
  | some classes =>
    obtain rfl : kind = .pomdp := h.present.1 (by simp [hc])
    simp [lengthDefect?_eq_none_iff.2 (h.size classes hc).symm]

/-- Classes that are missing, out of place or of another size are a defect of their own. -/
theorem classDefect?_of_not_classified {c : Components} {kind : ModelKind} (h : ¬ c.Classified kind) :
    ∃ d, c.classDefect? kind = some d ∧ ∀ o s e g, d ≠ .unevenClass o s e g := by
  unfold classDefect?
  cases hc : c.classes with
  | none =>
    cases kind with
    | pomdp => exact ⟨_, rfl, nofun⟩
    | dtmc | mdp => exact absurd ⟨by simp [hc], by simp [hc]⟩ h
  | some classes =>
    cases kind with
    | dtmc | mdp => exact ⟨_, rfl, nofun⟩
    | pomdp =>
      have hsize : ¬ c.table.groupCount = classes.size := fun hs =>
        h ⟨by simp [hc], by simp [hc, hs]⟩
      simp only [lengthDefect?, if_neg hsize]
      exact ⟨_, rfl, nofun⟩

theorem defect?_eq_none_iff_coherent {c : Components} (hw : c.stateLabels.Written) {kind : ModelKind} :
    c.defect? kind = none ↔ c.Coherent kind := by
  rw [defect?_eq_or, Option.or_eq_none_iff, findSome?_dropLast_eq_none_iff]
  by_cases hclasses : c.Classified kind
  · rw [hclasses.classDefect?_eq, Option.bind_eq_none_iff]
    simp only [unevenState?_eq_none_iff]
    constructor
    · rintro ⟨hframed, heven⟩
      exact ⟨(matching_iff hw).2 ⟨hframed, hclasses⟩, heven⟩
    · intro h
      exact ⟨((matching_iff hw).1 h.toMatching).1, h.even⟩
  · obtain ⟨d, hd, -⟩ := classDefect?_of_not_classified hclasses
    constructor
    · rintro ⟨-, hnone⟩
      rw [hd] at hnone
      cases hnone
    · intro h
      exact absurd ((matching_iff hw).1 h.toMatching).2 hclasses

theorem lengthDefect?_ne_uneven {part : Part} {expected got o s e g : Nat} :
    lengthDefect? part expected got ≠ some (.unevenClass o s e g) := by
  unfold lengthDefect?
  split <;> simp

theorem rewards_ne_uneven {r : Rewards} {name : String} {states choices o s e g : Nat} :
    r.defect? name states choices ≠ some (.unevenClass o s e g) := by
  have hpart : ∀ part n xs, Rewards.partDefect? name part n xs ≠ some (.unevenClass o s e g) := by
    intro part n xs h
    cases xs with
    | none => cases h
    | some values =>
      simp only [Rewards.partDefect?] at h
      split at h
      · cases h
      · obtain ⟨x, -, hx⟩ := List.exists_of_findSome?_eq_some h
        split at hx <;> cases hx
  unfold Rewards.defect?
  split
  · next d hd => rw [← hd]; exact hpart _ _ _
  · exact hpart _ _ _

theorem findSome?_dropLast_ne_uneven {c : Components} {kind : ModelKind} {o s e g : Nat} :
    (c.checks kind).dropLast.findSome? id ≠ some (.unevenClass o s e g) := by
  intro h
  obtain ⟨check, hmem, rfl : check = _⟩ := List.exists_of_findSome?_eq_some h
  simp only [checks, List.dropLast, List.mem_cons, List.not_mem_nil, or_false] at hmem
  rcases hmem with h | h | h | h | h | h
  · exact lengthDefect?_ne_uneven h.symm
  · split at h <;> cases h
  · split at h
    · obtain ⟨t, -, ht⟩ := List.exists_of_findSome?_eq_some h.symm
      simp only at ht
      split at ht <;> cases ht
    · cases h
  · obtain ⟨entry, -, hentry⟩ := List.exists_of_findSome?_eq_some h.symm
    exact rewards_ne_uneven hentry
  · obtain ⟨l, -, hl⟩ := Option.bind_eq_some_iff.1 h.symm
    exact lengthDefect?_ne_uneven hl
  · obtain ⟨v, -, hv⟩ := Option.bind_eq_some_iff.1 h.symm
    exact lengthDefect?_ne_uneven hv

/-- An uneven class is reported when nothing else is wrong, and it is the first state out of line that
is reported. -/
theorem defect?_eq_uneven_iff {c : Components} (hw : c.stateLabels.Written) {kind : ModelKind}
    {o s e g : Nat} :
    c.defect? kind = some (.unevenClass o s e g) ↔
      c.Matching kind ∧ ∃ classes, c.classes = some classes ∧ FirstUneven c.table classes o s e g := by
  rw [defect?_eq_or, Option.or_eq_some_iff, findSome?_dropLast_eq_none_iff]
  simp only [findSome?_dropLast_ne_uneven, false_or]
  by_cases hclasses : c.Classified kind
  · rw [hclasses.classDefect?_eq, Option.bind_eq_some_iff, matching_iff hw]
    simp only [unevenState?_eq_some_iff, hclasses, and_true]
  · obtain ⟨d, hd, hother⟩ := classDefect?_of_not_classified hclasses
    rw [hd]
    constructor
    · rintro ⟨-, heq⟩
      exact absurd (Option.some.inj heq) (hother o s e g)
    · rintro ⟨hmatching, -⟩
      exact absurd hmatching.toClassified hclasses

theorem Matching.exists_uneven {c : Components} {kind : ModelKind} (h : c.Matching kind)
    (hc : ¬ c.Coherent kind) :
    ∃ classes o s e g, c.classes = some classes ∧ FirstUneven c.table classes o s e g := by
  cases hclasses : c.classes with
  | none =>
    refine absurd ⟨h, fun classes hsome => ?_⟩ hc
    rw [hclasses] at hsome
    cases hsome
  | some classes =>
    rcases unevenState?_spec c.table classes with ⟨-, hlevel⟩ | ⟨o, s, e, g, -, hfirst⟩
    · refine absurd ⟨h, fun classes' hsome => ?_⟩ hc
      obtain rfl : classes = classes' := Option.some.inj (hclasses.symm.trans hsome)
      exact level_iff_pairs.1 hlevel
    · exact ⟨classes, o, s, e, g, rfl, hfirst⟩

end Components

/-- Three states of which the last two are to look alike, though the third has a second choice. -/
def Gallery.lookalikes : List (List Row) :=
  [[row [(1, 0.5), (2, 0.5)]], [row [(1, 1.0)]], [row [(2, 1.0)], row [(0, 1.0)]]]

namespace ExplicitModel

theorem assemble_eq_error_iff {kind : ModelKind} {c : Components} {d : Defect} :
    assemble kind c = .error d ↔ c.defect? kind = some d := by
  unfold assemble
  cases c.defect? kind <;> simp

theorem coherent_of_assemble {kind : ModelKind} {c : Components} {p : ExplicitModel}
    (hw : c.stateLabels.Written) (h : assemble kind c = .ok p) : c.Coherent kind :=
  (Components.defect?_eq_none_iff_coherent hw).1
    (Components.defect?_eq_none_iff.2 (assemble_eq_ok h).1)

theorem Validated.coherent {p : ExplicitModel} (h : p.Validated) :
    p.toComponents.Coherent p.kind := by
  obtain ⟨draft, c, kind, -, hw, hp⟩ := h
  have hcoherent := coherent_of_assemble hw hp
  obtain ⟨-, rfl⟩ := assemble_eq_ok hp
  exact hcoherent

/-- A state with a class is a state of the model, and its class fixes how many choices it has. -/
theorem Validated.actionCount_of_class {p : ExplicitModel} (h : p.Validated) {s t o : Nat}
    (hs : p.dynamics.observation s = some o) (ht : p.dynamics.observation t = some o) :
    s < p.dynamics.stateCount ∧ p.dynamics.actionCount s = p.dynamics.actionCount t := by
  obtain ⟨classes, hclasses, hs⟩ := Option.bind_eq_some_iff.1 hs
  obtain ⟨classes', hclasses', ht⟩ := Option.bind_eq_some_iff.1 ht
  obtain rfl : classes = classes' := Option.some.inj (hclasses.symm.trans hclasses')
  refine ⟨?_, h.coherent.even classes hclasses s t o hs ht⟩
  show s < p.table.groupCount
  rw [← h.coherent.size classes hclasses]
  exact (Array.getElem?_eq_some_iff.1 hs).1

/-- The model starts in the smallest of the states labeled as initial. -/
theorem initial_least {c : Components} {kind : ModelKind} {p : ExplicitModel}
    (hw : c.stateLabels.Written) (h : assemble kind c = .ok p) :
    c.stateLabels.has p.initial StateLabels.initial = true ∧
      ∀ s, c.stateLabels.has s StateLabels.initial = true → p.initial ≤ s := by
  obtain ⟨hc, rfl⟩ := assemble_eq_ok h
  have hsorted := hw.sorted StateLabels.initial
  simp only [hw.has_iff]
  cases hs : c.stateLabels.statesWith StateLabels.initial with
  | nil => exact absurd hs hc.initial
  | cons first rest =>
    rw [hs, List.pairwise_cons] at hsorted
    refine ⟨List.mem_cons_self, fun s hmem => ?_⟩
    rcases List.mem_cons.1 hmem with rfl | hrest
    · exact Nat.le_refl _
    · exact Nat.le_of_lt (hsorted.1 s hrest)

/-- Parts with labels written one at a time make a model exactly when they are coherent, and the model
has them unchanged and starts in the smallest of its states labeled as initial. An uneven class is
reported exactly where nothing else is wrong, with its first state out of line. -/
theorem assembled_iff_coherent {c : Components} (hw : c.stateLabels.Written) (kind : ModelKind) :
    ((∃ p, assemble kind c = .ok p) ↔ c.Coherent kind) ∧
    (∀ p, assemble kind c = .ok p → p.toComponents = c ∧ p.kind = kind ∧
      p.initial < c.table.groupCount ∧
      c.stateLabels.has p.initial StateLabels.initial = true ∧
      ∀ s, c.stateLabels.has s StateLabels.initial = true → p.initial ≤ s) ∧
    (∀ o s expected got, assemble kind c = .error (.unevenClass o s expected got) ↔
      c.Matching kind ∧
        ∃ classes, c.classes = some classes ∧
          Components.FirstUneven c.table classes o s expected got) ∧
    (c.Matching kind → ¬ c.Coherent kind →
      ∃ o s expected got, assemble kind c = .error (.unevenClass o s expected got)) := by
  refine ⟨⟨?_, fun h => ?_⟩, fun p h => ?_, fun o s e g => ?_, fun hm hc => ?_⟩
  · rintro ⟨p, hp⟩
    exact coherent_of_assemble hw hp
  · unfold assemble
    rw [(Components.defect?_eq_none_iff_coherent hw).2 h]
    exact ⟨_, rfl⟩
  · have hleast := initial_least hw h
    obtain ⟨hc, rfl⟩ := assemble_eq_ok h
    exact ⟨rfl, rfl, initial_lt hw hc, hleast⟩
  · rw [assemble_eq_error_iff, Components.defect?_eq_uneven_iff hw]
  · obtain ⟨classes, o, s, e, g, hclasses, hfirst⟩ := hm.exists_uneven hc
    exact ⟨o, s, e, g, assemble_eq_error_iff.2
      ((Components.defect?_eq_uneven_iff hw).2 ⟨hm, classes, hclasses, hfirst⟩)⟩

/-- Two states look alike and the second of them has one choice more. As a process that hides its
states this is refused, with that state and both numbers; as one that shows them it is assembled. -/
theorem lookalikes_refused :
    ∃ parts, Gallery.startingAtZero Gallery.lookalikes = .ok parts ∧ parts.stateLabels.Written ∧
      assemble .pomdp { parts with classes := some #[0, 1, 1] } = .error (.unevenClass 1 2 1 2) ∧
      ¬ Components.Coherent { parts with classes := some #[0, 1, 1] } .pomdp ∧
      ∃ p, assemble .mdp parts = .ok p ∧ p.toComponents = parts ∧ p.initial = 0 := by
  have hfacts : (Gallery.startingAtZero Gallery.lookalikes).toOption.map (fun parts =>
      (parts.stateLabels.states, parts.table.groupCount, parts.stateLabels.has 0 StateLabels.initial,
        parts.table.choiceCount 1, parts.table.choiceCount 2)) = some (3, 3, true, 1, 2) := by
    decide +kernel
  obtain ⟨parts, hparts⟩ :=
    Gallery.exists_eq_ok (x := Gallery.startingAtZero Gallery.lookalikes) (by decide +kernel)
  rw [hparts] at hfacts
  simp only [Except.toOption, Option.map_some, Option.some.injEq, Prod.mk.injEq] at hfacts
  obtain ⟨hstates, hcount, hinitial, hone, htwo⟩ := hfacts
  have hw : parts.stateLabels.Written := (Gallery.startingAtZero_eq_ok hparts).2
  obtain ⟨hrewards, hlabels, hvaluations, hclasses⟩ := Gallery.bare_of_startingAtZero hparts
  have hshown : parts.Coherent .mdp := {
    present := by simp [hclasses]
    size := by simp [hclasses]
    stateLabels := hstates.trans hcount.symm
    initial := ⟨0, hinitial⟩
    chain := by simp
    rewards := by simp [hrewards, Registry.empty]
    choiceLabels := by simp [hlabels]
    valuations := by simp [hvaluations]
    even := by simp [hclasses] }
  have hhidden : Components.Matching { parts with classes := some #[0, 1, 1] } .pomdp := {
    hshown.toMatching with
    present := by simp
    size := by simp [hcount]
    chain := by simp }
  have huneven : Components.FirstUneven parts.table #[0, 1, 1] 1 2 1 2 := {
    member := rfl
    leader := ⟨1, ⟨rfl, by decide⟩, hone.symm⟩
    choices := htwo.symm
    differs := by decide
    least := by
      intro t ht
      obtain rfl | rfl : t = 0 ∨ t = 1 := by omega
      · exact Components.Leads.level ⟨rfl, by decide⟩
      · exact Components.Leads.level ⟨rfl, by decide⟩ }
  obtain ⟨-, -, hreport, -⟩ :=
    assembled_iff_coherent (c := { parts with classes := some #[0, 1, 1] }) hw .pomdp
  obtain ⟨hassembled, hkept, -⟩ := assembled_iff_coherent hw .mdp
  obtain ⟨p, hp⟩ := hassembled.2 hshown
  obtain ⟨hparts', -, -, -, hleast⟩ := hkept p hp
  refine ⟨parts, hparts, hw, (hreport 1 2 1 2).2 ⟨hhidden, _, rfl, huneven⟩, ?_, p, hp, hparts',
    Nat.le_zero.1 (hleast 0 hinitial)⟩
  intro h
  have heven := h.even _ rfl 1 2 1 rfl rfl
  rw [hone, htwo] at heven
  cases heven

end ExplicitModel

end MarkovSim
