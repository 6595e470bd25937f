import Mathlib.Data.List.Sort
import MarkovSim.Proofs.ChoiceLabels
import MarkovSim.Proofs.StateLabels

/-!
# Labels of states and what was written

The labels after a list of writings are read off those that were accepted: the names are their labels in
order of first use, and a state carries a label if that was written (`Tracks.writeAll`). The states of a
label are ascending, so they are fixed by which there are, whatever the order in which they were given
the label and however often.

Of the labels of `n` states after writings, made from none:

1. A label by itself is accepted, and so is a label for a state below `n`. A label for any other state is
   refused by name, state and number of states, and changes nothing: the writings that were accepted lead
   to the same labels by themselves.
2. The names are the labels of the accepted writings in the order of their first use.
3. The states of a label are strictly ascending and are those below `n` that it was written for. Writings
   that give the label to the same states, in whatever order and however often, lead to the same list.
4. A state has a label exactly if it was written, and its labels are listed in the order of the names.
-/

namespace MarkovSim

namespace Registry

variable {α : Type}

theorem map_fst_alterEntries (name : String) (default : α) (f : α → α)
    (entries : List (String × α)) :
    (alterEntries name default f entries).map Prod.fst =
      if name ∈ entries.map Prod.fst then entries.map Prod.fst
      else entries.map Prod.fst ++ [name] := by
  induction entries with
  | nil => rfl
  | cons e rest ih =>
    obtain ⟨key, a⟩ := e
    unfold alterEntries
    by_cases hk : key = name
    · simp [hk]
    · rw [if_neg hk, List.map_cons, ih]
      by_cases hmem : name ∈ rest.map Prod.fst
      · simp [hmem]
      · simp [hmem, Ne.symm hk]

theorem names_alter (r : Registry α) (name : String) (default : α) (f : α → α) :
    (r.alter name default f).names = if name ∈ r.names then r.names else r.names ++ [name] :=
  map_fst_alterEntries name default f r.entries

theorem lookup_of_mem {entries : List (String × α)} (h : (entries.map Prod.fst).Nodup)
    {e : String × α} (he : e ∈ entries) : entries.lookup e.1 = some e.2 := by
  induction entries with
  | nil => cases he
  | cons head rest ih =>
    obtain ⟨key, a⟩ := head
    rw [List.map_cons, List.nodup_cons] at h
    rw [lookup_cons_ite]
    rcases List.mem_cons.1 he with rfl | he
    · rw [if_pos rfl]
    · have hne : e.1 ≠ key := fun heq => h.1 (List.mem_map.2 ⟨e, he, heq⟩)
      rw [if_neg hne, ih h.2 he]

end Registry

namespace StateLabels

/-! ## Writings -/

/-- What may be written: a label alone, or one given to a state. -/
inductive Writing where
  | declare (label : String)
  | attach (label : String) (s : ℕ)
deriving DecidableEq

namespace Writing

def label : Writing → String
  | declare label => label
  | attach label _ => label

def accepted (n : ℕ) : Writing → Bool
  | declare _ => true
  | attach _ s => s < n

/-- The answer to a writing in labels of `n` states. -/
def verdict (n : ℕ) : Writing → Except Defect Unit
  | declare _ => .ok ()
  | attach label s => if s < n then .ok () else .error (.strayLabel label s n)

end Writing

def write (l : StateLabels) : Writing → Except Defect Unit × StateLabels
  | .declare label => (.ok (), l.declare label)
  | .attach label s => l.attach label s

/-- Writes in turn, going on after a writing that is refused. -/
def writeAll (l : StateLabels) : List Writing → List (Except Defect Unit) × StateLabels
  | [] => ([], l)
  | w :: rest => ((l.write w).1 :: ((l.write w).2.writeAll rest).1, ((l.write w).2.writeAll rest).2)

theorem write_fst (l : StateLabels) (w : Writing) : (l.write w).1 = w.verdict l.states := by
  cases w with
  | declare label => rfl
  | attach label s =>
    show (l.attach label s).1 = if s < l.states then _ else _
    rcases Nat.lt_or_ge s l.states with hs | hs
    · rw [attach_of_lt hs, if_pos hs]
    · rw [attach_of_le hs, if_neg (Nat.not_lt.2 hs)]

theorem write_of_refused {l : StateLabels} {w : Writing} (h : w.accepted l.states = false) :
    (l.write w).2 = l := by
  cases w with
  | declare label => cases h
  | attach label s =>
    show (l.attach label s).2 = l
    rw [attach_of_le (Nat.not_lt.1 (of_decide_eq_false h))]

/-! ## What the writings leave behind -/

/-- The labels of `n` states after the given writings, all of them accepted. -/
structure Tracks (n : ℕ) (done : List Writing) (l : StateLabels) : Prop where
  written : l.Written
  states : l.states = n
  names : l.names = (done.map Writing.label).eraseDups
  holders : ∀ label s, s ∈ l.statesWith label ↔ .attach label s ∈ done

theorem tracks_empty (n : ℕ) : Tracks n [] (empty n) where
  written := .empty n
  states := rfl
  names := rfl
  holders label s := by simp [statesWith, holdersOf, empty, Registry.get?, Registry.empty]

section Tracks

variable {n : ℕ} {done : List Writing} {l : StateLabels}

theorem Tracks.names_alter (h : Tracks n done l) (w : Writing) (f : Array ℕ → Array ℕ) :
    (l.holders.alter w.label #[] f).names = ((done ++ [w]).map Writing.label).eraseDups := by
  have hnames : l.holders.names = (done.map Writing.label).eraseDups := h.names
  rw [Registry.names_alter, List.map_append, List.map_singleton, eraseDups_concat, hnames]

theorem Tracks.declare (h : Tracks n done l) (label : String) :
    Tracks n (done ++ [.declare label]) (l.declare label) where
  written := h.written.declare label
  states := h.states
  names := h.names_alter (.declare label) id
  holders other s := by
    rw [statesWith, holdersOf_declare, ← statesWith, h.holders]
    simp

theorem Tracks.attach {s : ℕ} (h : Tracks n done l) (hs : s < n) (label : String) :
    Tracks n (done ++ [.attach label s]) (l.attach label s).2 := by
  replace hs : s < l.states := h.states ▸ hs
  refine ⟨h.written.attach label s, (states_attach l label s).trans h.states, ?_, fun other t => ?_⟩
  · rw [attach_of_lt hs]
    exact h.names_alter (.attach label s) (insertState s)
  · rw [h.written.mem_statesWith_attach hs, h.holders, List.mem_append, List.mem_singleton,
      Writing.attach.injEq, or_comm, and_comm (a := t = s)]

theorem Tracks.write (h : Tracks n done l) {w : Writing} (hw : w.accepted n = true) :
    Tracks n (done ++ [w]) (l.write w).2 := by
  cases w with
  | declare label => exact h.declare label
  | attach label s => exact h.attach (of_decide_eq_true hw) label

/-- Writings are answered by their verdicts, and leave behind what those that were accepted do. -/
theorem Tracks.writeAll (rest : List Writing) : ∀ {done : List Writing} {l : StateLabels},
    Tracks n done l →
      (l.writeAll rest).1 = rest.map (Writing.verdict n) ∧
        (l.writeAll (rest.filter (Writing.accepted n))).2 = (l.writeAll rest).2 ∧
        Tracks n (done ++ rest.filter (Writing.accepted n)) (l.writeAll rest).2 := by
  induction rest with
  | nil =>
    intro done l h
    refine ⟨rfl, rfl, ?_⟩
    rw [List.filter_nil, List.append_nil]
    exact h
  | cons w rest ih =>
    intro done l h
    rw [List.map_cons, ← h.states, ← write_fst, h.states]
    cases hw : w.accepted n with
    | false =>
      obtain ⟨hanswers, hsame, htracks⟩ := ih h
      rw [List.filter_cons_of_neg (by simp [hw]), StateLabels.writeAll,
        write_of_refused (h.states.symm ▸ hw)]
      exact ⟨by rw [hanswers], hsame, htracks⟩
    | true =>
      obtain ⟨hanswers, hsame, htracks⟩ := ih (h.write hw)
      rw [List.filter_cons_of_pos hw, StateLabels.writeAll, StateLabels.writeAll]
      refine ⟨by rw [hanswers], hsame, ?_⟩
      rwa [List.append_assoc] at htracks

/-! ## Questions -/

theorem Tracks.statesWith_eq (h : Tracks n done l) (label : String) :
    l.statesWith label = (List.range n).filter fun s => .attach label s ∈ done := by
  refine (h.written.sorted label).eq_of_mem_iff (List.pairwise_lt_range.filter _) fun s => ?_
  rw [h.holders, List.mem_filter, List.mem_range, decide_eq_true_eq]
  refine ⟨fun hs => ⟨?_, hs⟩, fun hs => hs.2⟩
  rw [← h.states]
  exact h.written.lt_states label s ((h.holders label s).2 hs)

theorem Tracks.nodup_names (h : Tracks n done l) : l.names.Nodup := by
  rw [h.names]
  exact ChoiceLabels.nodup_eraseDups _

theorem Tracks.labelsOf_eq (h : Tracks n done l) (s : ℕ) :
    l.labelsOf s = l.names.filter fun label => .attach label s ∈ done := by
  show (l.holders.entries.filter fun e => (search e.2 s).isFound).map Prod.fst =
    (l.holders.entries.map Prod.fst).filter fun label => .attach label s ∈ done
  rw [List.filter_map]
  refine congrArg (List.map Prod.fst) (List.filter_congr fun e he => ?_)
  have hfound : l.holdersOf e.1 = e.2 := by
    rw [holdersOf, Registry.get?, Registry.lookup_of_mem h.nodup_names he, Option.getD_some]
  have hsearch : (search e.2 s).isFound = true ↔ .attach e.1 s ∈ done := by
    rw [← hfound, ← h.holders]
    exact h.written.has_iff
  rw [Bool.eq_iff_iff, hsearch, Function.comp_apply, decide_eq_true_eq]

end Tracks

theorem tracks_writeAll (n : ℕ) (writings : List Writing) :
    Tracks n (writings.filter (Writing.accepted n)) ((empty n).writeAll writings).2 :=
  ((tracks_empty n).writeAll writings).2.2

theorem attach_mem_accepted {n : ℕ} {writings : List Writing} {label : String} {s : ℕ} :
    .attach label s ∈ writings.filter (Writing.accepted n) ↔ s < n ∧ .attach label s ∈ writings := by
  rw [List.mem_filter, and_comm]
  simp [Writing.accepted]

theorem statesWith_writeAll (n : ℕ) (writings : List Writing) (label : String) :
    ((empty n).writeAll writings).2.statesWith label =
      (List.range n).filter fun s => .attach label s ∈ writings := by
  rw [(tracks_writeAll n writings).statesWith_eq]
  refine List.filter_congr fun s hs => decide_eq_decide.2 ?_
  rw [attach_mem_accepted, and_iff_right (List.mem_range.1 hs)]

/-- The labels of states are a faithful relation, kept in order: they are read off the writings that were
accepted, and those that were refused changed nothing. -/
theorem relation_follows_writings (n : ℕ) (writings : List Writing)
    {answers : List (Except Defect Unit)} {l : StateLabels}
    (h : (empty n).writeAll writings = (answers, l)) :
    (answers = writings.map (Writing.verdict n) ∧ l.states = n ∧
      ((empty n).writeAll (writings.filter (Writing.accepted n))).2 = l) ∧
    l.names = ((writings.filter (Writing.accepted n)).map Writing.label).eraseDups ∧
    (∀ label, (l.statesWith label).Pairwise (· < ·) ∧
      l.statesWith label = (List.range n).filter (fun s => .attach label s ∈ writings) ∧
      ∀ others : List Writing, (∀ s, .attach label s ∈ others ↔ .attach label s ∈ writings) →
        ((empty n).writeAll others).2.statesWith label = l.statesWith label) ∧
    (∀ s label, l.has s label = true ↔ s < n ∧ .attach label s ∈ writings) ∧
    ∀ s, l.labelsOf s = l.names.filter fun label => s < n ∧ .attach label s ∈ writings := by
  obtain ⟨hanswers, hsame, -⟩ := (tracks_empty n).writeAll writings
  have htracks := tracks_writeAll n writings
  have hlist := statesWith_writeAll n writings
  rw [h] at hanswers hsame htracks hlist
  refine ⟨⟨hanswers, htracks.states, hsame⟩, htracks.names, fun label =>
    ⟨htracks.written.sorted label, hlist label, fun others hothers => ?_⟩, fun s label => ?_,
    fun s => ?_⟩
  · rw [statesWith_writeAll, hlist]
    exact List.filter_congr fun s _ => decide_eq_decide.2 (hothers s)
  · rw [htracks.written.has_iff, htracks.holders, attach_mem_accepted]
  · rw [htracks.labelsOf_eq]
    exact List.filter_congr fun label _ => decide_eq_decide.2 attach_mem_accepted

/-- Five writings for four states: a label by itself, one for states out of order and again, and one for a
state that there is not. -/
theorem scattered_relation :
    ∃ answers l, (empty 4).writeAll [.declare "quiet", .attach "goal" 3, .attach "goal" 1,
        .attach "trap" 4, .attach "goal" 3] = (answers, l) ∧
      answers = [.ok (), .ok (), .ok (), .error (.strayLabel "trap" 4 4), .ok ()] ∧
      l.names = ["quiet", "goal"] ∧ l.statesWith "goal" = [1, 3] ∧ l.has 3 "goal" = true ∧
      l.labelsOf 3 = ["goal"] ∧ l.labelsOf 4 = [] := by
  obtain ⟨⟨hanswers, -⟩, hnames, hstates, hhas, hlabels⟩ := relation_follows_writings 4
    [.declare "quiet", .attach "goal" 3, .attach "goal" 1, .attach "trap" 4, .attach "goal" 3]
    (Prod.eta _).symm
  replace hnames := hnames.trans (by decide +kernel : _ = ["quiet", "goal"])
  refine ⟨_, _, (Prod.eta _).symm, hanswers, hnames, (hstates "goal").2.1.trans (by decide +kernel),
    (hhas 3 "goal").2 (by decide +kernel), (hlabels 3).trans ?_, (hlabels 4).trans ?_⟩
  · rw [hnames]
    decide +kernel
  · rw [hnames]
    decide +kernel

end StateLabels

end MarkovSim
