import Mathlib.Data.List.Nodup
import Mathlib.Data.String.Basic
import MarkovSim.Json.Decode
import MarkovSim.Proofs.Comparison
import MarkovSim.Proofs.Json.Reading

/-!
# Decoding what was written

Each decoder gives back what its writer wrote: from the tree of a number of its range, a string, a list,
an object with the named fields in order, or an alternative. A free-form record is sorted by key, and
putting sorted members in one after another leaves them as they are (`foldl_insert_sorted`), so it comes
back with the same members (`value?_object`).
-/

namespace MarkovSim.Json

/-! ## Strings and numbers -/

theorem chars?_unit {u : ℕ} (hu : u < 0xD800) (rest : Quoted) :
    Quoted.chars? (.unit u :: rest) = rest.chars?.map (Char.ofNat u :: ·) := by
  rw [Quoted.chars?.eq_def]
  dsimp only
  rw [if_pos (.inl hu)]

theorem chars?_map_piece (cs : List Char) : Quoted.chars? (cs.map piece) = some cs := by
  induction cs with
  | nil => rfl
  | cons c cs ih =>
    rw [List.map_cons, piece]
    by_cases hc : c.toNat < 0x20 ∧ c ∉ ['\x08', '\t', '\n', '\x0c', '\r']
    · rw [if_pos hc, chars?_unit (by omega), ih, Char.ofNat_toNat]
      rfl
    · rw [if_neg hc, Quoted.chars?, ih]
      rfl

theorem text?_pieces (s : String) : (pieces s).text? = some s := by
  rw [Quoted.text?, pieces, chars?_map_piece]
  exact congrArg some (String.ofList_toList)

theorem toInt?_ofInt {n : ℤ} (hlow : -0x8000000000000000 ≤ n) (hhigh : n < UInt64.size) :
    (Numeral.ofInt n).toInt? = some n := by
  unfold Numeral.toInt? Numeral.ofInt
  by_cases hn : n < 0
  · have hm : ¬ (n.natAbs = 0 ∨ 0x8000000000000000 < n.natAbs) := by omega
    simp only [hn, decide_true, Bool.not_true, Bool.false_eq_true, if_false, if_true, if_neg hm]
    congr 1
    omega
  · have hm : n.natAbs < UInt64.size := by omega
    simp only [hn, decide_false, Bool.not_true, Bool.false_eq_true, if_false, if_pos hm]
    congr 1
    omega

theorem toInt?_ofFloat (x : Float) : (Numeral.ofFloat x).toInt? = none := rfl

/-- A finite number is read back with all its bits. -/
theorem toFloat?_ofFloat {x : Float} (hx : x.isFinite = true) :
    (Numeral.ofFloat x).toFloat? = some x := by
  unfold Numeral.toFloat? Numeral.ofFloat
  dsimp only
  rw [Layout.toFloat_spelled hx, if_pos (Binary64.abs_spec hx).1, Layout.signed_abs hx]

theorem value?_whole {n : ℤ} (hlow : -0x8000000000000000 ≤ n) (hhigh : n < UInt64.size)
    (depth : ℕ) : value? depth (Value.whole n).tree = some (.whole n) := by
  rw [Value.tree, value?, Numeral.value?, toInt?_ofInt hlow hhigh]
  rfl

theorem value?_ofFloat (x : Float) (depth : ℕ) :
    value? depth (Value.ofFloat x).tree = some (.ofFloat x) := by
  by_cases hx : x.isFinite = true
  · rw [Value.ofFloat, if_pos hx, Value.tree, if_pos hx, value?, Numeral.value?, toInt?_ofFloat,
      toFloat?_ofFloat hx]
    rfl
  · rw [Value.ofFloat, if_neg hx]
    rfl

theorem natBelow?_tree {bound k : ℕ} (hbound : bound ≤ UInt64.size) (hk : k < bound) (depth : ℕ) :
    natBelow? bound depth (Value.whole k).tree = some k := by
  have hint : (Numeral.ofInt k).toInt? = some (k : ℤ) := toInt?_ofInt (by omega) (by omega)
  rw [Value.tree, natBelow?, hint]
  exact if_pos hk

theorem float?_tree {x : Float} (hx : x.isFinite = true) (depth : ℕ) :
    float? depth (Value.ofFloat x).tree = some x := by
  rw [Value.ofFloat, if_pos hx, Value.tree, if_pos hx]
  exact toFloat?_ofFloat hx

theorem text?_tree (s : String) (depth : ℕ) : text? depth (Value.text s).tree = some s :=
  text?_pieces s

/-! ## Records of any shape -/

namespace Value

/-- Members stand in the order of their keys, each key once. -/
def Sorted (members : List (String × Value)) : Prop :=
  members.Pairwise fun a b => a.1 < b.1

theorem sorted_insert {key : String} {v : Value} {members : List (String × Value)}
    (h : Sorted members) : Sorted (insert key v members) := by
  induction members with
  | nil => exact List.pairwise_singleton _ _
  | cons m rest ih =>
    obtain ⟨k, w⟩ := m
    obtain ⟨hfirst, hrest⟩ := List.pairwise_cons.1 h
    unfold insert
    by_cases hlt : key < k
    · rw [if_pos hlt]
      refine List.pairwise_cons.2 ⟨fun m hm => ?_, h⟩
      rcases List.mem_cons.1 hm with rfl | hm
      · exact hlt
      · exact hlt.trans (hfirst m hm)
    · rw [if_neg hlt]
      by_cases heq : key = k
      · subst heq
        rw [if_pos rfl]
        exact List.pairwise_cons.2 ⟨hfirst, hrest⟩
      · rw [if_neg heq]
        refine List.pairwise_cons.2 ⟨fun m hm => ?_, ih hrest⟩
        rcases mem_insert hm with rfl | hm
        · exact lt_of_le_of_ne (not_lt.1 hlt) (Ne.symm heq)
        · exact hfirst m hm

theorem insert_of_lt {key : String} {v : Value} {members : List (String × Value)}
    (h : ∀ m ∈ members, m.1 < key) : insert key v members = members ++ [(key, v)] := by
  induction members with
  | nil => rfl
  | cons m rest ih =>
    obtain ⟨k, w⟩ := m
    have hk : k < key := h (k, w) List.mem_cons_self
    rw [insert, if_neg hk.not_gt, if_neg hk.ne', ih fun m hm => h m (List.mem_cons_of_mem _ hm),
      List.cons_append]

theorem foldl_insert_sorted {members : List (String × Value)} :
    ∀ {done : List (String × Value)}, Sorted (done ++ members) →
      members.foldl (fun sorted m => insert m.1 m.2 sorted) done = done ++ members := by
  induction members with
  | nil =>
    intro done _
    exact (List.append_nil done).symm
  | cons m rest ih =>
    intro done h
    have hlast : ∀ a ∈ done, a.1 < m.1 := fun a ha =>
      (List.pairwise_append.1 h).2.2 a ha m List.mem_cons_self
    rw [List.append_cons] at h
    rw [List.foldl_cons, insert_of_lt hlast, ih h, ← List.append_cons]

theorem record_of_sorted {members : List (String × Value)} (h : Sorted members) :
    record members = .object members :=
  congrArg Value.object (foldl_insert_sorted (List.nil_append members ▸ h))

theorem sorted_foldl_insert {members : List (String × Value)} :
    ∀ {sorted : List (String × Value)}, Sorted sorted →
      Sorted (members.foldl (fun sorted m => insert m.1 m.2 sorted) sorted) := by
  induction members with
  | nil => exact fun h => h
  | cons m rest ih => exact fun h => ih (sorted_insert h)

theorem record_spec (members : List (String × Value)) :
    ∃ sorted, record members = .object sorted ∧ Sorted sorted ∧ ∀ m ∈ sorted, m ∈ members := by
  refine ⟨_, rfl, sorted_foldl_insert List.Pairwise.nil, fun m hm => ?_⟩
  exact (mem_foldl_insert hm).resolve_right List.not_mem_nil

end Value

theorem memberValues?_tree {depth : ℕ} {members : List (String × Value)}
    (h : ∀ m ∈ members, value? depth m.2.tree = some m.2) :
    memberValues? depth (Value.memberTrees members) = some members := by
  induction members with
  | nil => rfl
  | cons m rest ih =>
    obtain ⟨k, v⟩ := m
    have hv : value? depth v.tree = some v := h (k, v) List.mem_cons_self
    have hrest := ih fun m hm => h m (List.mem_cons_of_mem _ hm)
    rw [Value.memberTrees, memberValues?, text?_pieces, hv, hrest]
    rfl

theorem value?_object {depth : ℕ} {members : List (String × Value)} (hs : Value.Sorted members)
    (h : ∀ m ∈ members, value? depth m.2.tree = some m.2) :
    value? (depth + 1) (Value.object members).tree = some (.object members) := by
  rw [Value.tree, value?, memberValues?_tree h, Option.map_some, Value.record_of_sorted hs]

/-! ## Lists and fields -/

theorem itemTrees_map {α : Type} (write : α → Value) (as : List α) :
    Value.itemTrees (as.map write) = as.map fun a => (write a).tree := by
  induction as with
  | nil => rfl
  | cons a as ih => rw [List.map_cons, Value.itemTrees, ih, List.map_cons]

theorem memberTrees_eq (members : List (String × Value)) :
    Value.memberTrees members = members.map fun m => (pieces m.1, m.2.tree) := by
  induction members with
  | nil => rfl
  | cons m members ih => rw [Value.memberTrees, ih, List.map_cons]

theorem mapM_written {α β γ : Type} {read : β → Option γ} {write : α → β} {result : α → γ}
    {as : List α} (h : ∀ a ∈ as, read (write a) = some (result a)) :
    (as.map write).mapM read = some (as.map result) := by
  induction as with
  | nil => rfl
  | cons a as ih =>
    rw [List.map_cons, List.mapM_cons, h a List.mem_cons_self,
      ih fun b hb => h b (List.mem_cons_of_mem _ hb)]
    rfl

theorem list?_tree {α : Type} {item : Decoder α} {write : α → Value} {depth : ℕ} {as : List α}
    (h : ∀ a ∈ as, item depth (write a).tree = some a) :
    list? item (depth + 1) (Value.array (as.map write)).tree = some as := by
  have hread : (as.map fun a => (write a).tree).mapM (item depth) = some (as.map id) :=
    mapM_written h
  rw [Value.tree, itemTrees_map, list?, hread, List.map_id]

theorem filter_key {members : List (String × Value)} (h : (members.map Prod.fst).Nodup)
    {m : String × Value} (hm : m ∈ members) :
    (members.map fun m => (m.1, m.2.tree)).filter (fun n => n.1 == m.1) = [(m.1, m.2.tree)] := by
  induction members with
  | nil => cases hm
  | cons n rest ih =>
    obtain ⟨hn, hrest⟩ := List.nodup_cons.1 h
    rw [List.map_cons, List.filter_cons]
    rcases List.mem_cons.1 hm with rfl | hm
    · have hnone : (rest.map fun n => (n.1, n.2.tree)).filter (fun n => n.1 == m.1) = [] := by
        rw [List.filter_eq_nil_iff]
        intro e he heq
        obtain ⟨n, hmem, rfl⟩ := List.mem_map.1 he
        exact hn (List.mem_map.2 ⟨n, hmem, eq_of_beq heq⟩)
      rw [if_pos (beq_self_eq_true m.1), hnone]
    · have hne : n.1 ≠ m.1 := fun heq => hn (heq ▸ List.mem_map_of_mem hm)
      rw [if_neg (by simpa using hne), ih hrest hm]

/-- The fields of an object are found under their names. -/
theorem fields?_tree {members : List (String × Value)} (h : (members.map Prod.fst).Nodup) :
    fields? (members.map Prod.fst) (Value.object members).tree =
      some (members.map fun m => some m.2.tree) := by
  have hkeys : (members.map fun m => (pieces m.1, m.2.tree)).mapM
      (fun e => e.1.text?.map fun k => (k, e.2)) = some (members.map fun m => (m.1, m.2.tree)) :=
    mapM_written fun m _ => by rw [text?_pieces, Option.map_some]
  rw [Value.tree, memberTrees_eq, fields?, hkeys]
  refine mapM_written fun m hm => ?_
  rw [filter_key h hm]

/-- A record is read from the trees of its fields. -/
theorem record?_tree {α : Type} {names : List String} {members : List (String × Value)}
    {read : ℕ → List (Option Tree) → Option α} {depth : ℕ} (hnodup : names.Nodup)
    (hnames : members.map Prod.fst = names) :
    record? names read (depth + 1) (Value.object members).tree =
      read depth (members.map fun m => some m.2.tree) := by
  subst hnames
  rw [record?, fields?_tree hnodup]
  rfl

theorem record?_eq_some {α : Type} {names : List String} {members : List (String × Value)}
    {read : ℕ → List (Option Tree) → Option α} {depth : ℕ} {a : α} (hnodup : names.Nodup)
    (hnames : members.map Prod.fst = names)
    (h : read depth (members.map fun m => some m.2.tree) = some a) :
    record? names read (depth + 1) (Value.object members).tree = some a :=
  (record?_tree hnodup hnames).trans h

/-! ## Alternatives -/

theorem alternative?_text (name : String) (depth : ℕ) :
    alternative? depth (Value.text name).tree = some (.bare name) := by
  rw [Value.tree, alternative?, text?_pieces]
  rfl

theorem alternative?_object (name : String) (v : Value) (depth : ℕ) :
    alternative? (depth + 1) (Value.object [(name, v)]).tree = some (.under name depth v.tree) := by
  rw [Value.tree, Value.memberTrees, Value.memberTrees, alternative?, text?_pieces]
  rfl

theorem optional?_eq_some {α : Type} {decoder : Decoder α} {depth : ℕ} {t : Tree} {a : α}
    (ht : t ≠ .null) (h : decoder depth t = some a) : optional? decoder depth t = some (some a) := by
  rw [optional?.eq_def]
  split
  · exact absurd rfl ht
  · exact congrArg (Option.map some) h

theorem name?_text {α : Type} {names : List (String × α)} {name : String} {a : α}
    (h : names.lookup name = some a) (depth : ℕ) :
    name? names depth (Value.text name).tree = some a := by
  rw [name?, alternative?_text]
  exact h

end MarkovSim.Json
