import MarkovSim.Json.Decode

/-!
# Labels of choices

A label is stored once and gets a 32-bit number by its place among the names; each choice holds
the numbers of its labels. Numbers that name no label, which a stored labeling may hold, are
passed over when labels are looked up.
-/

namespace MarkovSim

/-- The labels of a model's choices. -/
structure ChoiceLabels where
  /-- The labels in the order of their first use. -/
  names : List String
  /-- Each label stands among the names once. -/
  distinct : names.Nodup
  /-- For each choice, the numbers of its labels in the order in which they were given. -/
  ids : Array (List UInt32)

namespace ChoiceLabels

/-- No choice has a label. -/
def empty (choices : Nat) : ChoiceLabels := ⟨[], .nil, Array.replicate choices []⟩

/-- How many choices there are. -/
def choiceCount (l : ChoiceLabels) : Nat := l.ids.size

/-- The names with `label` among them, and its number. -/
def intern (names : List String) (label : String) : List String × UInt32 :=
  match names.idxOf? label with
  | some i => (names, UInt32.ofNat i)
  | none => (names ++ [label], UInt32.ofNat names.length)

theorem nodup_intern {names : List String} (h : names.Nodup) (label : String) :
    (intern names label).1.Nodup := by
  unfold intern
  cases hi : names.idxOf? label with
  | some i => exact h
  | none =>
    refine List.nodup_append.2 ⟨h, List.pairwise_singleton _ label, fun a ha b hb => ?_⟩
    rintro rfl
    obtain rfl := List.mem_singleton.1 hb
    exact List.idxOf?_eq_none_iff.1 hi ha

/-- Gives a label to a choice; says whether there is such a choice. -/
def attach (l : ChoiceLabels) (label : String) (choice : Nat) : Bool × ChoiceLabels :=
  match l.ids[choice]? with
  | none => (false, l)
  | some given =>
    let interned := intern l.names label
    (true,
      { names := interned.1
        distinct := nodup_intern l.distinct label
        ids := if given.contains interned.2 then l.ids
          else l.ids.setIfInBounds choice (given ++ [interned.2]) })

/-- The numbers a choice holds. -/
def idsOf (l : ChoiceLabels) (choice : Nat) : List UInt32 := l.ids[choice]?.getD []

/-- The labels of a choice in the order in which they were given. -/
def labelsOf (l : ChoiceLabels) (choice : Nat) : List String :=
  (l.idsOf choice).filterMap fun id => l.names[id.toNat]?

/-- Whether the label is among the names. -/
def contains (l : ChoiceLabels) (label : String) : Bool := l.names.contains label

/-- The choices with a label, ascending. -/
def choicesWith (l : ChoiceLabels) (label : String) : List Nat :=
  match l.names.idxOf? label with
  | none => []
  | some i => (List.range l.choiceCount).filter fun c => (l.idsOf c).contains (UInt32.ofNat i)

/-- Equality: the same names in whatever order, and the same numbers at each choice. -/
def eq (a b : ChoiceLabels) : Bool :=
  a.names.length == b.names.length && a.names.all b.names.contains && a.ids == b.ids

instance : BEq ChoiceLabels := ⟨eq⟩

/-! ## Stored form -/

def toJson (l : ChoiceLabels) : Json.Value :=
  .object [
    ("names", .array (l.names.map .text)),
    ("choices", .array (l.ids.toList.map fun given =>
      .array (given.map fun id => .whole id.toNat)))]

theorem nodup_eraseDups (names : List String) : names.eraseDups.Nodup := by
  cases names with
  | nil => exact .nil
  | cons name rest =>
    rw [List.eraseDups_cons]
    refine List.nodup_cons.2 ⟨?_, nodup_eraseDups (rest.filter fun b => !b == name)⟩
    rw [List.mem_eraseDups, List.mem_filter]
    simp
termination_by names.length
decreasing_by exact Nat.lt_succ_of_le (List.length_filter_le _ rest)

/-- Repeated names count once; numbers are taken as they are. -/
def ofJson? : Json.Decoder ChoiceLabels :=
  Json.record? ["names", "choices"] fun depth fields =>
    match fields with
    | [some names, some choices] => do
      let names ← Json.list? Json.text? depth names
      let choices ← Json.list? (Json.list? Json.nat32?) depth choices
      some ⟨names.eraseDups, nodup_eraseDups names,
        (choices.map fun given => given.map UInt32.ofNat).toArray⟩
    | _ => none

end ChoiceLabels

end MarkovSim
