/-!
# Named entries in order of arrival

A registry maps names to entries and keeps the order in which the names first came. Changing
the entry of a known name leaves it in its place.
-/

namespace MarkovSim

/-- Named entries in the order in which the names first came. -/
structure Registry (α : Type) where
  entries : List (String × α)

namespace Registry

variable {α : Type}

def empty : Registry α := ⟨[]⟩

/-- The names in order of arrival. -/
def names (r : Registry α) : List String := r.entries.map Prod.fst

/-- The entry of a name. -/
def get? (r : Registry α) (name : String) : Option α := r.entries.lookup name

/-- The entry at a place in the order of arrival. -/
def at? (r : Registry α) (i : Nat) : Option α := r.entries[i]?.map Prod.snd

def size (r : Registry α) : Nat := r.entries.length

/-- `f` at the entry of `name`; a new name comes last with `f` of the default. -/
def alterEntries (name : String) (default : α) (f : α → α) :
    List (String × α) → List (String × α)
  | [] => [(name, f default)]
  | (n, a) :: rest =>
    if n = name then (n, f a) :: rest else (n, a) :: alterEntries name default f rest

/-- Changes the entry of `name` by `f`, where a new name has the default. -/
def alter (r : Registry α) (name : String) (default : α) (f : α → α) : Registry α :=
  ⟨alterEntries name default f r.entries⟩

/-- Sets the entry of a name. -/
def insert (r : Registry α) (name : String) (a : α) : Registry α :=
  r.alter name a fun _ => a

end Registry

end MarkovSim
