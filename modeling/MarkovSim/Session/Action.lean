import MarkovSim.Json.Decode

/-!
# Actions

An action of a state is named by its offset among the state's choices or by a label.
-/

namespace MarkovSim

/-- A request for an action. -/
inductive Action where
  | index (offset : Nat)
  | name (label : String)
deriving DecidableEq

namespace Action

/-- What form the request has, in messages. -/
def form : Action → String
  | .index _ => "index"
  | .name _ => "name"

def text : Action → String
  | .index k => toString k
  | .name l => l

def index? : Action → Option Nat
  | .index k => some k
  | .name _ => none

def name? : Action → Option String
  | .index _ => none
  | .name l => some l

def toJson : Action → Json.Value
  | .index k => .whole k
  | .name l => .text l

/-- An offset is a bare number and a label a bare string. -/
def ofJson? : Json.Decoder Action := fun depth t =>
  match Json.nat64? depth t with
  | some k => some (.index k)
  | none => (Json.text? depth t).map .name

/-- The name of an action whose choice has no label. -/
def unlabeled (offset : Nat) : String := s!"_act_{offset}"

end Action

/-- How the actions of a session are addressed. -/
inductive Addressing where
  | offsets
  | names
deriving DecidableEq

namespace Addressing

def text : Addressing → String
  | .offsets => "index"
  | .names => "global-names"

/-- The name in stored text. -/
def tag : Addressing → String
  | .offsets => "Index"
  | .names => "GlobalNames"

def toJson (m : Addressing) : Json.Value := .text m.tag

def ofJson? : Json.Decoder Addressing :=
  Json.name? ([.offsets, .names].map fun m => (m.tag, m))

end Addressing

/-- The actions on offer, by offset or by name, that are still to be listed. -/
inductive Menu where
  | offsets (start stop : Nat)
  | names (labels : List String)
deriving DecidableEq

namespace Menu

def toList : Menu → List Action
  | .offsets start stop => (List.range' start (stop - start)).map .index
  | .names labels => labels.map .name

def length : Menu → Nat
  | .offsets start stop => stop - start
  | .names labels => labels.length

/-- The menu without its first `n` actions. -/
def drop (n : Nat) : Menu → Menu
  | .offsets start stop => .offsets (min (start + n) (max start stop)) stop
  | .names labels => .names (labels.drop n)

def head? : Menu → Option Action
  | .offsets start stop => if start < stop then some (.index start) else none
  | .names labels => labels.head?.map .name

/-- The first action and the rest of the menu. -/
def next (m : Menu) : Option Action × Menu := (m.head?, m.drop 1)

/-- The action after the first `n`, and the rest of the menu after it. -/
def nth (m : Menu) (n : Nat) : Option Action × Menu := (m.drop n).next

end Menu

end MarkovSim
