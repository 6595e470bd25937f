import MarkovSim.Model.Defect

/-!
# Valuations of states

A valuation gives each state one value per declared variable. `Valuations.record?` shows a state
as a JSON record; `Valuations.value?` looks one variable up. A stored valuation may hold rows of
any length, so a look-up can meet a row that ends before the variable's column.
-/

namespace MarkovSim

/-- The value of a variable. -/
inductive Datum where
  | bool (b : Bool)
  | int (n : Int)
  | real (x : Float)

namespace Datum

/-- The value in a record; a number that is not finite is shown as `null`. -/
def plain : Datum → Json.Value
  | .bool b => .bool b
  | .int n => .whole n
  | .real x => .ofFloat x

def toJson : Datum → Json.Value
  | .bool b => .object [("Bool", .bool b)]
  | .int n => .object [("Int", .whole n)]
  | .real x => .object [("Real", .ofFloat x)]

def ofJson? : Json.Decoder Datum := fun depth t =>
  match Json.alternative? depth t with
  | some (.under "Bool" depth t) => (Json.bool? depth t).map .bool
  | some (.under "Int" depth t) => (Json.int64? depth t).map .int
  | some (.under "Real" depth t) => (Json.float? depth t).map .real
  | _ => none

end Datum

/-- A declared variable. -/
structure Variable where
  name : String
deriving DecidableEq

namespace Variable

def toJson (v : Variable) : Json.Value := .object [("name", .text v.name)]

def ofJson? : Json.Decoder Variable :=
  Json.record? ["name"] fun depth fields =>
    match fields with
    | [some name] => (Json.text? depth name).map Variable.mk
    | _ => none

end Variable

/-- The values of the declared variables, state by state. -/
structure Valuations where
  declared : List Variable
  rows : Array (List Datum)

/-- The row of a state ends before the column of a variable. -/
structure ShortRow where
  state : Nat
  column : Nat
deriving DecidableEq

namespace Valuations

/-- No state yet. -/
def declare (names : List String) : Valuations := ⟨names.map Variable.mk, #[]⟩

/-- How many states have a row. -/
def stateCount (v : Valuations) : Nat := v.rows.size

/-- Adds the row of the next state and gives the state's number. -/
def push (v : Valuations) (row : List Datum) : Except Defect Nat × Valuations :=
  if row.length = v.declared.length then
    (.ok v.stateCount, { v with rows := v.rows.push row })
  else (.error (.wrongArity v.declared.length row.length), v)

/-- The row of a state. -/
def row? (v : Valuations) (s : Nat) : Option (List Datum) := v.rows[s]?

/-- The column of a variable: the first with its name. -/
def column? (v : Valuations) (name : String) : Option Nat :=
  (v.declared.map Variable.name).idxOf? name

/-- The value of a variable in a state, if both are known. -/
def value? (v : Valuations) (s : Nat) (name : String) : Except ShortRow (Option Datum) :=
  match v.column? name, v.row? s with
  | some c, some row =>
    match row[c]? with
    | some d => .ok (some d)
    | none => .error ⟨s, c⟩
  | _, _ => .ok none

/-- The state as a record with one member per variable name. -/
def record? (v : Valuations) (s : Nat) : Option Json.Value :=
  (v.row? s).map fun row =>
    .record (List.zipWith (fun (x : Variable) (d : Datum) => (x.name, d.plain)) v.declared row)

/-! ## Stored form -/

def toJson (v : Valuations) : Json.Value :=
  .object [
    ("variables", .array (v.declared.map Variable.toJson)),
    ("rows", .array (v.rows.toList.map fun row => .array (row.map Datum.toJson)))]

def ofJson? : Json.Decoder Valuations :=
  Json.record? ["variables", "rows"] fun depth fields =>
    match fields with
    | [some declared, some rows] => do
      let declared ← Json.list? Variable.ofJson? depth declared
      let rows ← Json.list? (Json.list? Datum.ofJson?) depth rows
      some ⟨declared, rows.toArray⟩
    | _ => none

end Valuations

end MarkovSim
