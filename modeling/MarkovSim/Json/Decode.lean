import MarkovSim.Json.Value

/-!
# Values of a given shape

A decoder takes the number of arrays and objects that may still be opened and a tree, and reads
a value of one type. Records are read from objects, with unknown members passed over, or from
arrays of all their fields in order. Alternatives are read from their bare name or from an
object whose only member is named after them.
-/

namespace MarkovSim.Json

/-- How many arrays and objects may be nested in one another. -/
def nestingLimit : Nat := 127

/-- Reads a tree as an `α`, opening at most so many nested arrays and objects. -/
abbrev Decoder (α : Type) := Nat → Tree → Option α

/-- A JSON text read with a decoder. -/
def decode? {α : Type} (decoder : Decoder α) (text : String) : Option α :=
  (Tree.ofText? text).bind (decoder nestingLimit)

/-! ## Free-form values -/

mutual

/-- What a tree stands for, whatever its shape. -/
def value? : Nat → Tree → Option Value
  | _, .null => some .null
  | _, .bool b => some (.bool b)
  | _, .number n =>
    n.value?.map fun
      | .whole i => .whole i
      | .real x => .real x
  | _, .string s => s.text?.map .text
  | 0, .array _ => none
  | depth + 1, .array items => (values? depth items).map .array
  | 0, .object _ => none
  | depth + 1, .object members => (memberValues? depth members).map Value.record

def values? : Nat → List Tree → Option (List Value)
  | _, [] => some []
  | depth, t :: ts => do
    let v ← value? depth t
    let vs ← values? depth ts
    some (v :: vs)

def memberValues? : Nat → List (Quoted × Tree) → Option (List (String × Value))
  | _, [] => some []
  | depth, (key, t) :: ms => do
    let k ← key.text?
    let v ← value? depth t
    let vs ← memberValues? depth ms
    some ((k, v) :: vs)

end

/-! ## Plain types -/

/-- A natural number below a bound. -/
def natBelow? (bound : Nat) : Decoder Nat
  | _, .number n =>
    match n.toInt? with
    | some (.ofNat i) => if i < bound then some i else none
    | _ => none
  | _, _ => none

/-- A natural number of 64 bits. -/
def nat64? : Decoder Nat := natBelow? UInt64.size

/-- A natural number of 32 bits. -/
def nat32? : Decoder Nat := natBelow? UInt32.size

/-- A whole number of 64 bits with sign. -/
def int64? : Decoder Int
  | _, .number n => n.toInt?.filter fun i => i < 0x8000000000000000
  | _, _ => none

/-- A binary64 number. -/
def float? : Decoder Float
  | _, .number n => n.toFloat?
  | _, _ => none

def bool? : Decoder Bool
  | _, .bool b => some b
  | _, _ => none

def text? : Decoder String
  | _, .string s => s.text?
  | _, _ => none

/-- An array with items of one type. -/
def list? {α : Type} (item : Decoder α) : Decoder (List α)
  | depth + 1, .array ts => ts.mapM (item depth)
  | _, _ => none

/-- A value, or `null` for its absence. -/
def optional? {α : Type} (decoder : Decoder α) : Decoder (Option α)
  | _, .null => some none
  | depth, t => (decoder depth t).map some

/-! ## Records -/

/-- The trees of the named fields in order, with nothing for a field that is absent. -/
def fields? (names : List String) : Tree → Option (List (Option Tree))
  | .array ts => if ts.length = names.length then some (ts.map some) else none
  | .object ms => do
    let ms ← ms.mapM fun (key, t) => key.text?.map fun k => (k, t)
    names.mapM fun name =>
      match ms.filter fun m => m.1 == name with
      | [] => some none
      | [m] => some (some m.2)
      | _ => none
  | _ => none

/-- A record with the named fields, read by a function of their trees. -/
def record? {α : Type} (names : List String) (read : Nat → List (Option Tree) → Option α) :
    Decoder α
  | 0, _ => none
  | depth + 1, t => (fields? names t).bind (read depth)

/-- A field that may be absent or `null`. -/
def field? {α : Type} (decoder : Decoder α) (depth : Nat) : Option Tree → Option (Option α)
  | none => some none
  | some t => optional? decoder depth t

/-! ## Alternatives -/

/-- An alternative as it is written: its name, and what is written under it. -/
inductive Alternative where
  | bare (name : String)
  | under (name : String) (depth : Nat) (content : Tree)

/-- The alternative a tree writes. -/
def alternative? : Decoder Alternative
  | _, .string s => s.text?.map .bare
  | depth + 1, .object [(key, t)] => key.text?.map (.under · depth t)
  | _, _ => none

/-- One of several names, bare or with `null` under it. -/
def name? {α : Type} (names : List (String × α)) : Decoder α
  | depth, t =>
    match alternative? depth t with
    | some (.bare name) => names.lookup name
    | some (.under name _ .null) => names.lookup name
    | _ => none

end MarkovSim.Json
