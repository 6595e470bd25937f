import MarkovSim.Json.Tree

/-!
# Reading JSON text

`Tree.ofText?` reads one JSON text with blanks around it. The grammar is strict: no leading
zeros or plus signs, digits on both sides of a point, no trailing commas, no raw control
characters in strings. Each reader takes a prefix of the characters and returns what is left.
-/

namespace MarkovSim.Json

namespace Reader

/-- The characters that may stand between tokens. -/
def isBlank (c : Char) : Bool :=
  c = ' ' || c = '\n' || c = '\t' || c = '\r'

/-- The characters from the first that is no blank on. -/
def skip (cs : List Char) : List Char :=
  cs.dropWhile isBlank

/-- The longest run of digits and the rest; nothing without a digit. -/
def digits? (cs : List Char) : Option (List Char × List Char) :=
  match cs.takeWhile Char.isDigit with
  | [] => none
  | ds => some (ds, cs.dropWhile Char.isDigit)

/-- The number written by digits. -/
def natOf (ds : List Char) : Nat :=
  Nat.ofDigitChars 10 ds 0

/-- The digits before the point: a single zero, or digits that start with another. -/
def whole? : List Char → Option (List Char × List Char)
  | '0' :: rest => some (['0'], rest)
  | cs => digits? cs

/-- The digits after a point, or none where no point stands. -/
def fraction? : List Char → Option (List Char × List Char)
  | '.' :: rest => digits? rest
  | cs => some ([], cs)

/-- The exponent after its mark. -/
def scale? (cs : List Char) : Option (Int × List Char) :=
  match cs with
  | '-' :: rest => (digits? rest).map fun (ds, rest) => (-(natOf ds : Int), rest)
  | '+' :: rest => (digits? rest).map fun (ds, rest) => ((natOf ds : Int), rest)
  | _ => (digits? cs).map fun (ds, rest) => ((natOf ds : Int), rest)

/-- An exponent, or none where no mark of one stands. -/
def exponent? : List Char → Option (Option Int × List Char)
  | 'e' :: rest | 'E' :: rest => (scale? rest).map fun (e, rest) => (some e, rest)
  | cs => some (none, cs)

/-- A number without its sign. -/
def unsigned? (negative : Bool) (cs : List Char) : Option (Numeral × List Char) := do
  let (whole, cs) ← whole? cs
  let (fraction, cs) ← fraction? cs
  let (exponent, cs) ← exponent? cs
  let magnitude := ⟨natOf (whole ++ fraction), exponent.getD 0 - fraction.length⟩
  some (⟨negative, fraction.isEmpty && exponent.isNone, magnitude⟩, cs)

/-- A number. -/
def numeral? : List Char → Option (Numeral × List Char)
  | '-' :: rest => unsigned? true rest
  | cs => unsigned? false cs

/-- The value of a hexadecimal digit of either case. -/
def hexDigit? (c : Char) : Option Nat :=
  if c.isDigit then some (c.toNat - '0'.toNat)
  else if 'a' ≤ c ∧ c ≤ 'f' then some (c.toNat - 'a'.toNat + 10)
  else if 'A' ≤ c ∧ c ≤ 'F' then some (c.toNat - 'A'.toNat + 10)
  else none

/-- The code unit written by four hexadecimal digits. -/
def hexUnit? (a b c d : Char) : Option Nat := do
  some (((← hexDigit? a) * 16 + (← hexDigit? b)) * 256 + (← hexDigit? c) * 16 + (← hexDigit? d))

/-- The character that stands after a backslash for another or itself. -/
def escaped? : Char → Option Char
  | '"' => some '"'
  | '\\' => some '\\'
  | '/' => some '/'
  | 'b' => some '\x08'
  | 'f' => some '\x0c'
  | 'n' => some '\n'
  | 'r' => some '\r'
  | 't' => some '\t'
  | _ => none

/-- A string from after its opening quote to its closing one. -/
def quoted? : List Char → Option (Quoted × List Char)
  | [] => none
  | '"' :: rest => some ([], rest)
  | '\\' :: 'u' :: a :: b :: c :: d :: rest => do
    let u ← hexUnit? a b c d
    let (s, rest) ← quoted? rest
    some (.unit u :: s, rest)
  | '\\' :: e :: rest => do
    let c ← escaped? e
    let (s, rest) ← quoted? rest
    some (.char c :: s, rest)
  | c :: rest =>
    if c.toNat < 0x20 ∨ c = '\\' then none
    else do
      let (s, rest) ← quoted? rest
      some (.char c :: s, rest)

/-- An object's key, from its opening quote on, with the colon after it. -/
def key? (cs : List Char) : Option (Quoted × List Char) :=
  match skip cs with
  | '"' :: rest => do
    let (key, rest) ← quoted? rest
    match skip rest with
    | ':' :: rest => some (key, rest)
    | _ => none
  | _ => none

mutual

/-- A value, with blanks before it. -/
def tree? : Nat → List Char → Option (Tree × List Char)
  | 0, _ => none
  | fuel + 1, cs =>
    match skip cs with
    | 'n' :: 'u' :: 'l' :: 'l' :: rest => some (.null, rest)
    | 't' :: 'r' :: 'u' :: 'e' :: rest => some (.bool true, rest)
    | 'f' :: 'a' :: 'l' :: 's' :: 'e' :: rest => some (.bool false, rest)
    | '"' :: rest => (quoted? rest).map fun (s, rest) => (.string s, rest)
    | '[' :: rest =>
      match skip rest with
      | ']' :: rest => some (.array [], rest)
      | _ => (items? fuel rest).map fun (ts, rest) => (.array ts, rest)
    | '{' :: rest =>
      match skip rest with
      | '}' :: rest => some (.object [], rest)
      | _ => (members? fuel rest).map fun (ms, rest) => (.object ms, rest)
    | cs => (numeral? cs).map fun (n, rest) => (.number n, rest)

/-- The items of an array, at least one, up to its closing bracket. -/
def items? : Nat → List Char → Option (List Tree × List Char)
  | 0, _ => none
  | fuel + 1, cs => do
    let (t, rest) ← tree? fuel cs
    match skip rest with
    | ',' :: rest =>
      let (ts, rest) ← items? fuel rest
      some (t :: ts, rest)
    | ']' :: rest => some ([t], rest)
    | _ => none

/-- The members of an object, at least one, up to its closing brace. -/
def members? : Nat → List Char → Option (List (Quoted × Tree) × List Char)
  | 0, _ => none
  | fuel + 1, cs => do
    let (key, rest) ← key? cs
    let (t, rest) ← tree? fuel rest
    match skip rest with
    | ',' :: rest =>
      let (ms, rest) ← members? fuel rest
      some ((key, t) :: ms, rest)
    | '}' :: rest => some ([(key, t)], rest)
    | _ => none

end

end Reader

/-- The tree of a JSON text. Every second call of the readers takes a character away, so twice
the length bounds their depth. -/
def Tree.ofText? (text : String) : Option Tree :=
  match Reader.tree? (2 * text.length + 2) text.toList with
  | some (t, rest) => if (Reader.skip rest).isEmpty then some t else none
  | none => none

end MarkovSim.Json
