/-
JSON values.

An integer that fits 64 bits, signed or unsigned, is kept exactly; every other number is
a double.  An object keeps its members in the order written, also where a name is
repeated: a look-up takes the last one.
-/
import CommandLines.Number.Layout

namespace CommandLines

/-- A JSON number. -/
inductive Json.Number where
  | int (i : Int)
  | double (x : Float)

/-- A JSON value. -/
inductive Json where
  | null
  | bool (b : Bool)
  | number (n : Json.Number)
  | string (s : String)
  | array (items : List Json)
  | object (members : List (String × Json))

namespace Json

instance : Inhabited Json := ⟨.null⟩

/-- A natural number as a JSON integer. -/
def ofNat (n : Nat) : Json := .number (.int n)

/-- An integer as a JSON integer. -/
def ofInt (i : Int) : Json := .number (.int i)

/-- A list of strings. -/
def ofStrings (ss : List String) : Json := .array (ss.map .string)

/-- A value that may be missing, `null` standing for its absence. -/
def ofOption {α : Type} (f : α → Json) : Option α → Json
  | none => .null
  | some a => f a

/-- The member called `name`; of several the last. -/
def member? (name : String) : Json → Option Json
  | .object members => (members.reverse.find? (·.1 == name)).map (·.2)
  | _ => none

/-- The text of a string. -/
def string? : Json → Option String
  | .string s => some s
  | _ => none

/-- The truth value of a boolean. -/
def bool? : Json → Option Bool
  | .bool b => some b
  | _ => none

/-- The value of an integer. -/
def int? : Json → Option Int
  | .number (.int i) => some i
  | _ => none

/-- The value of an integer that is not negative. -/
def nat? (j : Json) : Option Nat := j.int?.bind fun i => if 0 ≤ i then some i.toNat else none

/-- The double nearest to a number. -/
def double? : Json → Option Float
  | .number (.int i) => some (Number.doubleOfInt i)
  | .number (.double x) => some x
  | _ => none

/-- The items of an array. -/
def array? : Json → Option (List Json)
  | .array items => some items
  | _ => none

/-- The members of an object. -/
def object? : Json → Option (List (String × Json))
  | .object members => some members
  | _ => none

/-- What may be left out or be null. -/
def optional? {α : Type} (read? : Json → Option α) : Option Json → Option (Option α)
  | none | some .null => some none
  | some j => (read? j).map some

end Json

end CommandLines
