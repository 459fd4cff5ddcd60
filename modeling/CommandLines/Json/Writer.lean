/-
JSON text.

A value is written either on one line without spaces, or over several with two spaces of
indentation a level.  Only what the grammar of JSON requires is escaped, so letters
outside ASCII stand as they are.
-/
import CommandLines.Dictionary
import CommandLines.Json.Value

namespace CommandLines.Json

/-- A digit of a hexadecimal number, in lower case. -/
def hexDigit (n : Nat) : Char := if n < 10 then Char.ofNat (48 + n) else Char.ofNat (87 + n)

/-- A character inside a JSON string. -/
def escapeChar (c : Char) : List Char :=
  if c == '"' then ['\\', '"']
  else if c == '\\' then ['\\', '\\']
  else if c == '\x08' then ['\\', 'b']
  else if c == '\x0c' then ['\\', 'f']
  else if c == '\n' then ['\\', 'n']
  else if c == '\r' then ['\\', 'r']
  else if c == '\t' then ['\\', 't']
  else if c.toNat < 0x20 then
    ['\\', 'u', '0', '0', hexDigit (c.toNat / 16), hexDigit (c.toNat % 16)]
  else [c]

/-- A JSON string. -/
def quote (s : String) : String :=
  "\"" ++ String.ofList (s.toList.flatMap escapeChar) ++ "\""

/-- Numbers keep a point or an exponent, and have one from 10^16 up and below 10^-5. -/
def layout : CommandLines.Number.Layout := ⟨.even, ".0", some (-4, 16), "+"⟩

/-- A JSON number; there is none for an infinity. -/
def Number.write : Number → String
  | .int i => toString i
  | .double x => if x.isFinite then layout.double x else "null"

/-- Whether lines are broken, and how deep. -/
inductive Style where
  | compact
  | indented (depth : Nat)

/-- The style inside one more bracket. -/
def Style.deeper : Style → Style
  | .compact => .compact
  | .indented depth => .indented (depth + 1)

/-- What stands between a bracket and an item, or between an item and the next. -/
def Style.break : Style → String
  | .compact => ""
  | .indented depth => "\n" ++ String.ofList (List.replicate (2 * depth) ' ')

/-- What stands between a name and its value. -/
def Style.colon : Style → String
  | .compact => ":"
  | .indented _ => ": "

/-- The items of an array or object, already written, in their brackets. -/
def Style.enclose (style : Style) (opening closing : String) : List String → String
  | [] => opening ++ closing
  | items =>
    opening ++ style.deeper.break ++ (("," ++ style.deeper.break).intercalate items) ++
      style.break ++ closing

mutual

/-- The text of a value. -/
def writeWith (style : Style) : Json → String
  | .null => "null"
  | .bool true => "true"
  | .bool false => "false"
  | .number n => n.write
  | .string s => quote s
  | .array items => style.enclose "[" "]" (writeItems style.deeper items)
  | .object members => style.enclose "\x7b" "\x7d" (writeMembers style.deeper members)

/-- The texts of the items of an array. -/
def writeItems (style : Style) : List Json → List String
  | [] => []
  | j :: rest => writeWith style j :: writeItems style rest

/-- The texts of the members of an object. -/
def writeMembers (style : Style) : List (String × Json) → List String
  | [] => []
  | (name, j) :: rest =>
    (quote name ++ style.colon ++ writeWith style j) :: writeMembers style rest

end

/-- The value on one line. -/
def compact (j : Json) : String := writeWith .compact j

/-- The value over several lines. -/
def pretty (j : Json) : String := writeWith (.indented 0) j

mutual

/-- The value with the members of every object in the order of their names, of several with one
name only the last. -/
def sorted : Json → Json
  | .array items => .array (sortedItems items)
  | .object members => .object (Dictionary.ofList (sortedMembers members))
  | j => j

/-- Each item with the members of every object in order. -/
def sortedItems : List Json → List Json
  | [] => []
  | j :: rest => sorted j :: sortedItems rest

/-- Each member's value with the members of every object in order. -/
def sortedMembers : List (String × Json) → List (String × Json)
  | [] => []
  | (name, j) :: rest => (name, sorted j) :: sortedMembers rest

end

end CommandLines.Json
