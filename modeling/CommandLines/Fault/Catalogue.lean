/-
The catalogue of faults.

Every fault has a code.  The catalogue says for each code how grave it is, how its
message is worded, and what it means.  The wording holds the names of the fault's details
in braces; `fill` puts the details in their places.
-/
import CommandLines.Dictionary
import CommandLines.Text.Blank

namespace CommandLines

/-- How grave a report is. -/
inductive Severity where
  | error
  | warn
  | info
deriving DecidableEq, Repr

/-- The word for a severity. -/
def Severity.name : Severity → String
  | .error => "error"
  | .warn => "warn"
  | .info => "info"

/-- The severity that a word stands for. -/
def Severity.ofName? (name : String) : Option Severity :=
  [Severity.error, .warn, .info].find? (·.name == name)

namespace Catalogue

/-- What the catalogue holds for a code. -/
structure Entry where
  code : String
  severity : Severity
  /-- The message, with the names of details in braces. -/
  template : String
  /-- What the code means, in a sentence or two. -/
  explanation : String
deriving DecidableEq, Repr

/-- The entries, in the order of their codes. -/
def entries : List Entry := [
  ⟨"CMD1001", .error,
    "Expected quote to start a string",
    "The reader expected a quoted string at this position but the next character is not a double quote."⟩,
  ⟨"CMD1002", .error,
    "Unclosed quoted string",
    "A quoted string was opened but the input ended before the closing double quote."⟩,
  ⟨"CMD1003", .error,
    "Invalid escape sequence '{character}' in quoted string",
    "Inside a quoted string only \\\" and \\\\ are valid escape sequences; any other escaped character is rejected."⟩,
  ⟨"CMD1004", .error,
    "Invalid bool, expected true or false but found '{value}'",
    "Booleans are the exact words true or false (case-sensitive)."⟩,
  ⟨"CMD1005", .error,
    "Expected bool",
    "A boolean argument was expected but no token was present."⟩,
  ⟨"CMD1006", .error,
    "Invalid integer '{value}'",
    "The run of numeric characters could not be converted to a 32-bit integer. The cursor points at the start of the run."⟩,
  ⟨"CMD1007", .error,
    "Expected integer",
    "An integer argument was expected but the next character cannot start a number."⟩,
  ⟨"CMD1008", .error,
    "Invalid long '{value}'",
    "The run of numeric characters could not be converted to a 64-bit integer. The cursor points at the start of the run."⟩,
  ⟨"CMD1009", .error,
    "Expected long",
    "A 64-bit integer argument was expected but the next character cannot start a number."⟩,
  ⟨"CMD1010", .error,
    "Invalid double '{value}'",
    "The run of numeric characters could not be converted to a double. The cursor points at the start of the run."⟩,
  ⟨"CMD1011", .error,
    "Expected double",
    "A double argument was expected but the next character cannot start a number."⟩,
  ⟨"CMD1012", .error,
    "Invalid float '{value}'",
    "The run of numeric characters could not be converted to a float. The cursor points at the start of the run."⟩,
  ⟨"CMD1013", .error,
    "Expected float",
    "A float argument was expected but the next character cannot start a number."⟩,
  ⟨"CMD1014", .error,
    "Expected '{symbol}'",
    "The reader expected a specific character at this position."⟩,
  ⟨"CMD2001", .error,
    "Integer must not be less than {minimum}, found {found}",
    "The integer parsed correctly but is smaller than the minimum declared by the argument type."⟩,
  ⟨"CMD2002", .error,
    "Integer must not be more than {maximum}, found {found}",
    "The integer parsed correctly but is larger than the maximum declared by the argument type."⟩,
  ⟨"CMD2003", .error,
    "Long must not be less than {minimum}, found {found}",
    "The long parsed correctly but is smaller than the minimum declared by the argument type."⟩,
  ⟨"CMD2004", .error,
    "Long must not be more than {maximum}, found {found}",
    "The long parsed correctly but is larger than the maximum declared by the argument type."⟩,
  ⟨"CMD2005", .error,
    "Float must not be less than {minimum}, found {found}",
    "The float parsed correctly but is smaller than the minimum declared by the argument type."⟩,
  ⟨"CMD2006", .error,
    "Float must not be more than {maximum}, found {found}",
    "The float parsed correctly but is larger than the maximum declared by the argument type."⟩,
  ⟨"CMD2007", .error,
    "Double must not be less than {minimum}, found {found}",
    "The double parsed correctly but is smaller than the minimum declared by the argument type."⟩,
  ⟨"CMD2008", .error,
    "Double must not be more than {maximum}, found {found}",
    "The double parsed correctly but is larger than the maximum declared by the argument type."⟩,
  ⟨"CMD3001", .error,
    "Expected literal {expected}",
    "A literal node only matches its exact keyword followed by a separator or the end of input."⟩,
  ⟨"CMD3002", .error,
    "Unknown command",
    "No registered command matches the input, or the matched path ends on a node that is not executable."⟩,
  ⟨"CMD3003", .error,
    "Incorrect argument for command",
    "The command was recognised but the input that follows does not match any of its arguments."⟩,
  ⟨"CMD3004", .error,
    "Expected whitespace to end one argument, but found trailing data",
    "An argument was parsed but it is immediately followed by more characters instead of a single space."⟩,
  ⟨"CMD3005", .error,
    "Could not parse command: {message}",
    "A host-supplied parser rejected the input with its own explanation."⟩,
  ⟨"CMD3006", .error,
    "Command execution stopped after {limit} queued entries",
    "Commands kept scheduling follow-up work until the dispatcher's queued-entry quota ran out; the remaining work was abandoned."⟩,
  ⟨"CMD4001", .error,
    "No such argument '{name}' exists on this command",
    "A command asked its context for an argument that was not parsed on the matched path."⟩,
  ⟨"CMD4002", .error,
    "Argument '{name}' is defined as {found}, not {expected}",
    "A command asked its context for an argument using a type other than the one its argument type produces."⟩,
  ⟨"CMD9000", .error,
    "{message}",
    "A command callback, redirect modifier or custom argument type reported its own failure."⟩]

/-- The entry of a code. -/
def find? (code : String) : Option Entry := entries.find? (·.code == code)

/-- The text without the blanks at both ends. -/
def trim (cs : List Char) : List Char :=
  ((cs.dropWhile Text.isBlank).reverse.dropWhile Text.isBlank).reverse

/-- The template with each detail in the place of its name, in one pass from left to right.  A name
without a detail stays as it is written, braces and all, and so does a brace that is never closed.
The first argument is what has been read, in reverse, since a brace opened. -/
def fillFrom (details : List (String × String)) : Option (List Char) → List Char → List Char
  | none, [] => []
  | some name, [] => '\x7b' :: name.reverse
  | none, c :: cs =>
    if c == '\x7b' then fillFrom details (some []) cs else c :: fillFrom details none cs
  | some name, c :: cs =>
    if c == '\x7d' then
      let value := match Dictionary.get? details (String.ofList (trim name.reverse)) with
        | some text => text.toList
        | none => '\x7b' :: name.reverse ++ ['\x7d']
      value ++ fillFrom details none cs
    else fillFrom details (some (c :: name)) cs

/-- The template with each detail in the place of its name. -/
def fill (details : List (String × String)) (template : String) : String :=
  String.ofList (fillFrom details none template.toList)

/-- The message of a code with these details. -/
def message? (code : String) (details : List (String × String)) : Option String :=
  (find? code).map fun e => fill details e.template

end Catalogue

end CommandLines
