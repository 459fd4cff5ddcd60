/-
Faults: causes at places.

A fault that arises in a line knows the line and the byte offset it points at, and its
text shows a few characters of the line up to there.
-/
import CommandLines.Fault.Cause
import CommandLines.Fault.Diagnostic

namespace CommandLines

/-- A line and a byte offset that something points at. -/
structure Place where
  line : String
  offset : Nat
deriving DecidableEq, Repr

/-- How many bytes of the line an excerpt shows. -/
def Place.excerptBytes : Nat := 10

/-- The end of the line up to the place, with dots in front where more stands before it.  An offset
past the end counts as the end, and one inside a character as that character's start. -/
def Place.excerpt (p : Place) : String :=
  let before := (Text.cutAtMost p.line.toList p.offset).1
  let dots := if Place.excerptBytes < Text.bytes before then "..." else ""
  dots ++ String.ofList (Text.lastBytes before Place.excerptBytes) ++ "<--[HERE]"

/-- A cause, and the place where it arose if it arose in a line. -/
structure Fault where
  cause : Cause
  place? : Option Place := none

namespace Fault

/-- A failure of the host's own. -/
def custom (message : String) : Fault := ⟨.custom message, none⟩

/-- The text of a fault: its message, and its place when it has one. -/
def text (f : Fault) : String :=
  match f.place? with
  | none => f.cause.message
  | some p => f.cause.message ++ " at position " ++ toString p.offset ++ ": " ++ p.excerpt

/-- The fault as a diagnostic that points between two characters. -/
def toDiagnostic (f : Fault) : Diagnostic :=
  .ofCode f.cause.code f.cause.details (f.place?.map fun p => .point p.offset)

end Fault

end CommandLines
