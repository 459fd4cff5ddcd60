/-
Diagnostics: faults as they are handed to whoever shows or stores them.
-/
import CommandLines.Fault.Catalogue
import CommandLines.Json.Value
import CommandLines.Span

namespace CommandLines

/-- A report with its code, its message, the place in the line it concerns, and its details by name.
-/
structure Diagnostic where
  code : String
  severity : Severity
  message : String
  span? : Option Span
  details? : Option (List (String × String))
deriving DecidableEq, Repr

namespace Diagnostic

/-- A diagnostic as the catalogue words it.  A code outside the catalogue is an error whose message
lists the details. -/
def ofCode (code : String) (details : List (String × String)) (span? : Option Span) :
    Diagnostic where
  code := code
  severity := ((Catalogue.find? code).map (·.severity)).getD .error
  message := (Catalogue.message? code details).getD
    (", ".intercalate (details.map fun d => d.1 ++ "=" ++ d.2))
  span? := span?
  details? := if details.isEmpty then none else some details

/-- What the code means, when the catalogue has it. -/
def explanation? (d : Diagnostic) : Option String :=
  (Catalogue.find? d.code).map (·.explanation)

/-- The diagnostic on one line. -/
def line (d : Diagnostic) : String :=
  d.severity.name ++ "[" ++ d.code ++ "]: " ++ d.message

/-- A diagnostic in JSON; what it lacks is left out. -/
def toJson (d : Diagnostic) : Json :=
  let span := match d.span? with
    | none => []
    | some s => [("span", s.toJson)]
  let details := match d.details? with
    | none => []
    | some ds => [("context", Json.object (ds.map fun d => (d.1, .string d.2)))]
  .object ([("id", .string d.code), ("severity", .string d.severity.name),
    ("message", .string d.message)] ++ span ++ details)

/-! ### Reading one back -/

/-- A severity: its word, or an object with the word as its only name and nothing under it. -/
def severityOfJson? : Json → Option Severity
  | .string name => Severity.ofName? name
  | .object [(name, .null)] => Severity.ofName? name
  | _ => none

/-- A span: an object with both ends, or the two ends in a row. -/
def spanOfJson? : Json → Option Span
  | .array [start, stop] => do return ⟨← start.nat?, ← stop.nat?⟩
  | j => do return ⟨← (← j.member? "start").nat?, ← (← j.member? "end").nat?⟩

/-- Details: an object of strings. -/
def detailsOfJson? (j : Json) : Option (List (String × String)) := do
  let entries ← (← j.object?).mapM fun m => m.2.string?.map (m.1, ·)
  return Dictionary.ofList entries

/-- The diagnostic that a JSON value describes: an object with its parts by name, of which the span
and the details may be missing, or all five parts in a row. -/
def ofJson? : Json → Option Diagnostic
  | .array [code, severity, message, span, details] => do
    return {
      code := ← code.string?
      severity := ← severityOfJson? severity
      message := ← message.string?
      span? := ← Json.optional? spanOfJson? (some span)
      details? := ← Json.optional? detailsOfJson? (some details) }
  | j => do
    return {
      code := ← (← j.member? "id").string?
      severity := ← severityOfJson? (← j.member? "severity")
      message := ← (← j.member? "message").string?
      span? := ← Json.optional? spanOfJson? (j.member? "span")
      details? := ← Json.optional? detailsOfJson? (j.member? "context") }

end Diagnostic

end CommandLines
