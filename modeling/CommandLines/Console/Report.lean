/-
What the console program answers.
-/
import CommandLines.Console.GrammarFile
import CommandLines.Console.Options
import CommandLines.Execution.Machine
import CommandLines.Reading.Completion
import CommandLines.Reading.Trace
import CommandLines.Tree.Ambiguity
import CommandLines.Tree.Usage

namespace CommandLines.Console

/-- The exit status of the program, what it writes, and what it tells people besides. -/
structure Report where
  status : Nat
  output : String
  asides : List String := []
deriving DecidableEq, Repr

/-- The exit status where all is well. -/
def success : Nat := 0

/-- The exit status where a line is at fault. -/
def badLine : Nat := 1

/-- The exit status where the program is used in a wrong way. -/
def badUse : Nat := 2

namespace Report

/-- A JSON value, over several lines. -/
def ofJson (status : Nat) (j : Json) (asides : List String := []) : Report :=
  ⟨status, j.pretty ++ "\n", asides⟩

/-- Lines of text. -/
def ofLines (status : Nat) (lines : List String) (asides : List String := []) : Report :=
  ⟨status, String.join (lines.map (· ++ "\n")), asides⟩

/-- A JSON object with its members in the order of their names. -/
def ofMembers (status : Nat) (members : List (String × Json)) : Report :=
  ofJson status (Json.object members).sorted

/-- What people are told about a fault: its diagnostic, and what the code means. -/
def faultLines (f : Fault) : List String :=
  let d := f.toDiagnostic
  d.line :: d.explanation?.toList.map fun text => "  = help: " ++ text

/-- A failure of the program; people are told besides. -/
def ofFailure (format : Format) (message : String) : Report :=
  match format with
  | .json =>
    ofMembers badUse [("success", .bool false), ("error", .string "command_failed"),
      ("message", .string message)]
  | .pretty => ofLines badUse [] ["error: " ++ message]

end Report

variable (t : Grammar) (user : User) (format : Format)

/-- Run a line. -/
def exec (line : String) : Report :=
  let (result, session) := t.execute host defaultQuota line user { state := [] }
  let said := session.state.reverse
  let output := ("output", Json.ofStrings said)
  match format, result with
  | .pretty, .ok n => .ofLines success said ["result: " ++ toString n.toInt]
  | .pretty, .error f => .ofLines badLine said (Report.faultLines f)
  | .json, .ok n =>
    .ofMembers success [("success", .bool true), ("result", .ofInt n.toInt), output]
  | .json, .error f =>
    .ofMembers badLine [("success", .bool false), output,
      ("diagnostics", .array [f.toDiagnostic.toJson])]

/-- Tell what a line matches. -/
def parse (line : String) : Report :=
  let r := t.read line user
  let fault? := r.fault?
  let status := if fault?.isSome then badLine else success
  let trace := (r.trace t).toJson
  match format with
  | .pretty => .ofJson status trace (fault?.toList.flatMap Report.faultLines)
  | .json =>
    .ofMembers status [("trace", trace),
      ("diagnostics", .array (fault?.toList.map fun f => f.toDiagnostic.toJson))]

/-- Complete a line. -/
def suggest (line : String) (offset? : Option Nat) : Report :=
  let r := t.read line user
  let cs := offset?.elim (r.completions t) (r.completionsAt t)
  match format with
  | .json => .ofJson success cs.toJson
  | .pretty =>
    .ofLines success (cs.list.map fun c => c.tooltip?.elim c.text fun tip => c.text ++ "\t" ++ tip)

/-- Tell the usage below a path. -/
def usage (path : List String) (condensed : Bool) : Report :=
  let words := " ".intercalate path
  match t.find? path with
  | none => .ofFailure format ("unknown command path '" ++ words ++ "'")
  | some id =>
    let lines := if condensed then (t.usage id user).map (·.2) else t.allUsage id (some user)
    match format with
    | .json => .ofMembers success [("path", .ofStrings path), ("usage", .ofStrings lines)]
    | .pretty => .ofLines success ((if path.isEmpty then [] else [words ++ ":"]) ++ lines)

/-- An ambiguity in JSON. -/
def ambiguityJson (a : Ambiguity) : Json :=
  .object [("parent", .ofStrings (t.path a.parent)), ("child", .string (t.node a.child).name),
    ("sibling", .string (t.node a.sibling).name), ("inputs", .ofStrings a.examples)]

/-- An ambiguity on one line. -/
def ambiguityLine (a : Ambiguity) : String :=
  let path := t.path a.parent
  (if path.isEmpty then "<root>" else " ".intercalate path) ++ ": " ++ (t.node a.child).name ++
    " and " ++ (t.node a.sibling).name ++ " both accept " ++ ", ".intercalate a.examples

/-- Tell which siblings take each other's texts. -/
def ambiguities : Report :=
  match format with
  | .json => .ofJson success (.array (t.ambiguities.map (ambiguityJson t)))
  | .pretty =>
    let lines := t.ambiguities.map (ambiguityLine t)
    .ofLines success lines (if lines.isEmpty then ["no ambiguities"] else [])

/-- A text in cyan on a terminal. -/
def cyan (s : String) : String := "\x1b[36m" ++ s ++ "\x1b[0m"

/-- Explain a code. -/
def explain (code : String) : Report :=
  let explanation? := (Catalogue.find? code).map (·.explanation)
  match format with
  | .json =>
    .ofMembers success [("id", .string code), ("explanation", .ofOption .string explanation?)]
  | .pretty =>
    .ofLines success [match explanation? with
      | some text => cyan code ++ ": " ++ text
      | none => code ++ ": (no explanation available)"]

namespace Invocation

/-- The file that is to be read before the request can be answered. -/
def file? (i : Invocation) : Option String :=
  match i.request with
  | .explain _ => none
  | _ => i.grammar?

/-- The tree in whose view the request is answered. -/
def tree (i : Invocation) (text? : Option String) : Except GrammarError Grammar :=
  match i.file? with
  | none => .ok builtin
  | some path => load builtin path text?

/-- The answer to the request, given the text of the file if there is one to be read and it could
be. -/
def report (i : Invocation) (text? : Option String) : Report :=
  match i.tree text? with
  | .error e => .ofFailure i.format e.message
  | .ok t =>
    let user : User := ⟨i.name, i.admin⟩
    match i.request with
    | .exec line => exec t user i.format line
    | .parse line => parse t user i.format line
    | .suggest line offset? => suggest t user i.format line offset?
    | .usage path condensed => usage t user i.format path condensed
    | .ambiguities => ambiguities t i.format
    | .explain code => explain i.format code

end Invocation

end CommandLines.Console
