/-
Traces: what a reading matched, told in names rather than numbers.
-/
import CommandLines.Json.Writer
import CommandLines.Reading.Basic

namespace CommandLines

/-- A matched node in a trace. -/
structure TracedNode where
  name : String
  isArgument : Bool
  span : Span
  /-- The text that the node took; a default took none. -/
  text : String
deriving DecidableEq, Repr

/-- A hop in a trace. -/
structure TracedHop where
  /-- The path of the node the hop started from. -/
  root : List String
  span : Span
  nodes : List TracedNode
  /-- Whether the hop ends in a command. -/
  executable : Bool
deriving DecidableEq, Repr

/-- What was matched, where it stopped, and why. -/
structure Trace where
  line : String
  hops : List TracedHop
  remaining : String
  complete : Bool
  /-- The paths of the children that were refused, with what was wrong. -/
  faults : List (List String × Diagnostic)
deriving DecidableEq, Repr

variable {Source Command Modifier : Type}

/-- A match in names. -/
def Match.traced (m : Match) (t : Tree Source Command Modifier) (line : String) : TracedNode where
  name := (t.node m.node).name
  isArgument := (t.node m.node).isArgument
  span := m.span
  text := m.span.text line

/-- A hop in names. -/
def Hop.traced (h : Hop Source Command Modifier) (t : Tree Source Command Modifier)
    (line : String) : TracedHop where
  root := t.path h.root
  span := h.span
  nodes := h.nodes.map (·.traced t line)
  executable := h.command?.isSome

/-- A reading in names. -/
def Reading.trace (r : Reading Source Command Modifier) (t : Tree Source Command Modifier) :
    Trace where
  line := r.cursor.line
  hops := r.route.hops.map (·.traced t r.cursor.line)
  remaining := r.cursor.rest
  complete := r.isComplete
  faults := r.faults.map fun (id, f) => (t.path id, f.toDiagnostic)

/-- A matched node in JSON. -/
def TracedNode.toJson (n : TracedNode) : Json :=
  .object [("name", .string n.name),
    ("kind", .string (if n.isArgument then "argument" else "literal")),
    ("range", n.span.toJson), ("text", .string n.text)]

/-- A hop in JSON. -/
def TracedHop.toJson (h : TracedHop) : Json :=
  .object [("root", .ofStrings h.root), ("range", h.span.toJson),
    ("nodes", .array (h.nodes.map TracedNode.toJson)), ("executable", .bool h.executable)]

/-- A trace in JSON. -/
def Trace.toJson (t : Trace) : Json :=
  .object [("input", .string t.line), ("hops", .array (t.hops.map TracedHop.toJson)),
    ("remaining", .string t.remaining), ("complete", .bool t.complete),
    ("errors", .array (t.faults.map fun (path, d) =>
      .object [("node", .ofStrings path), ("diagnostic", d.toJson)]))]

end CommandLines
