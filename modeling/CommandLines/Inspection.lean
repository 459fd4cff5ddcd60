/-
Nodes and contexts told in full, for whoever debugs a tree.
-/
import CommandLines.Text.Escape
import CommandLines.Tree.Basic

namespace CommandLines.Inspection

/-- A record with its fields; `more` says that there are others that are not told. -/
def record (name : String) (fields : List (String × String)) (more : Bool) : String :=
  let told := fields.map fun f => f.1 ++ ": " ++ f.2
  name ++ " \x7b " ++ ", ".intercalate (told ++ if more then [".."] else []) ++ " \x7d"

/-- A list of things told. -/
def list (items : List String) : String := "[" ++ ", ".intercalate items ++ "]"

/-- A truth value. -/
def bool (b : Bool) : String := if b then "true" else "false"

/-- A thing that may be missing. -/
def option : Option String → String
  | none => "None"
  | some s => "Some(" ++ s ++ ")"

/-- The number of a node. -/
def nodeId (id : NodeId) : String := "NodeId(" ++ toString id.index ++ ")"

/-- A span. -/
def span (s : Span) : String :=
  record "StringRange" [("start", toString s.start), ("end", toString s.stop)] false

/-- A value, of which only the type is told. -/
def value (v : Value) : String :=
  record "ArgumentValue" [("type_name", Text.visible v.type.name)] true

/-- An argument by its name. -/
def argument (name : String) (a : Argument) : String :=
  "(" ++ Text.visible name ++ ", " ++
    record "ParsedArgument" [("range", span a.span), ("value", value a.value)] false ++ ")"

/-- A match. -/
def matched (m : Match) : String :=
  record "ParsedCommandNode" [("node", nodeId m.node), ("range", span m.span)] false

variable {Source Command Modifier : Type}

/-- A hop of a line, what follows it being told already. -/
def hop (line : String) (h : Hop Source Command Modifier) (child? : Option String) : String :=
  record "CommandContext"
    [("input", Text.visible line), ("range", span h.span), ("nodes", list (h.nodes.map matched)),
      ("arguments", list (h.arguments.map fun a => argument a.1 a.2)),
      ("executable", bool h.command?.isSome), ("forks", bool h.forks), ("child", option child?)]
    true

/-- A hop of a line with those that follow it. -/
def hops (line : String) (h : Hop Source Command Modifier) :
    List (Hop Source Command Modifier) → String
  | [] => hop line h none
  | next :: later => hop line h (some (hops line next later))

/-- A context. -/
def context (c : Context Source Command Modifier) : String := hops c.line c.hop c.later

/-- The word for what kind of node it is. -/
def kind (n : Node Source Command Modifier) : String :=
  if n.isLiteral then "literal" else if n.isArgument then "argument" else "root"

/-- A node. -/
def node (n : Node Source Command Modifier) : String :=
  record "CommandNode"
    [("kind", Text.visible (kind n)), ("name", Text.visible n.name),
      ("children", list (n.children.map nodeId)), ("executable", bool n.command?.isSome),
      ("redirect", option (n.redirect?.map fun r => nodeId r.target)),
      ("fork", bool ((n.redirect?.map Redirect.forks).getD false))]
    false

end CommandLines.Inspection
