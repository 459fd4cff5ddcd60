/-
What a line was matched with.

Matching starts at the root of a tree and starts again at another node after each
redirect.  A `Hop` is one such stretch: the nodes matched, the arguments read, and the
command or redirect it ends in.  A `Route` is the hops of a whole line, and a `Context`
is a route seen from one of its hops, which is what commands are given.

Commands and modifiers are names of the host's choosing; what they do is the host's
affair and is not needed to match a line.
-/
import CommandLines.Fault.Basic

namespace CommandLines

/-- The number of a node in its tree. -/
structure NodeId where
  index : Nat
deriving DecidableEq, Repr, Inhabited

/-- The node that every tree starts with. -/
def NodeId.root : NodeId := ⟨0⟩

/-- A value, and the span of the line it was read from. -/
structure Argument where
  span : Span
  value : Value

/-- A matched node, and the span of the line it took. -/
structure Match where
  node : NodeId
  span : Span
deriving DecidableEq, Repr

/-- A stretch of a line matched from one node of the tree on. -/
structure Hop (Source Command Modifier : Type) where
  source : Source
  /-- The node whose children the hop starts with. -/
  root : NodeId
  /-- The arguments by name, in the order in which the names first came up. -/
  arguments : List (String × Argument) := []
  /-- The matched nodes in order. -/
  nodes : List Match := []
  span : Span
  command? : Option Command := none
  /-- What the redirect that ends the hop does to the source. -/
  modifier? : Option Modifier := none
  /-- Whether the redirect that ends the hop forks. -/
  forks : Bool := false

variable {Source Command Modifier : Type}

namespace Hop

/-- A hop that has matched nothing yet. -/
def start (source : Source) (root : NodeId) (offset : Nat) : Hop Source Command Modifier :=
  { source, root, span := .point offset }

/-- The arguments with one more, or with one of that name replaced. -/
def putArgument (name : String) (a : Argument) : List (String × Argument) → List (String × Argument)
  | [] => [(name, a)]
  | (n, b) :: rest => if n = name then (n, a) :: rest else (n, b) :: putArgument name a rest

/-- The hop with an argument added or replaced. -/
def withArgument (h : Hop Source Command Modifier) (name : String) (a : Argument) :
    Hop Source Command Modifier :=
  { h with arguments := putArgument name a h.arguments }

/-- The argument of a name. -/
def argument? (h : Hop Source Command Modifier) (name : String) : Option Argument :=
  (h.arguments.find? (·.1 = name)).map (·.2)

end Hop

/-- The hops of a line; there is always a first one. -/
structure Route (Source Command Modifier : Type) where
  first : Hop Source Command Modifier
  later : List (Hop Source Command Modifier) := []

namespace Route

/-- The hops in order. -/
def hops (r : Route Source Command Modifier) : List (Hop Source Command Modifier) :=
  r.first :: r.later

/-- The hop that a line ends in. -/
def last (r : Route Source Command Modifier) : Hop Source Command Modifier :=
  r.later.getLastD r.first

/-- The route with its last hop changed. -/
def mapLast (f : Hop Source Command Modifier → Hop Source Command Modifier)
    (r : Route Source Command Modifier) : Route Source Command Modifier :=
  match r.later.getLast? with
  | none => { r with first := f r.first }
  | some h => { r with later := r.later.dropLast ++ [f h] }

end Route

/-- A hop of a line, with the line and the hops that follow. -/
structure Context (Source Command Modifier : Type) where
  line : String
  hop : Hop Source Command Modifier
  later : List (Hop Source Command Modifier) := []
  /-- Whether a command run in this context may queue lines. -/
  queues : Bool := false

namespace Context

/-- The source that runs the hop. -/
def source (c : Context Source Command Modifier) : Source := c.hop.source

/-- The context with another source. -/
def withSource (c : Context Source Command Modifier) (source : Source) :
    Context Source Command Modifier :=
  { c with hop := { c.hop with source } }

/-- The last hop from here on. -/
def last (c : Context Source Command Modifier) : Hop Source Command Modifier :=
  c.later.getLastD c.hop

/-- The argument of a name as a value of a type. -/
def argument (c : Context Source Command Modifier) (t : ValueType) (name : String) :
    Except Fault t.Carrier :=
  match c.hop.argument? name with
  | none => .error ⟨.noSuchArgument name, none⟩
  | some a =>
    match a.value.as? t with
    | some x => .ok x
    | none => .error ⟨.argumentType name t a.value.type, none⟩

end Context

/-- The route as it is seen from its first hop. -/
def Route.context (r : Route Source Command Modifier) (line : String) :
    Context Source Command Modifier :=
  { line, hop := r.first, later := r.later }

end CommandLines
