/-
The nodes of command trees.

Nodes are numbered in the order in which they came to be, and refer to each other by
number.  So a redirect may lead back to the root or to any node above, and a tree may
describe lines without end.  The children of a node are told apart by their keys: a
literal by its word and an argument by its name.  A node holds its children four times
over: in a list, in an index by key, in an index of the literals by word, and in a list of
the arguments.
-/
import CommandLines.ArgumentType
import CommandLines.Tree.Index

namespace CommandLines

/-- What tells the children of a node apart. -/
inductive Key where
  | literal (word : String)
  | argument (name : String)
deriving DecidableEq, Repr

/-- Literals come before arguments, and each kind goes by name. -/
def Key.order : Key → Key → Ordering
  | .literal a, .literal b => compare a b
  | .literal _, .argument _ => .lt
  | .argument _, .literal _ => .gt
  | .argument a, .argument b => compare a b

/-- The completions that a host proposes for an argument. -/
abbrev Provider (Source Command Modifier : Type) : Type :=
  Context Source Command Modifier → Completer → Except Fault Completions

/-- What a node matches. -/
inductive Label (Source Command Modifier : Type) where
  /-- A fixed word. -/
  | literal (word : String)
  /-- A value; a provider takes the place of the completions of its type. -/
  | argument (name : String) (type : ArgumentType)
      (provider? : Option (Provider Source Command Modifier))

variable {Source Command Modifier : Type}

namespace Label

/-- The word or the name. -/
def name : Label Source Command Modifier → String
  | .literal word => word
  | .argument name _ _ => name

/-- What tells the node from its siblings. -/
def key : Label Source Command Modifier → Key
  | .literal word => .literal word
  | .argument name _ _ => .argument name

/-- The node in a description of usage. -/
def usage : Label Source Command Modifier → String
  | .literal word => word
  | .argument name _ _ => "<" ++ name ++ ">"

/-- Whether the node matches a fixed word. -/
def isLiteral : Label Source Command Modifier → Bool
  | .literal _ => true
  | .argument _ _ _ => false

/-- Texts that the node takes. -/
def examples : Label Source Command Modifier → List String
  | .literal word => [word]
  | .argument _ type _ => type.examples

end Label

/-- Where a line goes on after a node. -/
structure Redirect (Modifier : Type) where
  target : NodeId
  /-- What becomes of the source; without one it stays. -/
  modifier? : Option Modifier := none
  /-- Whether each source goes on for itself, its failures counted but not passed on. -/
  forks : Bool := false

/-- A node of a tree. -/
structure Node (Source Command Modifier : Type) where
  /-- What the node matches; only the root matches nothing. -/
  label? : Option (Label Source Command Modifier)
  parent? : Option NodeId := none
  /-- The children in the order in which they came to be. -/
  children : List NodeId := []
  /-- The children by key. -/
  index : Index Key := {}
  /-- The literals among the children by word. -/
  literals : Index String := {}
  /-- The arguments among the children in the order in which they came to be. -/
  arguments : List NodeId := []
  command? : Option Command := none
  /-- Which sources may use the node. -/
  allows : Source → Bool := fun _ => true
  redirect? : Option (Redirect Modifier) := none
  /-- The value that stands in for an argument where the line ends. -/
  default? : Option Value := none

namespace Node

/-- A node that matches nothing. -/
def bare : Node Source Command Modifier := { label? := none }

instance : Inhabited (Node Source Command Modifier) := ⟨bare⟩

/-- The word or the name; empty for the root. -/
def name (n : Node Source Command Modifier) : String := (n.label?.map Label.name).getD ""

/-- What tells the node from its siblings. -/
def key? (n : Node Source Command Modifier) : Option Key := n.label?.map Label.key

/-- The node in a description of usage. -/
def usage (n : Node Source Command Modifier) : String := (n.label?.map Label.usage).getD ""

/-- Whether the node matches a fixed word. -/
def isLiteral (n : Node Source Command Modifier) : Bool := (n.label?.map Label.isLiteral).getD false

/-- Whether the node matches a value. -/
def isArgument (n : Node Source Command Modifier) : Bool :=
  (n.label?.map fun l => !l.isLiteral).getD false

/-- Texts that the node takes. -/
def examples (n : Node Source Command Modifier) : List String :=
  (n.label?.map Label.examples).getD []

/-- Literals come first, then the root, then arguments; nodes of one kind go by name. -/
def order (a b : Node Source Command Modifier) : Ordering :=
  match a.isLiteral, b.isLiteral with
  | true, false => .lt
  | false, true => .gt
  | _, _ =>
    match a.key?, b.key? with
    | none, none => .eq
    | none, some _ => .lt
    | some _, none => .gt
    | some k, some l => k.order l

/-- The child with a key. -/
def child? (n : Node Source Command Modifier) (key : Key) : Option NodeId := n.index.get? key

/-- The node with one more child, which is put wherever children are kept. -/
def adopt (n : Node Source Command Modifier) (label : Label Source Command Modifier)
    (id : NodeId) : Node Source Command Modifier :=
  { n with
    children := n.children ++ [id]
    index := n.index.insert label.key id
    literals := if label.isLiteral then n.literals.insert label.name id else n.literals
    arguments := if label.isLiteral then n.arguments else n.arguments ++ [id] }

end Node

end CommandLines
