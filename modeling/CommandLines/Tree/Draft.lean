/-
Drafts: descriptions of nodes that are yet to be added to a tree.

A draft is built up in steps, and some steps do not go together.  A node that redirects
has no children, so the one cannot be asked for after the other; and only an argument
has completions of its own or a default.
-/
import CommandLines.Tree.Node

namespace CommandLines

/-- A node with everything below it, on its own. -/
structure Draft (Source Command Modifier : Type) where
  label : Label Source Command Modifier
  children : List (Draft Source Command Modifier) := []
  command? : Option Command := none
  allows : Source → Bool := fun _ => true
  redirect? : Option (Redirect Modifier) := none
  default? : Option Value := none

/-- Why a step of a draft is refused. -/
inductive DraftError where
  /-- A node that redirects was to get a child. -/
  | childOfRedirect
  /-- A node with children was to redirect. -/
  | redirectOfParent
  /-- A literal was to get a provider. -/
  | providerOfLiteral (word : String)
  /-- A literal was to get a default. -/
  | defaultOfLiteral (word : String)
deriving DecidableEq, Repr

/-- What a refusal says. -/
def DraftError.message : DraftError → String
  | .childOfRedirect => "cannot add children to a redirected node"
  | .redirectOfParent => "cannot forward a node with children"
  | .providerOfLiteral word => "literal '" ++ word ++ "' cannot carry a suggestion provider"
  | .defaultOfLiteral word => "literal '" ++ word ++ "' cannot carry a default value"

variable {Source Command Modifier : Type}

namespace Draft

/-- A node that matches a word. -/
def literal (word : String) : Draft Source Command Modifier := { label := .literal word }

/-- A node that matches a value. -/
def argument (name : String) (type : ArgumentType) : Draft Source Command Modifier :=
  { label := .argument name type none }

/-- Let only some sources use the node. -/
def onlyFor (d : Draft Source Command Modifier) (allows : Source → Bool) :
    Draft Source Command Modifier :=
  { d with allows }

/-- Let a line end at the node and run a command. -/
def runs (d : Draft Source Command Modifier) (command : Command) : Draft Source Command Modifier :=
  { d with command? := some command }

/-- Add a child after the others. -/
def withChild (d child : Draft Source Command Modifier) :
    Except DraftError (Draft Source Command Modifier) :=
  if d.redirect?.isSome then .error .childOfRedirect
  else .ok { d with children := d.children ++ [child] }

/-- Let the line go on elsewhere. -/
def redirects (d : Draft Source Command Modifier) (redirect : Redirect Modifier) :
    Except DraftError (Draft Source Command Modifier) :=
  if d.children.isEmpty then .ok { d with redirect? := some redirect }
  else .error .redirectOfParent

/-- Let a provider propose the completions of an argument. -/
def completes (d : Draft Source Command Modifier) (provider : Provider Source Command Modifier) :
    Except DraftError (Draft Source Command Modifier) :=
  match d.label with
  | .literal word => .error (.providerOfLiteral word)
  | .argument name type _ => .ok { d with label := .argument name type (some provider) }

/-- Let a value stand in for an argument where the line ends. -/
def withDefault (d : Draft Source Command Modifier) (value : Value) :
    Except DraftError (Draft Source Command Modifier) :=
  match d.label with
  | .literal word => .error (.defaultOfLiteral word)
  | .argument _ _ _ => .ok { d with default? := some value }

/-- The draft as a node below another, still without children. -/
def node (d : Draft Source Command Modifier) (parent : NodeId) : Node Source Command Modifier where
  label? := some d.label
  parent? := some parent
  command? := d.command?
  allows := d.allows
  redirect? := d.redirect?
  default? := d.default?

end Draft

end CommandLines
