/-
Nodes in one place, and how drafts are added to them.

A draft whose key a child of the parent already has does not make a new node: its
command, if it has one, takes the place of that child's, and its children are added
below it in turn.  Everything else about the node stays as it was first described.
-/
import CommandLines.Tree.Draft

namespace CommandLines

/-- Why a draft cannot be added: it speaks of a node that the tree does not have. -/
structure Tree.MissingNode where
  id : NodeId
deriving DecidableEq, Repr

/-- Nodes by their numbers; the first is the root. -/
structure Arena (Source Command Modifier : Type) where
  nodes : Array (Node Source Command Modifier)

variable {Source Command Modifier : Type}

namespace Arena

/-- Only a root. -/
def empty : Arena Source Command Modifier := ⟨#[Node.bare]⟩

/-- How many nodes there are, the root among them. -/
def size (a : Arena Source Command Modifier) : Nat := a.nodes.size

/-- Whether the number is that of a node. -/
def contains (a : Arena Source Command Modifier) (id : NodeId) : Bool := decide (id.index < a.size)

/-- The node of a number; a number that is none stands for a bare node without children. -/
def node (a : Arena Source Command Modifier) (id : NodeId) : Node Source Command Modifier :=
  a.nodes.getD id.index Node.bare

/-- The child of a node with a key. -/
def child? (a : Arena Source Command Modifier) (id : NodeId) (key : Key) : Option NodeId :=
  (a.node id).child? key

/-- The arena with a node of its own for a draft, below a parent, and the number it gets. -/
def push (a : Arena Source Command Modifier) (parent : NodeId)
    (d : Draft Source Command Modifier) : Arena Source Command Modifier × NodeId :=
  let id : NodeId := ⟨a.size⟩
  let nodes := a.nodes.push (d.node parent)
  (⟨nodes.modify parent.index fun p => p.adopt d.label id⟩, id)

/-- The arena with the command of a node replaced, if there is another one. -/
def putCommand (a : Arena Source Command Modifier) (id : NodeId) (command? : Option Command) :
    Arena Source Command Modifier :=
  match command? with
  | none => a
  | some c => ⟨a.nodes.modify id.index fun n => { n with command? := some c }⟩

/-- Whether there is a node of a number, if one is asked for. -/
def require (a : Arena Source Command Modifier) : Option NodeId → Except Tree.MissingNode Unit
  | none => .ok ()
  | some id => if a.contains id then .ok () else .error ⟨id⟩

mutual

/-- Add a draft below a node.  The answer has the number of the draft's node, new or not. -/
def add (a : Arena Source Command Modifier) (parent : NodeId) :
    Draft Source Command Modifier →
    Except Tree.MissingNode (Arena Source Command Modifier × NodeId)
  | ⟨label, children, command?, allows, redirect?, default?⟩ => do
    a.require (redirect?.map Redirect.target)
    a.require (some parent)
    match a.child? parent label.key with
    | some id =>
      let a ← addAll (a.putCommand id command?) id children
      return (a, id)
    | none =>
      let (a, id) := a.push parent { label, command?, allows, redirect?, default? }
      let a ← addAll a id children
      return (a, id)

/-- Add drafts below a node, one after another. -/
def addAll (a : Arena Source Command Modifier) (parent : NodeId) :
    List (Draft Source Command Modifier) →
    Except Tree.MissingNode (Arena Source Command Modifier)
  | [] => .ok a
  | d :: ds => do
    let (a, _) ← add a parent d
    addAll a parent ds

end

/-- The arena has come of adding drafts to a root, below any nodes that were there. -/
inductive Built : Arena Source Command Modifier → Prop where
  /-- At first there is only the root. -/
  | empty : Built .empty
  /-- A draft has been added. -/
  | add {a b : Arena Source Command Modifier} {parent id : NodeId}
      {d : Draft Source Command Modifier} (before : Built a) (h : a.add parent d = .ok (b, id)) :
      Built b

end Arena

end CommandLines
