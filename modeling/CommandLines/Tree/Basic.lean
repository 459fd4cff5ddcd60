/-
Command trees.

A tree is an arena that has been built by adding drafts: there is no other way to come by one.
-/
import CommandLines.Tree.Arena

namespace CommandLines

/-- A tree of nodes that have been added one after another, of which the first is the root. -/
structure Tree (Source Command Modifier : Type) extends Arena Source Command Modifier where
  built : toArena.Built

variable {Source Command Modifier : Type}

namespace Tree

/-- The tree that is only a root. -/
def empty : Tree Source Command Modifier := ⟨.empty, .empty⟩

instance : Inhabited (Tree Source Command Modifier) := ⟨empty⟩

/-- The numbers of all nodes in order. -/
def ids (t : Tree Source Command Modifier) : List NodeId := (List.range t.size).map NodeId.mk

/-- The node at the end of a path of names from the root; a literal goes before an argument of the
same name. -/
def find? (t : Tree Source Command Modifier) (path : List String) : Option NodeId :=
  path.foldlM
    (fun id name => (t.child? id (.literal name)).orElse fun _ => t.child? id (.argument name))
    .root

/-- The names from below the root down to a node, in front of those given; `steps` bounds the way
up. -/
def pathAbove (t : Tree Source Command Modifier) :
    (steps : Nat) → NodeId → List String → List String
  | 0, _, path => path
  | steps + 1, id, path =>
    match (t.node id).parent? with
    | none => path
    | some parent => pathAbove t steps parent ((t.node id).name :: path)

/-- The names from below the root down to a node. -/
def path (t : Tree Source Command Modifier) (id : NodeId) : List String := t.pathAbove t.size id []

end Tree

end CommandLines
