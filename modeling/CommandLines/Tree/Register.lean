/-
Adding drafts to a tree.
-/
import CommandLines.Tree.Basic

namespace CommandLines

variable {Source Command Modifier : Type}

namespace Tree

/-- Add a draft below a node.  The answer has the number of the draft's node, new or not. -/
def add (t : Tree Source Command Modifier) (parent : NodeId) (d : Draft Source Command Modifier) :
    Except MissingNode (Tree Source Command Modifier × NodeId) :=
  match h : t.toArena.add parent d with
  | .ok (a, id) => .ok (⟨a, t.built.add h⟩, id)
  | .error e => .error e

/-- Add drafts below a node, one after another. -/
def addAll (t : Tree Source Command Modifier) (parent : NodeId) :
    List (Draft Source Command Modifier) → Except MissingNode (Tree Source Command Modifier)
  | [] => .ok t
  | d :: ds => do
    let (t, _) ← t.add parent d
    addAll t parent ds

/-- Add a draft below the root. -/
def register (t : Tree Source Command Modifier) (d : Draft Source Command Modifier) :
    Except MissingNode (Tree Source Command Modifier × NodeId) :=
  t.add .root d

end Tree

end CommandLines
