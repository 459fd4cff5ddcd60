/-
Ambiguities: siblings that take each other's texts.
-/
import CommandLines.Tree.Matching

namespace CommandLines

/-- A child of which some examples would match a sibling too. -/
structure Ambiguity where
  parent : NodeId
  child : NodeId
  sibling : NodeId
  /-- The examples in order, each once. -/
  examples : List String
deriving DecidableEq, Repr

variable {Source Command Modifier : Type}

namespace Tree

/-- The examples of one node that another one accepts, in order and each once. -/
def sharedExamples (t : Tree Source Command Modifier) (child sibling : NodeId) : List String :=
  (((t.node child).examples.filter (t.node sibling).accepts).eraseDups).mergeSort
    fun a b => decide (a ≤ b)

/-- The ambiguities of a child with its siblings. -/
def ambiguitiesOf (t : Tree Source Command Modifier) (parent child : NodeId) : List Ambiguity :=
  (t.node parent).children.filterMap fun sibling =>
    let examples := t.sharedExamples child sibling
    if sibling = child || examples.isEmpty then none else some ⟨parent, child, sibling, examples⟩

/-- The ambiguities below a node, at most `steps` deep. -/
def ambiguitiesBelow (t : Tree Source Command Modifier) : (steps : Nat) → NodeId → List Ambiguity
  | 0, _ => []
  | steps + 1, parent =>
    (t.node parent).children.flatMap fun child =>
      t.ambiguitiesOf parent child ++ ambiguitiesBelow t steps child

/-- All ambiguities of the tree.  Children have greater numbers than their parents, so no way down
is longer than the tree has nodes. -/
def ambiguities (t : Tree Source Command Modifier) : List Ambiguity :=
  t.ambiguitiesBelow t.size .root

end Tree

end CommandLines
