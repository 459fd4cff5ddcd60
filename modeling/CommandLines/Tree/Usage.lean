/-
Usage: what can be typed, in words.

There are two descriptions.  The full one has a line for every executable path below a
node.  The condensed one has a line for each child, in which `[x]` is a part that may be
left off because the node before it is executable, `(x|y)` is a choice that must be
made, and a lone way on is written out.

In a tree children have greater numbers than their parents, so the number of nodes bounds
how deep either description goes.
-/
import CommandLines.Tree.Basic

namespace CommandLines

variable {Source Command Modifier : Type}

/-- Two parts of a line with a space in between, or the second alone if the first is empty. -/
def joinUsage (before after : String) : String :=
  if before.isEmpty then after else before ++ " " ++ after

/-- A part in brackets when it is optional. -/
def bracketed (optional : Bool) (s : String) : String := if optional then "[" ++ s ++ "]" else s

namespace Arena

/-- The text of a redirect: dots for the root, an arrow and the target otherwise. -/
def redirectUsage (a : Arena Source Command Modifier) (target : NodeId) : String :=
  if target = .root then "..." else "-> " ++ (a.node target).usage

/-- The lines of the executable paths from a node on, each after `before`; `steps` bounds the depth.
With a source, subtrees that it may not use are left out. -/
def pathsBelow (a : Arena Source Command Modifier) (source? : Option Source) :
    (steps : Nat) → NodeId → (before : String) → List String
  | 0, _, _ => []
  | steps + 1, id, before =>
    let n := a.node id
    if source?.all n.allows then
      let here := if n.command?.isSome then [before] else []
      match n.redirect? with
      | some r =>
        let start := if before.isEmpty then n.usage else before
        here ++ [start ++ " " ++ a.redirectUsage r.target]
      | none =>
        here ++ n.children.flatMap fun child =>
          pathsBelow a source? steps child (joinUsage before (a.node child).usage)
    else []

/-- Every executable path below a node, told from the node on.  A path that redirects ends in where
it leads.  With a source, subtrees that it may not use are left out. -/
def allUsage (a : Arena Source Command Modifier) (id : NodeId) (source? : Option Source) :
    List String :=
  a.pathsBelow source? a.size id ""

/-- The children of a node that the source may use. -/
def usableBelow (a : Arena Source Command Modifier) (source : Source) (id : NodeId) :
    List NodeId :=
  (a.node id).children.filter fun child => (a.node child).allows source

/-- The condensed usage from a node on, if the source may use it.  `optional` says that the node may
be left off, `only` that nothing after it is told, and `steps` bounds the depth. -/
def usageFrom (a : Arena Source Command Modifier) (source : Source) :
    (steps : Nat) → (optional only : Bool) → NodeId → Option String
  | 0, _, _, _ => none
  | steps + 1, optional, only, id =>
    let n := a.node id
    if !n.allows source then none
    else
      let this := bracketed optional n.usage
      if only then some this
      else
        match n.redirect? with
        | some r => some (this ++ " " ++ a.redirectUsage r.target)
        | none =>
          let ends := n.command?.isSome
          match a.usableBelow source id with
          | [] => some this
          | [child] =>
            match usageFrom a source steps ends ends child with
            | some usage => some (this ++ " " ++ usage)
            | none => some this
          | children =>
            match (children.filterMap (usageFrom a source steps ends true)).eraseDups with
            | [] => some this
            | [usage] => some (this ++ " " ++ bracketed ends usage)
            | _ =>
              let choice := "|".intercalate (children.map fun c => (a.node c).usage)
              some (this ++ " " ++ (if ends then "[" ++ choice ++ "]" else "(" ++ choice ++ ")"))

/-- The condensed usage of each child that the source may use, in the order of the children. -/
def usage (a : Arena Source Command Modifier) (id : NodeId) (source : Source) :
    List (NodeId × String) :=
  let n := a.node id
  n.children.filterMap fun child =>
    (a.usageFrom source a.size n.command?.isSome false child).map (child, ·)

end Arena

end CommandLines
