/-
Completing a line at an offset.

What can be completed are the children of one node: the one before the match that the
offset lies in, or, beyond all matches, the last one.  Every child that the source may
use proposes completions for the text between the start of that match and the offset, as
if the line ended there.
-/
import CommandLines.Reading.Basic

namespace CommandLines

/-- Whose children complete the line, and from which offset on. -/
structure CompletionPoint where
  parent : NodeId
  start : Nat
deriving DecidableEq, Repr

variable {Source Command Modifier : Type}

namespace Hop

/-- The node before the first of these matches that holds the offset, and where that match starts;
beyond them all it is the last one, and `start` stands for the place. -/
def pointAmong (offset start : Nat) : NodeId → List Match → CompletionPoint
  | parent, [] => ⟨parent, start⟩
  | parent, m :: ms =>
    if m.span.start ≤ offset && offset ≤ m.span.stop then ⟨parent, m.span.start⟩
    else pointAmong offset start m.node ms

/-- What completes a line at an offset, given a hop and those after it. -/
def completionPoint? (offset : Nat) (h : Hop Source Command Modifier) :
    List (Hop Source Command Modifier) → Option CompletionPoint
  | [] =>
    if offset < h.span.start then none
    else if h.span.stop < offset then
      match h.nodes.getLast? with
      | some m => some ⟨m.node, m.span.stop + 1⟩
      | none => some ⟨h.root, h.span.start⟩
    else some (pointAmong offset h.span.start h.root h.nodes)
  | next :: later =>
    if offset < h.span.start then none
    else if h.span.stop < offset then completionPoint? offset next later
    else some (pointAmong offset h.span.start h.root h.nodes)

end Hop

/-- What completes a line at an offset. -/
def Route.completionPoint? (r : Route Source Command Modifier) (offset : Nat) :
    Option CompletionPoint :=
  r.first.completionPoint? offset r.later

namespace Reading

/-- The completions that the children of a node propose, one set for each child that the source may
use; a child whose provider fails has none. -/
def proposals (r : Reading Source Command Modifier) (t : Tree Source Command Modifier)
    (parent : NodeId) (line : String) (start : Nat) : List Completions :=
  let context := r.route.context line
  (t.node parent).children.filterMap fun child =>
    let n := t.node child
    if n.allows context.source then (n.complete context (.ofLine line start)).toOption else none

/-- The completions of the line at an offset.  An offset past the end counts as the end, and one
inside a character as that character's start. -/
def completionsAt (r : Reading Source Command Modifier) (t : Tree Source Command Modifier)
    (offset : Nat) : Completions :=
  let whole := r.cursor.chars
  let before := (Text.cutAtMost whole offset).1
  let offset := Text.bytes before
  match r.route.completionPoint? offset with
  | none => .none
  | some point =>
    .merge (String.ofList whole)
      (r.proposals t point.parent (String.ofList before) (min point.start offset))

/-- The completions of the line at its end. -/
def completions (r : Reading Source Command Modifier) (t : Tree Source Command Modifier) :
    Completions :=
  r.completionsAt t r.cursor.length

end Reading

end CommandLines
