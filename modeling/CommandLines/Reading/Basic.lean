/-
Reading a line against a tree.

From a node and a cursor, every relevant child that the source may use is tried in turn.
A child that matches is followed, past one space, into its own children, or into the
target of its redirect.  A child that redirects settles the matter at once.  Of the
others the reading that serves best is kept: one that takes the whole line before one
that does not, then one without faults, then the one tried first.

Going on takes at least the space, so a bound of one step for each character ahead, and
one more, is never met.

Reading looks at the nodes only, and not at how they came to be, so any arena can be read.
A tree is read as the arena that it is.
-/
import CommandLines.Tree.Matching

namespace CommandLines

variable {Source Command Modifier : Type}

/-- What came of a line: how far it was matched and with what, and why nothing that was tried at
that point went further. -/
structure Reading (Source Command Modifier : Type) where
  route : Route Source Command Modifier
  /-- Where the matching stopped. -/
  cursor : Cursor
  /-- The children tried there, with what was wrong with each. -/
  faults : List (NodeId × Fault) := []

namespace Reading

/-- How badly a reading serves: worst is a part of the line that is left, then faults. -/
def badness (r : Reading Source Command Modifier) : Nat :=
  (if r.cursor.atEnd then 0 else 2) + (if r.faults.isEmpty then 0 else 1)

/-- The first of the readings that serve best. -/
def best (first : Reading Source Command Modifier)
    (others : List (Reading Source Command Modifier)) : Reading Source Command Modifier :=
  others.foldl (fun b r => if r.badness < b.badness then r else b) first

/-- Whether the whole line was matched and ends in a command. -/
def isComplete (r : Reading Source Command Modifier) : Bool :=
  r.cursor.atEnd && r.route.last.command?.isSome

/-- What is wrong with a line of which a part is left.  If one child only was tried, it says so
itself; otherwise the first hop tells whether a command is known at all. -/
def syntaxFault? (r : Reading Source Command Modifier) : Option Fault :=
  if r.cursor.atEnd then none
  else
    match r.faults with
    | [(_, f)] => some f
    | _ =>
      some (r.cursor.fault
        (if r.route.first.span.isEmpty then .unknownCommand else .unknownArgument))

/-- What running the line would report before any command is run: a part of the line is left, or the
line ends where nothing can be run. -/
def fault? (r : Reading Source Command Modifier) : Option Fault :=
  r.syntaxFault?.or (if r.isComplete then none else some (r.cursor.fault .unknownCommand))

end Reading

/-- What came of trying a child. -/
inductive Trial (Source Command Modifier : Type) where
  /-- The child does not match. -/
  | refused (f : Fault)
  /-- The child matches, and this is how far it leads. -/
  | fits (r : Reading Source Command Modifier)
  /-- The child matches and redirects, and nothing else is tried. -/
  | settles (r : Reading Source Command Modifier)

/-- Try children in turn until one settles the matter.  Otherwise there are the readings of those
that match, and the faults of those that do not. -/
def tryEach (attempt : NodeId → Trial Source Command Modifier) :
    List NodeId →
    Except (Reading Source Command Modifier)
      (List (Reading Source Command Modifier) × List (NodeId × Fault))
  | [] => .ok ([], [])
  | id :: ids =>
    match attempt id with
    | .settles r => .error r
    | .refused f => (tryEach attempt ids).map fun (rs, fs) => (rs, (id, f) :: fs)
    | .fits r => (tryEach attempt ids).map fun (rs, fs) => (r :: rs, fs)

namespace Arena

/-- Try a child at a cursor; `further` reads the rest of the line from a node on. -/
def tryChild (a : Arena Source Command Modifier)
    (further : NodeId → Cursor → Hop Source Command Modifier → Reading Source Command Modifier)
    (c : Cursor) (hop : Hop Source Command Modifier) (id : NodeId) :
    Trial Source Command Modifier :=
  let n := a.node id
  match n.takeWhole id c hop with
  | .error f => .refused f
  | .ok (after, hop) =>
    match n.redirect? with
    | some redirect =>
      if after.has 1 then
        let start := after.skip
        let r := further redirect.target start (.start hop.source redirect.target start.offset)
        .settles { r with route := { first := hop, later := r.route.hops } }
      else .fits { route := { first := hop }, cursor := after }
    | none =>
      -- A single space at the end of the line is left over, so that it can be completed.
      if after.has 2 then .fits (further id after.skip hop)
      else .fits { route := { first := hop }, cursor := after }

/-- One level of reading: the children of a node are tried, and `further` reads on after those that
match. -/
def level (a : Arena Source Command Modifier)
    (further : NodeId → Cursor → Hop Source Command Modifier → Reading Source Command Modifier)
    (id : NodeId) (c : Cursor) (hop : Hop Source Command Modifier) :
    Reading Source Command Modifier :=
  match tryEach (a.tryChild further c hop) (a.usable hop.source id c) with
  | .error settled => settled
  | .ok ([], faults) => { route := { first := hop }, cursor := c, faults }
  | .ok (r :: rs, _) => Reading.best r rs

/-- Read on from the children of a node, at most `steps` nodes deep. -/
def readFrom (a : Arena Source Command Modifier) :
    (steps : Nat) → NodeId → Cursor → Hop Source Command Modifier → Reading Source Command Modifier
  | 0, _, c, hop => { route := { first := hop }, cursor := c }
  | steps + 1, id, c, hop => a.level (readFrom a steps) id c hop

/-! ### Defaults -/

/-- The first child of a node that the source may use and that has a default. -/
def defaultChild? (a : Arena Source Command Modifier) (id : NodeId) (source : Source) :
    Option NodeId :=
  (a.node id).children.find? fun c => (a.node c).default?.isSome && (a.node c).allows source

/-- The hop with a default taken in the place of an argument at the end of the line. -/
def takeDefault (a : Arena Source Command Modifier) (id : NodeId) (stop : Nat)
    (hop : Hop Source Command Modifier) : Hop Source Command Modifier :=
  let n := a.node id
  let hop := match n.label?, n.default? with
    | some (.argument name _ _), some value => hop.withArgument name ⟨.point stop, value⟩
    | _, _ => hop
  { hop.withNode id n (.point stop) with command? := n.command? }

/-- Take defaults below a node, at most `steps` of them, until one has a command. -/
def takeDefaults (a : Arena Source Command Modifier) (stop : Nat) :
    (steps : Nat) → NodeId → Hop Source Command Modifier → Hop Source Command Modifier
  | 0, _, hop => hop
  | steps + 1, id, hop =>
    match a.defaultChild? id hop.source with
    | none => hop
    | some child =>
      let hop := a.takeDefault child stop hop
      if hop.command?.isSome then hop else takeDefaults a stop steps child hop

/-- The last hop of a line that is matched to its end, with defaults where it stops short of a
command.  In a tree children have greater numbers than their parents, so there are no more defaults
in a row than there are nodes. -/
def fillDefaults (a : Arena Source Command Modifier) (stop : Nat)
    (hop : Hop Source Command Modifier) : Hop Source Command Modifier :=
  if hop.command?.isSome then hop
  else
    match hop.nodes.getLast? with
    | none => hop
    | some last => a.takeDefaults stop a.size last.node hop

/-! ### Whole lines -/

/-- Read a line from a cursor on. -/
def readAt (a : Arena Source Command Modifier) (c : Cursor) (source : Source) :
    Reading Source Command Modifier :=
  let r := a.readFrom (c.ahead.length + 1) .root c (.start source .root c.offset)
  if r.cursor.atEnd then { r with route := r.route.mapLast (a.fillDefaults r.cursor.length) } else r

/-- Read a line. -/
def read (a : Arena Source Command Modifier) (line : String) (source : Source) :
    Reading Source Command Modifier :=
  a.readAt (.ofLine line) source

end Arena

end CommandLines
