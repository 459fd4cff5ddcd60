/-
Matching single nodes.

At a cursor only some children of a node are worth a try: if the next word, up to a
space or the end, is exactly the word of a literal child, that child alone, and else
every argument child.  A node that is tried takes its part of the line and must be
followed by a space or the end.
-/
import CommandLines.Tree.Basic

namespace CommandLines

variable {Source Command Modifier : Type}

namespace Cursor

/-- The place after a word, when the word stands ahead and a space or the end follows it. -/
def afterWord? (word : String) (c : Cursor) : Option Cursor :=
  if word.toList.isPrefixOf c.ahead then
    let after := c.advance word.toList (c.ahead.drop word.toList.length)
    if after.peek.all (· == separator) then some after else none
  else none

/-- The text ahead up to the next space. -/
def wordAhead (c : Cursor) : String := String.ofList (c.ahead.takeWhile (· != separator))

/-- Whether a space or the end is ahead. -/
def atSeparator (c : Cursor) : Bool := c.peek.all (· == separator)

end Cursor

namespace Hop

/-- The hop with a node matched: it reaches as far as the node does, and ends in the node's redirect
if the node has one. -/
def withNode (h : Hop Source Command Modifier) (id : NodeId) (n : Node Source Command Modifier)
    (span : Span) : Hop Source Command Modifier :=
  { h with
    nodes := h.nodes ++ [⟨id, span⟩]
    span := h.span.hull span
    modifier? := n.redirect?.bind Redirect.modifier?
    forks := (n.redirect?.map Redirect.forks).getD false }

end Hop

namespace Node

/-- Match the node at a cursor.  The result is the cursor and the hop after the match. -/
def take (n : Node Source Command Modifier) (id : NodeId) (c : Cursor)
    (hop : Hop Source Command Modifier) :
    Except Fault (Cursor × Hop Source Command Modifier) :=
  match n.label? with
  | none => .ok (c, hop)
  | some (.literal word) =>
    match c.afterWord? word with
    | some after => .ok (after, hop.withNode id n ⟨c.offset, after.offset⟩)
    | none => .error (c.fault (.expectedLiteral word))
  | some (.argument name type _) =>
    match type.readValue c with
    | (.error f, _) => .error f
    | (.ok value, after) =>
      let span : Span := ⟨c.offset, after.offset⟩
      .ok (after, (hop.withArgument name ⟨span, value⟩).withNode id n span)

/-- Match the node at a cursor and see that a space or the end follows.  The hop takes over the
node's command, or that it has none. -/
def takeWhole (n : Node Source Command Modifier) (id : NodeId) (c : Cursor)
    (hop : Hop Source Command Modifier) :
    Except Fault (Cursor × Hop Source Command Modifier) :=
  match n.take id c hop with
  | .error f => .error f
  | .ok (after, hop) =>
    if after.atSeparator then .ok (after, { hop with command? := n.command? })
    else .error (after.fault .expectedSeparator)

/-- Whether a text by itself would match the node. -/
def accepts (n : Node Source Command Modifier) (text : String) : Bool :=
  let c := Cursor.ofLine text
  match n.label? with
  | none => false
  | some (.literal word) => (c.afterWord? word).isSome
  | some (.argument _ type _) =>
    match type.readValue c with
    | (.error _, _) => false
    | (.ok _, after) => after.atSeparator

/-- The completions that the node proposes. -/
def complete (n : Node Source Command Modifier) (context : Context Source Command Modifier)
    (b : Completer) : Except Fault Completions :=
  match n.label? with
  | none => .ok .none
  | some (.literal word) =>
    if Text.startsWith (Text.lower word) b.typedLower then .ok (b.suggest word).finish
    else .ok .none
  | some (.argument _ type none) => type.complete b
  | some (.argument _ _ (some provider)) => provider context b

end Node

namespace Arena

/-- The children of a node that are worth a try at a cursor. -/
def relevant (a : Arena Source Command Modifier) (id : NodeId) (c : Cursor) : List NodeId :=
  let n := a.node id
  if n.literals.isEmpty then n.arguments
  else
    match n.literals.get? c.wordAhead with
    | some literal => [literal]
    | none => n.arguments

/-- The children of a node that are tried at a cursor: those worth a try that the source may use. -/
def usable (a : Arena Source Command Modifier) (source : Source) (id : NodeId) (c : Cursor) :
    List NodeId :=
  (a.relevant id c).filter fun child => (a.node child).allows source

end Arena

end CommandLines
