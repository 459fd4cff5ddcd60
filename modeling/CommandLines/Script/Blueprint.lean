/-
Blueprints: trees told by data.

A blueprint names the targets of its redirects by their paths, so it becomes a draft only
in view of a tree.
-/
import CommandLines.Script.Proposal
import CommandLines.Tree.Register

namespace CommandLines.Script

/-- What a described node matches. -/
inductive Slot where
  | literal (word : String)
  | argument (name : String) (type : ArgumentType)

/-- Where a described node redirects to. -/
structure Detour where
  path : List String
  modifier? : Option Modifier := none
  forks : Bool := false
deriving DecidableEq, Repr

/-- A description of a node and of all nodes below it. -/
structure Blueprint where
  slot : Slot
  requirement? : Option Requirement := none
  command? : Option Command := none
  hint? : Option Hint := none
  default? : Option Value := none
  children : List Blueprint := []
  detour? : Option Detour := none
  /-- Whether the redirect is set before there are children. -/
  detourFirst : Bool := false

instance : Inhabited Blueprint := ⟨{ slot := .literal "" }⟩

/-- Why a blueprint makes no draft. -/
inductive Flaw where
  /-- A step of the draft is refused. -/
  | refused (e : DraftError)
  /-- The tree has no node at a path. -/
  | noSuchPath (path : List String)
  /-- The draft cannot be added to the tree. -/
  | missing (node : Tree.MissingNode)
deriving DecidableEq, Repr

/-- A tree for a script. -/
abbrev Grammar : Type := Tree Actor Command Modifier

/-- A draft for a script. -/
abbrev Plan : Type := Draft Actor Command Modifier

/-- A step that goes on unless the draft refuses it. -/
def step (e : Except DraftError Plan) : Except Flaw Plan := e.mapError .refused

/-- Set the redirect of a draft. -/
def turn (t : Grammar) (d : Plan) : Option Detour → Except Flaw Plan
  | none => .ok d
  | some detour =>
    match t.find? detour.path with
    | none => .error (.noSuchPath detour.path)
    | some target => step (d.redirects ⟨target, detour.modifier?, detour.forks⟩)

/-- The draft of a described node alone. -/
def startDraft (slot : Slot) (requirement? : Option Requirement) (command? : Option Command)
    (hint? : Option Hint) (default? : Option Value) : Except Flaw Plan := do
  let d : Plan := match slot with
    | .literal word => .literal word
    | .argument name type => .argument name type
  let d := requirement?.elim d fun r => d.onlyFor r.allows
  let d := command?.elim d d.runs
  let d ← hint?.elim (.ok d) fun h => step (d.completes h.provider)
  default?.elim (.ok d) fun v => step (d.withDefault v)

mutual

/-- The draft that a blueprint makes in view of a tree. -/
def Blueprint.draft (t : Grammar) : Blueprint → Except Flaw Plan
  | ⟨slot, requirement?, command?, hint?, default?, children, detour?, detourFirst⟩ => do
    let d ← startDraft slot requirement? command? hint? default?
    let d ← if detourFirst then turn t d detour? else .ok d
    let d ← Blueprint.addTo t d children
    if detourFirst then .ok d else turn t d detour?

/-- A draft with the children that blueprints make. -/
def Blueprint.addTo (t : Grammar) (d : Plan) : List Blueprint → Except Flaw Plan
  | [] => .ok d
  | b :: bs => do
    let child ← b.draft t
    let d ← step (d.withChild child)
    Blueprint.addTo t d bs

end

/-- Add what a blueprint describes below the root. -/
def Blueprint.register (t : Grammar) (b : Blueprint) : Except Flaw (Grammar × Plan × NodeId) := do
  let d ← b.draft t
  let (t, id) ← (t.register d).mapError Flaw.missing
  return (t, d, id)

end CommandLines.Script
