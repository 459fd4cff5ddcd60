/-
What scripted arguments propose as completions.
-/
import CommandLines.Script.Host
import CommandLines.Tree.Basic

namespace CommandLines.Script

/-- A step of collecting completions. -/
inductive Proposal where
  /-- A text, which may have a tooltip. -/
  | text (s : String) (tooltip? : Option String := none)
  /-- A number. -/
  | number (n : Int32)
  /-- What steps collect for the same line from another offset on. -/
  | movedTo (start : Nat) (steps : List Proposal)
  /-- What steps collect from the same offset on. -/
  | restart (steps : List Proposal)
deriving Inhabited

mutual

/-- Carry out a step. -/
def Proposal.collect (b : Completer) : Proposal → Completer
  | .text s tooltip? => b.suggest s tooltip?
  | .number n => b.suggestNumber n
  | .movedTo start steps => b.add (Proposal.collectAll (b.movedTo start) steps)
  | .restart steps => b.add (Proposal.collectAll b.restart steps)

/-- Carry out steps in order. -/
def Proposal.collectAll (b : Completer) : List Proposal → Completer
  | [] => b
  | p :: ps => Proposal.collectAll (p.collect b) ps

end

/-- How a scripted argument proposes completions. -/
inductive Hint where
  /-- Those of the texts that start with what is typed. -/
  | matching (texts : List String)
  /-- Whatever steps collect. -/
  | collected (steps : List Proposal)
  /-- What there is to know: each argument with its text, what is typed, and the line. -/
  | context
  /-- None; it fails. -/
  | fail

/-- The texts that tell what a provider can know. -/
def knowledge (c : Scene) (b : Completer) : List String :=
  c.hop.arguments.map (fun a => a.1 ++ "=" ++ a.2.span.text c.line) ++
    ["r=" ++ b.typed, "i=" ++ c.line, "l=" ++ b.typedLower]

/-- The provider of a hint. -/
def Hint.provider : Hint → Provider Actor Command Modifier
  | .matching texts => fun _ b => .ok (b.suggestMatching texts).finish
  | .collected steps => fun _ b => .ok (Proposal.collectAll b steps).finish
  | .context => fun c b => .ok ((knowledge c b).foldl (fun b s => b.suggest s) b).finish
  | .fail => fun _ _ => .error (.custom "offline")

end CommandLines.Script
