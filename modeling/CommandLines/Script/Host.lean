/-
The host of a script.

It keeps what commands note and how attempts end, the latest first.
-/
import CommandLines.Execution.Host
import CommandLines.Script.Basic
import CommandLines.Text.Replace

namespace CommandLines.Script

/-- The context of a scripted command. -/
abbrev Scene : Type := Context Actor Command Modifier

/-- Something that a command has noted. -/
inductive Note where
  | text (s : String)
  | context (c : Scene)

/-- How an attempt ended. -/
structure Attempt where
  context : Scene
  success : Bool
  result : Int32

/-- The records of a script. -/
structure Record where
  notes : List Note := []
  attempts : List Attempt := []

/-- The records with one more note. -/
def Record.add (r : Record) (n : Note) : Record := { r with notes := n :: r.notes }

/-- The text with the value put in for a name in braces. -/
def putIn (name value text : String) : String :=
  Text.replace ("\x7b" ++ name ++ "\x7d") value text

/-- The text made from a template: the actor's name is put in for `source`, and then each argument
for its own name, one after another. -/
def fill (c : Scene) (template : String) : String :=
  c.hop.arguments.foldl (fun text a => putIn a.1 a.2.value.render text)
    (putIn "source" c.source.name template)

/-- A value as a 32-bit number: long integers wrap, fractions are cut off and what is too great is
brought to the nearest number, a truth value is one or zero, and a text is its size. -/
def number : (t : ValueType) → t.Carrier → Int32
  | .number .int, x => x
  | .number .long, x => x.toInt32
  | .number .float, x => x.toInt32
  | .number .double, x => x.toInt32
  | .bool, x => if x then 1 else 0
  | .text, x => Int32.ofNat (Text.bytes x.toList)

/-- The value of an integer argument. -/
def int (c : Scene) (name : String) : Except Fault Int32 := c.argument (.number .int) name

/-- The lines that a command queues. -/
def linesOf (c : Scene) (templates : List String) (times? designation? : Option String) :
    Except Fault (List (QueuedLine Actor)) := do
  let actor := designation?.elim c.source c.source.designated
  let lines := templates.map fun t => (⟨fill c t, actor⟩ : QueuedLine Actor)
  let times ← match times? with
    | none => .ok 1
    | some name => (int c name).map fun n => n.toInt.toNat
  return (List.replicate times lines).flatten

/-- Perform an action. -/
def perform (action : Action) (c : Scene) (r : Record) : Outcome Actor × Record :=
  match action with
  | .answer n => ({ result := .ok n }, r)
  | .fail message => ({ result := .error (.custom message) }, r)
  | .raise cause => ({ result := .error ⟨cause, none⟩ }, r)
  | .checkAdmin =>
    ({ result := if c.source.admin then .ok 1 else .error (.custom "not an admin") }, r)
  | .measureName => ({ result := .ok (Int32.ofNat (Text.bytes c.source.name.toList)) }, r)
  | .noteContext n => ({ result := .ok n }, r.add (.context c))
  | .say template n => ({ result := .ok n }, r.add (.text (fill c template)))
  | .argument t name => ({ result := (c.argument t name).map (number t) }, r)
  | .sum names =>
    ({ result := names.foldlM (fun total name => (int c name).map (total + ·)) 0 }, r)
  | .queue templates times? designation? n =>
    match linesOf c templates times? designation? with
    | .error f => ({ result := .error f }, r)
    | .ok lines => ({ result := .ok n, queued := lines }, r)
  | .countDown word =>
    match int c "n" with
    | .error f => ({ result := .error f }, r)
    | .ok n =>
      let next : QueuedLine Actor := ⟨word ++ " " ++ toString (n - 1).toInt, c.source⟩
      ({ result := .ok 1, queued := if 0 < n then [next] else [] }, r)

/-- Run a command.  Where it is made to fail it does nothing, save that lines are queued first. -/
def run (command : Command) (c : Scene) (r : Record) : Outcome Actor × Record :=
  if command.failsFor? = some c.source.name then
    match command.action with
    | .queue templates times? designation? _ =>
      match linesOf c templates times? designation? with
      | .error f => ({ result := .error f }, r)
      | .ok lines => ({ result := .error (.custom "failed after scheduling"), queued := lines }, r)
    | _ => ({ result := .error (.custom (c.source.name ++ " failed")) }, r)
  else perform command.action c r

/-- The actors that go on after a handover. -/
def successors (h : Handover) (c : Scene) : Except Fault (List Actor) :=
  match h with
  | .keep => .ok [c.source]
  | .toAll templates => .ok (templates.map fun t => c.source.designated (fill c t))
  | .toNamed argument => do
    let name ← c.argument .text argument
    if name = "nobody" then .error (.custom "no such player")
    else .ok [c.source.designated name]
  | .copies argument => do
    let n ← int c argument
    return (List.range n.toInt.toNat).map fun i =>
      { c.source with name := c.source.name ++ toString i }
  | .fail message => .error (.custom message)
  | .toAdmin => if c.source.admin then .ok [c.source] else .error (.custom "filtered")

/-- Pass the actor of a context through a redirect. -/
def modify (m : Modifier) (c : Scene) (r : Record) : Except Fault (List Actor) × Record :=
  if m.failsFor? = some c.source.name then
    (.error (.custom ("modifier failed for " ++ c.source.name)), r)
  else ((successors m.handover c).map fun l => if m.firstOnly then l.take 1 else l, r)

/-- The host of a script. -/
def host : Host Actor Command Modifier Record where
  run := run
  modify := modify
  report context success result r :=
    { r with attempts := ⟨context, success, result⟩ :: r.attempts }

/-- The host of a script that does not care how attempts end. -/
def quietHost : Host Actor Command Modifier Record where
  run := run
  modify := modify

end CommandLines.Script
