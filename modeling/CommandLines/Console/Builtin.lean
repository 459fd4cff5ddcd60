/-
The commands of the console program.

What they say is collected, the latest line first.
-/
import CommandLines.Execution.Host
import CommandLines.Tree.Register

namespace CommandLines.Console

/-- Whoever runs a line. -/
structure User where
  name : String
  admin : Bool := false
deriving DecidableEq, Repr

/-- The commands. -/
inductive Verb where
  /-- Say a message under the user's name. -/
  | say
  /-- Say a text. -/
  | echo
  /-- Add two integers. -/
  | add
  /-- Give something to someone, as often as it counts. -/
  | give
  /-- Return a truth value as a number. -/
  | toggle
  /-- Say the user's name. -/
  | whoami
  /-- Say that everything stops. -/
  | stop
  /-- Queue a line many times. -/
  | repeat
  /-- Return a number. -/
  | constant (n : Int32)
deriving DecidableEq, Repr

/-- What redirects do to the user. -/
inductive Passing where
  /-- The user goes by the name in an argument. -/
  | rename
  /-- The user goes by every name of the roster in turn. -/
  | everyone
  /-- The user stays. -/
  | same
deriving DecidableEq, Repr

/-- The names that stand for everyone. -/
def roster : List String := ["alice", "bob", "carol"]

/-- The context of a command. -/
abbrev Scene : Type := Context User Verb Passing

/-- A tree of these commands. -/
abbrev Grammar : Type := Tree User Verb Passing

/-- What a command comes to: its result, the lines it says, and the lines it queues. -/
structure Effect where
  result : Int32
  said : List String := []
  queued : List (QueuedLine User) := []

/-- An integer argument. -/
def Scene.int (c : Scene) (name : String) : Except Fault Int32 := c.argument (.number .int) name

/-- A text argument. -/
def Scene.text (c : Scene) (name : String) : Except Fault String := c.argument .text name

/-- What a command comes to in its context. -/
def Verb.effect (c : Scene) : Verb → Except Fault Effect
  | .say => do
    let message ← Scene.text c "message"
    return { result := 1, said := ["<" ++ c.source.name ++ "> " ++ message] }
  | .echo => do return { result := 1, said := [← Scene.text c "text"] }
  | .add => do return { result := (← Scene.int c "a") + (← Scene.int c "b") }
  | .give => do
    let target ← Scene.text c "target"
    let count ← Scene.int c "count"
    return { result := count, said := ["gave " ++ toString count.toInt ++ " to " ++ target] }
  | .toggle => do return { result := if ← c.argument .bool "value" then 1 else 0 }
  | .whoami => return { result := 1, said := [c.source.name] }
  | .stop => return { result := 1, said := ["stopping"] }
  | .repeat => do
    let times ← Scene.int c "times"
    let line ← Scene.text c "command"
    return { result := times, queued := List.replicate times.toInt.toNat ⟨line, c.source⟩ }
  | .constant n => return { result := n }

/-- The users that go on after a redirect. -/
def Passing.users (c : Scene) : Passing → Except Fault (List User)
  | .rename => do return [{ c.source with name := ← Scene.text c "name" }]
  | .everyone => return roster.map fun name => { c.source with name }
  | .same => return [c.source]

/-- The host of these commands. -/
def host : Host User Verb Passing (List String) where
  run verb c said :=
    match verb.effect c with
    | .ok e => ({ result := .ok e.result, queued := e.queued }, e.said.reverse ++ said)
    | .error f => ({ result := .error f }, said)
  modify passing c said := (passing.users c, said)

/-! ### The tree -/

/-- A draft of a node for these commands. -/
abbrev Plan : Type := Draft User Verb Passing

/-- A literal. -/
def lit (word : String) (children : List Plan) : Plan := { label := .literal word, children }

/-- A literal at which a line may end. -/
def command (word : String) (verb : Verb) : Plan :=
  { label := .literal word, command? := some verb }

/-- An argument. -/
def arg (name : String) (type : ArgumentType) (children : List Plan) : Plan :=
  { label := .argument name type none, children }

/-- An argument at which a line may end. -/
def lastArg (name : String) (type : ArgumentType) (verb : Verb) : Plan :=
  { label := .argument name type none, command? := some verb }

/-- The nodes below the root. -/
def builtinPlans : List Plan := [
  lit "say" [lastArg "message" (.text .rest) .say],
  lit "echo" [lastArg "text" (.text .phrase) .echo],
  lit "add" [arg "a" (.number .int) [lastArg "b" (.number .int) .add]],
  lit "give" [{
    label := .argument "target" (.text .word)
      (some fun _ b => .ok (b.suggestMatching roster).finish)
    children := [{
      lastArg "count" (.number .int 1 64) .give with default? := some (.int 1) }] }],
  lit "toggle" [lastArg "value" .bool .toggle],
  command "whoami" .whoami,
  { command "stop" .stop with allows := User.admin },
  lit "as" [{
    label := .argument "name" (.text .word) none
    redirect? := some { target := .root, modifier? := some .rename } }],
  { label := .literal "everyone"
    redirect? := some { target := .root, modifier? := some .everyone, forks := true } },
  { label := .literal "run", redirect? := some { target := .root } },
  lit "repeat" [arg "times" (.number .int 1 100) [lastArg "command" (.text .rest) .repeat]]]

/-- The tree that every run of the program starts with. -/
def builtin : Grammar :=
  match Tree.empty.addAll .root builtinPlans with
  | .ok t => t
  | .error _ => .empty

end CommandLines.Console
