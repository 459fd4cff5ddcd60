/-
Scripts: commands, redirects and requirements told by data.

A script stands in for a program around a command tree, so that a tree can be tried out
without one.  Its commands return fixed numbers, fail, look at their arguments, take
notes and queue lines; its redirects give other actors the floor.
-/
import CommandLines.Fault.Basic

namespace CommandLines.Script

/-- Whoever runs a line. -/
structure Actor where
  name : String
  admin : Bool := false
deriving DecidableEq, Repr

namespace Actor

/-- The actor that a designation stands for in the eyes of another: after a plus sign the name of
an admin, after an equals sign the name of one who is an admin just if that other actor is, and
otherwise the name of one who is none. -/
def designated (other : Actor) (designation : String) : Actor :=
  match designation.toList with
  | '+' :: name => { name := String.ofList name, admin := true }
  | '=' :: name => { name := String.ofList name, admin := other.admin }
  | _ => { name := designation }

end Actor

/-- What a node asks of an actor. -/
inductive Requirement where
  /-- To be an admin. -/
  | admin
  /-- To have a certain name. -/
  | named (name : String)
  /-- What no actor can give. -/
  | never
deriving DecidableEq, Repr

/-- Whether an actor meets a requirement. -/
def Requirement.allows : Requirement → Actor → Bool
  | .admin, a => a.admin
  | .named name, a => a.name == name
  | .never, _ => false

/-- What a command does. -/
inductive Action where
  /-- It returns a number. -/
  | answer (result : Int32)
  /-- It fails. -/
  | fail (message : String)
  /-- It fails in one of the known ways. -/
  | raise (cause : Cause)
  /-- It fails unless the actor is an admin. -/
  | checkAdmin
  /-- It returns the size of the actor's name. -/
  | measureName
  /-- It notes its context. -/
  | noteContext (result : Int32)
  /-- It notes a text made from a template. -/
  | say (template : String) (result : Int32)
  /-- It returns an argument as a number. -/
  | argument (type : ValueType) (name : String)
  /-- It returns the sum of integer arguments. -/
  | sum (names : List String)
  /-- It queues lines made from templates, as often as an integer argument says where one is named,
  for an actor that may be another one. -/
  | queue (templates : List String) (times? designation? : Option String) (result : Int32)
  /-- It queues itself, under its word, with an integer argument counted down to zero. -/
  | countDown (word : String)

/-- A command of a script; it can be made to fail for one actor. -/
structure Command where
  action : Action
  failsFor? : Option String := none

/-- What a redirect does to the actor. -/
inductive Handover where
  /-- The actor goes on. -/
  | keep
  /-- Those go on whose designations are made from templates. -/
  | toAll (templates : List String)
  /-- The one goes on whom a text argument designates. -/
  | toNamed (argument : String)
  /-- As many go on as an integer argument says, with numbers after the actor's name. -/
  | copies (argument : String)
  /-- It fails. -/
  | fail (message : String)
  /-- The actor goes on if it is an admin. -/
  | toAdmin
deriving DecidableEq, Repr

/-- A redirect of a script; it can be made to fail for one actor, and to let only the first one go
on. -/
structure Modifier where
  handover : Handover
  failsFor? : Option String := none
  firstOnly : Bool := false
deriving DecidableEq, Repr

end CommandLines.Script
