/-
Hosts: what commands and modifiers do.

A host has a state of its own, which its callbacks may read and change.  Besides, every
execution keeps a journal of the calls made: it is what "each exactly once" and "nothing
in between" are said of.
-/
import CommandLines.Context

namespace CommandLines

/-- A line that a command has queued, and the source to run it as. -/
structure QueuedLine (Source : Type) where
  line : String
  source : Source
deriving DecidableEq, Repr

/-- What a command answers: its result, and the lines it has queued while it ran.  It is assumed
that no command queues lines once it is over, so these are all the lines that it ever queues. -/
structure Outcome (Source : Type) where
  result : Except Fault Int32
  queued : List (QueuedLine Source) := []

/-- The callbacks of a host with states of type `State`.  It is assumed that lines are queued by
commands while they run, and by nothing else: neither modifiers nor reports queue any. -/
structure Host (Source Command Modifier State : Type) where
  /-- Run a command. -/
  run : Command → Context Source Command Modifier → State → Outcome Source × State
  /-- Turn the source of a context into the sources that go on. -/
  modify : Modifier → Context Source Command Modifier → State → Except Fault (List Source) × State
  /-- Hear how an attempt ended: whether it succeeded, and with what result. -/
  report : Context Source Command Modifier → Bool → Int32 → State → State := fun _ _ _ s => s

/-- A call made during an execution. -/
inductive Event (Source Command Modifier : Type) where
  /-- A modifier was called. -/
  | modified (context : Context Source Command Modifier) (result : Except Fault (List Source))
  /-- A command was called. -/
  | ran (context : Context Source Command Modifier) (outcome : Outcome Source)
  /-- The host was told how an attempt ended. -/
  | reported (context : Context Source Command Modifier) (success : Bool) (result : Int32)
  /-- A queued line was started. -/
  | started (line : QueuedLine Source)

/-- The state of the host, and the calls made so far, the latest first. -/
structure Session (Source Command Modifier State : Type) where
  state : State
  journal : List (Event Source Command Modifier) := []

variable {Source Command Modifier State : Type}

namespace Session

/-- The calls in the order in which they were made. -/
def calls (s : Session Source Command Modifier State) : List (Event Source Command Modifier) :=
  s.journal.reverse

/-- The session after an event that leaves the host in a state. -/
def note (s : Session Source Command Modifier State) (e : Event Source Command Modifier)
    (state : State) : Session Source Command Modifier State :=
  { state, journal := e :: s.journal }

/-- Tell the host how an attempt ended. -/
def report (s : Session Source Command Modifier State)
    (host : Host Source Command Modifier State) (context : Context Source Command Modifier)
    (success : Bool) (result : Int32) : Session Source Command Modifier State :=
  s.note (.reported context success result) (host.report context success result s.state)

end Session

end CommandLines
