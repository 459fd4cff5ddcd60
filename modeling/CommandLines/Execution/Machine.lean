/-
Running lines.

An execution keeps its pending work on a stack, so that lines which queue lines need no
deeper recursion.  A frame is a stage of a chain with the sources that have reached it, a
queued line, or the catcher of a queued line, which sits right below it and decides what
becomes of a fault on the way: one set by a stage that forks swallows it, any other
passes it on.

Every frame but a catcher is charged against a quota, a stage by the number of its
sources and never by less than one.  So each round leaves less of the quota, and when
the rounds that the quota allows are over the quota is spent, too.
-/
import CommandLines.Execution.Chain
import CommandLines.Reading.Basic

namespace CommandLines

/-- A piece of pending work. -/
inductive Frame (Source Command Modifier : Type) where
  /-- What is left of a chain, for the sources that have come this far.  `forked` says that an
  earlier redirect forks, and `counts` that the chain is the one whose result is asked for. -/
  | stage (chain : Chain Source Command Modifier) (sources : List Source) (forked counts : Bool)
  /-- A queued line that has not been started. -/
  | line (queued : QueuedLine Source)
  /-- The end of what a queued line has led to. -/
  | catcher (forked : Bool)

variable {Source Command Modifier State : Type}

namespace Frame

/-- Whether the frame only waits for faults. -/
def isCatcher : Frame Source Command Modifier → Bool
  | .catcher _ => true
  | _ => false

/-- Whether the frame swallows faults. -/
def swallows : Frame Source Command Modifier → Bool
  | .catcher forked => forked
  | _ => false

/-- What the frame is charged. -/
def weight : Frame Source Command Modifier → Nat
  | .stage _ sources _ _ => max 1 sources.length
  | .line _ => 1
  | .catcher _ => 0

/-- The frames for the lines that a stage has queued, the first line on top, each with its catcher.
-/
def ofQueued (forked : Bool) (lines : List (QueuedLine Source)) :
    List (Frame Source Command Modifier) :=
  lines.flatMap fun l => [.line l, .catcher forked]

/-- What is left of a stack when a fault falls through it: what is below the first frame that
swallows faults, if there is one. -/
def unwind? : List (Frame Source Command Modifier) → Option (List (Frame Source Command Modifier))
  | [] => none
  | f :: stack => if f.swallows then some stack else unwind? stack

end Frame

/-- An execution under way. -/
structure Machine (Source Command Modifier State : Type) where
  /-- The pending work, the next frame first. -/
  stack : List (Frame Source Command Modifier)
  /-- What has been charged so far.  The number stands for a counter of one machine word, and it is
  assumed that no execution has the counter overflow.  That would take a stage with about 2^64
  sources, which only sources of size zero have room for. -/
  entries : Nat := 0
  /-- What the runs of the chain asked for add up to. -/
  total : Int32 := 0
  session : Session Source Command Modifier State

/-- What a round of an execution comes to. -/
inductive Round (Source Command Modifier State : Type) where
  /-- The execution is over. -/
  | finished (result : Except Fault Int32) (session : Session Source Command Modifier State)
  /-- There may be more to do. -/
  | pending (m : Machine Source Command Modifier State)

/-- The quota of an execution where nothing else is said. -/
def defaultQuota : Nat := 65536

/-- The chain of a reading.  If there is none the host is told, and the command is unknown. -/
def Reading.chain (r : Reading Source Command Modifier)
    (host : Host Source Command Modifier State) (s : Session Source Command Modifier State) :
    Except Fault (Chain Source Command Modifier) × Session Source Command Modifier State :=
  let context := r.route.context r.cursor.line
  match Chain.ofContext? context with
  | some chain => (.ok chain, s)
  | none => (.error (r.cursor.fault .unknownCommand), s.report host context false 0)

namespace Machine

variable (tree : Tree Source Command Modifier) (host : Host Source Command Modifier State)

/-- What a frame does: the amount that it adds to the total, and the frames that come of it. -/
def work (frame : Frame Source Command Modifier) (s : Session Source Command Modifier State) :
    Except Fault (Int32 × List (Frame Source Command Modifier)) ×
      Session Source Command Modifier State :=
  match frame with
  | .stage ⟨[], executable⟩ sources forked counts =>
    match host.runAll { executable with queues := true } forked sources s with
    | (.error f, s) => (.error f, s)
    | (.ok (n, lines), s) => (.ok (if counts then n else 0, Frame.ofQueued forked lines), s)
  | .stage ⟨hop :: hops, executable⟩ sources forked counts =>
    let forked := forked || hop.hop.forks
    match host.pass hop forked sources s with
    | (.error f, s) => (.error f, s)
    | (.ok [], s) => (.ok (0, []), s)
    | (.ok sources, s) => (.ok (0, [.stage ⟨hops, executable⟩ sources forked counts]), s)
  | .line queued =>
    let s := s.note (.started queued) s.state
    let reading := tree.read queued.line queued.source
    match reading.syntaxFault? with
    | some f => (.error f, s)
    | none =>
      match reading.chain host s with
      | (.error f, s) => (.error f, s)
      | (.ok chain, s) => (.ok (0, [.stage chain [chain.top.source] false false]), s)
  | .catcher _ => (.ok (0, []), s)

/-- One round: nothing is pending, the quota is spent, or the next frame is worked on.  A fault that
falls through ends the execution. -/
def step (quota : Nat) (m : Machine Source Command Modifier State) :
    Round Source Command Modifier State :=
  match m.stack.dropWhile Frame.isCatcher with
  | [] => .finished (.ok m.total) m.session
  | frame :: stack =>
    let entries := m.entries + frame.weight
    if quota < entries then .finished (.error ⟨.limitReached quota, none⟩) m.session
    else
      match work tree host frame m.session with
      | (.ok (n, frames), session) =>
        .pending { stack := frames ++ stack, entries, total := m.total + n, session }
      | (.error f, session) =>
        match Frame.unwind? stack with
        | some stack => .pending { m with stack, entries, session }
        | none => .finished (.error f) session

/-- Go on, for at most `rounds` rounds after the first, until the execution is over. -/
def run (quota : Nat) :
    (rounds : Nat) → Machine Source Command Modifier State →
    Except Fault Int32 × Session Source Command Modifier State
  | rounds, m =>
    match m.step tree host quota with
    | .finished result session => (result, session)
    | .pending m =>
      match rounds with
      | 0 => (.error ⟨.limitReached quota, none⟩, m.session)
      | rounds + 1 => run quota rounds m

end Machine

namespace Tree

variable (tree : Tree Source Command Modifier) (host : Host Source Command Modifier State)

/-- Run a line that has been read. -/
def executeReading (quota : Nat) (r : Reading Source Command Modifier)
    (s : Session Source Command Modifier State) :
    Except Fault Int32 × Session Source Command Modifier State :=
  match r.syntaxFault? with
  | some f => (.error f, s)
  | none =>
    match r.chain host s with
    | (.error f, s) => (.error f, s)
    | (.ok chain, s) =>
      Machine.run tree host quota quota
        { stack := [.stage chain [chain.top.source] false true], session := s }

/-- Read a line and run it. -/
def execute (quota : Nat) (line : String) (source : Source)
    (s : Session Source Command Modifier State) :
    Except Fault Int32 × Session Source Command Modifier State :=
  tree.executeReading host quota (tree.read line source) s

end Tree

end CommandLines
