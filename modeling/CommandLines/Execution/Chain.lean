/-
Chains: routes that end in a command.

The hops before the last one are redirects, each of which turns a source into the
sources that go on; the last hop runs its command for each of them.  From the first hop
that forks, failures no longer stop the others: a modifier that fails drops its source,
a command that fails counts as nothing, and one that succeeds counts as one.
-/
import CommandLines.Execution.Host

namespace CommandLines

/-- The redirects of a line in order, and the context of its command. -/
structure Chain (Source Command Modifier : Type) where
  modifiers : List (Context Source Command Modifier)
  executable : Context Source Command Modifier

/-- What a chain does next. -/
inductive Stage where
  /-- It passes through a redirect. -/
  | modify
  /-- It runs its command. -/
  | execute
deriving DecidableEq, Repr

variable {Source Command Modifier State : Type}

namespace Chain

/-- The contexts of a hop and of those after it. -/
def contexts (line : String) (hop : Hop Source Command Modifier) :
    List (Hop Source Command Modifier) → Chain Source Command Modifier
  | [] => ⟨[], { line, hop }⟩
  | next :: later =>
    let rest := contexts line next later
    { rest with modifiers := { line, hop, later := next :: later } :: rest.modifiers }

/-- The chain of a context, if its last hop has a command. -/
def ofContext? (c : Context Source Command Modifier) : Option (Chain Source Command Modifier) :=
  if c.last.command?.isSome then some (contexts c.line c.hop c.later) else none

/-- What the chain does next. -/
def stage (c : Chain Source Command Modifier) : Stage :=
  if c.modifiers.isEmpty then .execute else .modify

/-- The context in which it does so. -/
def top (c : Chain Source Command Modifier) : Context Source Command Modifier :=
  c.modifiers.headD c.executable

/-- The chain after its first redirect, if there is one. -/
def next? (c : Chain Source Command Modifier) : Option (Chain Source Command Modifier) :=
  match c.modifiers with
  | [] => none
  | _ :: rest => some { c with modifiers := rest }

end Chain

namespace Host

variable (host : Host Source Command Modifier State)

/-- Pass a source through a redirect.  Without a modifier it goes on unchanged. -/
def passOne (hop : Context Source Command Modifier) (forked : Bool) (source : Source)
    (s : Session Source Command Modifier State) :
    Except Fault (List Source) × Session Source Command Modifier State :=
  match hop.hop.modifier? with
  | none => (.ok [source], s)
  | some m =>
    let context := hop.withSource source
    let (result, state) := host.modify m context s.state
    let s := s.note (.modified context result) state
    match result with
    | .ok sources => (.ok sources, s)
    | .error f => (if forked then .ok [] else .error f, s.report host context false 0)

/-- Pass sources through a redirect one after another; `done` are the sources that came of the
earlier ones, in reverse. -/
def passEach (hop : Context Source Command Modifier) (forked : Bool) (done : List Source) :
    List Source → Session Source Command Modifier State →
    Except Fault (List Source) × Session Source Command Modifier State
  | [], s => (.ok done.reverse, s)
  | source :: sources, s =>
    match host.passOne hop forked source s with
    | (.error f, s) => (.error f, s)
    | (.ok next, s) => passEach hop forked (next.reverse ++ done) sources s

/-- Pass all sources through a redirect. -/
def pass (hop : Context Source Command Modifier) (forked : Bool) (sources : List Source)
    (s : Session Source Command Modifier State) :
    Except Fault (List Source) × Session Source Command Modifier State :=
  host.passEach hop forked [] sources s

/-- Run the command of a context for a source.  The answer is what the run counts for, and the
lines that were queued; a run that fails queues nothing. -/
def runOne (hop : Context Source Command Modifier) (forked : Bool) (source : Source)
    (s : Session Source Command Modifier State) :
    Except Fault (Int32 × List (QueuedLine Source)) × Session Source Command Modifier State :=
  match hop.hop.command? with
  | none => (.ok (0, []), s)
  | some c =>
    let context := hop.withSource source
    let (outcome, state) := host.run c context s.state
    let s := s.note (.ran context outcome) state
    match outcome.result with
    | .ok n =>
      (.ok (if forked then 1 else n, if hop.queues then outcome.queued else []),
        s.report host context true n)
    | .error f =>
      (if forked then .ok (0, []) else .error f, s.report host context false 0)

/-- Run the command of a context for sources one after another, adding up what the runs count for;
`queued` are the lines queued so far, in reverse. -/
def runEach (hop : Context Source Command Modifier) (forked : Bool) (total : Int32)
    (queued : List (QueuedLine Source)) :
    List Source → Session Source Command Modifier State →
    Except Fault (Int32 × List (QueuedLine Source)) × Session Source Command Modifier State
  | [], s => (.ok (total, queued.reverse), s)
  | source :: sources, s =>
    match host.runOne hop forked source s with
    | (.error f, s) => (.error f, s)
    | (.ok (n, lines), s) => runEach hop forked (total + n) (lines.reverse ++ queued) sources s

/-- Run the command of a context for all sources. -/
def runAll (hop : Context Source Command Modifier) (forked : Bool) (sources : List Source)
    (s : Session Source Command Modifier State) :
    Except Fault (Int32 × List (QueuedLine Source)) × Session Source Command Modifier State :=
  host.runEach hop forked 0 [] sources s

/-- Take sources through redirects, and run the command for those that come out at the end. -/
def executeFrom (executable : Context Source Command Modifier) (forked : Bool) :
    List (Context Source Command Modifier) → List Source →
    Session Source Command Modifier State →
    Except Fault Int32 × Session Source Command Modifier State
  | [], sources, s =>
    match host.runAll executable forked sources s with
    | (.error f, s) => (.error f, s)
    | (.ok (total, _), s) => (.ok total, s)
  | hop :: hops, sources, s =>
    let forked := forked || hop.hop.forks
    match host.pass hop forked sources s with
    | (.error f, s) => (.error f, s)
    | (.ok [], s) => (.ok 0, s)
    | (.ok sources, s) => executeFrom executable forked hops sources s

/-- Run a whole chain for a source, without a place to queue lines in. -/
def executeAll (chain : Chain Source Command Modifier) (source : Source)
    (s : Session Source Command Modifier State) :
    Except Fault Int32 × Session Source Command Modifier State :=
  host.executeFrom chain.executable false chain.modifiers [source] s

end Host

end CommandLines
