/-
What running a line means, said by recursion.

A machine with a stack is how lines are run; this file is what running one should come
to.  The rules follow the shape of the work: a reading is evaluated by evaluating its
chain, a chain by passing sources through its redirects and running its command for each
of those that come out, and the lines that were queued on the way one after another, each
with all that it queues itself before the next.  There is no stack, no frame and no quota
here, and a host that never stops queueing lines has no derivation.

`Passes` and `Runs` are the two kinds of stages, one rule for each thing that can happen
to a source.  They are functions of the stage (`pass_eq_iff`, `runAll_eq_iff`), though they
do not carry along what earlier sources came to.
-/
import CommandLines.Execution.Machine

namespace CommandLines

variable {Source Command Modifier State : Type}

/-! ### Stages -/

section Stages

variable (host : Host Source Command Modifier State) (hop : Context Source Command Modifier)
  (forked : Bool)

/-- Sources pass through a redirect, and those come out that go on. -/
inductive Passes : List Source → Session Source Command Modifier State →
    Except Fault (List Source) → Session Source Command Modifier State → Prop where
  /-- No source is left. -/
  | done (s : Session Source Command Modifier State) : Passes [] s (.ok []) s
  /-- A redirect without a modifier lets a source go on as it is. -/
  | unchanged {source : Source} {sources : List Source}
      {s t : Session Source Command Modifier State} {r : Except Fault (List Source)}
      (missing : hop.hop.modifier? = none) (rest : Passes sources s r t) :
      Passes (source :: sources) s (r.map (source :: ·)) t
  /-- The modifier puts others in the place of a source. -/
  | replaced {source : Source} {sources next : List Source} {m : Modifier} {state : State}
      {s t : Session Source Command Modifier State} {r : Except Fault (List Source)}
      (given : hop.hop.modifier? = some m)
      (call : host.modify m (hop.withSource source) s.state = (.ok next, state))
      (rest : Passes sources (s.note (.modified (hop.withSource source) (.ok next)) state) r t) :
      Passes (source :: sources) s (r.map (next ++ ·)) t
  /-- The modifier fails after a fork: the host is told, and the source is dropped. -/
  | dropped {source : Source} {sources : List Source} {m : Modifier} {f : Fault} {state : State}
      {s t : Session Source Command Modifier State} {r : Except Fault (List Source)}
      (given : hop.hop.modifier? = some m)
      (call : host.modify m (hop.withSource source) s.state = (.error f, state))
      (fork : forked = true)
      (rest : Passes sources
        ((s.note (.modified (hop.withSource source) (.error f)) state).report host
          (hop.withSource source) false 0) r t) :
      Passes (source :: sources) s r t
  /-- The modifier fails without a fork before it: the host is told, and the fault is raised. -/
  | raised {source : Source} {sources : List Source} {m : Modifier} {f : Fault} {state : State}
      {s : Session Source Command Modifier State}
      (given : hop.hop.modifier? = some m)
      (call : host.modify m (hop.withSource source) s.state = (.error f, state))
      (fork : forked = false) :
      Passes (source :: sources) s (.error f)
        ((s.note (.modified (hop.withSource source) (.error f)) state).report host
          (hop.withSource source) false 0)

/-- A command is run for sources.  The result is what the runs add up to, and the lines that those
that succeeded have queued. -/
inductive Runs : List Source → Session Source Command Modifier State →
    Except Fault (Int32 × List (QueuedLine Source)) → Session Source Command Modifier State →
    Prop where
  /-- No source is left. -/
  | done (s : Session Source Command Modifier State) : Runs [] s (.ok (0, [])) s
  /-- Without a command nothing is run. -/
  | idle {source : Source} {sources : List Source} {s t : Session Source Command Modifier State}
      {r : Except Fault (Int32 × List (QueuedLine Source))}
      (missing : hop.hop.command? = none) (rest : Runs sources s r t) :
      Runs (source :: sources) s r t
  /-- The command succeeds and the host is told.  After a fork it counts as one. -/
  | succeeded {source : Source} {sources : List Source} {c : Command} {n : Int32}
      {outcome : Outcome Source} {state : State} {s t : Session Source Command Modifier State}
      {r : Except Fault (Int32 × List (QueuedLine Source))}
      (given : hop.hop.command? = some c)
      (call : host.run c (hop.withSource source) s.state = (outcome, state))
      (answer : outcome.result = .ok n)
      (rest : Runs sources
        ((s.note (.ran (hop.withSource source) outcome) state).report host
          (hop.withSource source) true n) r t) :
      Runs (source :: sources) s
        (r.map fun p =>
          ((if forked then 1 else n) + p.1, (if hop.queues then outcome.queued else []) ++ p.2)) t
  /-- The command fails after a fork: the host is told, and it counts as nothing. -/
  | passedOver {source : Source} {sources : List Source} {c : Command} {f : Fault}
      {outcome : Outcome Source} {state : State} {s t : Session Source Command Modifier State}
      {r : Except Fault (Int32 × List (QueuedLine Source))}
      (given : hop.hop.command? = some c)
      (call : host.run c (hop.withSource source) s.state = (outcome, state))
      (answer : outcome.result = .error f) (fork : forked = true)
      (rest : Runs sources
        ((s.note (.ran (hop.withSource source) outcome) state).report host
          (hop.withSource source) false 0) r t) :
      Runs (source :: sources) s r t
  /-- The command fails without a fork before it: the host is told, and the fault is raised. -/
  | raised {source : Source} {sources : List Source} {c : Command} {f : Fault}
      {outcome : Outcome Source} {state : State} {s : Session Source Command Modifier State}
      (given : hop.hop.command? = some c)
      (call : host.run c (hop.withSource source) s.state = (outcome, state))
      (answer : outcome.result = .error f) (fork : forked = false) :
      Runs (source :: sources) s (.error f)
        ((s.note (.ran (hop.withSource source) outcome) state).report host
          (hop.withSource source) false 0)

end Stages

section

variable {host : Host Source Command Modifier State} {hop : Context Source Command Modifier}
  {forked : Bool} {sources : List Source} {s t : Session Source Command Modifier State}

/-- What comes of sources is added to what came of earlier ones. -/
theorem Passes.passEach_eq {r : Except Fault (List Source)}
    (h : Passes host hop forked sources s r t) :
    ∀ done, host.passEach hop forked done sources s = (r.map (done.reverse ++ ·), t) := by
  induction h with
  | done s => intro done; simp [Host.passEach, Except.map]
  | @unchanged source sources s t r missing _ ih =>
    intro done
    rw [Host.passEach, Host.passOne, missing]
    simp only [ih]
    cases r <;> simp [Except.map]
  | @replaced source sources next m state s t r given call _ ih =>
    intro done
    rw [Host.passEach, Host.passOne, given]
    simp only [call, ih]
    cases r <;> simp [Except.map]
  | dropped given call fork _ ih =>
    intro done
    rw [Host.passEach, Host.passOne, given]
    simp only [call, fork, if_true]
    simpa [fork] using ih done
  | raised given call fork =>
    intro done
    rw [Host.passEach, Host.passOne, given]
    simp [call, fork, Except.map]

theorem passes_total (host : Host Source Command Modifier State)
    (hop : Context Source Command Modifier) (forked : Bool) :
    ∀ (sources : List Source) (s : Session Source Command Modifier State),
      ∃ r t, Passes host hop forked sources s r t := by
  intro sources
  induction sources with
  | nil => intro s; exact ⟨_, _, .done s⟩
  | cons source sources ih =>
    intro s
    cases hm : hop.hop.modifier? with
    | none =>
      obtain ⟨r, t, h⟩ := ih s
      exact ⟨_, _, .unchanged hm h⟩
    | some m =>
      cases hcall : host.modify m (hop.withSource source) s.state with
      | mk result state =>
        cases result with
        | ok next =>
          obtain ⟨r, t, h⟩ := ih _
          exact ⟨_, _, .replaced hm hcall h⟩
        | error f =>
          cases forked with
          | true =>
            obtain ⟨r, t, h⟩ := ih _
            exact ⟨_, _, .dropped hm hcall rfl h⟩
          | false => exact ⟨_, _, .raised hm hcall rfl⟩

/-- Passing sources through a redirect does what the rules say. -/
theorem pass_eq_iff {r : Except Fault (List Source)} :
    host.pass hop forked sources s = (r, t) ↔ Passes host hop forked sources s r t := by
  have hpass {r t} (h : Passes host hop forked sources s r t) :
      host.pass hop forked sources s = (r, t) := by
    rw [Host.pass, h.passEach_eq []]
    cases r <;> simp [Except.map]
  refine ⟨fun h => ?_, hpass⟩
  obtain ⟨r', t', h'⟩ := passes_total host hop forked sources s
  cases h.symm.trans (hpass h')
  exact h'

/-- What the runs come to is added to what earlier ones came to. -/
theorem Runs.runEach_eq {r : Except Fault (Int32 × List (QueuedLine Source))}
    (h : Runs host hop forked sources s r t) :
    ∀ total queued, host.runEach hop forked total queued sources s =
      (r.map fun p => (total + p.1, queued.reverse ++ p.2), t) := by
  induction h with
  | done s => intro total queued; simp [Host.runEach, Except.map]
  | idle missing _ ih =>
    intro total queued
    rw [Host.runEach, Host.runOne, missing]
    simpa using ih total queued
  | @succeeded source sources c n outcome state s t r given call answer _ ih =>
    intro total queued
    rw [Host.runEach, Host.runOne, given]
    simp only [call, answer, ih]
    cases r <;> simp [Except.map, Int32.add_assoc]
  | passedOver given call answer fork _ ih =>
    intro total queued
    rw [Host.runEach, Host.runOne, given]
    simp only [call, answer, fork, if_true]
    simpa [fork] using ih total queued
  | raised given call answer fork =>
    intro total queued
    rw [Host.runEach, Host.runOne, given]
    simp [call, answer, fork, Except.map]

theorem runs_total (host : Host Source Command Modifier State)
    (hop : Context Source Command Modifier) (forked : Bool) :
    ∀ (sources : List Source) (s : Session Source Command Modifier State),
      ∃ r t, Runs host hop forked sources s r t := by
  intro sources
  induction sources with
  | nil => intro s; exact ⟨_, _, .done s⟩
  | cons source sources ih =>
    intro s
    cases hc : hop.hop.command? with
    | none =>
      obtain ⟨r, t, h⟩ := ih s
      exact ⟨_, _, .idle hc h⟩
    | some c =>
      cases hcall : host.run c (hop.withSource source) s.state with
      | mk outcome state =>
        cases hanswer : outcome.result with
        | ok n =>
          obtain ⟨r, t, h⟩ := ih _
          exact ⟨_, _, .succeeded hc hcall hanswer h⟩
        | error f =>
          cases forked with
          | true =>
            obtain ⟨r, t, h⟩ := ih _
            exact ⟨_, _, .passedOver hc hcall hanswer rfl h⟩
          | false => exact ⟨_, _, .raised hc hcall hanswer rfl⟩

/-- Running a command for sources does what the rules say. -/
theorem runAll_eq_iff {r : Except Fault (Int32 × List (QueuedLine Source))} :
    host.runAll hop forked sources s = (r, t) ↔ Runs host hop forked sources s r t := by
  have hrun {r t} (h : Runs host hop forked sources s r t) :
      host.runAll hop forked sources s = (r, t) := by
    rw [Host.runAll, h.runEach_eq 0 []]
    cases r <;> simp [Except.map]
  refine ⟨fun h => ?_, hrun⟩
  obtain ⟨r', t', h'⟩ := runs_total host hop forked sources s
  cases h.symm.trans (hrun h')
  exact h'

end

/-! ### Whole lines -/

/-- What there is to evaluate. -/
inductive Task (Source Command Modifier : Type) where
  /-- A line that has been read. -/
  | reading (r : Reading Source Command Modifier)
  /-- What is left of a chain, for the sources that have come this far; `forked` says that an
  earlier redirect forks. -/
  | chain (forked : Bool) (hops : List (Context Source Command Modifier))
      (executable : Context Source Command Modifier) (sources : List Source)
  /-- Lines that a stage has queued; `forked` says that it comes after a fork. -/
  | lines (forked : Bool) (queued : List (QueuedLine Source))

/-- Evaluating a task in a session gives a result and leaves another session.  Lines that were
queued count for nothing. -/
inductive Evaluates (tree : Tree Source Command Modifier)
    (host : Host Source Command Modifier State) : Task Source Command Modifier →
    Session Source Command Modifier State → Except Fault Int32 →
    Session Source Command Modifier State → Prop where
  /-- A part of the line is left. -/
  | unread {r : Reading Source Command Modifier} {f : Fault}
      {s : Session Source Command Modifier State} (left : r.syntaxFault? = some f) :
      Evaluates tree host (.reading r) s (.error f) s
  /-- The line ends where nothing can be run: the host is told, and the command is unknown. -/
  | unknown {r : Reading Source Command Modifier} {s : Session Source Command Modifier State}
      (whole : r.syntaxFault? = none)
      (missing : Chain.ofContext? (r.route.context r.cursor.line) = none) :
      Evaluates tree host (.reading r) s (.error (r.cursor.fault .unknownCommand))
        (s.report host (r.route.context r.cursor.line) false 0)
  /-- The line names a chain, which starts with the source of its first context and has not forked.
  -/
  | known {r : Reading Source Command Modifier} {chain : Chain Source Command Modifier}
      {result : Except Fault Int32} {s t : Session Source Command Modifier State}
      (whole : r.syntaxFault? = none)
      (given : Chain.ofContext? (r.route.context r.cursor.line) = some chain)
      (rest : Evaluates tree host (.chain false chain.modifiers chain.executable [chain.top.source])
        s result t) :
      Evaluates tree host (.reading r) s result t
  /-- A fault is raised in a redirect.  Once a redirect forks, all later stages are forked. -/
  | redirectRaises {forked : Bool} {hop executable : Context Source Command Modifier}
      {hops : List (Context Source Command Modifier)} {sources : List Source} {f : Fault}
      {s t : Session Source Command Modifier State}
      (passes : Passes host hop (forked || hop.hop.forks) sources s (.error f) t) :
      Evaluates tree host (.chain forked (hop :: hops) executable sources) s (.error f) t
  /-- Nobody comes out of a redirect, which ends the chain. -/
  | redirectEmpties {forked : Bool} {hop executable : Context Source Command Modifier}
      {hops : List (Context Source Command Modifier)} {sources : List Source}
      {s t : Session Source Command Modifier State}
      (passes : Passes host hop (forked || hop.hop.forks) sources s (.ok []) t) :
      Evaluates tree host (.chain forked (hop :: hops) executable sources) s (.ok 0) t
  /-- All who come out of a redirect go on together. -/
  | redirects {forked : Bool} {hop executable : Context Source Command Modifier}
      {hops : List (Context Source Command Modifier)} {sources next : List Source}
      {result : Except Fault Int32} {s t u : Session Source Command Modifier State}
      (passes : Passes host hop (forked || hop.hop.forks) sources s (.ok next) t)
      (left : next ≠ [])
      (rest : Evaluates tree host (.chain (forked || hop.hop.forks) hops executable next)
        t result u) :
      Evaluates tree host (.chain forked (hop :: hops) executable sources) s result u
  /-- A fault is raised in the last stage, and what the stage has queued is forgotten. -/
  | commandRaises {forked : Bool} {executable : Context Source Command Modifier}
      {sources : List Source} {f : Fault} {s t : Session Source Command Modifier State}
      (runs : Runs host { executable with queues := true } forked sources s (.error f) t) :
      Evaluates tree host (.chain forked [] executable sources) s (.error f) t
  /-- After all sources have run, the lines that were queued are evaluated.  The result is that of
  the runs, unless a fault escapes a line. -/
  | commands {forked : Bool} {executable : Context Source Command Modifier}
      {sources : List Source} {n : Int32} {queued : List (QueuedLine Source)}
      {result : Except Fault Int32} {s t u : Session Source Command Modifier State}
      (runs : Runs host { executable with queues := true } forked sources s (.ok (n, queued)) t)
      (rest : Evaluates tree host (.lines forked queued) t result u) :
      Evaluates tree host (.chain forked [] executable sources) s (result.map fun _ => n) u
  /-- No line is left. -/
  | noLines {forked : Bool} {s : Session Source Command Modifier State} :
      Evaluates tree host (.lines forked []) s (.ok 0) s
  /-- A line comes to its end, and the next one follows. -/
  | lineEnds {forked : Bool} {l : QueuedLine Source} {queued : List (QueuedLine Source)}
      {n : Int32} {result : Except Fault Int32} {s t u : Session Source Command Modifier State}
      (line : Evaluates tree host (.reading (tree.read l.line l.source))
        (s.note (.started l) s.state) (.ok n) t)
      (rest : Evaluates tree host (.lines forked queued) t result u) :
      Evaluates tree host (.lines forked (l :: queued)) s result u
  /-- A fault that escapes a line of a forked stage is swallowed, and the next line follows. -/
  | lineSwallowed {l : QueuedLine Source} {queued : List (QueuedLine Source)} {f : Fault}
      {result : Except Fault Int32} {s t u : Session Source Command Modifier State}
      (line : Evaluates tree host (.reading (tree.read l.line l.source))
        (s.note (.started l) s.state) (.error f) t)
      (rest : Evaluates tree host (.lines true queued) t result u) :
      Evaluates tree host (.lines true (l :: queued)) s result u
  /-- A fault that escapes a line of any other stage is raised, and no other line is started. -/
  | lineRaises {l : QueuedLine Source} {queued : List (QueuedLine Source)} {f : Fault}
      {s t : Session Source Command Modifier State}
      (line : Evaluates tree host (.reading (tree.read l.line l.source))
        (s.note (.started l) s.state) (.error f) t) :
      Evaluates tree host (.lines false (l :: queued)) s (.error f) t

end CommandLines
