/-
What the host is told.

A host hears how each command ends, that a modifier has failed, and that a line which was
read to its end names nothing to be run.  It is told so at several places, by two ways to
run a chain, for the line asked for and for queued ones, and before faults that are raised
as well as before faults that are swallowed.  So a report might be missing on one way, or be
made twice on another.

`Tree.reports` says what the host has to be told directly after a call, and it looks at
nothing but that call.  `Tree.withReports` puts these reports in between the attempts.  What
is called in the end are attempts with their reports, so the reports need no account of
their own: each follows its attempt before anything else is called, and there are no others.

A line that was asked for is not started by a call.  What the host is told of it comes
first, and then nothing else is called.
-/
import CommandLines.Proofs.Execution.Turns

namespace CommandLines

variable {Source Command Modifier State : Type}

/-- Whether the call tells the host how an attempt ended. -/
def Event.isReport : Event Source Command Modifier → Bool
  | .reported _ _ _ => true
  | _ => false

/-- What the host is told of a line that has been read: that it failed, if it was read to its end
and names no chain. -/
def Reading.reports (r : Reading Source Command Modifier) : List (Event Source Command Modifier) :=
  match r.syntaxFault?, Chain.ofContext? (r.route.context r.cursor.line) with
  | none, none => [.reported (r.route.context r.cursor.line) false 0]
  | _, _ => []

namespace Tree

/-- What the host is told directly after a call: with what a command has succeeded or that it has
failed, that a modifier has failed, or that a queued line names no chain. -/
def reports (tree : Tree Source Command Modifier) :
    Event Source Command Modifier → List (Event Source Command Modifier)
  | .ran context ⟨.ok n, _⟩ => [.reported context true n]
  | .ran context ⟨.error _, _⟩ => [.reported context false 0]
  | .modified context (.error _) => [.reported context false 0]
  | .modified _ (.ok _) => []
  | .started l => (tree.read l.line l.source).reports
  | .reported _ _ _ => []

/-- Attempts, each directly followed by what the host is told of it. -/
def withReports (tree : Tree Source Command Modifier)
    (attempts : List (Event Source Command Modifier)) : List (Event Source Command Modifier) :=
  attempts.flatMap fun e => e :: tree.reports e

/-- The host is told of every attempt, directly after it, and of nothing else. -/
def Answers (tree : Tree Source Command Modifier) (calls : List (Event Source Command Modifier)) :
    Prop :=
  ∃ attempts, (∀ e ∈ attempts, e.isReport = false) ∧ calls = tree.withReports attempts

variable {tree : Tree Source Command Modifier}

@[simp] theorem withReports_nil : tree.withReports [] = [] := rfl

@[simp] theorem withReports_cons (e : Event Source Command Modifier)
    (attempts : List (Event Source Command Modifier)) :
    tree.withReports (e :: attempts) = e :: (tree.reports e ++ tree.withReports attempts) := rfl

@[simp] theorem withReports_append (first later : List (Event Source Command Modifier)) :
    tree.withReports (first ++ later) = tree.withReports first ++ tree.withReports later :=
  List.flatMap_append

theorem Answers.flatMap {α : Type} {calls : α → List (Event Source Command Modifier)}
    {parts : List α} (h : ∀ part ∈ parts, tree.Answers (calls part)) :
    tree.Answers (parts.flatMap calls) := by
  induction parts with
  | nil => exact ⟨[], by simp, rfl⟩
  | cons part parts ih =>
    obtain ⟨hpart, hparts⟩ := List.forall_mem_cons.1 h
    obtain ⟨first, hfirst, heq⟩ := hpart
    obtain ⟨later, hlater, hrest⟩ := ih hparts
    refine ⟨first ++ later, ?_, ?_⟩
    · intro e he
      exact (List.mem_append.1 he).elim (hfirst e) (hlater e)
    · rw [List.flatMap_cons, heq, hrest, withReports_append]

end Tree

namespace Reading

variable {r : Reading Source Command Modifier}

theorem reports_of_unread {f : Fault} (left : r.syntaxFault? = some f) : r.reports = [] := by
  simp only [reports, left]

theorem reports_of_chain {chain : Chain Source Command Modifier}
    (given : Chain.ofContext? (r.route.context r.cursor.line) = some chain) : r.reports = [] := by
  unfold reports
  rw [given]
  split
  · next hnone => cases hnone
  · rfl

theorem reports_of_unknown (whole : r.syntaxFault? = none)
    (missing : Chain.ofContext? (r.route.context r.cursor.line) = none) :
    r.reports = [.reported (r.route.context r.cursor.line) false 0] := by
  simp only [reports, whole, missing]

end Reading

/-! ### Stages -/

section Stages

variable {host : Host Source Command Modifier State} {hop : Context Source Command Modifier}
  {forked : Bool} {sources : List Source} {s t : Session Source Command Modifier State}

/-- A redirect attempts nothing but calls of its modifier. -/
theorem Passes.attempts (tree : Tree Source Command Modifier) {r : Except Fault (List Source)}
    (h : Passes host hop forked sources s r t) :
    ∃ attempts, t.calls = s.calls ++ tree.withReports attempts ∧
      ∀ e ∈ attempts, ∃ source result, e = .modified (hop.withSource source) result := by
  induction h with
  | done s => exact ⟨[], by simp, by simp⟩
  | unchanged _ _ ih => exact ih
  | @replaced source sources next m state s t r given call _ ih =>
    obtain ⟨attempts, hcalls, hmodified⟩ := ih
    refine ⟨.modified (hop.withSource source) (.ok next) :: attempts, ?_, ?_⟩
    · simp [hcalls, Tree.reports]
    · exact List.forall_mem_cons.2 ⟨⟨source, .ok next, rfl⟩, hmodified⟩
  | @dropped source sources m f state s t r given call fork _ ih =>
    obtain ⟨attempts, hcalls, hmodified⟩ := ih
    refine ⟨.modified (hop.withSource source) (.error f) :: attempts, ?_, ?_⟩
    · simp [hcalls, Tree.reports]
    · exact List.forall_mem_cons.2 ⟨⟨source, .error f, rfl⟩, hmodified⟩
  | @raised source sources m f state s given call fork =>
    refine ⟨[.modified (hop.withSource source) (.error f)], ?_, ?_⟩
    · simp [Tree.reports]
    · exact List.forall_mem_singleton.2 ⟨source, .error f, rfl⟩

/-- A stage that runs a command attempts nothing but calls of it. -/
theorem Runs.attempts (tree : Tree Source Command Modifier)
    {r : Except Fault (Int32 × List (QueuedLine Source))}
    (h : Runs host hop forked sources s r t) :
    ∃ attempts, t.calls = s.calls ++ tree.withReports attempts ∧
      ∀ e ∈ attempts, ∃ source outcome, e = .ran (hop.withSource source) outcome := by
  induction h with
  | done s => exact ⟨[], by simp, by simp⟩
  | idle _ _ ih => exact ih
  | @succeeded source sources c n outcome state s t r given call answer _ ih =>
    obtain ⟨attempts, hcalls, hran⟩ := ih
    obtain ⟨result, lines⟩ := outcome
    obtain rfl : result = .ok n := answer
    refine ⟨.ran (hop.withSource source) ⟨.ok n, lines⟩ :: attempts, ?_, ?_⟩
    · simp [hcalls, Tree.reports]
    · exact List.forall_mem_cons.2 ⟨⟨source, _, rfl⟩, hran⟩
  | @passedOver source sources c f outcome state s t r given call answer fork _ ih =>
    obtain ⟨attempts, hcalls, hran⟩ := ih
    obtain ⟨result, lines⟩ := outcome
    obtain rfl : result = .error f := answer
    refine ⟨.ran (hop.withSource source) ⟨.error f, lines⟩ :: attempts, ?_, ?_⟩
    · simp [hcalls, Tree.reports]
    · exact List.forall_mem_cons.2 ⟨⟨source, _, rfl⟩, hran⟩
  | @raised source sources c f outcome state s given call answer fork =>
    obtain ⟨result, lines⟩ := outcome
    obtain rfl : result = .error f := answer
    refine ⟨[.ran (hop.withSource source) ⟨.error f, lines⟩], ?_, ?_⟩
    · simp [Tree.reports]
    · exact List.forall_mem_singleton.2 ⟨source, _, rfl⟩

theorem Passes.answers (tree : Tree Source Command Modifier) {r : Except Fault (List Source)}
    (h : Passes host hop forked sources s r t) :
    ∃ events, t.calls = s.calls ++ events ∧ tree.Answers events := by
  obtain ⟨attempts, hcalls, hmodified⟩ := h.attempts tree
  refine ⟨_, hcalls, attempts, ?_, rfl⟩
  intro e he
  obtain ⟨source, result, rfl⟩ := hmodified e he
  rfl

theorem Runs.answers (tree : Tree Source Command Modifier)
    {r : Except Fault (Int32 × List (QueuedLine Source))}
    (h : Runs host hop forked sources s r t) :
    ∃ events, t.calls = s.calls ++ events ∧ tree.Answers events := by
  obtain ⟨attempts, hcalls, hran⟩ := h.attempts tree
  refine ⟨_, hcalls, attempts, ?_, rfl⟩
  intro e he
  obtain ⟨source, outcome, rfl⟩ := hran e he
  rfl

end Stages

/-! ### Chains without a queue -/

/-- A chain that is run without a queue attempts calls of its modifiers and of its command. -/
theorem executeFrom_attempts (tree : Tree Source Command Modifier)
    (host : Host Source Command Modifier State) (executable : Context Source Command Modifier) :
    ∀ (hops : List (Context Source Command Modifier)) (forked : Bool) (sources : List Source)
      (s : Session Source Command Modifier State), ∃ attempts,
      (∀ e ∈ attempts, e.isReport = false ∧ e.started? = none) ∧
        (host.executeFrom executable forked hops sources s).2.calls =
          s.calls ++ tree.withReports attempts := by
  intro hops
  induction hops with
  | nil =>
    intro forked sources s
    obtain ⟨r, t, hruns⟩ := runs_total host executable forked sources s
    obtain ⟨attempts, hcalls, hran⟩ := hruns.attempts tree
    refine ⟨attempts, ?_, ?_⟩
    · intro e he
      obtain ⟨source, outcome, rfl⟩ := hran e he
      exact ⟨rfl, rfl⟩
    · rw [Host.executeFrom, runAll_eq_iff.2 hruns]
      cases r with
      | error f => exact hcalls
      | ok p => exact hcalls
  | cons hop hops ih =>
    intro forked sources s
    obtain ⟨r, t, hpasses⟩ := passes_total host hop (forked || hop.hop.forks) sources s
    obtain ⟨attempts, hcalls, hmodified⟩ := hpasses.attempts tree
    have hattempts : ∀ e ∈ attempts, e.isReport = false ∧ e.started? = none := by
      intro e he
      obtain ⟨source, result, rfl⟩ := hmodified e he
      exact ⟨rfl, rfl⟩
    rw [Host.executeFrom, pass_eq_iff.2 hpasses]
    cases r with
    | error f => exact ⟨attempts, hattempts, hcalls⟩
    | ok next =>
      cases next with
      | nil => exact ⟨attempts, hattempts, hcalls⟩
      | cons source next =>
        obtain ⟨later, hlater, hrest⟩ := ih (forked || hop.hop.forks) (source :: next) t
        refine ⟨attempts ++ later, ?_, ?_⟩
        · intro e he
          exact (List.mem_append.1 he).elim (hattempts e) (hlater e)
        · rw [Tree.withReports_append, ← List.append_assoc, ← hcalls]
          exact hrest

/-! ### Executions -/

section Work

variable {tree : Tree Source Command Modifier} {host : Host Source Command Modifier State}
  {frame : Frame Source Command Modifier} {s t : Session Source Command Modifier State}
  {r : Except Fault (Int32 × List (Frame Source Command Modifier))}

theorem Does.answers (h : Does tree host frame s r t) :
    ∃ events, t.calls = s.calls ++ events ∧ tree.Answers events := by
  have hstarted (l : QueuedLine Source) : tree.Answers (tree.withReports [.started l]) :=
    ⟨[.started l], by simp [Event.isReport], rfl⟩
  cases h with
  | commands runs | commandRaises runs => exact runs.answers tree
  | redirects passes _ | redirectEmpties passes | redirectRaises passes =>
    exact passes.answers tree
  | @starts l chain s whole given =>
    refine ⟨_, ?_, hstarted l⟩
    simp [Tree.reports, Reading.reports_of_chain given]
  | @unread l f s left =>
    refine ⟨_, ?_, hstarted l⟩
    simp [Tree.reports, Reading.reports_of_unread left]
  | @unknown l s whole missing =>
    refine ⟨_, ?_, hstarted l⟩
    simp [Tree.reports, Reading.reports_of_unknown whole missing]
  | waits => exact ⟨[], by simp, [], by simp, rfl⟩

end Work

namespace Tree

variable {tree : Tree Source Command Modifier} {host : Host Source Command Modifier State}
  {quota : Nat} {r : Reading Source Command Modifier}
  {s t : Session Source Command Modifier State} {turns : List (Turn Source Command Modifier)}
  {ending : Option (Except Fault Int32)}

/-- Before any work is done the host is told of the line that was asked for. -/
theorem opening_reports (r : Reading Source Command Modifier)
    (host : Host Source Command Modifier State) (s : Session Source Command Modifier State) :
    (∃ f after, r.opening host [] 0 0 true s = .finished (.error f) after ∧
        after.calls = s.calls ++ r.reports) ∨
      r.reports = [] ∧ ∃ m, r.opening host [] 0 0 true s = .pending m ∧ m.session = s := by
  unfold Reading.opening
  cases hfault : r.syntaxFault? with
  | some f => exact .inl ⟨f, s, rfl, by simp [Reading.reports_of_unread hfault]⟩
  | none =>
    cases hchain : Chain.ofContext? (r.route.context r.cursor.line) with
    | some chain =>
      rw [Reading.chain_of_some hchain]
      exact .inr ⟨Reading.reports_of_chain hchain, _, rfl, rfl⟩
    | none =>
      rw [Reading.chain_of_none hchain]
      exact .inl ⟨_, _, rfl, by simp [Reading.reports_of_unknown hfault hchain]⟩

/-- A course makes its calls turn by turn, after what the host is told of the line. -/
theorem Course.calls_eq (h : tree.Course host quota r s turns ending t) :
    t.calls = s.calls ++ r.reports ++ turns.flatMap Turn.calls := by
  unfold Course at h
  rcases opening_reports r host s with ⟨f, after, hopen, hcalls⟩ | ⟨hnone, m, hopen, hs⟩
  · rw [hopen] at h
    obtain ⟨rfl, -, rfl⟩ := h
    simp [hcalls]
  · rw [hopen] at h
    rw [h.calls, hs, hnone, List.append_nil]

/--
**The host is told of every attempt exactly once, and directly after it.**

Whatever an execution calls, and wherever a fault or the quota cuts it off, it is what the
host is told of the line, and then attempts, each directly followed by its reports.  A
command that succeeds is reported as a success with the result it gave, after a fork, too;
one that fails, a modifier that fails, and a queued line that is read to its end and names
no chain are reported as failures.  There are no other reports.  The same is true where a
chain is run without a queue, and there no lines are started.
-/
theorem reports_follow (tree : Tree Source Command Modifier)
    (host : Host Source Command Modifier State) (quota : Nat)
    (r : Reading Source Command Modifier) (s : Session Source Command Modifier State) :
    (∃ attempts, (∀ e ∈ attempts, e.isReport = false) ∧
      (tree.executeReading host quota r s).2.calls =
        s.calls ++ r.reports ++ tree.withReports attempts) ∧
    ∀ (chain : Chain Source Command Modifier) (source : Source), ∃ attempts,
      (∀ e ∈ attempts, e.isReport = false ∧ e.started? = none) ∧
        (host.executeAll chain source s).2.calls = s.calls ++ tree.withReports attempts := by
  refine ⟨?_, ?_⟩
  · obtain ⟨turns, ending, t, hcourse⟩ := exists_course tree host quota r s
    have hanswers : tree.Answers (turns.flatMap Turn.calls) := by
      refine Answers.flatMap fun turn hturn => ?_
      obtain ⟨frame, u, rfl⟩ := hcourse.exists_turn turn hturn
      obtain ⟨events, hcalls, hevents⟩ := (Machine.work_does tree host frame u).answers
      rwa [Machine.turn_calls_eq hcalls]
    obtain ⟨attempts, hattempts, heq⟩ := hanswers
    refine ⟨attempts, hattempts, ?_⟩
    rw [hcourse.ends.1, hcourse.calls_eq, heq]
  · intro chain source
    exact executeFrom_attempts tree host chain.executable chain.modifiers false [source] s

end Tree

end CommandLines
