/-
Running a chain without a queue.

`Host.executeAll` takes a chain from redirect to redirect and runs its command at the end,
with no stack, no quota and no place to queue lines in.  Where no command queues a line
there is nothing for a stack to keep, so an execution that the quota pays for should do
the very same.

What is left between the two is that commands are told whether they may queue lines, and
so is who hears how they ended.  `Session.Alike` compares sessions but for that, and a host
that does not look at it leads from alike sessions to alike ones, stage by stage.
-/
import CommandLines.Proofs.Execution.Refinement
import CommandLines.Proofs.Execution.Quota
import CommandLines.Tree.Register

namespace CommandLines

variable {Source Command Modifier State : Type}

/-! ### Forgetting the queue -/

/-- The context as one in which no lines may be queued. -/
def Context.unqueued (c : Context Source Command Modifier) : Context Source Command Modifier :=
  { c with queues := false }

/-- The call as one in a context in which no lines may be queued. -/
def Event.unqueued : Event Source Command Modifier → Event Source Command Modifier
  | .modified context result => .modified context.unqueued result
  | .ran context outcome => .ran context.unqueued outcome
  | .reported context success result => .reported context.unqueued success result
  | .started line => .started line

/-- The host does not look at whether lines may be queued. -/
structure Host.IgnoresQueue (host : Host Source Command Modifier State) : Prop where
  run : ∀ c context state, host.run c context state = host.run c context.unqueued state
  report : ∀ context success result state,
    host.report context success result state = host.report context.unqueued success result state

/-- No command queues a line. -/
def Host.QueuesNothing (host : Host Source Command Modifier State) : Prop :=
  ∀ c context state, (host.run c context state).1.queued = []

/-- The host is in the same state, and the same calls were made, if it does not matter whether lines
may be queued. -/
structure Session.Alike (s t : Session Source Command Modifier State) : Prop where
  state : s.state = t.state
  calls : s.calls.map Event.unqueued = t.calls.map Event.unqueued

variable {host : Host Source Command Modifier State} {hop other : Context Source Command Modifier}
  {s t : Session Source Command Modifier State}

namespace Session

theorem Alike.refl (s : Session Source Command Modifier State) : Alike s s := ⟨rfl, rfl⟩

theorem Alike.note (h : Alike s t) {e f : Event Source Command Modifier}
    (heq : e.unqueued = f.unqueued) (state : State) : Alike (s.note e state) (t.note f state) := by
  refine ⟨rfl, ?_⟩
  rw [calls_note, calls_note, List.map_append, List.map_append, h.calls, List.map_singleton,
    List.map_singleton, heq]

theorem Alike.report (h : Alike s t) (ignores : host.IgnoresQueue)
    (heq : hop.unqueued = other.unqueued) (success : Bool) (n : Int32) :
    Alike (s.report host hop success n) (t.report host other success n) := by
  have hevent : (Event.reported hop success n).unqueued =
      (Event.reported other success n).unqueued := by
    rw [Event.unqueued, Event.unqueued, heq]
  rw [Session.report, Session.report, ignores.report hop, ignores.report other, heq, h.state]
  exact h.note hevent _

end Session

open Session

/-! ### Stages -/

section

variable {forked : Bool} {sources : List Source} (ignores : host.IgnoresQueue)

include ignores

/-- A redirect does the same in alike sessions. -/
theorem Passes.alike {r : Except Fault (List Source)}
    {s s' : Session Source Command Modifier State} (h : Passes host hop forked sources s r s') :
    ∀ {t}, Alike s t → ∃ t', Passes host hop forked sources t r t' ∧ Alike s' t' := by
  induction h with
  | done s =>
    intro t h
    exact ⟨t, .done t, h⟩
  | unchanged missing _ ih =>
    intro t h
    obtain ⟨t', hpasses, halike⟩ := ih h
    exact ⟨t', .unchanged missing hpasses, halike⟩
  | replaced given call _ ih =>
    intro t h
    rw [h.state] at call
    obtain ⟨t', hpasses, halike⟩ := ih (h.note rfl _)
    exact ⟨t', .replaced given call hpasses, halike⟩
  | dropped given call fork _ ih =>
    intro t h
    rw [h.state] at call
    obtain ⟨t', hpasses, halike⟩ := ih ((h.note rfl _).report ignores rfl false 0)
    exact ⟨t', .dropped given call fork hpasses, halike⟩
  | raised given call fork =>
    intro t h
    rw [h.state] at call
    exact ⟨_, .raised given call fork, (h.note rfl _).report ignores rfl false 0⟩

/-- A command that queues nothing does the same in alike sessions, whether it may queue lines or
not. -/
theorem Runs.alike (quiet : host.QueuesNothing) (heq : hop.unqueued = other.unqueued)
    {r : Except Fault (Int32 × List (QueuedLine Source))}
    {s s' : Session Source Command Modifier State} (h : Runs host hop forked sources s r s') :
    ∀ {t}, Alike s t → ∃ t', Runs host other forked sources t r t' ∧ Alike s' t' := by
  have hcommand : hop.hop.command? = other.hop.command? := congrArg (fun c => c.hop.command?) heq
  have hcontext (source : Source) :
      (hop.withSource source).unqueued = (other.withSource source).unqueued :=
    congrArg (fun c => c.withSource source) heq
  have hrun (c : Command) (source : Source) (state : State) :
      host.run c (hop.withSource source) state = host.run c (other.withSource source) state := by
    rw [ignores.run, hcontext, ← ignores.run]
  have hnote {s t : Session Source Command Modifier State} (h : Alike s t) (source : Source)
      (outcome : Outcome Source) (state : State) :
      Alike (s.note (.ran (hop.withSource source) outcome) state)
        (t.note (.ran (other.withSource source) outcome) state) :=
    h.note (by rw [Event.unqueued, Event.unqueued, hcontext]) state
  induction h with
  | done s =>
    intro t h
    exact ⟨t, .done t, h⟩
  | idle missing _ ih =>
    intro t h
    obtain ⟨t', hruns, halike⟩ := ih h
    exact ⟨t', .idle (hcommand ▸ missing) hruns, halike⟩
  | @succeeded source sources c n outcome state s s' r given call answer _ ih =>
    intro t h
    rw [hrun, h.state] at call
    have hnone : outcome.queued = [] := by
      simpa only [call] using quiet c (other.withSource source) t.state
    obtain ⟨t', hruns, halike⟩ :=
      ih ((hnote h source outcome state).report ignores (hcontext source) true n)
    refine ⟨t', ?_, halike⟩
    have hruns := Runs.succeeded (hcommand ▸ given) call answer hruns
    simpa only [hnone, ite_self] using hruns
  | passedOver given call answer fork _ ih =>
    intro t h
    rw [hrun, h.state] at call
    obtain ⟨t', hruns, halike⟩ :=
      ih ((hnote h _ _ _).report ignores (hcontext _) false 0)
    exact ⟨t', .passedOver (hcommand ▸ given) call answer fork hruns, halike⟩
  | raised given call answer fork =>
    intro t h
    rw [hrun, h.state] at call
    exact ⟨_, .raised (hcommand ▸ given) call answer fork,
      (hnote h _ _ _).report ignores (hcontext _) false 0⟩

end

/-- Where commands queue nothing no lines are left to be run. -/
theorem Runs.queued_eq_nil (quiet : host.QueuesNothing) {forked : Bool} {sources : List Source}
    {r : Except Fault (Int32 × List (QueuedLine Source))}
    (h : Runs host hop forked sources s r t) : ∀ n queued, r = .ok (n, queued) → queued = [] := by
  induction h with
  | done s => rintro n queued ⟨⟩; rfl
  | idle _ _ ih => exact ih
  | @succeeded source sources c n outcome state s t r given call answer _ ih =>
    have hnone : outcome.queued = [] := by
      simpa only [call] using quiet c (hop.withSource source) s.state
    cases r with
    | error f => simp [Except.map]
    | ok p =>
      rintro n queued ⟨⟩
      simpa [hnone] using ih p.1 p.2 rfl
  | passedOver _ _ _ _ _ ih => exact ih
  | raised => simp

/-! ### Chains -/

section

variable (quiet : host.QueuesNothing) (executable : Context Source Command Modifier)

include quiet

/-- Where commands queue nothing a chain is evaluated by running it. -/
theorem executeFrom_evaluates (tree : Tree Source Command Modifier) :
    ∀ (hops : List (Context Source Command Modifier)) (forked : Bool) (sources : List Source)
      (s : Session Source Command Modifier State),
      Evaluates tree host (.chain forked hops executable sources) s
        (host.executeFrom { executable with queues := true } forked hops sources s).1
        (host.executeFrom { executable with queues := true } forked hops sources s).2 := by
  intro hops
  induction hops with
  | nil =>
    intro forked sources s
    obtain ⟨r, t, hruns⟩ := runs_total host { executable with queues := true } forked sources s
    rw [Host.executeFrom, runAll_eq_iff.2 hruns]
    cases r with
    | error f => exact .commandRaises hruns
    | ok p =>
      obtain ⟨n, queued⟩ := p
      obtain rfl := hruns.queued_eq_nil quiet n queued rfl
      exact .commands hruns .noLines
  | cons hop hops ih =>
    intro forked sources s
    obtain ⟨r, t, hpasses⟩ := passes_total host hop (forked || hop.hop.forks) sources s
    rw [Host.executeFrom, pass_eq_iff.2 hpasses]
    cases r with
    | error f => exact .redirectRaises hpasses
    | ok next =>
      cases next with
      | nil => exact .redirectEmpties hpasses
      | cons source next => exact .redirects hpasses (List.cons_ne_nil source next) (ih _ _ _)

/-- Running a chain does the same in alike sessions, whether lines may be queued or not. -/
theorem executeFrom_alike (ignores : host.IgnoresQueue) :
    ∀ (hops : List (Context Source Command Modifier)) (forked : Bool) (sources : List Source)
      {s t : Session Source Command Modifier State}, Alike s t →
      (host.executeFrom { executable with queues := true } forked hops sources s).1 =
          (host.executeFrom executable forked hops sources t).1 ∧
        Alike (host.executeFrom { executable with queues := true } forked hops sources s).2
          (host.executeFrom executable forked hops sources t).2 := by
  have heq : ({ executable with queues := true } : Context Source Command Modifier).unqueued =
      executable.unqueued := rfl
  intro hops
  induction hops with
  | nil =>
    intro forked sources s t h
    obtain ⟨r, s', hruns⟩ := runs_total host { executable with queues := true } forked sources s
    obtain ⟨t', hruns', halike⟩ := hruns.alike ignores quiet heq h
    rw [Host.executeFrom, Host.executeFrom, runAll_eq_iff.2 hruns, runAll_eq_iff.2 hruns']
    cases r with
    | error f => exact ⟨rfl, halike⟩
    | ok p => exact ⟨rfl, halike⟩
  | cons hop hops ih =>
    intro forked sources s t h
    obtain ⟨r, s', hpasses⟩ := passes_total host hop (forked || hop.hop.forks) sources s
    obtain ⟨t', hpasses', halike⟩ := hpasses.alike ignores h
    rw [Host.executeFrom, Host.executeFrom, pass_eq_iff.2 hpasses, pass_eq_iff.2 hpasses']
    cases r with
    | error f => exact ⟨rfl, halike⟩
    | ok next =>
      cases next with
      | nil => exact ⟨rfl, halike⟩
      | cons source next => exact ih _ _ halike

end

namespace Tree

variable {tree : Tree Source Command Modifier} {quota : Nat} {r : Reading Source Command Modifier}
  {chain : Chain Source Command Modifier}

/--
**Where nothing is queued an execution runs the chain.**

If a line names a chain and the quota pays for its execution, on a host that does not look
at whether lines may be queued and that queues none, then running the chain without a
queue comes to the same result, leaves the host in the same state, and makes the same
calls in the same order.
-/
theorem executeReading_eq_executeAll (whole : r.syntaxFault? = none)
    (given : Chain.ofContext? (r.route.context r.cursor.line) = some chain)
    (ignores : host.IgnoresQueue) (quiet : host.QueuesNothing)
    (paid : ¬tree.CutOff host quota r s) :
    (tree.executeReading host quota r s).1 = (host.executeAll chain chain.top.source s).1 ∧
      (tree.executeReading host quota r s).2.state =
        (host.executeAll chain chain.top.source s).2.state ∧
      (tree.executeReading host quota r s).2.calls.map Event.unqueued =
        (host.executeAll chain chain.top.source s).2.calls.map Event.unqueued := by
  have hevaluates := Evaluates.known whole given
    (executeFrom_evaluates quiet chain.executable tree chain.modifiers false [chain.top.source] s)
  obtain ⟨cost, hcost⟩ := executeReading_of_evaluates hevaluates
  have hle : cost ≤ quota := Nat.le_of_not_lt fun hlt => paid ((hcost quota).1.2 hlt)
  obtain ⟨hresult, halike⟩ := executeFrom_alike quiet chain.executable ignores chain.modifiers false
    [chain.top.source] (Alike.refl s)
  rw [(hcost quota).2 hle]
  exact ⟨hresult, halike.state, halike.calls⟩

end Tree

/-- A tree with a literal `both`, which redirects to the root and forks, and a literal `go`, which
runs a command. -/
def splitTree : Tree Nat Unit Unit :=
  let both : Draft Nat Unit Unit := {
    label := .literal "both"
    redirect? := some { target := .root, modifier? := some (), forks := true } }
  match Tree.empty.addAll .root [both, (Draft.literal "go").runs ()] with
  | .ok t => t
  | .error _ => .empty

/-- A host that lets the next two sources go on for a source, and whose command fails for the source
2. -/
def splitHost : Host Nat Unit Unit Unit where
  run _ context state :=
    (⟨if context.source = 2 then .error ⟨.unknownCommand, none⟩ else .ok 7, []⟩, state)
  modify _ context state := (.ok [context.source + 1, context.source + 2], state)

/-- On `both go` two sources go on, of which one fails, and either way this counts one. -/
theorem executeReading_eq_executeAll_split :
    ∃ chain : Chain Nat Unit Unit,
      (splitTree.read "both go" 0).syntaxFault? = none ∧
      Chain.ofContext? ((splitTree.read "both go" 0).route.context
        (splitTree.read "both go" 0).cursor.line) = some chain ∧
      splitHost.IgnoresQueue ∧ splitHost.QueuesNothing ∧
      ¬splitTree.CutOff splitHost 9 (splitTree.read "both go" 0) ⟨(), []⟩ ∧
      (splitHost.executeAll chain chain.top.source ⟨(), []⟩).1 = .ok 1 ∧
      (splitTree.executeReading splitHost 9 (splitTree.read "both go" 0) ⟨(), []⟩).1 =
        (splitHost.executeAll chain chain.top.source ⟨(), []⟩).1 ∧
      (splitTree.executeReading splitHost 9 (splitTree.read "both go" 0) ⟨(), []⟩).2.state =
        (splitHost.executeAll chain chain.top.source ⟨(), []⟩).2.state ∧
      (splitTree.executeReading splitHost 9 (splitTree.read "both go" 0)
          ⟨(), []⟩).2.calls.map Event.unqueued =
        (splitHost.executeAll chain chain.top.source ⟨(), []⟩).2.calls.map Event.unqueued := by
  have ignores : splitHost.IgnoresQueue := ⟨fun _ _ _ => rfl, fun _ _ _ _ => rfl⟩
  have quiet : splitHost.QueuesNothing := fun _ _ _ => rfl
  have paid : ¬splitTree.CutOff splitHost 9 (splitTree.read "both go" 0) ⟨(), []⟩ := by
    intro hcut
    have hlimit := Tree.executeReading_of_cutOff hcut
    have hresult : (splitTree.executeReading splitHost 9 (splitTree.read "both go" 0)
        ⟨(), []⟩).1 = .ok 1 := rfl
    rw [hresult] at hlimit
    cases hlimit
  exact ⟨_, rfl, rfl, ignores, quiet, paid, rfl,
    Tree.executeReading_eq_executeAll rfl rfl ignores quiet paid⟩

end CommandLines
