/-
What the work on a frame does.

`Does` says once what the work on a frame can come to, one rule for each way a frame goes.
What the calls made on the way have to do with the frame is read off these rules: which
sources were tried, which lines were queued, and how many commands succeeded.  Later files
look at calls and outcomes, and not at the machine.

A stage that comes to its end has tried all its sources, and after a fork every stage comes
to its end.
-/
import CommandLines.Proofs.Execution.Quota
import CommandLines.Proofs.Execution.Refinement

namespace CommandLines

variable {Source Command Modifier State : Type}

/-! ### What calls say -/

namespace Event

/-- The queued line that is started. -/
def started? : Event Source Command Modifier → Option (QueuedLine Source)
  | .started l => some l
  | _ => none

/-- The lines that a command leaves to be run; one that fails leaves none. -/
def queued : Event Source Command Modifier → List (QueuedLine Source)
  | .ran _ ⟨.ok _, queued⟩ => queued
  | _ => []

/-- Whether a command was called and has succeeded. -/
def succeeded : Event Source Command Modifier → Bool
  | .ran _ ⟨.ok _, _⟩ => true
  | _ => false

/-- The source for which a modifier or a command is called. -/
def tried? : Event Source Command Modifier → Option Source
  | .modified context _ => some context.source
  | .ran context _ => some context.source
  | _ => none

/-- The sources that a modifier puts in the place of one; one that fails puts none. -/
def passed : Event Source Command Modifier → List Source
  | .modified _ (.ok sources) => sources
  | _ => []

/-- The call runs no command and starts no line. -/
def Aside : Event Source Command Modifier → Prop
  | .modified _ _ => True
  | .reported _ _ _ => True
  | .ran _ _ => False
  | .started _ => False

theorem Aside.nothing {e : Event Source Command Modifier} (h : e.Aside) :
    e.started? = none ∧ e.queued = [] ∧ e.succeeded = false := by
  cases e with
  | modified | reported => exact ⟨rfl, rfl, rfl⟩
  | ran | started => exact h.elim

variable {events : List (Event Source Command Modifier)}

theorem filterMap_started?_of_aside (h : ∀ e ∈ events, e.Aside) :
    events.filterMap Event.started? = [] :=
  List.filterMap_eq_nil_iff.2 fun e he => (h e he).nothing.1

theorem flatMap_queued_of_aside (h : ∀ e ∈ events, e.Aside) : events.flatMap Event.queued = [] :=
  List.flatMap_eq_nil_iff.2 fun e he => (h e he).nothing.2.1

theorem countP_succeeded_of_aside (h : ∀ e ∈ events, e.Aside) :
    events.countP Event.succeeded = 0 :=
  List.countP_eq_zero.2 fun e he => by simp [(h e he).nothing.2.2]

end Event

@[simp] theorem Context.source_withSource (c : Context Source Command Modifier) (source : Source) :
    (c.withSource source).source = source := rfl

/-- The calls pass all sources through a redirect, and `next` are those that come out.  Without a
modifier they go on as they are. -/
def Context.PassesAll (hop : Context Source Command Modifier) (sources : List Source)
    (calls : List (Event Source Command Modifier)) (next : List Source) : Prop :=
  match hop.hop.modifier? with
  | none => next = sources
  | some _ => calls.filterMap Event.tried? = sources ∧ calls.flatMap Event.passed = next

section Stages

variable {host : Host Source Command Modifier State} {hop : Context Source Command Modifier}
  {forked : Bool} {sources : List Source} {s t : Session Source Command Modifier State}

/-- A redirect that comes to its end has tried all its sources, and does nothing else. -/
theorem Passes.calls {r : Except Fault (List Source)}
    (h : Passes host hop forked sources s r t) :
    ∃ events, t.calls = s.calls ++ events ∧ (∀ e ∈ events, e.Aside) ∧
      ∀ next, r = .ok next → hop.PassesAll sources events next := by
  induction h with
  | done s =>
    refine ⟨[], by simp, by simp, ?_⟩
    rintro next ⟨⟩
    unfold Context.PassesAll
    split <;> simp
  | @unchanged source sources s t r missing _ ih =>
    obtain ⟨events, hcalls, haside, hpasses⟩ := ih
    refine ⟨events, hcalls, haside, ?_⟩
    simp only [Context.PassesAll, missing] at hpasses ⊢
    cases r with
    | error f => simp [Except.map]
    | ok rest => rintro next ⟨⟩; rw [hpasses rest rfl]
  | @replaced source sources next m state s t r given call _ ih =>
    obtain ⟨events, hcalls, haside, hpasses⟩ := ih
    refine ⟨.modified (hop.withSource source) (.ok next) :: events, by simp [hcalls], ?_, ?_⟩
    · exact List.forall_mem_cons.2 ⟨trivial, haside⟩
    · simp only [Context.PassesAll, given] at hpasses ⊢
      cases r with
      | error f => simp [Except.map]
      | ok rest =>
        rintro out ⟨⟩
        obtain ⟨htried, hpassed⟩ := hpasses rest rfl
        simp [Event.tried?, Event.passed, htried, hpassed]
  | @dropped source sources m f state s t r given call fork _ ih =>
    obtain ⟨events, hcalls, haside, hpasses⟩ := ih
    refine ⟨.modified (hop.withSource source) (.error f) ::
      .reported (hop.withSource source) false 0 :: events, by simp [hcalls], ?_, ?_⟩
    · exact List.forall_mem_cons.2 ⟨trivial, List.forall_mem_cons.2 ⟨trivial, haside⟩⟩
    · simp only [Context.PassesAll, given] at hpasses ⊢
      intro next hr
      obtain ⟨htried, hpassed⟩ := hpasses next hr
      simp [Event.tried?, List.filterMap_cons, Event.passed, htried, hpassed]
  | @raised source sources m f state s given call fork =>
    refine ⟨[.modified (hop.withSource source) (.error f),
      .reported (hop.withSource source) false 0], by simp, ?_, by simp⟩
    exact List.forall_mem_cons.2 ⟨trivial, List.forall_mem_cons.2 ⟨trivial, by simp⟩⟩

/-- A stage that runs commands starts no line.  If it comes to its end, the lines it leaves are
those of the commands that have succeeded, all its sources were tried, and after a fork it counts
the commands that have succeeded. -/
theorem Runs.calls {r : Except Fault (Int32 × List (QueuedLine Source))}
    (h : Runs host hop forked sources s r t) :
    ∃ events, t.calls = s.calls ++ events ∧ (∀ e ∈ events, e.started? = none) ∧
      ∀ n queued, r = .ok (n, queued) →
        (hop.queues = true → queued = events.flatMap Event.queued) ∧
        (hop.hop.command?.isSome = true → events.filterMap Event.tried? = sources) ∧
        (forked = true → n = Int32.ofNat (events.countP Event.succeeded)) := by
  induction h with
  | done s =>
    refine ⟨[], by simp, by simp, ?_⟩
    rintro n queued ⟨⟩
    exact ⟨fun _ => rfl, fun _ => rfl, fun _ => rfl⟩
  | @idle source sources s t r missing _ ih =>
    obtain ⟨events, hcalls, hstarted, hruns⟩ := ih
    refine ⟨events, hcalls, hstarted, ?_⟩
    intro n queued hr
    obtain ⟨hqueued, -, hcount⟩ := hruns n queued hr
    exact ⟨hqueued, by simp [missing], hcount⟩
  | @succeeded source sources c k outcome state s t r given call answer _ ih =>
    obtain ⟨events, hcalls, hstarted, hruns⟩ := ih
    obtain ⟨result, lines⟩ := outcome
    obtain rfl : result = .ok k := answer
    refine ⟨.ran (hop.withSource source) ⟨.ok k, lines⟩ ::
      .reported (hop.withSource source) true k :: events, by simp [hcalls], ?_, ?_⟩
    · exact List.forall_mem_cons.2 ⟨rfl, List.forall_mem_cons.2 ⟨rfl, hstarted⟩⟩
    · cases r with
      | error f => simp [Except.map]
      | ok p =>
        rintro n queued ⟨⟩
        obtain ⟨hqueued, htried, hcount⟩ := hruns p.1 p.2 rfl
        refine ⟨?_, ?_, ?_⟩
        · intro hq
          simp [Event.queued, hq, hqueued hq]
        · intro hc
          simp [Event.tried?, List.filterMap_cons, htried hc]
        · intro hf
          rw [if_pos hf, hcount hf, List.countP_cons_of_pos rfl,
            List.countP_cons_of_neg (by simp [Event.succeeded]), Int32.ofNat_add, Int32.add_comm]
          rfl
  | @passedOver source sources c f outcome state s t r given call answer fork _ ih =>
    obtain ⟨events, hcalls, hstarted, hruns⟩ := ih
    obtain ⟨result, lines⟩ := outcome
    obtain rfl : result = .error f := answer
    refine ⟨.ran (hop.withSource source) ⟨.error f, lines⟩ ::
      .reported (hop.withSource source) false 0 :: events, by simp [hcalls], ?_, ?_⟩
    · exact List.forall_mem_cons.2 ⟨rfl, List.forall_mem_cons.2 ⟨rfl, hstarted⟩⟩
    · intro n queued hr
      obtain ⟨hqueued, htried, hcount⟩ := hruns n queued hr
      refine ⟨?_, ?_, ?_⟩
      · intro hq
        simp [Event.queued, hqueued hq]
      · intro hc
        simp [Event.tried?, List.filterMap_cons, htried hc]
      · intro hf
        simp [Event.succeeded, hcount hf]
  | @raised source sources c f outcome state s given call answer fork =>
    refine ⟨[.ran (hop.withSource source) outcome,
      .reported (hop.withSource source) false 0], by simp, ?_, by simp⟩
    exact List.forall_mem_cons.2 ⟨rfl, List.forall_mem_cons.2 ⟨rfl, by simp⟩⟩

/-- After a fork a redirect raises nothing. -/
theorem Passes.ok_of_forked {r : Except Fault (List Source)}
    (h : Passes host hop true sources s r t) : ∃ next, r = .ok next := by
  generalize hf : true = forked at h
  induction h with
  | done s => exact ⟨[], rfl⟩
  | unchanged _ _ ih => obtain ⟨next, rfl⟩ := ih; exact ⟨_, rfl⟩
  | replaced _ _ _ ih => obtain ⟨next, rfl⟩ := ih; exact ⟨_, rfl⟩
  | dropped _ _ _ _ ih => exact ih
  | raised _ _ fork => cases hf.trans fork

/-- After a fork commands raise nothing. -/
theorem Runs.ok_of_forked {r : Except Fault (Int32 × List (QueuedLine Source))}
    (h : Runs host hop true sources s r t) : ∃ n queued, r = .ok (n, queued) := by
  generalize hf : true = forked at h
  induction h with
  | done s => exact ⟨0, [], rfl⟩
  | idle _ _ ih => exact ih
  | succeeded _ _ _ _ ih => obtain ⟨n, queued, rfl⟩ := ih; exact ⟨_, _, rfl⟩
  | passedOver _ _ _ _ _ ih => exact ih
  | raised _ _ _ fork => cases hf.trans fork

end Stages

/-! ### The work on a frame -/

namespace Frame

/-- The queued line that the frame starts. -/
def line? : Frame Source Command Modifier → Option (QueuedLine Source)
  | .line queued => some queued
  | _ => none

/-- Whether the frame is a stage. -/
def isStage : Frame Source Command Modifier → Bool
  | .stage _ _ _ _ => true
  | _ => false

/-- Whether the frame is a stage after a fork. -/
def forked : Frame Source Command Modifier → Bool
  | .stage _ _ forked _ => forked
  | _ => false

/-- Whether the frame is a stage of the chain whose result is asked for. -/
def counts : Frame Source Command Modifier → Bool
  | .stage _ _ _ counts => counts
  | _ => false

end Frame

/-- What the work on a frame can come to. -/
inductive Does (tree : Tree Source Command Modifier) (host : Host Source Command Modifier State) :
    Frame Source Command Modifier → Session Source Command Modifier State →
    Except Fault (Int32 × List (Frame Source Command Modifier)) →
    Session Source Command Modifier State → Prop where
  /-- The last stage runs its command and leaves the lines that were queued. -/
  | commands {executable : Context Source Command Modifier} {sources : List Source}
      {forked counts : Bool} {n : Int32} {queued : List (QueuedLine Source)}
      {s t : Session Source Command Modifier State}
      (runs : Runs host { executable with queues := true } forked sources s (.ok (n, queued)) t) :
      Does tree host (.stage ⟨[], executable⟩ sources forked counts) s
        (.ok (if counts then n else 0, Frame.ofQueued forked queued)) t
  /-- A command raises a fault. -/
  | commandRaises {executable : Context Source Command Modifier} {sources : List Source}
      {forked counts : Bool} {f : Fault} {s t : Session Source Command Modifier State}
      (runs : Runs host { executable with queues := true } forked sources s (.error f) t) :
      Does tree host (.stage ⟨[], executable⟩ sources forked counts) s (.error f) t
  /-- All who come out of a redirect go on together. -/
  | redirects {hop executable : Context Source Command Modifier}
      {hops : List (Context Source Command Modifier)} {sources next : List Source}
      {forked counts : Bool} {s t : Session Source Command Modifier State}
      (passes : Passes host hop (forked || hop.hop.forks) sources s (.ok next) t)
      (left : next ≠ []) :
      Does tree host (.stage ⟨hop :: hops, executable⟩ sources forked counts) s
        (.ok (0, [.stage ⟨hops, executable⟩ next (forked || hop.hop.forks) counts])) t
  /-- Nobody comes out of a redirect. -/
  | redirectEmpties {hop executable : Context Source Command Modifier}
      {hops : List (Context Source Command Modifier)} {sources : List Source}
      {forked counts : Bool} {s t : Session Source Command Modifier State}
      (passes : Passes host hop (forked || hop.hop.forks) sources s (.ok []) t) :
      Does tree host (.stage ⟨hop :: hops, executable⟩ sources forked counts) s (.ok (0, [])) t
  /-- A modifier raises a fault. -/
  | redirectRaises {hop executable : Context Source Command Modifier}
      {hops : List (Context Source Command Modifier)} {sources : List Source}
      {forked counts : Bool} {f : Fault} {s t : Session Source Command Modifier State}
      (passes : Passes host hop (forked || hop.hop.forks) sources s (.error f) t) :
      Does tree host (.stage ⟨hop :: hops, executable⟩ sources forked counts) s (.error f) t
  /-- A queued line is read with the source that it was queued with, and names a chain. -/
  | starts {l : QueuedLine Source} {chain : Chain Source Command Modifier}
      {s : Session Source Command Modifier State}
      (whole : (tree.read l.line l.source).syntaxFault? = none)
      (given : Chain.ofContext? ((tree.read l.line l.source).route.context
        (tree.read l.line l.source).cursor.line) = some chain) :
      Does tree host (.line l) s (.ok (0, [.stage chain [chain.top.source] false false]))
        (s.note (.started l) s.state)
  /-- A part of a queued line is left. -/
  | unread {l : QueuedLine Source} {f : Fault} {s : Session Source Command Modifier State}
      (left : (tree.read l.line l.source).syntaxFault? = some f) :
      Does tree host (.line l) s (.error f) (s.note (.started l) s.state)
  /-- A queued line ends where nothing can be run. -/
  | unknown {l : QueuedLine Source} {s : Session Source Command Modifier State}
      (whole : (tree.read l.line l.source).syntaxFault? = none)
      (missing : Chain.ofContext? ((tree.read l.line l.source).route.context
        (tree.read l.line l.source).cursor.line) = none) :
      Does tree host (.line l) s
        (.error ((tree.read l.line l.source).cursor.fault .unknownCommand))
        ((s.note (.started l) s.state).report host
          ((tree.read l.line l.source).route.context (tree.read l.line l.source).cursor.line)
          false 0)
  /-- A catcher has nothing to do. -/
  | waits {forked : Bool} {s : Session Source Command Modifier State} :
      Does tree host (.catcher forked) s (.ok (0, [])) s

section Work

variable {tree : Tree Source Command Modifier} {host : Host Source Command Modifier State}
  {frame : Frame Source Command Modifier} {s t : Session Source Command Modifier State}
  {r : Except Fault (Int32 × List (Frame Source Command Modifier))}

theorem Machine.work_does (tree : Tree Source Command Modifier)
    (host : Host Source Command Modifier State) (frame : Frame Source Command Modifier)
    (s : Session Source Command Modifier State) :
    Does tree host frame s (work tree host frame s).1 (work tree host frame s).2 := by
  cases frame with
  | stage chain sources forked counts =>
    obtain ⟨hops, executable⟩ := chain
    cases hops with
    | nil =>
      obtain ⟨r, t, hruns⟩ := runs_total host { executable with queues := true } forked sources s
      cases r with
      | ok p => rw [work_commands hruns]; exact .commands hruns
      | error f => rw [work_commandRaises hruns]; exact .commandRaises hruns
    | cons hop hops =>
      obtain ⟨r, t, hpasses⟩ := passes_total host hop (forked || hop.hop.forks) sources s
      cases r with
      | error f => rw [work_redirectRaises hpasses]; exact .redirectRaises hpasses
      | ok next =>
        by_cases hnext : next = []
        · subst hnext
          rw [work_redirectEmpties hpasses]
          exact .redirectEmpties hpasses
        · rw [work_redirects hpasses hnext]
          exact .redirects hpasses hnext
  | line queued =>
    simp only [work]
    cases hfault : (tree.read queued.line queued.source).syntaxFault? with
    | some f => exact .unread hfault
    | none =>
      cases hchain : Chain.ofContext? ((tree.read queued.line queued.source).route.context
          (tree.read queued.line queued.source).cursor.line) with
      | some chain => rw [Reading.chain_of_some hchain]; exact .starts hfault hchain
      | none => rw [Reading.chain_of_none hchain]; exact .unknown hfault hchain
  | catcher forked => exact .waits

/-- The calls of the work on a frame start the line of the frame and no other; what comes of the
frame are the lines that commands have left, each with its catcher, and maybe a stage. -/
theorem Does.calls (h : Does tree host frame s r t) :
    ∃ events, t.calls = s.calls ++ events ∧
      events.filterMap Event.started? = frame.line?.toList ∧
      ∀ k frames, r = .ok (k, frames) →
        ∃ stages, frames = Frame.ofQueued frame.forked (events.flatMap Event.queued) ++ stages ∧
          ∀ stage ∈ stages, stage.isStage = true := by
  cases h with
  | commands runs =>
    obtain ⟨events, hcalls, hstarted, hruns⟩ := runs.calls
    refine ⟨events, hcalls, List.filterMap_eq_nil_iff.2 hstarted, ?_⟩
    rintro k frames ⟨⟩
    refine ⟨[], ?_, by simp⟩
    rw [← (hruns _ _ rfl).1 rfl, List.append_nil]
    rfl
  | commandRaises runs =>
    obtain ⟨events, hcalls, hstarted, -⟩ := runs.calls
    exact ⟨events, hcalls, List.filterMap_eq_nil_iff.2 hstarted, by simp⟩
  | redirects passes left =>
    obtain ⟨events, hcalls, haside, -⟩ := passes.calls
    refine ⟨events, hcalls, Event.filterMap_started?_of_aside haside, ?_⟩
    rintro k frames ⟨⟩
    rw [Event.flatMap_queued_of_aside haside]
    exact ⟨_, rfl, by simp [Frame.isStage]⟩
  | redirectEmpties passes =>
    obtain ⟨events, hcalls, haside, -⟩ := passes.calls
    refine ⟨events, hcalls, Event.filterMap_started?_of_aside haside, ?_⟩
    rintro k frames ⟨⟩
    rw [Event.flatMap_queued_of_aside haside]
    exact ⟨[], rfl, by simp⟩
  | redirectRaises passes =>
    obtain ⟨events, hcalls, haside, -⟩ := passes.calls
    exact ⟨events, hcalls, Event.filterMap_started?_of_aside haside, by simp⟩
  | @starts l chain s whole given =>
    refine ⟨[.started l], by simp, rfl, ?_⟩
    rintro k frames ⟨⟩
    exact ⟨_, rfl, by simp [Frame.isStage]⟩
  | @unread l f s left => exact ⟨[.started l], by simp, rfl, by simp⟩
  | @unknown l s whole missing =>
    exact ⟨[.started l, .reported ((tree.read l.line l.source).route.context
      (tree.read l.line l.source).cursor.line) false 0], by simp, rfl, by simp⟩
  | waits =>
    refine ⟨[], by simp, rfl, ?_⟩
    rintro k frames ⟨⟩
    exact ⟨[], rfl, by simp⟩

/-- A frame of another chain than the one whose result is asked for adds nothing to the total, nor
does what comes of it. -/
theorem Does.uncounted {n : Int32} {frames : List (Frame Source Command Modifier)}
    (h : Does tree host frame s (.ok (n, frames)) t) (hcounts : frame.counts = false) :
    n = 0 ∧ ∀ f ∈ frames, f.counts = false := by
  cases h with
  | @commands executable sources forked counts n queued s t runs =>
    obtain rfl : counts = false := hcounts
    refine ⟨rfl, ?_⟩
    intro f hf
    obtain ⟨l, -, hf⟩ := List.mem_flatMap.1 hf
    simp only [List.mem_cons, List.not_mem_nil, or_false] at hf
    rcases hf with rfl | rfl
    · rfl
    · rfl
  | redirects => exact ⟨rfl, List.forall_mem_singleton.2 hcounts⟩
  | redirectEmpties => exact ⟨rfl, by simp⟩
  | starts => exact ⟨rfl, List.forall_mem_singleton.2 rfl⟩
  | waits => exact ⟨rfl, by simp⟩

end Work

end CommandLines
