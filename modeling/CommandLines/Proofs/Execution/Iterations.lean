/-
Going through a stack item by item.

A round of a machine passes over catchers, works on a frame, and puts what comes of the work where
the frame was, all in one.  Here the same is done with less at a time.  An iteration takes one item
from the stack, and if it is a catcher that is all.  A command that runs puts lines in a queue, and
when it is over they are taken out again and held back, each with its catcher, until the stage is
over; only then does all that is held back go on the stack.  So a fault in the middle of a stage
finds lines that are held back and lines in the queue, and it is for the iteration to clear both.

Lines are queued by commands while they run, and by nothing else.

What belongs together on such a stack is written on its items: whatever comes of a queued line has
the ticket of that line.  Tickets decide nothing.  `work_brings` says once what the work on an item
comes to, next to what the work on its frame comes to for a machine.
-/
import CommandLines.Proofs.Execution.Work

namespace CommandLines

variable {Source Command Modifier State : Type}

/-- The number of a queued line, then that of the line whose chain has queued it, and so on out to
the line that was asked for, which has none. -/
abbrev Ticket := List Nat

/-- A frame with the ticket of a line: its own, for a queued line and its catcher, and for a stage
that of the line whose chain it is a stage of. -/
structure Item (Source Command Modifier : Type) where
  ticket : Ticket
  frame : Frame Source Command Modifier

namespace Item

/-- What is left of a stack when a fault falls through it. -/
def unwind? : List (Item Source Command Modifier) → Option (List (Item Source Command Modifier))
  | [] => none
  | i :: stack => if i.frame.swallows then some stack else unwind? stack

/-- The items of numbered lines that a stage has queued, each with its catcher. -/
def waiting (ticket : Ticket) (forked : Bool) (lines : List (QueuedLine Source × Nat)) :
    List (Item Source Command Modifier) :=
  lines.flatMap fun l => [⟨l.2 :: ticket, .line l.1⟩, ⟨l.2 :: ticket, .catcher forked⟩]

theorem waiting_append (ticket : Ticket) (forked : Bool)
    (lines others : List (QueuedLine Source × Nat)) :
    (waiting ticket forked (lines ++ others) : List (Item Source Command Modifier)) =
      waiting ticket forked lines ++ waiting ticket forked others :=
  List.flatMap_append

theorem map_frame_waiting (ticket : Ticket) (forked : Bool) (lines : List (QueuedLine Source))
    (n : Nat) :
    (waiting ticket forked (lines.zipIdx n)).map Item.frame =
      (Frame.ofQueued forked lines : List (Frame Source Command Modifier)) := by
  induction lines generalizing n with
  | nil => rfl
  | cons l lines ih =>
    have hrest := ih (n + 1)
    rw [waiting, Frame.ofQueued] at hrest ⊢
    simp [List.zipIdx_cons, hrest]

theorem unwind?_map_frame (stack : List (Item Source Command Modifier)) :
    Frame.unwind? (stack.map Item.frame) = (unwind? stack).map (List.map Item.frame) := by
  induction stack with
  | nil => rfl
  | cons i stack ih =>
    rw [List.map_cons, Frame.unwind?, unwind?, ih]
    split <;> rfl

end Item

/-- An execution between two iterations, or in the middle of one. -/
structure Executor (Source Command Modifier State : Type) where
  /-- The items to be worked on, the next one first. -/
  stack : List (Item Source Command Modifier)
  /-- The items that are held back for the stack, the latest first. -/
  pending : List (Item Source Command Modifier) := []
  /-- The lines queued by the command that runs, in order. -/
  queue : List (QueuedLine Source) := []
  /-- How many lines have been given a number. -/
  drawn : Nat := 0
  /-- What has been charged so far. -/
  entries : Nat := 0
  /-- What the runs of the chain asked for add up to. -/
  total : Int32 := 0
  session : Session Source Command Modifier State

/-- What an iteration comes to. -/
inductive Iteration (Source Command Modifier State : Type) where
  /-- The execution is over. -/
  | finished (result : Except Fault Int32) (session : Session Source Command Modifier State)
  /-- Another iteration follows. -/
  | next (e : Executor Source Command Modifier State)

namespace Executor

/-- At the start there is the first stage of the chain asked for. -/
def start (chain : Chain Source Command Modifier) (s : Session Source Command Modifier State) :
    Executor Source Command Modifier State where
  stack := [⟨[], .stage chain [chain.top.source] false true⟩]
  session := s

/-- Hold an item back. -/
def push (item : Item Source Command Modifier) (e : Executor Source Command Modifier State) :
    Executor Source Command Modifier State :=
  { e with pending := item :: e.pending }

/-- Give a line a number, and hold it back with its catcher. -/
def holdLine (ticket : Ticket) (forked : Bool) (e : Executor Source Command Modifier State)
    (l : QueuedLine Source) : Executor Source Command Modifier State :=
  { (e.push ⟨e.drawn :: ticket, .line l⟩).push ⟨e.drawn :: ticket, .catcher forked⟩ with
    drawn := e.drawn + 1 }

/-- Hold back all lines of the queue, which is empty afterwards. -/
def drain (ticket : Ticket) (forked : Bool) (e : Executor Source Command Modifier State) :
    Executor Source Command Modifier State :=
  e.queue.foldl (holdLine ticket forked) { e with queue := [] }

variable (host : Host Source Command Modifier State)

/-- Run the command of a context for a source.  The lines that it queues are in the queue; if it
fails the queue is emptied. -/
def call (hop : Context Source Command Modifier) (forked : Bool) (source : Source)
    (e : Executor Source Command Modifier State) :
    Except Fault Int32 × Executor Source Command Modifier State :=
  match hop.hop.command? with
  | none => (.ok 0, e)
  | some c =>
    let context := hop.withSource source
    let (outcome, state) := host.run c context e.session.state
    let session := e.session.note (.ran context outcome) state
    let queue := e.queue ++ if hop.queues then outcome.queued else []
    match outcome.result with
    | .ok n =>
      (.ok (if forked then 1 else n),
        { e with queue, session := session.report host context true n })
    | .error f =>
      (if forked then .ok 0 else .error f,
        { e with queue := [], session := session.report host context false 0 })

/-- Run the command of a context for sources one after another.  After each run its result is
counted, if it is that of the chain asked for, and its lines are taken out of the queue. -/
def callEach (hop : Context Source Command Modifier) (ticket : Ticket) (forked counts : Bool) :
    List Source → Executor Source Command Modifier State →
    Except Fault Unit × Executor Source Command Modifier State
  | [], e => (.ok (), e)
  | source :: sources, e =>
    match e.call host hop forked source with
    | (.error f, e) => (.error f, e)
    | (.ok n, e) =>
      let counted := { e with total := e.total + if counts then n else 0 }
      callEach hop ticket forked counts sources (counted.drain ticket forked)

variable (tree : Tree Source Command Modifier)

/-- The work on an item that has been taken from the stack. -/
def work (item : Item Source Command Modifier) (e : Executor Source Command Modifier State) :
    Except Fault Unit × Executor Source Command Modifier State :=
  match item.frame with
  | .stage ⟨[], executable⟩ sources forked counts =>
    callEach host { executable with queues := true } item.ticket forked counts sources e
  | .stage ⟨hop :: hops, executable⟩ sources forked counts =>
    let forked := forked || hop.hop.forks
    match host.pass hop forked sources e.session with
    | (.error f, session) => (.error f, { e with session })
    | (.ok [], session) => (.ok (), { e with session })
    | (.ok next, session) =>
      (.ok (), { e with session }.push ⟨item.ticket, .stage ⟨hops, executable⟩ next forked counts⟩)
  | .line queued =>
    let s := e.session.note (.started queued) e.session.state
    let reading := tree.read queued.line queued.source
    match reading.syntaxFault? with
    | some f => (.error f, { e with session := s })
    | none =>
      match reading.chain host s with
      | (.error f, session) => (.error f, { e with session })
      | (.ok chain, session) =>
        (.ok (), { e with session }.push ⟨item.ticket, .stage chain [chain.top.source] false false⟩)
  | .catcher _ => (.ok (), e)

/-- Take an item off the stack, and charge for it. -/
def pop (item : Item Source Command Modifier) (stack : List (Item Source Command Modifier))
    (e : Executor Source Command Modifier State) : Executor Source Command Modifier State :=
  { e with stack, entries := e.entries + item.frame.weight }

/-- After the work on an item what is held back goes on the stack, the first of it on top.  A fault
clears it, and the queue, and falls on the stack. -/
def settle : Except Fault Unit × Executor Source Command Modifier State →
    Iteration Source Command Modifier State
  | (.ok (), e) => .next { e with stack := e.pending.reverse ++ e.stack, pending := [] }
  | (.error f, e) =>
    match Item.unwind? e.stack with
    | some stack => .next { e with stack, pending := [], queue := [] }
    | none => .finished (.error f) e.session

/-- One iteration.  A catcher is dropped, and anything else is charged for and worked on. -/
def iterate (quota : Nat) (e : Executor Source Command Modifier State) :
    Iteration Source Command Modifier State :=
  match e.stack with
  | [] => .finished (.ok e.total) e.session
  | item :: stack =>
    if item.frame.isCatcher then .next { e with stack }
    else if quota < e.entries + item.frame.weight then
      .finished (.error ⟨.limitReached quota, none⟩) e.session
    else settle ((e.pop item stack).work host tree item)

/-- Iterations lead from the first executor to the second. -/
inductive Reaches (quota : Nat) :
    Executor Source Command Modifier State → Executor Source Command Modifier State → Prop where
  | refl (e : Executor Source Command Modifier State) : Reaches quota e e
  | step {e d c : Executor Source Command Modifier State}
      (h : e.iterate host tree quota = .next d) (rest : Reaches quota d c) : Reaches quota e c

/-! ### What the work comes to -/

/-- A stage that comes to its end holds lines back, and its runs may add to the total. -/
def leave (ticket : Ticket) (forked : Bool) (n : Int32) (lines : List (QueuedLine Source))
    (session : Session Source Command Modifier State)
    (e : Executor Source Command Modifier State) : Executor Source Command Modifier State :=
  { e with
    pending := (Item.waiting ticket forked (lines.zipIdx e.drawn)).reverse ++ e.pending
    drawn := e.drawn + lines.length
    total := e.total + n
    session }

/-- The work on a frame was broken off by a fault.  What is on the stack was not touched. -/
structure BreaksOff (counts : Bool) (e d : Executor Source Command Modifier State) : Prop where
  stack : d.stack = e.stack
  entries : d.entries = e.entries
  drawn : e.drawn ≤ d.drawn
  total : counts = false → d.total = e.total

/-- What running a command for sources one after another comes to where the same comes to a result
and lines, or to a fault, and leaves a session. -/
inductive Leaves (ticket : Ticket) (forked counts : Bool)
    (e : Executor Source Command Modifier State) :
    Except Fault (Int32 × List (QueuedLine Source)) → Session Source Command Modifier State →
    Except Fault Unit × Executor Source Command Modifier State → Prop where
  /-- The lines are held back, and the result counts if it is asked for. -/
  | lines (n : Int32) (lines : List (QueuedLine Source))
      (t : Session Source Command Modifier State) :
      Leaves ticket forked counts e (.ok (n, lines)) t
        (.ok (), e.leave ticket forked (if counts then n else 0) lines t)
  /-- A fault is raised. -/
  | fault {f : Fault} {d : Executor Source Command Modifier State}
      (breaksOff : e.BreaksOff counts d) :
      Leaves ticket forked counts e (.error f) d.session (.error f, d)

/-- What the work on an item comes to where the work on its frame comes to an outcome and leaves a
session. -/
inductive Brings (item : Item Source Command Modifier)
    (e : Executor Source Command Modifier State) :
    Except Fault (Int32 × List (Frame Source Command Modifier)) →
    Session Source Command Modifier State →
    Except Fault Unit × Executor Source Command Modifier State → Prop where
  /-- Lines are held back, under the ticket of the item. -/
  | lines (forked : Bool) (n : Int32) (lines : List (QueuedLine Source))
      (t : Session Source Command Modifier State) :
      Brings item e (.ok (n, Frame.ofQueued forked lines)) t
        (.ok (), e.leave item.ticket forked n lines t)
  /-- A stage is held back, with the ticket of the item. -/
  | stage (chain : Chain Source Command Modifier) (sources : List Source) (forked : Bool)
      (t : Session Source Command Modifier State) :
      Brings item e (.ok (0, [.stage chain sources forked item.frame.counts])) t
        (.ok (), { e with session := t }.push
          ⟨item.ticket, .stage chain sources forked item.frame.counts⟩)
  /-- A fault is raised. -/
  | fault {f : Fault} {d : Executor Source Command Modifier State}
      (breaksOff : e.BreaksOff item.frame.counts d) :
      Brings item e (.error f) d.session (.error f, d)

variable {host tree} {e : Executor Source Command Modifier State} {quota : Nat}

theorem leave_nil (ticket : Ticket) (forked : Bool)
    (session : Session Source Command Modifier State) :
    e.leave ticket forked 0 [] session = { e with session } := by
  simp [leave, Item.waiting]

theorem leave_leave (ticket : Ticket) (forked : Bool) (m n : Int32)
    (lines others : List (QueuedLine Source)) (s t : Session Source Command Modifier State) :
    (e.leave ticket forked m lines s).leave ticket forked n others t =
      e.leave ticket forked (m + n) (lines ++ others) t := by
  simp [leave, List.zipIdx_append, Item.waiting_append, Int32.add_assoc, Nat.add_assoc]

theorem foldl_holdLine (ticket : Ticket) (forked : Bool) (lines : List (QueuedLine Source))
    (e : Executor Source Command Modifier State) :
    lines.foldl (holdLine ticket forked) e = e.leave ticket forked 0 lines e.session := by
  induction lines generalizing e with
  | nil => simp [leave_nil]
  | cons l lines ih =>
    rw [List.foldl_cons, ih]
    simp [holdLine, push, leave, Item.waiting, List.zipIdx_cons, Nat.add_comm, Nat.add_left_comm]

theorem drain_eq (h : e.queue = []) (ticket : Ticket) (forked : Bool) (n : Int32)
    (lines : List (QueuedLine Source)) (t : Session Source Command Modifier State) :
    drain ticket forked { e with queue := lines, total := e.total + n, session := t } =
      e.leave ticket forked n lines t := by
  obtain ⟨stack, pending, queue, drawn, entries, total, session⟩ := e
  obtain rfl : queue = [] := h
  rw [drain, foldl_holdLine]
  simp [leave]

/-- A run of a command for one source.  Its lines are in the queue, unless it fails. -/
theorem call_eq (h : e.queue = []) (hop : Context Source Command Modifier) (forked : Bool)
    (source : Source) :
    e.call host hop forked source =
      match host.runOne hop forked source e.session with
      | (.ok (n, lines), t) => (.ok n, { e with queue := lines, session := t })
      | (.error f, t) => (.error f, { e with session := t }) := by
  obtain ⟨stack, pending, queue, drawn, entries, total, session⟩ := e
  obtain rfl : queue = [] := h
  unfold call Host.runOne
  cases hop.hop.command? with
  | none => rfl
  | some c =>
    cases hcall : host.run c (hop.withSource source) session.state with
    | mk outcome state =>
      simp only [hcall]
      cases outcome.result with
      | ok n => rfl
      | error f => cases forked <;> rfl

/-- A run that succeeds is counted, and its lines are held back. -/
theorem callEach_of_ok (h : e.queue = []) {hop : Context Source Command Modifier} {forked : Bool}
    {source : Source} {n : Int32} {lines : List (QueuedLine Source)}
    {t : Session Source Command Modifier State}
    (hrun : host.runOne hop forked source e.session = (.ok (n, lines), t)) (ticket : Ticket)
    (counts : Bool) (sources : List Source) :
    callEach host hop ticket forked counts (source :: sources) e =
      callEach host hop ticket forked counts sources
        (e.leave ticket forked (if counts then n else 0) lines t) := by
  rw [callEach, call_eq h, hrun, ← drain_eq h]

/-- A run that fails ends the stage. -/
theorem callEach_of_error (h : e.queue = []) {hop : Context Source Command Modifier} {forked : Bool}
    {source : Source} {f : Fault} {t : Session Source Command Modifier State}
    (hrun : host.runOne hop forked source e.session = (.error f, t)) (ticket : Ticket)
    (counts : Bool) (sources : List Source) :
    callEach host hop ticket forked counts (source :: sources) e =
      (.error f, { e with session := t }) := by
  rw [callEach, call_eq h, hrun]

/-- Running a command for sources, when `n` and `queued` have come of the sources before these. -/
theorem callEach_leaves (h : e.queue = []) (host : Host Source Command Modifier State)
    (hop : Context Source Command Modifier) (ticket : Ticket) (forked counts : Bool)
    (sources : List Source) (n : Int32) (queued : List (QueuedLine Source))
    (s : Session Source Command Modifier State) :
    Leaves ticket forked counts e (host.runEach hop forked n queued sources s).1
      (host.runEach hop forked n queued sources s).2
      (callEach host hop ticket forked counts sources
        (e.leave ticket forked (if counts then n else 0) queued.reverse s)) := by
  induction sources generalizing n queued s with
  | nil => exact .lines n queued.reverse s
  | cons source sources ih =>
    have hbefore :
        (e.leave ticket forked (if counts then n else 0) queued.reverse s).queue = [] := h
    rw [Host.runEach]
    cases hrun : host.runOne hop forked source s with
    | mk outcome t =>
      cases outcome with
      | error f =>
        have htotal : counts = false →
            (e.leave ticket forked (if counts then n else 0) queued.reverse s).total = e.total := by
          intro hcounts
          simp [leave, hcounts]
        rw [callEach_of_error hbefore hrun]
        exact .fault (d := { e.leave ticket forked _ queued.reverse s with session := t })
          ⟨rfl, rfl, Nat.le_add_right .., htotal⟩
      | ok p =>
        obtain ⟨m, lines⟩ := p
        have hcount : (if counts then n else 0) + (if counts then m else 0) =
            if counts then n + m else (0 : Int32) := by
          cases counts <;> simp
        have hlines : queued.reverse ++ lines = (lines.reverse ++ queued).reverse := by simp
        rw [callEach_of_ok hbefore hrun, leave_leave, hcount, hlines]
        exact ih (n + m) (lines.reverse ++ queued) t

/-- A fault is raised, and nothing else has come of the work. -/
theorem Brings.fault_session (item : Item Source Command Modifier)
    (e : Executor Source Command Modifier State) (f : Fault)
    (t : Session Source Command Modifier State) :
    Brings item e (.error f) t (.error f, { e with session := t }) :=
  .fault (d := { e with session := t }) ⟨rfl, rfl, Nat.le_refl _, fun _ => rfl⟩

/-- Nothing comes of the work. -/
theorem Brings.nothing (item : Item Source Command Modifier)
    (e : Executor Source Command Modifier State) (t : Session Source Command Modifier State) :
    Brings item e (.ok (0, [])) t (.ok (), { e with session := t }) := by
  rw [← leave_nil item.ticket false]
  exact .lines false 0 [] t

/-- The work on an item that is no catcher, with nothing in the queue, next to that on its frame. -/
theorem work_brings (tree : Tree Source Command Modifier)
    (host : Host Source Command Modifier State) {item : Item Source Command Modifier}
    (hitem : item.frame.isCatcher = false) (h : e.queue = []) :
    Brings item e (Machine.work tree host item.frame e.session).1
      (Machine.work tree host item.frame e.session).2 (e.work host tree item) := by
  obtain ⟨ticket, frame⟩ := item
  cases frame with
  | stage chain sources forked counts =>
    obtain ⟨hops, executable⟩ := chain
    cases hops with
    | nil =>
      have hstage := callEach_leaves h host { executable with queues := true } ticket forked counts
        sources 0 [] e.session
      rw [List.reverse_nil, ite_self, leave_nil] at hstage
      simp only [Machine.work, work, Host.runAll]
      generalize Host.runEach .. = outcome at hstage ⊢
      generalize callEach .. = done at hstage ⊢
      obtain ⟨result, t⟩ := outcome
      cases hstage with
      | lines n lines t => exact .lines forked _ lines t
      | fault breaksOff => exact .fault breaksOff
    | cons hop hops =>
      simp only [Machine.work, work]
      cases host.pass hop (forked || hop.hop.forks) sources e.session with
      | mk outcome t =>
        cases outcome with
        | error f => exact .fault_session _ e f t
        | ok next =>
          cases next with
          | nil => exact .nothing _ e t
          | cons source next => exact .stage ..
  | line queued =>
    simp only [Machine.work, work]
    cases (tree.read queued.line queued.source).syntaxFault? with
    | some f => exact .fault_session _ e f _
    | none =>
      cases (tree.read queued.line queued.source).chain host
          (e.session.note (.started queued) e.session.state) with
      | mk outcome t =>
        cases outcome with
        | error f => exact .fault_session _ e f t
        | ok chain => exact .stage ..
  | catcher forked => cases hitem

/-! ### One iteration -/

theorem settle_leave (h : e.pending = []) (ticket : Ticket) (forked : Bool) (n : Int32)
    (lines : List (QueuedLine Source)) (t : Session Source Command Modifier State) :
    settle (.ok (), e.leave ticket forked n lines t) =
      .next { e with
        stack := Item.waiting ticket forked (lines.zipIdx e.drawn) ++ e.stack
        pending := []
        drawn := e.drawn + lines.length
        total := e.total + n
        session := t } := by
  simp [settle, leave, h]

theorem settle_push (h : e.pending = []) (item : Item Source Command Modifier) :
    settle (.ok (), e.push item) = .next { e with stack := item :: e.stack, pending := [] } := by
  simp [settle, push, h]

section Iterate

variable {item : Item Source Command Modifier} {stack : List (Item Source Command Modifier)}

theorem iterate_nil (h : e.stack = []) :
    e.iterate host tree quota = .finished (.ok e.total) e.session := by
  rw [iterate, h]

theorem iterate_catcher (h : e.stack = item :: stack) (hitem : item.frame.isCatcher = true) :
    e.iterate host tree quota = .next { e with stack } := by
  simp only [iterate, h, hitem, if_true]

theorem iterate_unpaid (h : e.stack = item :: stack) (hitem : item.frame.isCatcher = false)
    (hquota : quota < e.entries + item.frame.weight) :
    e.iterate host tree quota = .finished (.error ⟨.limitReached quota, none⟩) e.session := by
  simp only [iterate, h, hitem, Bool.false_eq_true, if_false, if_pos hquota]

theorem iterate_paid (h : e.stack = item :: stack) (hitem : item.frame.isCatcher = false)
    (hquota : ¬quota < e.entries + item.frame.weight) :
    e.iterate host tree quota = settle ((e.pop item stack).work host tree item) := by
  simp only [iterate, h, hitem, Bool.false_eq_true, if_false, if_neg hquota]

end Iterate

end Executor

end CommandLines
