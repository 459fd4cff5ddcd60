/-
The machine does what evaluation says.

A task that has a derivation is worked off by the machine on top of whatever else is on
the stack, at a cost that depends on the derivation only: what is below it is reached
just when the quota pays for that cost, with the session that evaluation leaves.  If the
task raises a fault, the fault falls on what is below.  `opening_completes_iff` says this
by induction on the derivation, for any stack, so the rule for a queued line can use it
with the catcher and the later lines below.

The other way round, an execution that is not cut off has a derivation.  This is an
induction on what is left of the quota.  Stages are charged, and a queued line is charged
before it is read, so each task that a rule asks for has less of the quota left.

Both are said of `Completes`, which is to end without being cut off.  A fault that says
that the quota is spent may also be raised by a command, so the result alone does not
tell.
-/
import CommandLines.Proofs.Execution.Evaluation
import CommandLines.Proofs.Execution.Rounds

namespace CommandLines

variable {Source Command Modifier State : Type}

namespace Machine

variable (tree : Tree Source Command Modifier) (host : Host Source Command Modifier State)

/-- The machine ends with the result and the session, and is not cut off. -/
def Completes (quota : Nat) (m : Machine Source Command Modifier State)
    (result : Except Fault Int32) (session : Session Source Command Modifier State) : Prop :=
  m.Ends tree host quota result session ∧ ¬m.CutOff tree host quota

end Machine

/-- An execution ends with the result and the session after a round, and is not cut off. -/
def Round.Completes (tree : Tree Source Command Modifier)
    (host : Host Source Command Modifier State) (quota : Nat)
    (round : Round Source Command Modifier State) (result : Except Fault Int32)
    (session : Session Source Command Modifier State) : Prop :=
  round.Ends tree host quota result session ∧ ¬round.CutOff tree host quota

/-- An execution completes after the first round just as it does after the second, if the quota has
at least so many entries. -/
def Round.Becomes (tree : Tree Source Command Modifier)
    (host : Host Source Command Modifier State) (quota : Nat)
    (first : Round Source Command Modifier State) (least : Nat)
    (second : Round Source Command Modifier State) : Prop :=
  ∀ answer final, first.Completes tree host quota answer final ↔
    least ≤ quota ∧ second.Completes tree host quota answer final

namespace Round

variable {tree : Tree Source Command Modifier} {host : Host Source Command Modifier State}
  {quota least more : Nat} {first second third : Round Source Command Modifier State}

theorem Becomes.refl (hle : least ≤ quota) : Becomes tree host quota first least first :=
  fun _ _ => (and_iff_right hle).symm

theorem Becomes.trans (h : Becomes tree host quota first least second)
    (k : least ≤ quota → Becomes tree host quota second more third) (hle : least ≤ more) :
    Becomes tree host quota first more third := by
  intro answer final
  rw [h]
  constructor
  · intro hfirst
    obtain ⟨hleast, hsecond⟩ := hfirst
    exact (k hleast answer final).1 hsecond
  · intro hthird
    obtain ⟨hmore, hthird⟩ := hthird
    have hleast := Nat.le_trans hle hmore
    exact ⟨hleast, (k hleast answer final).2 ⟨hmore, hthird⟩⟩

end Round

namespace Machine

variable {tree : Tree Source Command Modifier} {host : Host Source Command Modifier State}
  {quota : Nat} {m : Machine Source Command Modifier State}
  {stack : List (Frame Source Command Modifier)} {entries : Nat} {total : Int32}
  {s t : Session Source Command Modifier State} {result : Except Fault Int32}

/-! ### One frame -/

/-- A machine completes as the round that does not look at the quota does, if the quota pays. -/
theorem completes_iff_advance :
    m.Completes tree host quota result t ↔
      m.overdraws quota = false ∧ (m.advance tree host).Completes tree host quota result t := by
  cases hq : m.overdraws quota with
  | true =>
    have hstep : m.step tree host quota = _ := step_of_overdraws hq
    have hcut := (cutOff_finished_iff hstep).2 hq
    simp [Completes, hcut]
  | false =>
    have hstep : m.step tree host quota = _ := step_of_not_overdraws hq
    cases hadv : m.advance tree host with
    | finished r u =>
      rw [hadv] at hstep
      simp [Completes, Round.Completes, Round.Ends, Round.CutOff, ends_finished_iff hstep,
        cutOff_finished_iff hstep, hq]
    | pending n =>
      rw [hadv] at hstep
      simp [Completes, Round.Completes, Round.Ends, Round.CutOff, ends_pending_iff hstep,
        cutOff_pending_iff hstep]

/-- A frame is worked off if the quota pays for it. -/
theorem becomes_settle {frame : Frame Source Command Modifier} (h : frame.isCatcher = false) :
    Round.Becomes tree host quota
      (.pending { stack := frame :: stack, entries, total, session := s }) (entries + frame.weight)
      (settle (work tree host frame s) stack (entries + frame.weight) total) := by
  intro answer final
  have hstack : (frame :: stack).dropWhile Frame.isCatcher = frame :: stack :=
    List.dropWhile_cons_of_neg (by simp [h])
  show Completes .. ↔ _
  rw [completes_iff_advance, advance_cons hstack]
  simp [overdraws, hstack]

/-- A catcher that nothing falls on is passed over. -/
theorem becomes_below_catcher {forked : Bool} (hle : entries ≤ quota) :
    Round.Becomes tree host quota
      (.pending { stack := .catcher forked :: stack, entries, total, session := s }) entries
      (.pending { stack, entries, total, session := s }) := by
  intro answer final
  have hstack : (Frame.catcher forked :: stack).dropWhile Frame.isCatcher =
      stack.dropWhile Frame.isCatcher :=
    List.dropWhile_cons_of_pos rfl
  rw [and_iff_right hle]
  show Completes .. ↔ Completes ..
  rw [completes_iff_advance, completes_iff_advance]
  simp only [overdraws, advance, hstack]

/-! ### Faults that fall -/

theorem fall_line {f : Fault} {l : QueuedLine Source} :
    fall f (.line l :: stack) entries total s = fall f stack entries total s := rfl

/-- A catcher of a forked stage stops a fault. -/
theorem fall_catcher_true {f : Fault} :
    fall f (.catcher true :: stack) entries total s =
      .pending { stack, entries, total, session := s } := rfl

theorem fall_catcher_false {f : Fault} :
    fall f (.catcher false :: stack) entries total s = fall f stack entries total s := rfl

/-- The lines of a stage that is not forked do not stop a fault. -/
theorem fall_ofQueued {f : Fault} (queued : List (QueuedLine Source)) :
    fall f (Frame.ofQueued false queued ++ stack) entries total s =
      fall f stack entries total s := by
  induction queued with
  | nil => rfl
  | cons l queued ih =>
    show fall f (.line l :: .catcher false :: (Frame.ofQueued false queued ++ stack))
      entries total s = _
    rw [fall_line, fall_catcher_false, ih]

/-- Where nothing stops a fault the total does not matter. -/
theorem fall_of_unwind {f : Fault} (h : Frame.unwind? stack = none) :
    fall f stack entries total s = .finished (.error f) s := by
  rw [fall, h]

end Machine

open Machine

/-! ### Tasks on a stack -/

/-- The round that a task on top of a stack begins with.  `counts` says that the chain is the one
whose result is asked for. -/
def Task.opening (host : Host Source Command Modifier State)
    (stack : List (Frame Source Command Modifier)) (entries : Nat) (total : Int32) (counts : Bool)
    (s : Session Source Command Modifier State) :
    Task Source Command Modifier → Round Source Command Modifier State
  | .reading r => r.opening host stack entries total counts s
  | .chain forked hops executable sources =>
    .pending {
      stack := .stage ⟨hops, executable⟩ sources forked counts :: stack, entries, total,
      session := s }
  | .lines forked queued =>
    .pending { stack := Frame.ofQueued forked queued ++ stack, entries, total, session := s }

/-- The round that the result of a task comes to for the stack below. -/
def closing (result : Except Fault Int32) (stack : List (Frame Source Command Modifier))
    (entries : Nat) (total : Int32) (counts : Bool)
    (s : Session Source Command Modifier State) : Round Source Command Modifier State :=
  match result with
  | .ok n => .pending { stack, entries, total := total + (if counts then n else 0), session := s }
  | .error f => fall f stack entries total s

theorem settle_frames {frames stack : List (Frame Source Command Modifier)} {entries : Nat}
    {total : Int32} {s : Session Source Command Modifier State} :
    settle (.ok (0, frames), s) stack entries total =
      .pending { stack := frames ++ stack, entries, total, session := s } := by
  simp [settle]

theorem settle_nothing {stack : List (Frame Source Command Modifier)} {entries : Nat}
    {total : Int32} (counts : Bool) {s : Session Source Command Modifier State} :
    settle (.ok (0, []), s) stack entries total = closing (.ok 0) stack entries total counts s := by
  simp [settle, closing]

/-- What the lines of a stage come to when the stage has been added to the total: they count for
nothing, so the result is that of the stage. -/
theorem closing_map {result : Except Fault Int32} {stack : List (Frame Source Command Modifier)}
    {entries : Nat} {total n : Int32} {counts : Bool}
    {s : Session Source Command Modifier State}
    (h : counts = true → Frame.unwind? stack = none) :
    closing result stack entries (total + if counts then n else 0) false s =
      closing (result.map fun _ => n) stack entries total counts s := by
  cases result with
  | ok v => simp [closing, Except.map]
  | error f =>
    cases counts with
    | true => simp [closing, Except.map, fall_of_unwind (h rfl)]
    | false => simp [closing, Except.map]

variable {tree : Tree Source Command Modifier} {host : Host Source Command Modifier State}

section

variable {forked counts : Bool} {hop executable : Context Source Command Modifier}
  {hops : List (Context Source Command Modifier)} {sources next : List Source} {f : Fault}
  {n : Int32} {queued : List (QueuedLine Source)} {s t : Session Source Command Modifier State}

/-- A stage that has a redirect to follow passes its sources through it. -/
theorem work_hop :
    work tree host (.stage ⟨hop :: hops, executable⟩ sources forked counts) s =
      match host.pass hop (forked || hop.hop.forks) sources s with
      | (.error f, s) => (.error f, s)
      | (.ok [], s) => (.ok (0, []), s)
      | (.ok next, s) =>
        (.ok (0, [.stage ⟨hops, executable⟩ next (forked || hop.hop.forks) counts]), s) := rfl

/-- A stage without one runs its command for all its sources. -/
theorem work_executable :
    work tree host (.stage ⟨[], executable⟩ sources forked counts) s =
      match host.runAll { executable with queues := true } forked sources s with
      | (.error f, s) => (.error f, s)
      | (.ok (n, queued), s) =>
        (.ok (if counts then n else 0, Frame.ofQueued forked queued), s) := rfl

theorem work_redirectRaises (h : Passes host hop (forked || hop.hop.forks) sources s (.error f) t) :
    work tree host (.stage ⟨hop :: hops, executable⟩ sources forked counts) s = (.error f, t) := by
  rw [work_hop, pass_eq_iff.2 h]

theorem work_redirectEmpties (h : Passes host hop (forked || hop.hop.forks) sources s (.ok []) t) :
    work tree host (.stage ⟨hop :: hops, executable⟩ sources forked counts) s =
      (.ok (0, []), t) := by
  rw [work_hop, pass_eq_iff.2 h]

theorem work_redirects (h : Passes host hop (forked || hop.hop.forks) sources s (.ok next) t)
    (left : next ≠ []) :
    work tree host (.stage ⟨hop :: hops, executable⟩ sources forked counts) s =
      (.ok (0, [.stage ⟨hops, executable⟩ next (forked || hop.hop.forks) counts]), t) := by
  cases next with
  | nil => exact absurd rfl left
  | cons source next => rw [work_hop, pass_eq_iff.2 h]

theorem work_commandRaises
    (h : Runs host { executable with queues := true } forked sources s (.error f) t) :
    work tree host (.stage ⟨[], executable⟩ sources forked counts) s = (.error f, t) := by
  rw [work_executable, runAll_eq_iff.2 h]

theorem work_commands
    (h : Runs host { executable with queues := true } forked sources s (.ok (n, queued)) t) :
    work tree host (.stage ⟨[], executable⟩ sources forked counts) s =
      (.ok (if counts then n else 0, Frame.ofQueued forked queued), t) := by
  rw [work_executable, runAll_eq_iff.2 h]

end

/-- The work on a queued line is to read it and to begin with what has been read. -/
theorem settle_line (l : QueuedLine Source) (s : Session Source Command Modifier State)
    (stack : List (Frame Source Command Modifier)) (entries : Nat) (total : Int32) :
    settle (work tree host (.line l) s) stack entries total =
      (tree.read l.line l.source).opening host stack entries total false
        (s.note (.started l) s.state) := by
  simp only [work, Reading.opening]
  cases (tree.read l.line l.source).syntaxFault? with
  | some f => rfl
  | none =>
    cases hchain : (tree.read l.line l.source).chain host (s.note (.started l) s.state) with
    | mk outcome u =>
      cases outcome with
      | error f => rfl
      | ok chain => simp [settle]

section

variable {quota entries : Nat} {total : Int32} {stack : List (Frame Source Command Modifier)}
  {s : Session Source Command Modifier State}

/-- A stage is charged for its sources, and is then worked on. -/
theorem becomes_stage {forked counts : Bool} {hops : List (Context Source Command Modifier)}
    {executable : Context Source Command Modifier} {sources : List Source}
    {outcome : Except Fault (Int32 × List (Frame Source Command Modifier)) ×
      Session Source Command Modifier State}
    (h : work tree host (.stage ⟨hops, executable⟩ sources forked counts) s = outcome) :
    Round.Becomes tree host quota
      (Task.opening host stack entries total counts s (.chain forked hops executable sources))
      (entries + max 1 sources.length)
      (settle outcome stack (entries + max 1 sources.length) total) := by
  rw [← h]
  exact becomes_settle rfl

/-- A queued line is charged, and is then evaluated above its catcher. -/
theorem becomes_line {forked counts : Bool} {l : QueuedLine Source}
    {queued : List (QueuedLine Source)} :
    Round.Becomes tree host quota
      (Task.opening host stack entries total counts s (.lines forked (l :: queued))) (entries + 1)
      (Task.opening host (.catcher forked :: (Frame.ofQueued forked queued ++ stack)) (entries + 1)
        total false (s.note (.started l) s.state) (.reading (tree.read l.line l.source))) := by
  show Round.Becomes tree host quota _ _ (Reading.opening ..)
  rw [← settle_line]
  exact becomes_settle rfl

end

/-! ### From derivations to the machine -/

/-- An execution that a task leads to goes on as the result of the task does, if the quota pays for
the derivation.  A task that counts must lie above nothing that stops a fault, since what it has
added to the total is not taken back. -/
theorem opening_becomes_closing {task : Task Source Command Modifier} {result : Except Fault Int32}
    {s t : Session Source Command Modifier State} (h : Evaluates tree host task s result t) :
    ∃ cost, ∀ (quota : Nat) (stack : List (Frame Source Command Modifier)) (entries : Nat)
      (total : Int32) (counts : Bool), (counts = true → Frame.unwind? stack = none) →
      entries ≤ quota →
      Round.Becomes tree host quota (task.opening host stack entries total counts s)
        (entries + cost) (closing result stack (entries + cost) total counts t) := by
  induction h with
  | unread left =>
    refine ⟨0, fun quota stack entries total counts _ hle => ?_⟩
    simp only [Task.opening, Reading.opening, left]
    exact .refl hle
  | unknown whole missing =>
    refine ⟨0, fun quota stack entries total counts _ hle => ?_⟩
    simp only [Task.opening, Reading.opening, whole, Reading.chain_of_none missing]
    exact .refl hle
  | known whole given _ ih =>
    obtain ⟨cost, hcost⟩ := ih
    refine ⟨cost, fun quota stack entries total counts hcounts hle => ?_⟩
    simp only [Task.opening, Reading.opening, whole, Reading.chain_of_some given]
    exact hcost quota stack entries total counts hcounts hle
  | @redirectRaises forked hop executable hops sources f s t passes =>
    refine ⟨max 1 sources.length, fun quota stack entries total counts _ _ => ?_⟩
    exact becomes_stage (work_redirectRaises passes)
  | @redirectEmpties forked hop executable hops sources s t passes =>
    refine ⟨max 1 sources.length, fun quota stack entries total counts _ _ => ?_⟩
    rw [← settle_nothing]
    exact becomes_stage (work_redirectEmpties passes)
  | @redirects forked hop executable hops sources next result s t u passes left _ ih =>
    obtain ⟨cost, hcost⟩ := ih
    refine ⟨max 1 sources.length + cost, fun quota stack entries total counts hcounts _ => ?_⟩
    rw [← Nat.add_assoc]
    refine (becomes_stage (work_redirects passes left)).trans (fun hle => ?_) (Nat.le_add_right ..)
    rw [settle_frames]
    exact hcost quota stack _ total counts hcounts hle
  | @commandRaises forked executable sources f s t runs =>
    refine ⟨max 1 sources.length, fun quota stack entries total counts _ _ => ?_⟩
    exact becomes_stage (work_commandRaises runs)
  | @commands forked executable sources n queued result s t u runs _ ih =>
    obtain ⟨cost, hcost⟩ := ih
    refine ⟨max 1 sources.length + cost, fun quota stack entries total counts hcounts _ => ?_⟩
    rw [← Nat.add_assoc, ← closing_map hcounts]
    exact (becomes_stage (work_commands runs)).trans (hcost quota stack _ _ false (by simp))
      (Nat.le_add_right ..)
  | noLines =>
    refine ⟨0, fun quota stack entries total counts _ hle => ?_⟩
    simpa [Task.opening, closing, Frame.ofQueued] using Round.Becomes.refl hle
  | @lineEnds forked l queued n result s t u _ _ ihline ihrest =>
    obtain ⟨lineCost, hline⟩ := ihline
    obtain ⟨restCost, hrest⟩ := ihrest
    refine ⟨1 + lineCost + restCost, fun quota stack entries total counts hcounts _ => ?_⟩
    simp only [← Nat.add_assoc]
    refine becomes_line.trans (fun hle => (hline quota _ _ total false (by simp) hle).trans
      (fun hle => ?_) (Nat.le_add_right ..)) (by omega)
    simp only [closing, Bool.false_eq_true, if_false, Int32.add_zero]
    exact (becomes_below_catcher hle).trans
      (fun hle => hrest quota stack _ total counts hcounts hle) (Nat.le_add_right ..)
  | @lineSwallowed l queued f result s t u _ _ ihline ihrest =>
    obtain ⟨lineCost, hline⟩ := ihline
    obtain ⟨restCost, hrest⟩ := ihrest
    refine ⟨1 + lineCost + restCost, fun quota stack entries total counts hcounts _ => ?_⟩
    simp only [← Nat.add_assoc]
    refine becomes_line.trans (fun hle => (hline quota _ _ total false (by simp) hle).trans
      (fun hle => ?_) (Nat.le_add_right ..)) (by omega)
    simp only [closing, fall_catcher_true]
    exact hrest quota stack _ total counts hcounts hle
  | @lineRaises l queued f s t _ ihline =>
    obtain ⟨lineCost, hline⟩ := ihline
    refine ⟨1 + lineCost, fun quota stack entries total counts hcounts _ => ?_⟩
    simp only [← Nat.add_assoc]
    have hfall := fun hle => hline quota (.catcher false :: (Frame.ofQueued false queued ++ stack))
      (entries + 1) total false (by simp) hle
    simp only [closing, fall_catcher_false, fall_ofQueued] at hfall
    exact becomes_line.trans hfall (by omega)

/-! ### From the machine to derivations -/

/-- A task that begins with fewer than `n` entries of the quota left has a derivation where the
execution that it leads to completes. -/
def DerivesWithin (tree : Tree Source Command Modifier)
    (host : Host Source Command Modifier State) (quota n : Nat) : Prop :=
  ∀ (task : Task Source Command Modifier) (stack : List (Frame Source Command Modifier))
    (entries : Nat) (total : Int32) (counts : Bool)
    (s : Session Source Command Modifier State) (answer : Except Fault Int32)
    (final : Session Source Command Modifier State),
    quota < entries + n → entries ≤ quota →
    (task.opening host stack entries total counts s).Completes tree host quota answer final →
    ∃ result t, Evaluates tree host task s result t

section

variable {quota n entries : Nat} {total : Int32} {counts forked : Bool}
  {stack : List (Frame Source Command Modifier)} {s : Session Source Command Modifier State}
  {answer : Except Fault Int32} {final : Session Source Command Modifier State}

/-- A chain is charged for its first stage, so what comes after it is within what is left. -/
theorem evaluates_chain (ih : DerivesWithin tree host quota n) (hn : quota < entries + (n + 1))
    {hops : List (Context Source Command Modifier)} {executable : Context Source Command Modifier}
    {sources : List Source}
    (h : (Task.opening host stack entries total counts s
      (.chain forked hops executable sources)).Completes tree host quota answer final) :
    ∃ result t, Evaluates tree host (.chain forked hops executable sources) s result t := by
  cases hops with
  | nil =>
    obtain ⟨r, t, hruns⟩ := runs_total host { executable with queues := true } forked sources s
    cases r with
    | error f => exact ⟨_, _, .commandRaises hruns⟩
    | ok p =>
      obtain ⟨hle, hrest⟩ := (becomes_stage (work_commands hruns) answer final).1 h
      obtain ⟨result, u, hlines⟩ :=
        ih (.lines forked p.2) stack _ _ false t answer final (by omega) hle hrest
      exact ⟨_, _, .commands hruns hlines⟩
  | cons hop hops =>
    obtain ⟨r, t, hpasses⟩ := passes_total host hop (forked || hop.hop.forks) sources s
    cases r with
    | error f => exact ⟨_, _, .redirectRaises hpasses⟩
    | ok next =>
      by_cases hnext : next = []
      · subst hnext
        exact ⟨_, _, .redirectEmpties hpasses⟩
      · obtain ⟨hle, hrest⟩ := (becomes_stage (work_redirects hpasses hnext) answer final).1 h
        rw [settle_frames] at hrest
        obtain ⟨result, u, hlater⟩ := ih
          (.chain (forked || hop.hop.forks) hops executable next) stack _ _ counts t answer
          final (by omega) hle hrest
        exact ⟨_, _, .redirects hpasses hnext hlater⟩

/-- A reading leads to its chain without a charge in between. -/
theorem evaluates_reading (ih : DerivesWithin tree host quota n) (hn : quota < entries + (n + 1))
    {r : Reading Source Command Modifier}
    (h : (Task.opening host stack entries total counts s (.reading r)).Completes tree host quota
      answer final) : ∃ result t, Evaluates tree host (.reading r) s result t := by
  cases hleft : r.syntaxFault? with
  | some f => exact ⟨_, _, .unread hleft⟩
  | none =>
    cases hgiven : Chain.ofContext? (r.route.context r.cursor.line) with
    | none => exact ⟨_, _, .unknown hleft hgiven⟩
    | some chain =>
      simp only [Task.opening, Reading.opening, hleft, Reading.chain_of_some hgiven] at h
      obtain ⟨result, t, hrest⟩ := evaluates_chain ih hn h
      exact ⟨_, _, .known hleft hgiven hrest⟩

/-- The first of some lines is charged for its start.  It has a derivation, so it becomes what its
result comes to, and from that the others go on. -/
theorem evaluates_lines (ih : DerivesWithin tree host quota n) (hn : quota < entries + (n + 1))
    {queued : List (QueuedLine Source)}
    (h : (Task.opening host stack entries total counts s (.lines forked queued)).Completes tree
      host quota answer final) :
    ∃ result t, Evaluates tree host (.lines forked queued) s result t := by
  cases queued with
  | nil => exact ⟨_, _, .noLines⟩
  | cons l queued =>
    obtain ⟨hline, hopen⟩ := (becomes_line answer final).1 h
    obtain ⟨result, t, hreading⟩ := ih _ _ _ _ _ _ _ _ (by omega) hline hopen
    obtain ⟨cost, hcost⟩ := opening_becomes_closing hreading
    obtain ⟨hspent, hclose⟩ := (hcost quota _ _ _ _ (by simp) hline answer final).1 hopen
    cases result with
    | ok v =>
      obtain ⟨-, hrest⟩ := (becomes_below_catcher hspent answer final).1 hclose
      obtain ⟨result, u, hlines⟩ :=
        ih (.lines forked queued) stack _ _ false t answer final (by omega) hspent hrest
      exact ⟨_, _, .lineEnds hreading hlines⟩
    | error f =>
      cases forked with
      | false => exact ⟨_, _, .lineRaises hreading⟩
      | true =>
        obtain ⟨result, u, hlines⟩ :=
          ih (.lines true queued) stack _ _ false t answer final (by omega) hspent hclose
        exact ⟨_, _, .lineSwallowed hreading hlines⟩

end

/-- A task has a derivation where the execution that it leads to completes.  The induction is on the
part of the quota that is left: everything that is asked for later has been charged for. -/
theorem derivesWithin (quota n : Nat) : DerivesWithin tree host quota n := by
  induction n with
  | zero =>
    intro task stack entries total counts s answer final hn hle
    omega
  | succ n ih =>
    intro task stack entries total counts s answer final hn hle h
    cases task with
    | reading r => exact evaluates_reading ih hn h
    | chain forked hops executable sources => exact evaluates_chain ih hn h
    | lines forked queued => exact evaluates_lines ih hn h

/-! ### Whole executions -/

/-- With nothing below, a task that counts ends the execution with its own result. -/
theorem closing_completes_iff {quota entries : Nat} {result answer : Except Fault Int32}
    {s final : Session Source Command Modifier State} :
    (closing result [] entries 0 true s).Completes tree host quota answer final ↔
      result = answer ∧ s = final := by
  cases result with
  | ok n =>
    have hstep : Machine.step tree host quota
        { stack := [], entries, total := 0 + n, session := s } = .finished (.ok n) s := by
      simp [step]
    show Machine.Ends .. ∧ ¬Machine.CutOff .. ↔ _
    rw [if_pos rfl, ends_finished_iff hstep, cutOff_finished_iff hstep]
    simp [overdraws]
  | error f => simp [closing, fall, Frame.unwind?, Round.Completes, Round.Ends, Round.CutOff]

namespace Tree

/-- A derivation of a reading has a cost.  A quota that does not pay for it cuts the execution off,
and under any other the execution does what the derivation says. -/
theorem executeReading_of_evaluates {r : Reading Source Command Modifier}
    {s t : Session Source Command Modifier State} {result : Except Fault Int32}
    (h : Evaluates tree host (.reading r) s result t) :
    ∃ cost, ∀ quota, (tree.CutOff host quota r s ↔ quota < cost) ∧
      (cost ≤ quota → tree.executeReading host quota r s = (result, t)) := by
  obtain ⟨cost, hcost⟩ := opening_becomes_closing h
  refine ⟨cost, fun quota => ?_⟩
  have hbecomes := hcost quota [] 0 0 true (fun _ => rfl) (Nat.zero_le quota)
  simp only [Nat.zero_add] at hbecomes
  have hpaid (hle : cost ≤ quota) :
      tree.Ends host quota r s result t ∧ ¬tree.CutOff host quota r s :=
    (hbecomes result t).2 ⟨hle, closing_completes_iff.2 ⟨rfl, rfl⟩⟩
  refine ⟨⟨fun hcut => ?_, fun hlt => ?_⟩, fun hle => ends_iff.1 (hpaid hle).1⟩
  · exact Nat.lt_of_not_le fun hle => (hpaid hle).2 hcut
  · refine Classical.byContradiction fun hcut => ?_
    have hends := executeReading_ends tree host quota r s
    exact absurd ((hbecomes _ _).1 ⟨hends, hcut⟩).1 (Nat.not_le_of_lt hlt)

/-- **The machine refines evaluation.**  An execution that is not cut off does what a derivation of
its reading says: the same result, and the same session with all calls in the same order.  And a
reading that has a derivation has a cost, so that an execution is cut off just when its quota is
smaller, and otherwise does what the derivation says. -/
theorem executeReading_refines (tree : Tree Source Command Modifier)
    (host : Host Source Command Modifier State) (r : Reading Source Command Modifier)
    (s : Session Source Command Modifier State) :
    (∀ quota, ¬tree.CutOff host quota r s →
      Evaluates tree host (.reading r) s (tree.executeReading host quota r s).1
        (tree.executeReading host quota r s).2) ∧
    ∀ result t, Evaluates tree host (.reading r) s result t →
      ∃ cost, ∀ quota, (tree.CutOff host quota r s ↔ quota < cost) ∧
        (cost ≤ quota → tree.executeReading host quota r s = (result, t)) := by
  constructor
  · intro quota hcut
    have hends := executeReading_ends tree host quota r s
    obtain ⟨result, t, h⟩ := derivesWithin quota (quota + 1) (.reading r) [] 0 0 true s _ _
      (by omega) (Nat.zero_le quota) ⟨hends, hcut⟩
    obtain ⟨cost, hcost⟩ := executeReading_of_evaluates h
    have hle : cost ≤ quota := Nat.le_of_not_lt fun hlt => hcut ((hcost quota).1.2 hlt)
    rw [(hcost quota).2 hle]
    exact h
  · exact fun result t h => executeReading_of_evaluates h

end Tree

end CommandLines
