/-
One line after the other.

The stages of a chain are frames on the stack that queued lines wait on, too, and nothing in
the machine keeps the stages of one chain together.  So the calls made for two lines might
alternate, and a command might have run for some sources before a modifier of the same chain
fails for others.

A `Strand` is all that is called for one line: the line is started if it was queued, then
the modifiers of its chain are called, and its command after them.  This file shows that the
calls of an execution are strands, one after the other, the first of them for the line that
was asked for.

The stack alone would not do for the induction along a course: a stage on it says what is
left of a chain, and not which line it is for or what was called before.  So the strand that
is under way is carried along.  Between turns there is at most one stage on the stack, right
on top, and it belongs to that strand.
-/
import CommandLines.Proofs.Execution.Reports

namespace CommandLines

variable {Source Command Modifier State : Type}

/-! ### Strands -/

/-- What is called for one line. -/
structure Strand (Source Command Modifier : Type) where
  /-- The line, if it was queued. -/
  line? : Option (QueuedLine Source)
  reading : Reading Source Command Modifier
  /-- The calls of modifiers. -/
  passing : List (Event Source Command Modifier) := []
  /-- The calls of the command. -/
  running : List (Event Source Command Modifier) := []

/-- The line is read to its end and names the chain. -/
structure Reading.Names (r : Reading Source Command Modifier)
    (chain : Chain Source Command Modifier) : Prop where
  whole : r.syntaxFault? = none
  given : Chain.ofContext? (r.route.context r.cursor.line) = some chain

namespace Strand

/-- All calls of the strand in order, with what the host is told of them. -/
def calls (tree : Tree Source Command Modifier) (k : Strand Source Command Modifier) :
    List (Event Source Command Modifier) :=
  (k.line?.map Event.started).toList ++ k.reading.reports ++ tree.withReports k.passing ++
    tree.withReports k.running

/-- The strand is that of a queued line. -/
def IsQueued (tree : Tree Source Command Modifier) (k : Strand Source Command Modifier) : Prop :=
  ∃ l, k.line? = some l ∧ k.reading = tree.read l.line l.source

/-- The strand holds calls of the modifiers and of the command of the chain that its line names, and
no others. -/
structure Proper (k : Strand Source Command Modifier) : Prop where
  passing : ∀ e ∈ k.passing, ∃ chain, k.reading.Names chain ∧
    ∃ hop ∈ chain.modifiers, ∃ source result, e = .modified (hop.withSource source) result
  running : ∀ e ∈ k.running, ∃ chain, k.reading.Names chain ∧ ∃ source outcome,
    e = .ran ({ chain.executable with queues := true }.withSource source) outcome

/-- The strand has come to what is left of its chain. -/
structure Underway (k : Strand Source Command Modifier) (left : Chain Source Command Modifier) :
    Prop where
  proper : k.Proper
  names : ∃ chain done, k.reading.Names chain ∧ chain.modifiers = done ++ left.modifiers ∧
    chain.executable = left.executable
  running : k.running = []

/-- The strand is the one that was under way with more calls, or the one of a queued line. -/
def Continues (tree : Tree Source Command Modifier) (next : Strand Source Command Modifier)
    (calls : List (Event Source Command Modifier)) :
    Option (Strand Source Command Modifier) → Prop
  | none => next.IsQueued tree ∧ next.calls tree = calls
  | some k => next.line? = k.line? ∧ next.reading = k.reading ∧
      next.calls tree = k.calls tree ++ calls

end Strand

/-- The calls are those of strands of queued lines, one after the other. -/
def InStrands (tree : Tree Source Command Modifier)
    (calls : List (Event Source Command Modifier)) : Prop :=
  ∃ strands : List (Strand Source Command Modifier),
    (∀ k ∈ strands, k.IsQueued tree ∧ k.Proper) ∧ calls = strands.flatMap (Strand.calls tree)

/-- The calls fulfil the strand that is under way, if there is one, and are those of queued lines
after that. -/
def Fulfils (tree : Tree Source Command Modifier)
    (calls : List (Event Source Command Modifier)) :
    Option (Strand Source Command Modifier) → Prop
  | none => InStrands tree calls
  | some k => ∃ (next : Strand Source Command Modifier) (rest : List _),
      next.line? = k.line? ∧ next.reading = k.reading ∧ next.Proper ∧ InStrands tree rest ∧
        k.calls tree ++ calls = next.calls tree ++ rest

section

variable {tree : Tree Source Command Modifier} {host : Host Source Command Modifier State}
  {k next : Strand Source Command Modifier} {k? : Option (Strand Source Command Modifier)}
  {calls rest : List (Event Source Command Modifier)}
  {s t : Session Source Command Modifier State}

theorem InStrands.nil : InStrands tree [] :=
  ⟨[], by simp, rfl⟩

theorem InStrands.cons (h : InStrands tree rest) (hqueued : k.IsQueued tree) (hk : k.Proper) :
    InStrands tree (k.calls tree ++ rest) := by
  obtain ⟨strands, hstrands, rfl⟩ := h
  exact ⟨k :: strands, List.forall_mem_cons.2 ⟨⟨hqueued, hk⟩, hstrands⟩, rfl⟩

theorem Fulfils.nil (hk : ∀ k ∈ k?, k.Proper) : Fulfils tree [] k? := by
  cases k? with
  | none => exact InStrands.nil
  | some k => exact ⟨k, [], rfl, rfl, hk k rfl, .nil, rfl⟩

/-- If no chain is under way after a turn, the turn has fulfilled the strand. -/
theorem Strand.Continues.then_none (h : next.Continues tree calls k?) (hnext : next.Proper)
    (hrest : Fulfils tree rest none) : Fulfils tree (calls ++ rest) k? := by
  cases k? with
  | none =>
    obtain ⟨hqueued, rfl⟩ := h
    exact InStrands.cons hrest hqueued hnext
  | some k =>
    obtain ⟨hline, hreading, hcalls⟩ := h
    exact ⟨next, rest, hline, hreading, hnext, hrest, by rw [hcalls, List.append_assoc]⟩

/-- If the strand goes on after a turn, what fulfils it then does so together with the calls of
the turn. -/
theorem Strand.Continues.then_some (h : next.Continues tree calls k?)
    (hrest : Fulfils tree rest (some next)) : Fulfils tree (calls ++ rest) k? := by
  obtain ⟨last, later, hline, hreading, hlast, hlater, heq⟩ := hrest
  cases k? with
  | none =>
    obtain ⟨⟨l, hl, hread⟩, rfl⟩ := h
    rw [Fulfils, heq]
    exact hlater.cons ⟨l, hline.trans hl, hreading.trans hread⟩ hlast
  | some k =>
    obtain ⟨hline', hreading', hcalls⟩ := h
    refine ⟨last, later, hline.trans hline', hreading.trans hreading', hlast, hlater, ?_⟩
    rw [← List.append_assoc, ← hcalls, heq]

/-! ### Stages of a strand -/

namespace Strand

variable {hop executable : Context Source Command Modifier}
  {hops : List (Context Source Command Modifier)} {forked : Bool} {sources : List Source}

/-- A strand in which nothing was called. -/
theorem proper_start (line? : Option (QueuedLine Source))
    (r : Reading Source Command Modifier) : Proper { line?, reading := r } :=
  ⟨by simp, by simp⟩

theorem underway_start (line? : Option (QueuedLine Source)) {r : Reading Source Command Modifier}
    {chain : Chain Source Command Modifier} (names : r.Names chain) :
    Underway { line?, reading := r } chain :=
  ⟨proper_start line? r, ⟨chain, [], names, rfl, rfl⟩, rfl⟩

/-- Passing the sources through the next redirect is a part of the strand, which has come to what is
left of its chain after that. -/
theorem Underway.passes (h : k.Underway ⟨hop :: hops, executable⟩) {r : Except Fault (List Source)}
    (passes : Passes host hop forked sources s r t) :
    ∃ (events : List _) (next : Strand Source Command Modifier), t.calls = s.calls ++ events ∧
      next.Continues tree events (some k) ∧ next.Underway ⟨hops, executable⟩ := by
  obtain ⟨attempts, hcalls, hmodified⟩ := passes.attempts tree
  obtain ⟨chain, done, hnames, hmodifiers, hexecutable⟩ := h.names
  have hpassing : ∀ e ∈ k.passing ++ attempts, ∃ chain, k.reading.Names chain ∧
      ∃ hop ∈ chain.modifiers, ∃ source result, e = .modified (hop.withSource source) result := by
    intro e he
    rcases List.mem_append.1 he with he | he
    · exact h.proper.passing e he
    · obtain ⟨source, result, rfl⟩ := hmodified e he
      exact ⟨chain, hnames, hop, by simp [hmodifiers], source, result, rfl⟩
  refine ⟨_, { k with passing := k.passing ++ attempts }, hcalls, ⟨rfl, rfl, ?_⟩, ?_⟩
  · simp [Strand.calls, h.running]
  · exact ⟨⟨hpassing, h.proper.running⟩, ⟨chain, done ++ [hop], hnames, by simp [hmodifiers],
      hexecutable⟩, h.running⟩

/-- Running the command is a part of the strand. -/
theorem Underway.runs (h : k.Underway ⟨[], executable⟩)
    {r : Except Fault (Int32 × List (QueuedLine Source))}
    (runs : Runs host { executable with queues := true } forked sources s r t) :
    ∃ (events : List _) (next : Strand Source Command Modifier), t.calls = s.calls ++ events ∧
      next.Continues tree events (some k) ∧ next.Proper := by
  obtain ⟨attempts, hcalls, hran⟩ := runs.attempts tree
  obtain ⟨chain, done, hnames, -, hexecutable⟩ := h.names
  refine ⟨_, { k with running := attempts }, hcalls, ⟨rfl, rfl, ?_⟩, h.proper.passing, ?_⟩
  · simp [Strand.calls, h.running]
  · intro e he
    obtain ⟨source, outcome, rfl⟩ := hran e he
    exact ⟨chain, hnames, source, outcome, by rw [hexecutable]⟩

end Strand

end

/-! ### Stacks between turns -/

namespace Frame

/-- No chain is under way on the stack. -/
def Stageless (stack : List (Frame Source Command Modifier)) : Prop :=
  ∀ frame ∈ stack, frame.isStage = false

variable {frame : Frame Source Command Modifier}
  {stack below : List (Frame Source Command Modifier)}

theorem Stageless.next (h : Stageless stack)
    (hnext : stack.dropWhile isCatcher = frame :: below) :
    (∃ l, frame = .line l) ∧ Stageless below := by
  have hmem : ∀ f ∈ frame :: below, f.isStage = false := by
    intro f hf
    rw [← hnext] at hf
    exact h f ((List.dropWhile_suffix isCatcher).mem hf)
  obtain ⟨hframe, hbelow⟩ := List.forall_mem_cons.1 hmem
  refine ⟨?_, hbelow⟩
  cases frame with
  | stage => cases hframe
  | line l => exact ⟨l, rfl⟩
  | catcher => cases Machine.isCatcher_of_dropWhile hnext

theorem Stageless.unwind (h : Stageless stack) (hunwind : unwind? stack = some below) :
    Stageless below := by
  induction stack with
  | nil => cases hunwind
  | cons f stack ih =>
    obtain ⟨-, hstack⟩ := List.forall_mem_cons.1 h
    rw [unwind?] at hunwind
    split at hunwind
    · cases hunwind
      exact hstack
    · exact ih hstack hunwind

theorem Stageless.append_ofQueued (h : Stageless stack) (forked : Bool)
    (lines : List (QueuedLine Source)) : Stageless (ofQueued forked lines ++ stack) := by
  intro f hf
  rcases List.mem_append.1 hf with hf | hf
  · obtain ⟨l, -, hf⟩ := List.mem_flatMap.1 hf
    simp only [List.mem_cons, List.not_mem_nil, or_false] at hf
    rcases hf with rfl | rfl
    · rfl
    · rfl
  · exact h f hf

end Frame

/-- The strand under way, if there is one, has come to the stage on top of the stack, and there is
no other stage. -/
def Frame.Carries (stack : List (Frame Source Command Modifier)) :
    Option (Strand Source Command Modifier) → Prop
  | none => Stageless stack
  | some k => ∃ chain sources forked counts below,
      stack = .stage chain sources forked counts :: below ∧ k.Underway chain ∧ Stageless below

/-! ### Turns -/

section Turns

open CommandLines.Frame

variable {tree : Tree Source Command Modifier} {host : Host Source Command Modifier State}
  {quota : Nat} {m : Machine Source Command Modifier State}
  {frame : Frame Source Command Modifier} {stack below : List (Frame Source Command Modifier)}
  {k? : Option (Strand Source Command Modifier)} {s t : Session Source Command Modifier State}
  {r : Except Fault (Int32 × List (Frame Source Command Modifier))}
  {turns : List (Turn Source Command Modifier)} {ending : Option (Except Fault Int32)}

theorem Frame.Carries.proper (h : Carries stack k?) : ∀ k ∈ k?, k.Proper := by
  rintro k rfl
  obtain ⟨_, _, _, _, _, -, hunderway, -⟩ := h
  exact hunderway.proper

/-- The calls of the work on a frame belong to the strand that is under way, or begin the strand of
a queued line.  What comes of the frame is the next stage of that strand, or no stage. -/
theorem Frame.Carries.work (h : Carries stack k?)
    (hnext : stack.dropWhile isCatcher = frame :: below) (does : Does tree host frame s r t) :
    ∃ events next, t.calls = s.calls ++ events ∧ next.Continues tree events k? ∧ next.Proper ∧
      Stageless below ∧ ∀ n frames, r = .ok (n, frames) →
        Carries (frames ++ below) none ∨ Carries (frames ++ below) (some next) := by
  cases k? with
  | none =>
    -- no stage is left, so a queued line is next, and its strand begins here
    obtain ⟨⟨l, rfl⟩, hbelow⟩ := Stageless.next h hnext
    let next : Strand Source Command Modifier :=
      { line? := some l, reading := tree.read l.line l.source }
    have hqueued : next.IsQueued tree := ⟨l, rfl, rfl⟩
    have hproper : next.Proper := Strand.proper_start _ _
    cases does with
    | @starts l chain s whole given =>
      refine ⟨[.started l], next, by simp, ⟨hqueued, ?_⟩, hproper, hbelow, ?_⟩
      · simp [next, Strand.calls, Reading.reports_of_chain given]
      · rintro n frames ⟨⟩
        exact .inr ⟨_, _, _, _, _, rfl, Strand.underway_start _ ⟨whole, given⟩, hbelow⟩
    | @unread l f s left =>
      refine ⟨[.started l], next, by simp, ⟨hqueued, ?_⟩, hproper, hbelow, by simp⟩
      simp [next, Strand.calls, Reading.reports_of_unread left]
    | @unknown l s whole missing =>
      refine ⟨.started l :: next.reading.reports, next, ?_, ⟨hqueued, ?_⟩, hproper, hbelow, by simp⟩
      · simp [next, Reading.reports_of_unknown whole missing]
      · simp [next, Strand.calls]
  | some k =>
    obtain ⟨chain, sources, forked, counts, _, rfl, hunderway, hbelow⟩ := h
    cases hnext
    cases does with
    | commands runs =>
      obtain ⟨events, next, hcalls, hcontinues, hproper⟩ := hunderway.runs runs
      refine ⟨events, next, hcalls, hcontinues, hproper, hbelow, ?_⟩
      rintro n frames ⟨⟩
      exact .inl (hbelow.append_ofQueued _ _)
    | commandRaises runs =>
      obtain ⟨events, next, hcalls, hcontinues, hproper⟩ := hunderway.runs runs
      exact ⟨events, next, hcalls, hcontinues, hproper, hbelow, by simp⟩
    | redirects passes left =>
      obtain ⟨events, next, hcalls, hcontinues, hnext⟩ := hunderway.passes passes
      refine ⟨events, next, hcalls, hcontinues, hnext.proper, hbelow, ?_⟩
      rintro n frames ⟨⟩
      exact .inr ⟨_, _, _, _, _, rfl, hnext, hbelow⟩
    | redirectEmpties passes =>
      obtain ⟨events, next, hcalls, hcontinues, hnext⟩ := hunderway.passes passes
      refine ⟨events, next, hcalls, hcontinues, hnext.proper, hbelow, ?_⟩
      rintro n frames ⟨⟩
      exact .inl hbelow
    | redirectRaises passes =>
      obtain ⟨events, next, hcalls, hcontinues, hnext⟩ := hunderway.passes passes
      exact ⟨events, next, hcalls, hcontinues, hnext.proper, hbelow, by simp⟩

/-- The same of a turn, by its calls. -/
theorem Frame.Carries.turn (h : Carries m.stack k?)
    (hnext : m.stack.dropWhile isCatcher = frame :: below)
    (does : Machine.work tree host frame m.session = (r, t)) :
    ∃ next : Strand Source Command Modifier,
      next.Continues tree (Machine.turn tree host frame m.session).calls k? ∧ next.Proper ∧
        Stageless below ∧ ∀ n frames, r = .ok (n, frames) →
          Carries (frames ++ below) none ∨ Carries (frames ++ below) (some next) := by
  obtain ⟨events, next, hcalls, hwork⟩ := h.work hnext (Machine.work_does tree host frame m.session)
  rw [Machine.turn_calls_eq hcalls]
  rw [does] at hwork
  exact ⟨next, hwork⟩

/-- The calls of a course fulfil the strand that is under way, and are those of queued lines after
that, one line after the other. -/
theorem Machine.Course.fulfils (h : Machine.Course tree host quota m turns ending t)
    (carries : Carries m.stack k?) : Fulfils tree (turns.flatMap Turn.calls) k? := by
  induction h generalizing k? with
  | idle | unpaid => exact .nil carries.proper
  | raised next _ does _ =>
    obtain ⟨strand, hcontinues, hproper, -⟩ := carries.turn next does
    exact hcontinues.then_none hproper InStrands.nil
  | swallowed next _ does stops _ ih =>
    -- what is below a catcher that swallows the fault are queued lines that still wait
    obtain ⟨strand, hcontinues, hproper, hbelow, -⟩ := carries.turn next does
    have hnone : Carries _ none := hbelow.unwind stops
    exact hcontinues.then_none hproper (ih hnone)
  | worked next _ does _ ih =>
    obtain ⟨strand, hcontinues, hproper, -, hleft⟩ := carries.turn next does
    rcases hleft _ _ rfl with hnone | hsome
    · exact hcontinues.then_none hproper (ih hnone)
    · exact hcontinues.then_some (ih hsome)

end Turns

/-! ### What comes before the command -/

/-- Pass sources through redirects, one redirect after the other, as long as anybody is left. -/
def Host.passThrough (host : Host Source Command Modifier State) (forked : Bool) :
    List (Context Source Command Modifier) → List Source → Session Source Command Modifier State →
    Except Fault (List Source) × Session Source Command Modifier State
  | [], sources, s => (.ok sources, s)
  | hop :: hops, sources, s =>
    let forked := forked || hop.hop.forks
    match host.pass hop forked sources s with
    | (.error f, s) => (.error f, s)
    | (.ok [], s) => (.ok [], s)
    | (.ok sources, s) => host.passThrough forked hops sources s

/-- What a line comes to before its command is called: the sources that its chain has for the
command, or a fault, of the reading, because there is no chain, or of a modifier. -/
def Reading.beforeCommand (r : Reading Source Command Modifier)
    (host : Host Source Command Modifier State) (s : Session Source Command Modifier State) :
    Except Fault (List Source) × Session Source Command Modifier State :=
  match r.syntaxFault? with
  | some f => (.error f, s)
  | none =>
    match r.chain host s with
    | (.error f, s) => (.error f, s)
    | (.ok chain, s) => host.passThrough false chain.modifiers [chain.top.source] s

section

variable {tree : Tree Source Command Modifier} {host : Host Source Command Modifier State}
  {quota : Nat} {hop executable : Context Source Command Modifier}
  {hops : List (Context Source Command Modifier)} {forked counts : Bool} {sources : List Source}
  {s t : Session Source Command Modifier State} {f : Fault}
  {r : Except Fault (Int32 × List (Frame Source Command Modifier))}

/-- If a modifier of what is left of a chain raises a fault, then the next stage does so, or one
after it. -/
theorem Does.raises_of_passThrough
    (h : Does tree host (.stage ⟨hop :: hops, executable⟩ sources forked counts) s r t)
    (raises : (host.passThrough forked (hop :: hops) sources s).1 = .error f) :
    ∃ events, t.calls = s.calls ++ events ∧ (∀ e ∈ events, e.Aside) ∧ (r = .error f ∨
      ∃ forked next, r = .ok (0, [.stage ⟨hops, executable⟩ next forked counts]) ∧
        (host.passThrough forked hops next t).1 = .error f) := by
  rw [Host.passThrough] at raises
  cases h with
  | @redirects _ _ _ _ next _ _ _ _ passes left =>
    obtain ⟨events, hcalls, haside, -⟩ := passes.calls
    rw [pass_eq_iff.2 passes] at raises
    refine ⟨events, hcalls, haside, .inr ⟨_, _, rfl, ?_⟩⟩
    cases next with
    | nil => exact absurd rfl left
    | cons source next => exact raises
  | redirectEmpties passes =>
    rw [pass_eq_iff.2 passes] at raises
    cases raises
  | redirectRaises passes =>
    obtain ⟨events, hcalls, haside, -⟩ := passes.calls
    rw [pass_eq_iff.2 passes] at raises
    cases raises
    exact ⟨events, hcalls, haside, .inl rfl⟩

/-- The same of the turn on top of a stack, by its calls. -/
theorem Machine.turn_of_passThrough {m : Machine Source Command Modifier State}
    {stack below : List (Frame Source Command Modifier)} {frame : Frame Source Command Modifier}
    (hstack : m.stack = .stage ⟨hops, executable⟩ sources forked counts :: stack)
    (raises : (host.passThrough forked hops sources m.session).1 = .error f)
    (next : m.stack.dropWhile Frame.isCatcher = frame :: below)
    (does : work tree host frame m.session = (r, t)) :
    below = stack ∧ (∀ e ∈ (turn tree host frame m.session).calls, e.Aside) ∧
      (r = .error f ∨ ∃ hops forked sources,
        r = .ok (0, [.stage ⟨hops, executable⟩ sources forked counts]) ∧
        (host.passThrough forked hops sources t).1 = .error f) := by
  cases hops with
  | nil => cases raises
  | cons hop hops =>
    rw [hstack] at next
    cases next
    obtain ⟨events, hcalls, haside, hout⟩ :=
      (work_does tree host _ m.session).raises_of_passThrough raises
    rw [turn_calls_eq hcalls]
    rw [does] at hout
    refine ⟨rfl, haside, hout.imp id ?_⟩
    rintro ⟨forked, sources, hout, hraises⟩
    exact ⟨hops, forked, sources, hout, hraises⟩

/-- If a modifier of the chain on top of the stack raises a fault and nothing swallows it, then
nothing but modifiers is called, and the course ends with that fault unless it is cut off. -/
theorem Machine.Course.aside_of_passThrough {m : Machine Source Command Modifier State}
    {turns : List (Turn Source Command Modifier)} {ending : Option (Except Fault Int32)}
    {stack : List (Frame Source Command Modifier)}
    (h : Machine.Course tree host quota m turns ending t)
    (hstack : m.stack = .stage ⟨hops, executable⟩ sources forked counts :: stack)
    (falls : Frame.unwind? stack = none)
    (raises : (host.passThrough forked hops sources m.session).1 = .error f) :
    (∀ e ∈ turns.flatMap Turn.calls, e.Aside) ∧ (ending = none ∨ ending = some (.error f)) := by
  induction h generalizing hops forked sources with
  | idle rests => rw [hstack] at rests; cases rests
  | unpaid => exact ⟨by simp, .inl rfl⟩
  | raised next _ does _ =>
    obtain ⟨-, haside, hout⟩ := turn_of_passThrough hstack raises next does
    rcases hout with hf | ⟨_, _, _, hok, -⟩
    · cases hf
      exact ⟨by simpa using haside, .inr rfl⟩
    · cases hok
  | swallowed next _ does stops _ _ =>
    obtain ⟨rfl, -⟩ := turn_of_passThrough hstack raises next does
    cases falls.symm.trans stops
  | worked next _ does _ ih =>
    obtain ⟨rfl, haside, hout⟩ := turn_of_passThrough hstack raises next does
    rcases hout with hf | ⟨hops, forked, sources, hok, hraises⟩
    · cases hf
    · cases hok
      obtain ⟨hrest, hending⟩ := ih rfl hraises
      refine ⟨?_, hending⟩
      rw [List.flatMap_cons]
      exact List.forall_mem_append.2 ⟨haside, hrest⟩

end

/-! ### Executions -/

namespace Reading

variable {r : Reading Source Command Modifier}

theorem reports_aside (r : Reading Source Command Modifier) : ∀ e ∈ r.reports, e.Aside := by
  unfold reports
  split
  · exact List.forall_mem_singleton.2 trivial
  · simp

/-- An execution begins with the chain that the line names, or is over with the fault that there is
before a command. -/
theorem opening_eq (r : Reading Source Command Modifier)
    (host : Host Source Command Modifier State) (s : Session Source Command Modifier State) :
    (∃ chain, r.Names chain ∧
      r.beforeCommand host s = host.passThrough false chain.modifiers [chain.top.source] s ∧
      r.opening host [] 0 0 true s = .pending {
        stack := [.stage chain [chain.top.source] false true], session := s }) ∨
    ∃ f after, r.beforeCommand host s = (.error f, after) ∧
      r.opening host [] 0 0 true s = .finished (.error f) after := by
  unfold opening beforeCommand
  cases hfault : r.syntaxFault? with
  | some f => exact .inr ⟨f, s, rfl, rfl⟩
  | none =>
    cases hchain : Chain.ofContext? (r.route.context r.cursor.line) with
    | some chain =>
      rw [Reading.chain_of_some hchain]
      exact .inl ⟨chain, ⟨hfault, hchain⟩, rfl, rfl⟩
    | none =>
      rw [Reading.chain_of_none hchain]
      exact .inr ⟨_, _, rfl, rfl⟩

end Reading

namespace Tree

variable {tree : Tree Source Command Modifier} {host : Host Source Command Modifier State}
  {quota : Nat} {r : Reading Source Command Modifier}
  {s t : Session Source Command Modifier State} {turns : List (Turn Source Command Modifier)}
  {ending : Option (Except Fault Int32)}

/-- The turns of an execution fulfil the strand of the line that was asked for. -/
theorem Course.fulfils (h : tree.Course host quota r s turns ending t) :
    Fulfils tree (turns.flatMap Turn.calls) (some { line? := none, reading := r }) := by
  unfold Course at h
  rcases r.opening_eq host s with ⟨chain, hnames, -, hopen⟩ | ⟨f, after, -, hopen⟩
  · rw [hopen] at h
    exact Machine.Course.fulfils h
      ⟨chain, _, _, _, [], rfl, Strand.underway_start none hnames, by simp [Frame.Stageless]⟩
  · rw [hopen] at h
    obtain ⟨rfl, -⟩ := h
    refine Fulfils.nil ?_
    rintro k ⟨⟩
    exact Strand.proper_start none r

/-- If there is a fault before the command, the turns of an execution call nothing but modifiers,
and it ends with that fault unless it is cut off. -/
theorem Course.aside_of_beforeCommand (h : tree.Course host quota r s turns ending t) {f : Fault}
    (raises : (r.beforeCommand host s).1 = .error f) :
    (∀ e ∈ turns.flatMap Turn.calls, e.Aside) ∧ (ending = none ∨ ending = some (.error f)) := by
  unfold Course at h
  rcases r.opening_eq host s with ⟨chain, -, hbefore, hopen⟩ | ⟨f', after, hbefore, hopen⟩
  · rw [hopen] at h
    rw [hbefore] at raises
    exact Machine.Course.aside_of_passThrough h rfl rfl raises
  · rw [hopen] at h
    rw [hbefore] at raises
    cases raises
    obtain ⟨rfl, rfl, -⟩ := h
    exact ⟨by simp, .inr rfl⟩

/--
**Lines are run one after the other, modifiers before commands.**

Whatever an execution calls is a strand for the line that was asked for, and after it one
strand for each queued line that was started: within a strand the modifiers of the chain
come first and its command comes last, and nothing is called for another line in between.

So if there is a fault before the command of the line that was asked for, in the reading,
because it names no chain, or of one of the modifiers for one of the sources, then the
execution has that fault or is cut off by the quota, and in both cases no command was run
and no queued line was started.
-/
theorem calls_in_strands (tree : Tree Source Command Modifier)
    (host : Host Source Command Modifier State) (quota : Nat)
    (r : Reading Source Command Modifier) (s : Session Source Command Modifier State) :
    (∃ (first : Strand Source Command Modifier) (later : List (Strand Source Command Modifier)),
      (tree.executeReading host quota r s).2.calls =
          s.calls ++ (first :: later).flatMap (Strand.calls tree) ∧
        (first.line? = none ∧ first.reading = r ∧ first.Proper) ∧
        ∀ k ∈ later, k.IsQueued tree ∧ k.Proper) ∧
    ∀ f, (r.beforeCommand host s).1 = .error f →
      (tree.CutOff host quota r s ∨ (tree.executeReading host quota r s).1 = .error f) ∧
        ∃ events, (tree.executeReading host quota r s).2.calls = s.calls ++ events ∧
          ∀ e ∈ events, e.Aside := by
  obtain ⟨turns, ending, t, hcourse⟩ := exists_course tree host quota r s
  rw [hcourse.ends.1]
  refine ⟨?_, ?_⟩
  · obtain ⟨first, rest, hline, hreading, hproper, ⟨later, hlater, rfl⟩, heq⟩ := hcourse.fulfils
    refine ⟨first, later, ?_, ⟨hline, hreading, hproper⟩, hlater⟩
    rw [List.flatMap_cons, ← heq, hcourse.calls_eq]
    simp [Strand.calls]
  · intro f raises
    obtain ⟨haside, hending⟩ := hcourse.aside_of_beforeCommand raises
    refine ⟨?_, r.reports ++ turns.flatMap Turn.calls, ?_, ?_⟩
    · refine hending.imp hcourse.ends.2.2 ?_
      rintro rfl
      rfl
    · rw [hcourse.calls_eq, List.append_assoc]
    · exact List.forall_mem_append.2 ⟨r.reports_aside, haside⟩

end Tree

end CommandLines
