/-
Which catcher a fault comes to.

What comes of a queued line goes on the stack where the line was, so it lies on the catcher of that
line.  The catcher lies on the lines that were queued after its own, and these on the catcher of the
line whose chain has queued them all.  `Item.Below` says so, from the ticket of a line to what is
below the work on it, and there is nothing else on a stack than what it says, and on top of it a
stage or some lines of one stage (`Item.Stacked`).

A fault that falls down such a stack meets the catcher of its own line first.  If that one passes it
on, it was set by a stage that does not fork, and the catchers of the lines after it swallow nothing
either, since the same stage has set them.  So a fault goes by the lines of one stage to the catcher
of the line whose stage that is, and where it is swallowed, all that it has gone by was queued
further inside (`Item.Below.unwind`).

The stacks of an execution have this shape because each iteration keeps it, together with an empty
queue and with nothing held back (`Executor.Sound`).  As the shape also says that nothing is below
the chain asked for, a machine answers the same (`Executor.Sound.exists_final`).
-/
import CommandLines.Proofs.Execution.Isolation
import CommandLines.Proofs.Execution.Iterations
import CommandLines.Proofs.Execution.Strands

namespace CommandLines

variable {Source Command Modifier State : Type}

namespace Item

/-! ### The shape of a stack -/

/-- What lies below the work on a line with a ticket. -/
inductive Below : Ticket → List (Item Source Command Modifier) → Prop where
  /-- Nothing, if the line is the one asked for. -/
  | asked : Below [] []
  /-- The catcher of a queued line lies on the lines after it, and these on what lies below the work
  on the line whose chain has queued them. -/
  | queued {n : Nat} {ticket : Ticket} {forked : Bool} {lines : List (QueuedLine Source × Nat)}
      {below : List (Item Source Command Modifier)} (rest : Below ticket below) :
      Below (n :: ticket) (⟨n :: ticket, .catcher forked⟩ :: (waiting ticket forked lines ++ below))

/-- What a stack looks like between two iterations. -/
inductive Stacked : List (Item Source Command Modifier) → Prop where
  /-- A stage is next. -/
  | stage {ticket : Ticket} {chain : Chain Source Command Modifier} {sources : List Source}
      {forked : Bool} {below : List (Item Source Command Modifier)} (rest : Below ticket below) :
      Stacked (⟨ticket, .stage chain sources forked ticket.isEmpty⟩ :: below)
  /-- Lines that a stage has queued are next, if any are left. -/
  | lines {ticket : Ticket} {forked : Bool} {lines : List (QueuedLine Source × Nat)}
      {below : List (Item Source Command Modifier)} (rest : Below ticket below) :
      Stacked (waiting ticket forked lines ++ below)

variable {item : Item Source Command Modifier} {ticket : Ticket}
  {stack left : List (Item Source Command Modifier)}

/-- What is below an item to be worked on. -/
theorem Stacked.pop (h : Stacked (item :: stack)) (hitem : item.frame.isCatcher = false) :
    Below item.ticket stack ∧ item.frame.counts = item.ticket.isEmpty := by
  generalize hwhole : item :: stack = whole at h
  cases h with
  | stage rest =>
    cases hwhole
    exact ⟨rest, rfl⟩
  | @lines ticket forked lines below rest =>
    cases lines with
    | nil =>
      obtain rfl : item :: stack = below := hwhole
      cases rest with
      | queued => cases hitem
    | cons l lines =>
      cases hwhole
      exact ⟨.queued rest, rfl⟩

/-- When a catcher is dropped, the lines after its own are next. -/
theorem Stacked.drop (h : Stacked (item :: stack)) (hitem : item.frame.isCatcher = true) :
    Stacked stack := by
  generalize hwhole : item :: stack = whole at h
  cases h with
  | stage rest => cases hwhole; cases hitem
  | @lines ticket forked lines below rest =>
    cases lines with
    | nil =>
      obtain rfl : item :: stack = below := hwhole
      cases rest with
      | queued rest => exact .lines rest
    | cons l lines => cases hwhole; cases hitem

/-! ### Falling through it -/

/-- Lines of a stage that does not fork swallow nothing. -/
theorem unwind?_waiting (ticket : Ticket) (lines : List (QueuedLine Source × Nat))
    (stack : List (Item Source Command Modifier)) :
    unwind? (waiting ticket false lines ++ stack) = unwind? stack := by
  induction lines with
  | nil => rfl
  | cons l lines ih => exact ih

/-- What is waiting was queued by a stage of the line with the ticket. -/
theorem of_mem_waiting {forked : Bool} {lines : List (QueuedLine Source × Nat)}
    (h : item ∈ waiting ticket forked lines) :
    item.frame.isStage = false ∧ ∃ l ∈ lines, item.ticket = l.2 :: ticket := by
  obtain ⟨l, hl, hitem⟩ := List.mem_flatMap.1 h
  simp only [List.mem_cons, List.not_mem_nil, or_false] at hitem
  rcases hitem with rfl | rfl
  · exact ⟨rfl, l, hl, rfl⟩
  · exact ⟨rfl, l, hl, rfl⟩

/-- **What a fault removes was queued inside of the line whose catcher swallows it.** -/
theorem Below.unwind (h : Below ticket stack) (hleft : unwind? stack = some left) :
    Stacked left ∧ ∃ removed n outer, stack = removed ++ ⟨n :: outer, .catcher true⟩ :: left ∧
      n :: outer <:+ ticket ∧ ∀ i ∈ removed, n :: outer <:+ i.ticket.tail := by
  induction h with
  | asked => cases hleft
  | @queued m ticket forked lines below rest ih =>
    cases forked with
    | true =>
      cases hleft
      exact ⟨.lines rest, [], m, ticket, rfl, List.suffix_rfl, by simp⟩
    | false =>
      have hbelow : unwind? below = some left := by
        rw [← unwind?_waiting ticket lines below]
        exact hleft
      obtain ⟨hstacked, removed, n, outer, hsplit, hticket, hremoved⟩ := ih hbelow
      refine ⟨hstacked, ⟨m :: ticket, .catcher false⟩ :: (waiting ticket false lines ++ removed),
        n, outer, by simp [hsplit], hticket.trans (List.suffix_cons ..), ?_⟩
      intro i hi
      rcases List.mem_cons.1 hi with rfl | hi
      · exact hticket
      · rcases List.mem_append.1 hi with hi | hi
        · obtain ⟨-, l, -, hl⟩ := of_mem_waiting hi
          rw [hl]
          exact hticket
        · exact hremoved i hi

/-- Below the line asked for nothing swallows a fault. -/
theorem Below.isEmpty_eq_false (h : Below ticket stack) (hleft : unwind? stack = some left) :
    ticket.isEmpty = false := by
  cases h with
  | asked => cases hleft
  | queued => rfl

/-- How the work on a line with a ticket is sheltered by what is below it. -/
structure Shelters (stack : List (Item Source Command Modifier)) (ticket : Ticket) : Prop where
  /-- The topmost catcher is that of the line; the line asked for has none. -/
  topmost : (stack.find? fun i => i.frame.isCatcher).map Item.ticket =
    if ticket = [] then none else some ticket
  /-- It is next, and it swallows a fault or leaves it to what is below. -/
  first : ticket ≠ [] → ∃ forked below, stack = ⟨ticket, .catcher forked⟩ :: below ∧
    unwind? stack = if forked then some below else unwind? below
  /-- If a fault is swallowed, by a catcher that a stage of the line `outer` has set, then all else
  that it removes was queued inside of the line of the catcher, and not by that stage or by a stage
  that has that one inside of it. -/
  spared : ∀ left, unwind? stack = some left →
    ∃ removed n outer, stack = removed ++ ⟨n :: outer, .catcher true⟩ :: left ∧
      ∀ i ∈ removed, n :: outer <:+ i.ticket.tail ∧ ¬i.ticket.tail <:+ outer

theorem Below.shelters (h : Below ticket stack) : Shelters stack ticket where
  topmost := by
    cases h with
    | asked => rfl
    | queued => rfl
  first hticket := by
    cases h with
    | asked => exact absurd rfl hticket
    | queued => exact ⟨_, _, rfl, rfl⟩
  spared left hleft := by
    obtain ⟨-, removed, n, outer, hsplit, -, hremoved⟩ := h.unwind hleft
    refine ⟨removed, n, outer, hsplit, fun i hi => ⟨hremoved i hi, ?_⟩⟩
    intro hencloses
    exact Nat.not_succ_le_self _ ((hremoved i hi).trans hencloses).length_le

/-! ### Stages, lines and catchers -/

theorem Below.not_isStage (h : Below ticket stack) : ∀ i ∈ stack, i.frame.isStage = false := by
  induction h with
  | asked => simp
  | queued rest ih =>
    refine List.forall_mem_cons.2 ⟨rfl, ?_⟩
    intro i hi
    rcases List.mem_append.1 hi with hi | hi
    · exact (of_mem_waiting hi).1
    · exact ih i hi

/-- A stage is only on top. -/
theorem Stacked.not_isStage (h : Stacked stack) : ∀ i ∈ stack.tail, i.frame.isStage = false := by
  cases h with
  | stage rest => exact rest.not_isStage
  | lines rest =>
    intro i hi
    rcases List.mem_append.1 (List.mem_of_mem_tail hi) with hi | hi
    · exact (of_mem_waiting hi).1
    · exact rest.not_isStage i hi

/-- Each queued line lies on its own catcher. -/
def Paired (stack : List (Item Source Command Modifier)) : Prop :=
  ∀ item rest, item :: rest <:+ stack → item.frame.line?.isSome = true →
    ∃ forked below, rest = ⟨item.ticket, .catcher forked⟩ :: below

theorem Paired.cons (h : Paired stack) (hitem : item.frame.line?.isSome = false) :
    Paired (item :: stack) := by
  intro other rest hsuffix hline
  rcases List.suffix_cons_iff.1 hsuffix with heq | hsuffix
  · cases heq
    rw [hitem] at hline
    cases hline
  · exact h other rest hsuffix hline

theorem Paired.waiting (h : Paired stack) (ticket : Ticket) (forked : Bool)
    (lines : List (QueuedLine Source × Nat)) : Paired (waiting ticket forked lines ++ stack) := by
  induction lines with
  | nil => exact h
  | cons l lines ih =>
    intro item rest hsuffix hline
    rcases List.suffix_cons_iff.1 hsuffix with heq | hsuffix
    · cases heq
      exact ⟨forked, _, rfl⟩
    · exact ih.cons rfl item rest hsuffix hline

theorem Below.paired (h : Below ticket stack) : Paired stack := by
  induction h with
  | asked =>
    intro item rest hsuffix
    cases List.suffix_nil.1 hsuffix
  | queued rest ih => exact (ih.waiting _ _ _).cons rfl

theorem Stacked.paired (h : Stacked stack) : Paired stack := by
  cases h with
  | stage rest => exact rest.paired.cons rfl
  | lines rest => exact rest.paired.waiting _ _ _

/-- The tickets of the catchers on a stack. -/
def catchers (stack : List (Item Source Command Modifier)) : List Ticket :=
  (stack.filter fun i => i.frame.isCatcher).map Item.ticket

theorem catchers_append (stack others : List (Item Source Command Modifier)) :
    catchers (stack ++ others) = catchers stack ++ catchers others := by
  simp [catchers]

theorem catchers_waiting (ticket : Ticket) (forked : Bool)
    (lines : List (QueuedLine Source × Nat)) :
    catchers (waiting ticket forked lines : List (Item Source Command Modifier)) =
      lines.map fun l => l.2 :: ticket := by
  induction lines with
  | nil => rfl
  | cons l lines ih => exact congrArg (_ :: ·) ih

theorem nodup_catchers_of_suffix (h : left <:+ stack) (hstack : (catchers stack).Nodup) :
    (catchers left).Nodup :=
  ((h.sublist.filter _).map _).nodup hstack

/-- With numbers that are greater than those on a stack lines have tickets of their own. -/
theorem nodup_catchers_waiting {n : Nat} (hstack : (catchers stack).Nodup)
    (hless : ∀ i ∈ stack, ∀ m ∈ i.ticket, m < n) (ticket : Ticket) (forked : Bool)
    (lines : List (QueuedLine Source)) :
    (catchers (waiting ticket forked (lines.zipIdx n) ++ stack)).Nodup := by
  rw [catchers_append, catchers_waiting, List.nodup_append]
  refine ⟨?_, hstack, ?_⟩
  · rw [← Function.comp_def (· :: ticket) Prod.snd, ← List.map_map, List.zipIdx_map_snd]
    exact List.pairwise_map.2 ((List.nodup_range' ..).imp fun hne heq => hne (List.cons.inj heq).1)
  · intro new hnew old hold heq
    obtain ⟨l, hl, hticket⟩ := List.mem_map.1 hnew
    obtain ⟨i, hi, hold⟩ := List.mem_map.1 hold
    have hmem : l.2 ∈ i.ticket := by
      rw [hold, ← heq, ← hticket]
      exact .head _
    have hlt := hless i (List.mem_filter.1 hi).1 l.2 hmem
    exact absurd (List.le_snd_of_mem_zipIdx hl) (Nat.not_le_of_lt hlt)

end Item

namespace Executor

variable {tree : Tree Source Command Modifier} {host : Host Source Command Modifier State}
  {quota : Nat} {e d : Executor Source Command Modifier State}
  {item : Item Source Command Modifier} {stack : List (Item Source Command Modifier)}

/-! ### One iteration -/

/-- What every iteration finds. -/
structure Sound (e : Executor Source Command Modifier State) : Prop where
  pending : e.pending = []
  queue : e.queue = []
  stacked : Item.Stacked e.stack
  /-- No two catchers have one ticket. -/
  nodup : (Item.catchers e.stack).Nodup
  /-- The numbers of tickets have been drawn. -/
  drawn : ∀ i ∈ e.stack, ∀ n ∈ i.ticket, n < e.drawn

theorem sound_start (chain : Chain Source Command Modifier)
    (s : Session Source Command Modifier State) : (start chain s).Sound where
  pending := rfl
  queue := rfl
  stacked := .stage .asked
  nodup := List.nodup_nil
  drawn := by simp [start]

/-- The stack may be cut off from above, and more numbers may be drawn. -/
theorem Sound.of_suffix (h : e.Sound) (hsuffix : stack <:+ e.stack) (hstacked : Item.Stacked stack)
    (hdrawn : e.drawn ≤ d.drawn) :
    ({ d with stack, pending := [], queue := [] } :
      Executor Source Command Modifier State).Sound where
  pending := rfl
  queue := rfl
  stacked := hstacked
  nodup := Item.nodup_catchers_of_suffix hsuffix h.nodup
  drawn i hi n hn := Nat.lt_of_lt_of_le (h.drawn i (hsuffix.mem hi) n hn) hdrawn

section Settle

variable (h : e.Sound) (hstack : e.stack = item :: stack) (hitem : item.frame.isCatcher = false)
include h hstack hitem

theorem Sound.below : Item.Below item.ticket stack :=
  ((hstack ▸ h.stacked).pop hitem).1

/-- Lines go on the stack in the place of the item, with numbers that no other line has. -/
theorem Sound.settle_lines {forked : Bool} {n : Int32} {lines : List (QueuedLine Source)}
    {t : Session Source Command Modifier State}
    (hnext : settle (.ok (), (e.pop item stack).leave item.ticket forked n lines t) = .next d) :
    d.Sound := by
  rw [settle_leave (e := e.pop item stack) h.pending] at hnext
  cases hnext
  have hsuffix : stack <:+ e.stack := hstack ▸ List.suffix_cons ..
  have hless : ∀ i ∈ stack, ∀ m ∈ i.ticket, m < e.drawn := fun i hi => h.drawn i (hsuffix.mem hi)
  refine ⟨rfl, h.queue, .lines (h.below hstack hitem),
    Item.nodup_catchers_waiting (Item.nodup_catchers_of_suffix hsuffix h.nodup) hless .., ?_⟩
  intro i hi m hm
  rcases List.mem_append.1 hi with hi | hi
  · obtain ⟨-, l, hl, hticket⟩ := Item.of_mem_waiting hi
    rw [hticket] at hm
    rcases List.mem_cons.1 hm with rfl | hm
    · exact List.snd_lt_add_of_mem_zipIdx hl
    · exact Nat.lt_add_right _ (h.drawn item (hstack ▸ .head _) m hm)
  · exact Nat.lt_add_right _ (hless i hi m hm)

/-- A stage goes on the stack in the place of the item. -/
theorem Sound.settle_stage {chain : Chain Source Command Modifier} {sources : List Source}
    {forked : Bool} {t : Session Source Command Modifier State}
    (hnext : settle (.ok (), { e.pop item stack with session := t }.push
      ⟨item.ticket, .stage chain sources forked item.frame.counts⟩) = .next d) :
    d.Sound := by
  rw [settle_push (e := { e.pop item stack with session := t }) h.pending] at hnext
  cases hnext
  have hsuffix : stack <:+ e.stack := hstack ▸ List.suffix_cons ..
  obtain ⟨hbelow, hcounts⟩ := (hstack ▸ h.stacked).pop hitem
  have hnodup : (Item.catchers stack).Nodup := Item.nodup_catchers_of_suffix hsuffix h.nodup
  refine ⟨rfl, h.queue, ?_, hnodup, ?_⟩
  · rw [hcounts]
    exact .stage hbelow
  · refine List.forall_mem_cons.2 ⟨h.drawn item (hstack ▸ .head _), ?_⟩
    exact fun i hi => h.drawn i (hsuffix.mem hi)

/-- A fault falls on the stack below the item. -/
theorem Sound.settle_fault {counts : Bool} {c : Executor Source Command Modifier State} {f : Fault}
    (breaksOff : (e.pop item stack).BreaksOff counts c)
    (hnext : settle (.error f, c) = .next d) : d.Sound := by
  have hbelow : c.stack = stack := breaksOff.stack
  rw [settle, hbelow] at hnext
  split at hnext
  next left hleft =>
    cases hnext
    obtain ⟨hstacked, removed, n, outer, hsplit, -⟩ := (h.below hstack hitem).unwind hleft
    have hsuffix : left <:+ e.stack := by
      rw [hstack, hsplit]
      exact ((List.suffix_cons ..).trans (List.suffix_append ..)).trans (List.suffix_cons ..)
    exact h.of_suffix hsuffix hstacked breaksOff.drawn
  next => cases hnext

/-- Whatever comes of the work. -/
theorem Sound.of_brings {outcome : Except Fault (Int32 × List (Frame Source Command Modifier))}
    {t : Session Source Command Modifier State}
    {done : Except Fault Unit × Executor Source Command Modifier State}
    (brings : Brings item (e.pop item stack) outcome t done) (hnext : settle done = .next d) :
    d.Sound := by
  cases brings with
  | lines => exact h.settle_lines hstack hitem hnext
  | stage => exact h.settle_stage hstack hitem hnext
  | fault breaksOff => exact h.settle_fault hstack hitem breaksOff hnext

end Settle

/-- **Every iteration finds what the one before it has found.** -/
theorem Sound.iterate (h : e.Sound) (hnext : e.iterate host tree quota = .next d) : d.Sound := by
  cases hstack : e.stack with
  | nil => rw [iterate_nil hstack] at hnext; cases hnext
  | cons item stack =>
    have hsuffix : stack <:+ e.stack := hstack ▸ List.suffix_cons ..
    cases hitem : item.frame.isCatcher with
    | true =>
      rw [iterate_catcher hstack hitem] at hnext
      cases hnext
      have hdropped := h.of_suffix hsuffix ((hstack ▸ h.stacked).drop hitem) (Nat.le_refl e.drawn)
      rwa [← h.pending, ← h.queue] at hdropped
    | false =>
      by_cases hquota : quota < e.entries + item.frame.weight
      · rw [iterate_unpaid hstack hitem hquota] at hnext
        cases hnext
      · rw [iterate_paid hstack hitem hquota] at hnext
        exact h.of_brings hstack hitem (work_brings tree host hitem h.queue) hnext

theorem Sound.reaches (h : e.Sound) (hreaches : e.Reaches host tree quota d) : d.Sound := by
  induction hreaches with
  | refl => exact h
  | step hnext _ ih => exact ih (h.iterate hnext)

/-! ### What a machine makes of it -/

/-- The machine with the frames of an executor on its stack. -/
def machine (e : Executor Source Command Modifier State) :
    Machine Source Command Modifier State where
  stack := e.stack.map Item.frame
  entries := e.entries
  total := e.total
  session := e.session

end Executor

/-- What an iteration comes to for a machine. -/
def Iteration.round : Iteration Source Command Modifier State → Round Source Command Modifier State
  | .finished result session => .finished result session
  | .next e => .pending e.machine

namespace Executor

variable {tree : Tree Source Command Modifier} {host : Host Source Command Modifier State}
  {quota : Nat} {e d : Executor Source Command Modifier State}
  {item : Item Source Command Modifier} {stack : List (Item Source Command Modifier)}

/-- A catcher makes no difference to a round. -/
theorem step_machine_of_catcher (hstack : e.stack = item :: stack)
    (hitem : item.frame.isCatcher = true) :
    e.machine.step tree host quota =
      ({ e with stack } : Executor Source Command Modifier State).machine.step tree host quota := by
  have hskip : e.machine.stack.dropWhile Frame.isCatcher =
      (stack.map Item.frame).dropWhile Frame.isCatcher := by
    simp [machine, hstack, hitem]
  rw [Machine.step, Machine.step, hskip]
  rfl

section Paid

variable (hstack : e.stack = item :: stack) (hitem : item.frame.isCatcher = false)
include hstack hitem

theorem dropWhile_machine :
    e.machine.stack.dropWhile Frame.isCatcher = item.frame :: stack.map Item.frame := by
  simp [machine, hstack, hitem]

theorem step_machine_of_unpaid (hquota : quota < e.entries + item.frame.weight) :
    e.machine.step tree host quota = .finished (.error ⟨.limitReached quota, none⟩) e.session := by
  refine Machine.step_of_overdraws ?_
  rw [Machine.overdraws, dropWhile_machine hstack hitem]
  exact decide_eq_true hquota

/-- What comes of the work is the same.  What a stage of the chain asked for has added to the total
when a fault breaks it off is of no account, since no catcher is below it. -/
theorem Sound.settle_round (h : e.Sound)
    {outcome : Except Fault (Int32 × List (Frame Source Command Modifier))}
    {t : Session Source Command Modifier State}
    {done : Except Fault Unit × Executor Source Command Modifier State}
    (brings : Brings item (e.pop item stack) outcome t done) :
    Machine.settle (outcome, t) (stack.map Item.frame) (e.entries + item.frame.weight) e.total =
      (settle done).round := by
  obtain ⟨hbelow, hcounts⟩ := (hstack ▸ h.stacked).pop hitem
  cases brings with
  | lines forked n lines t =>
    rw [settle_leave (e := e.pop item stack) h.pending]
    simp [Machine.settle, Iteration.round, machine, pop, Item.map_frame_waiting]
  | stage chain sources forked t =>
    rw [settle_push (e := { e.pop item stack with session := t }) h.pending]
    simp [Machine.settle, Iteration.round, machine, pop]
  | @fault f d breaksOff =>
    have hd : d.stack = stack := breaksOff.stack
    rw [Machine.settle, Machine.fall, settle, hd, Item.unwind?_map_frame]
    cases hleft : Item.unwind? stack with
    | none => rfl
    | some left =>
      have hentries : d.entries = e.entries + item.frame.weight := breaksOff.entries
      have htotal : d.total = e.total :=
        breaksOff.total (hcounts.trans (hbelow.isEmpty_eq_false hleft))
      simp [Iteration.round, machine, hentries, htotal]

/-- An item that is paid for is worked on. -/
theorem Sound.step_machine_of_paid (h : e.Sound)
    (hquota : ¬quota < e.entries + item.frame.weight) :
    e.machine.step tree host quota =
      (settle ((e.pop item stack).work host tree item)).round := by
  have hpaid : e.machine.overdraws quota = false := by
    rw [Machine.overdraws, dropWhile_machine hstack hitem]
    exact decide_eq_false hquota
  rw [Machine.step_of_not_overdraws hpaid, Machine.advance_cons (dropWhile_machine hstack hitem)]
  exact h.settle_round hstack hitem (work_brings tree host hitem h.queue)

end Paid

/-- For a machine an iteration is a round, unless it drops a catcher, and then there is less on the
stack. -/
theorem Sound.iterate_round (h : e.Sound) :
    e.machine.step tree host quota = (e.iterate host tree quota).round ∨
      ∃ d, e.iterate host tree quota = .next d ∧
        d.stack.length < e.stack.length ∧ d.entries = e.entries ∧
        e.machine.step tree host quota = d.machine.step tree host quota := by
  cases hstack : e.stack with
  | nil =>
    rw [iterate_nil hstack]
    left
    simp [Machine.step, machine, hstack, Iteration.round]
  | cons item stack =>
    cases hitem : item.frame.isCatcher with
    | true =>
      exact .inr ⟨_, iterate_catcher hstack hitem, Nat.lt_succ_self _, rfl,
        step_machine_of_catcher hstack hitem⟩
    | false =>
      left
      by_cases hquota : quota < e.entries + item.frame.weight
      · rw [iterate_unpaid hstack hitem hquota, step_machine_of_unpaid hstack hitem hquota]
        rfl
      · rw [iterate_paid hstack hitem hquota, h.step_machine_of_paid hstack hitem hquota]

/-- **Going on item by item comes to an end, and to what the machine comes to.**  An iteration uses
up some of the quota or drops a catcher. -/
theorem Sound.exists_final (tree : Tree Source Command Modifier)
    (host : Host Source Command Modifier State) (quota : Nat)
    {e : Executor Source Command Modifier State} (h : e.Sound) :
    ∃ final result session, e.Reaches host tree quota final ∧
      final.iterate host tree quota = .finished result session ∧
      e.machine.Ends tree host quota result session := by
  cases hnext : e.iterate host tree quota with
  | finished result session =>
    refine ⟨e, result, session, .refl e, hnext, ?_⟩
    rcases h.iterate_round with hround | ⟨d, hdrops, -⟩
    · rw [hnext] at hround
      exact Machine.ends_of_finished hround
    · cases hnext.symm.trans hdrops
  | next d =>
    rcases h.iterate_round with hround | ⟨c, hdrops, hlength, hentries, hstep⟩
    · rw [hnext] at hround
      have hcharged : e.entries < d.entries ∧ d.entries ≤ quota :=
        Machine.entries_lt_of_pending hround
      obtain ⟨final, result, session, hreaches, hfinal, hends⟩ :=
        (h.iterate hnext).exists_final tree host quota
      exact ⟨final, result, session, .step hnext hreaches, hfinal,
        Machine.ends_of_pending hround hends⟩
    · cases hnext.symm.trans hdrops
      obtain ⟨final, result, session, hreaches, hfinal, hends⟩ :=
        (h.iterate hnext).exists_final tree host quota
      exact ⟨final, result, session, .step hnext hreaches, hfinal,
        Machine.ends_of_step_eq hstep hends⟩
termination_by (quota - e.entries, e.stack.length)
decreasing_by
  · exact Prod.Lex.left _ _ (by omega)
  · rw [hentries]
    exact Prod.Lex.right _ hlength

/-! ### Every execution -/

/-- What holds at the start of an iteration. -/
structure Disciplined (tree : Tree Source Command Modifier)
    (host : Host Source Command Modifier State) (e : Executor Source Command Modifier State) :
    Prop where
  /-- Nothing is held back, and nothing is in the queue. -/
  cleared : e.pending = [] ∧ e.queue = []
  /-- A stage is only on top of the stack. -/
  stages : ∀ i ∈ e.stack.tail, i.frame.isStage = false
  /-- Each queued line lies on its own catcher. -/
  paired : Item.Paired e.stack
  /-- No two catchers belong to one line. -/
  apart : (Item.catchers e.stack).Nodup
  /-- While an item is worked on the rest of the stack stays as it is, and shelters it. -/
  sheltered : ∀ item rest, e.stack = item :: rest → item.frame.isCatcher = false →
    ((e.pop item rest).work host tree item).2.stack = rest ∧ Item.Shelters rest item.ticket

theorem Brings.stack_eq {outcome : Except Fault (Int32 × List (Frame Source Command Modifier))}
    {t : Session Source Command Modifier State}
    {done : Except Fault Unit × Executor Source Command Modifier State}
    (h : Brings item e outcome t done) : done.2.stack = e.stack := by
  cases h with
  | lines => rfl
  | stage => rfl
  | fault breaksOff => exact breaksOff.stack

theorem Sound.disciplined (h : e.Sound) (tree : Tree Source Command Modifier)
    (host : Host Source Command Modifier State) : e.Disciplined tree host where
  cleared := ⟨h.pending, h.queue⟩
  stages := h.stacked.not_isStage
  paired := h.stacked.paired
  apart := h.nodup
  sheltered item rest hstack hitem :=
    ⟨(work_brings tree host (e := e.pop item rest) hitem h.queue).stack_eq,
      (h.below hstack hitem).shelters⟩

end Executor

/--
**Faults come to the catchers of their own lines.**

The execution of a reading that names a chain is gone through item by item, and comes to the result
and the session that it answers.  At the start of each iteration nothing is held back and no line is
in the queue, there is at most one stage on the stack and only on top, and each queued line lies on
a catcher with its own ticket, which no other catcher has.  While a queued line or a stage of its
chain is worked on, the topmost catcher is that of the line, so a fault comes to it first.  Where a
fault is swallowed, no catcher and no line above the catcher that swallows it was queued by the
stage that has set it, or by a stage further out.
-/
theorem Tree.executeReading_disciplined (tree : Tree Source Command Modifier)
    (host : Host Source Command Modifier State) (quota : Nat)
    {r : Reading Source Command Modifier} {chain : Chain Source Command Modifier}
    (names : r.Names chain) (s : Session Source Command Modifier State) :
    (∃ final result session,
      (Executor.start chain s).Reaches host tree quota final ∧
        final.iterate host tree quota = .finished result session ∧
        tree.executeReading host quota r s = (result, session)) ∧
      ∀ e, (Executor.start chain s).Reaches host tree quota e → e.Disciplined tree host := by
  refine ⟨?_, fun e he => ((Executor.sound_start chain s).reaches he).disciplined tree host⟩
  obtain ⟨final, result, session, hreaches, hfinal, hends⟩ :=
    (Executor.sound_start chain s).exists_final tree host quota
  refine ⟨final, result, session, hreaches, hfinal, Tree.ends_iff.1 ?_⟩
  unfold Tree.Ends Reading.opening
  simp only [names.whole, Reading.chain_of_some names.given]
  exact hends

/-- On `both go` two lines are queued after a fork, and each waits on a catcher of its own. -/
theorem executeReading_disciplined_unruly :
    ∃ chain : Chain Nat Unit Unit,
      (splitTree.read "both go" 0).Names chain ∧
      (∃ final result session,
        (Executor.start chain ⟨(), []⟩).Reaches unrulyHost splitTree 9 final ∧
          final.iterate unrulyHost splitTree 9 = .finished result session ∧
          splitTree.executeReading unrulyHost 9 (splitTree.read "both go" 0) ⟨(), []⟩ =
            (result, session)) ∧
      ∃ e, (Executor.start chain ⟨(), []⟩).Reaches unrulyHost splitTree 9 e ∧
        (e.stack.map fun i => (i.ticket, i.frame.isCatcher)) =
          [([0], false), ([0], true), ([1], false), ([1], true)] ∧
        e.Disciplined splitTree unrulyHost := by
  obtain ⟨chain, e, names, hreaches, hstack⟩ :
      ∃ (chain : Chain Nat Unit Unit) (e : Executor Nat Unit Unit Unit),
        (splitTree.read "both go" 0).Names chain ∧
        (Executor.start chain ⟨(), []⟩).Reaches unrulyHost splitTree 9 e ∧
        (e.stack.map fun i => (i.ticket, i.frame.isCatcher)) =
          [([0], false), ([0], true), ([1], false), ([1], true)] :=
    ⟨_, _, ⟨rfl, rfl⟩, .step rfl (.step rfl (.refl _)), rfl⟩
  obtain ⟨hends, hdisciplined⟩ :=
    Tree.executeReading_disciplined splitTree unrulyHost 9 names ⟨(), []⟩
  exact ⟨chain, names, hends, e, hreaches, hstack, hdisciplined e hreaches⟩

end CommandLines
