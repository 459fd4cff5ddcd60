/-
What becomes of queued lines.

Commands queue lines while they run, and the lines are run later, from a stack that faults
cut down.  Nothing in the machine says where a line on the stack comes from, so it might be
one of a command that has failed, or be there twice, or be gone.  This file keeps the
account.  Each queued line has an `Entry`, which is the turn that queued it and its place
in that turn, and `Accounts` says that the lines that are started are lines that were
queued: each is another entry, and those of one turn come in the order in which they were
queued.

The induction follows the turns, and carries along which entries are pending.  `Awaits`
lists them as they stand on the stack, the next one first.  It also knows which of them no
fault can reach.  A line that was queued after a fork is next, or stands right below a
catcher that swallows every fault; it stays there until it is next, so only the quota can
keep it from being started.
-/
import CommandLines.Proofs.Execution.Turns
import Mathlib.Logic.Function.Basic

namespace CommandLines

variable {Source Command Modifier State : Type}

/-- Where a line was queued: the number of the turn, and how many lines were queued before it in
that turn. -/
structure Entry where
  turn : Nat
  place : Nat
deriving DecidableEq

/-- Of two entries of one turn the first was queued earlier. -/
def Entry.Before (a b : Entry) : Prop :=
  a.turn = b.turn → a.place < b.place

/-- The entry is that of a line which was queued, in a turn that came to its end. -/
structure Entry.Holds (e : Entry) (turns : List (Turn Source Command Modifier))
    (t : Turn Source Command Modifier) (l : QueuedLine Source) : Prop where
  turn : turns[e.turn]? = some t
  settles : t.Settles
  queued : t.queued[e.place]? = some l

/-- The line that the turn of a number starts. -/
def lineAt? (turns : List (Turn Source Command Modifier)) (i : Nat) :
    Option (QueuedLine Source) :=
  turns[i]?.bind Turn.line?

/-- Every line that is started was queued, at an entry of its own. -/
structure Accounts (turns : List (Turn Source Command Modifier)) (origin : Nat → Entry) :
    Prop where
  /-- The line is the one that was queued, in an earlier turn that came to its end. -/
  queued : ∀ i l, lineAt? turns i = some l →
    (origin i).turn < i ∧ ∃ t, (origin i).Holds turns t l
  /-- No entry is started twice. -/
  once : ∀ i j l k, lineAt? turns i = some l → lineAt? turns j = some k →
    origin i = origin j → i = j
  /-- Lines of one turn are started in the order in which they were queued. -/
  ordered : ∀ i j l k, lineAt? turns i = some l → lineAt? turns j = some k → i < j →
    (origin i).Before (origin j)

/-! ### Lines on the stack -/

/-- A queued line that has not been started. -/
structure Pending (Source : Type) where
  entry : Entry
  line : QueuedLine Source
  /-- Whether it was queued after a fork. -/
  forked : Bool

/-- The line was queued where its entry says. -/
structure Pending.Known (p : Pending Source) (turns : List (Turn Source Command Modifier)) :
    Prop where
  holds : ∃ t, p.entry.Holds turns t p.line ∧ t.frame.forked = p.forked

/-- The lines that a turn has queued. -/
def Turn.pending (t : Turn Source Command Modifier) (i : Nat) : List (Pending Source) :=
  t.queued.zipIdx.map fun (line, place) => ⟨⟨i, place⟩, line, t.frame.forked⟩

/-- The lines that stand on a stack.  Those that were queued after a fork are out of the reach of
faults: there is nothing but a catcher that swallows faults right above, or, if `top` says so, the
top of the stack. -/
inductive Awaits : (top : Bool) → List (Frame Source Command Modifier) → List (Pending Source) →
    Prop where
  | nil {top : Bool} : Awaits top [] []
  | stage {top forked counts : Bool} {chain : Chain Source Command Modifier}
      {sources : List Source} {stack : List (Frame Source Command Modifier)}
      {lines : List (Pending Source)} (rest : Awaits false stack lines) :
      Awaits top (.stage chain sources forked counts :: stack) lines
  | line {top : Bool} {p : Pending Source} {stack : List (Frame Source Command Modifier)}
      {lines : List (Pending Source)} (safe : p.forked = true → top = true)
      (rest : Awaits false stack lines) :
      Awaits top (.line p.line :: stack) (p :: lines)
  | catcher {top forked : Bool} {stack : List (Frame Source Command Modifier)}
      {lines : List (Pending Source)} (rest : Awaits forked stack lines) :
      Awaits top (.catcher forked :: stack) lines

namespace Awaits

variable {top : Bool} {stack below stages : List (Frame Source Command Modifier)}
  {lines : List (Pending Source)} {frame : Frame Source Command Modifier}

theorem mono (h : Awaits false stack lines) : Awaits top stack lines := by
  cases h with
  | nil => exact .nil
  | stage rest => exact .stage rest
  | line safe rest => exact .line (fun hf => absurd (safe hf) (by simp)) rest
  | catcher rest => exact .catcher rest

/-- Catchers on top are passed over. -/
theorem dropCatchers (h : Awaits top stack lines) :
    Awaits true (stack.dropWhile Frame.isCatcher) lines := by
  induction h with
  | nil => exact .nil
  | stage rest => exact .stage rest
  | line _ rest => exact .line (fun _ => rfl) rest
  | catcher _ ih => exact ih

/-- The next frame is the first line, or is no line. -/
theorem next (h : Awaits top stack lines)
    (hnext : stack.dropWhile Frame.isCatcher = frame :: below) :
    ∃ head rest, lines = Option.toList head ++ rest ∧ head.map Pending.line = frame.line? ∧
      Awaits false below rest := by
  have htop := h.dropCatchers
  rw [hnext] at htop
  cases htop with
  | stage rest => exact ⟨none, lines, rfl, rfl, rest⟩
  | line _ rest => exact ⟨some _, _, rfl, rfl, rest⟩
  | catcher => cases Machine.isCatcher_of_dropWhile hnext

theorem append_stages (hstages : ∀ stage ∈ stages, stage.isStage = true)
    (h : Awaits false stack lines) : Awaits false (stages ++ stack) lines := by
  induction stages with
  | nil => exact h
  | cons stage stages ih =>
    obtain ⟨hstage, hrest⟩ := List.forall_mem_cons.1 hstages
    cases stage with
    | stage => exact .stage (ih hrest)
    | line | catcher => cases hstage

/-- The lines of a stage are put on top of a stack. -/
theorem append_ofQueued {forked : Bool} (h : Awaits false stack lines) :
    ∀ {top : Bool} (queued : List (Pending Source)),
      (∀ p ∈ queued, p.forked = forked) → (forked = true → top = true) →
      Awaits top (Frame.ofQueued forked (queued.map Pending.line) ++ stack)
        (queued ++ lines) := by
  intro top queued
  induction queued generalizing top with
  | nil => intro _ _; exact h.mono
  | cons p queued ih =>
    intro hforked htop
    obtain ⟨hp, hforked⟩ := List.forall_mem_cons.1 hforked
    refine .line (fun hf => htop (hp ▸ hf)) ?_
    exact .catcher (ih hforked id)

/-- A fault takes the first lines with it, and none of those that were queued after a fork. -/
theorem unwind (h : Awaits top stack lines) (htop : top = false)
    (hunwind : Frame.unwind? stack = some below) :
    ∃ lost kept, lines = lost ++ kept ∧ (∀ p ∈ lost, p.forked = false) ∧
      Awaits true below kept := by
  induction h with
  | nil => cases hunwind
  | stage _ ih => exact ih rfl hunwind
  | @line top p stack lines safe _ ih =>
    obtain ⟨lost, kept, rfl, hlost, hkept⟩ := ih rfl hunwind
    have hp : p.forked = false :=
      Bool.eq_false_iff.2 fun hf => Bool.false_ne_true (htop.symm.trans (safe hf))
    exact ⟨p :: lost, kept, rfl, List.forall_mem_cons.2 ⟨hp, hlost⟩, hkept⟩
  | @catcher top forked stack lines rest ih =>
    cases forked with
    | true =>
      cases hunwind
      exact ⟨[], lines, rfl, by simp, rest⟩
    | false => exact ih rfl hunwind

/-- Where nothing stops a fault no line was queued after a fork. -/
theorem of_unwind_none (h : Awaits top stack lines) (htop : top = false)
    (hunwind : Frame.unwind? stack = none) : ∀ p ∈ lines, p.forked = false := by
  induction h with
  | nil => simp
  | stage _ ih => exact ih rfl hunwind
  | @line top p stack lines safe _ ih =>
    have hp : p.forked = false :=
      Bool.eq_false_iff.2 fun hf => Bool.false_ne_true (htop.symm.trans (safe hf))
    exact List.forall_mem_cons.2 ⟨hp, ih rfl hunwind⟩
  | @catcher top forked stack lines rest ih =>
    cases forked with
    | true => cases hunwind
    | false => exact ih rfl hunwind

end Awaits

theorem Frame.eq_nil_of_dropCatchers {stack : List (Frame Source Command Modifier)}
    {lines : List (Pending Source)} {top : Bool} (h : Awaits top stack lines)
    (hrests : stack.dropWhile Frame.isCatcher = []) : lines = [] := by
  have hnext := h.dropCatchers
  rw [hrests] at hnext
  cases hnext
  rfl

/-! ### The lines of a turn -/

section

variable {turns : List (Turn Source Command Modifier)} {t : Turn Source Command Modifier}
  {i : Nat} {p : Pending Source}

theorem Turn.map_line_pending (t : Turn Source Command Modifier) (i : Nat) :
    (t.pending i).map Pending.line = t.queued := by
  rw [Turn.pending, List.map_map]
  exact List.zipIdx_map_fst 0 t.queued

theorem Turn.mem_pending_iff :
    p ∈ t.pending i ↔
      p.entry.turn = i ∧ t.queued[p.entry.place]? = some p.line ∧ p.forked = t.frame.forked := by
  obtain ⟨⟨turn, place⟩, line, forked⟩ := p
  rw [Turn.pending, List.mem_map]
  constructor
  · rintro ⟨⟨l, k⟩, hmem, heq⟩
    cases heq
    exact ⟨rfl, List.mem_zipIdx_iff_getElem?.1 hmem, rfl⟩
  · rintro ⟨rfl, hqueued, rfl⟩
    exact ⟨(line, place), List.mem_zipIdx_iff_getElem?.2 hqueued, rfl⟩

/-- The lines of a turn are pending in the order in which they were queued. -/
theorem Turn.pending_before (t : Turn Source Command Modifier) (i : Nat) :
    (t.pending i).Pairwise fun p q => p.entry.Before q.entry := by
  have hplaces : (t.queued.zipIdx.map Prod.snd).Pairwise (· < ·) := by
    rw [List.zipIdx_map_snd]
    exact List.pairwise_lt_range'
  rw [Turn.pending, List.pairwise_map]
  refine (List.pairwise_map.1 hplaces).imp ?_
  intro a b hlt _
  exact hlt

theorem Turn.known_of_pending (hturn : turns[i]? = some t) (hsettles : t.Settles)
    (hp : p ∈ t.pending i) : p.Known turns := by
  obtain ⟨rfl, hqueued, hforked⟩ := Turn.mem_pending_iff.1 hp
  exact ⟨t, ⟨hturn, hsettles, hqueued⟩, hforked.symm⟩

end

/-! ### Following the turns -/

/-- What is known of the lines that are pending before a turn. -/
structure Ledger (turns : List (Turn Source Command Modifier)) (first : Nat)
    (pending : List (Pending Source)) : Prop where
  known : ∀ p ∈ pending, p.Known turns ∧ p.entry.turn < first
  before : pending.Pairwise fun p q => p.entry.Before q.entry

/-- The entry can be started from a turn on: its line is pending, or has yet to be queued. -/
def Entry.Due (e : Entry) (first : Nat) (pending : List (Pending Source)) : Prop :=
  first ≤ e.turn ∨ ∃ p ∈ pending, p.entry = e

/-- What can be said of the lines started from a turn on, if `pending` are the lines that were
queued before and are still to be started. -/
structure Traces (turns : List (Turn Source Command Modifier)) (first : Nat)
    (pending : List (Pending Source)) (paid : Prop) (origin : Nat → Entry) : Prop where
  queued : ∀ i l, first ≤ i → lineAt? turns i = some l →
    (origin i).turn < i ∧ ∃ t, (origin i).Holds turns t l
  due : ∀ i l, first ≤ i → lineAt? turns i = some l → (origin i).Due first pending
  ordered : ∀ i j l k, first ≤ i → i < j → lineAt? turns i = some l → lineAt? turns j = some k →
    (origin i).Before (origin j)
  /-- A line is lost to the quota only, if no turn raises a fault or it was queued after a fork. -/
  kept : paid → ∀ e t l, e.Holds turns t l → ((∀ u ∈ turns, u.Settles) ∨ t.frame.forked = true) →
    e.Due first pending → ∃ i, first ≤ i ∧ lineAt? turns i = some l ∧ origin i = e

/-- A turn in the account.  Of the lines that are pending it starts the first, `head`, and `rest`
are the others; when it is over `next` are pending. -/
structure Posts (turns : List (Turn Source Command Modifier)) (first : Nat)
    (t : Turn Source Command Modifier) (head : Option (Pending Source))
    (rest next : List (Pending Source)) : Prop where
  turn : turns[first]? = some t
  starts : head.map Pending.line = t.line?
  ledger : Ledger turns first (head.toList ++ rest)
  stays : ∀ p ∈ next, p ∈ rest ∨ p.entry.turn = first
  leaves : ∀ p ∈ rest, (∀ u ∈ turns, u.Settles) ∨ p.forked = true → p ∈ next
  adds : t.Settles → ∀ p ∈ t.pending first, p ∈ next

section

variable {turns : List (Turn Source Command Modifier)} {t : Turn Source Command Modifier}
  {first : Nat} {head : Option (Pending Source)} {rest next : List (Pending Source)}
  {paid : Prop} {origin : Nat → Entry} {e : Entry} {l : QueuedLine Source}

/-! #### What is pending -/

theorem Ledger.drop {gone : List (Pending Source)} (h : Ledger turns first (gone ++ rest)) :
    Ledger turns (first + 1) rest where
  known p hp := (h.known p (List.mem_append_right gone hp)).imp_right Nat.lt_succ_of_lt
  before := (List.pairwise_append.1 h.before).2.1

/-- The lines that a turn has queued are pending after it. -/
theorem Ledger.add {gone : List (Pending Source)} (h : Ledger turns first (gone ++ rest))
    (turn : turns[first]? = some t) (settles : t.Settles) :
    Ledger turns (first + 1) (t.pending first ++ rest) where
  known := by
    intro p hp
    rcases List.mem_append.1 hp with hnew | hrest
    · refine ⟨Turn.known_of_pending turn settles hnew, ?_⟩
      rw [(Turn.mem_pending_iff.1 hnew).1]
      exact Nat.lt_succ_self first
    · exact h.drop.known p hrest
  before := by
    refine List.pairwise_append.2 ⟨t.pending_before first, h.drop.before, ?_⟩
    intro p hp q hq heq
    have hp := (Turn.mem_pending_iff.1 hp).1
    have hq := (h.known q (List.mem_append_right gone hq)).2
    omega

namespace Posts

/-- A turn that comes to its end adds what it has queued, and loses nothing. -/
theorem of_settles (turn : turns[first]? = some t) (starts : head.map Pending.line = t.line?)
    (ledger : Ledger turns first (head.toList ++ rest)) :
    Posts turns first t head rest (t.pending first ++ rest) where
  turn := turn
  starts := starts
  ledger := ledger
  stays := by
    intro p hp
    rcases List.mem_append.1 hp with hnew | hrest
    · exact .inr (Turn.mem_pending_iff.1 hnew).1
    · exact .inl hrest
  leaves _ hp _ := List.mem_append_right _ hp
  adds _ _ hp := List.mem_append_left rest hp

/-- A turn that raises a fault queues nothing, and loses no line that was queued after a fork. -/
theorem of_fault {lost kept : List (Pending Source)} (turn : turns[first]? = some t)
    (starts : head.map Pending.line = t.line?)
    (ledger : Ledger turns first (head.toList ++ (lost ++ kept))) (raises : ¬t.Settles)
    (within : ∀ p ∈ lost, p.forked = false) :
    Posts turns first t head (lost ++ kept) kept where
  turn := turn
  starts := starts
  ledger := ledger
  stays _ hp := .inl (List.mem_append_right lost hp)
  leaves := by
    intro p hp hfree
    rcases List.mem_append.1 hp with hlost | hkept
    · rcases hfree with hall | hforked
      · exact absurd (hall t (List.mem_of_getElem? turn)) raises
      · rw [within p hlost] at hforked
        cases hforked
    · exact hkept
  adds hsettles := absurd hsettles raises

variable (h : Posts turns first t head rest next)

include h

theorem lineAt?_eq : lineAt? turns first = head.map Pending.line := by
  rw [lineAt?, h.turn, Option.bind_some, h.starts]

/-- What can be started after the turn could be started before it. -/
theorem due_rest (hdue : e.Due (first + 1) next) : e.Due first rest := by
  rcases hdue with hturn | ⟨p, hp, hentry⟩
  · exact .inl (Nat.le_of_lt hturn)
  · rcases h.stays p hp with hrest | hturn
    · exact .inr ⟨p, hrest, hentry⟩
    · exact .inl (hentry ▸ Nat.le_of_eq hturn.symm)

/-- What can be started before the turn is started by it, or can be started after it, unless it was
lost. -/
theorem due_next {u : Turn Source Command Modifier} (holds : e.Holds turns u l)
    (free : (∀ v ∈ turns, v.Settles) ∨ u.frame.forked = true)
    (hdue : e.Due first (head.toList ++ rest)) :
    (∃ p ∈ head.toList, p.entry = e ∧ p.line = l) ∨ e.Due (first + 1) next := by
  rcases hdue with hturn | ⟨p, hp, rfl⟩
  · rcases Nat.eq_or_lt_of_le hturn with rfl | hturn
    · obtain rfl : t = u := Option.some.inj (h.turn.symm.trans holds.turn)
      have hmem : (⟨e, l, t.frame.forked⟩ : Pending Source) ∈ t.pending e.turn :=
        Turn.mem_pending_iff.2 ⟨rfl, holds.queued, rfl⟩
      exact .inr (.inr ⟨_, h.adds holds.settles _ hmem, rfl⟩)
    · exact .inr (.inl hturn)
  · obtain ⟨⟨v, hv, hforked⟩, -⟩ := h.ledger.known p hp
    obtain rfl : v = u := Option.some.inj (hv.turn.symm.trans holds.turn)
    rcases List.mem_append.1 hp with hhead | hrest
    · exact .inl ⟨p, hhead, rfl, Option.some.inj (hv.queued.symm.trans holds.queued)⟩
    · exact .inr (.inr ⟨p, h.leaves p hrest (free.imp_right fun hf => hforked ▸ hf), rfl⟩)

end Posts

/-! #### What is started -/

theorem Traces.nil {pending : List (Pending Source)} (hdone : turns.length ≤ first)
    (hpending : paid → pending = []) : Traces turns first pending paid origin := by
  have hnone (i : Nat) (hi : first ≤ i) : turns[i]? = none :=
    List.getElem?_eq_none (Nat.le_trans hdone hi)
  have hline (i : Nat) (l : QueuedLine Source) (hi : first ≤ i) : lineAt? turns i ≠ some l := by
    simp [lineAt?, hnone i hi]
  refine ⟨fun i l hi hl => absurd hl (hline i l hi), fun i l hi hl => absurd hl (hline i l hi),
    fun i j l k hi _ hl _ => absurd hl (hline i l hi), ?_⟩
  intro hpaid e t l holds _ hdue
  rcases hdue with hturn | ⟨p, hp, -⟩
  · cases (hnone e.turn hturn).symm.trans holds.turn
  · rw [hpending hpaid] at hp
    cases hp

/-- **A turn keeps the account.**  The line that it starts has the entry that was next, and the
lines that are started later have theirs. -/
theorem Traces.cons (post : Posts turns first t head rest next)
    (h : Traces turns (first + 1) next paid origin) :
    Traces turns first (head.toList ++ rest) paid
      (Function.update origin first (head.elim ⟨0, 0⟩ Pending.entry)) := by
  have hlater {i : Nat} (hi : first < i) : Function.update origin first
      (head.elim ⟨0, 0⟩ Pending.entry) i = origin i :=
    Function.update_of_ne (Nat.ne_of_gt hi) ..
  have hnow {p : Pending Source} (hp : p ∈ head.toList) : Function.update origin first
      (head.elim ⟨0, 0⟩ Pending.entry) first = p.entry := by
    rw [Function.update_self, Option.mem_toList.1 hp]
    rfl
  have hhead {l : QueuedLine Source} (hl : lineAt? turns first = some l) :
      ∃ p ∈ head.toList, p.line = l := by
    rw [post.lineAt?_eq] at hl
    obtain ⟨p, rfl, rfl⟩ := Option.map_eq_some_iff.1 hl
    exact ⟨p, by simp, rfl⟩
  refine ⟨?_, ?_, ?_, ?_⟩
  · intro i l hi hl
    rcases Nat.eq_or_lt_of_le hi with rfl | hi
    · obtain ⟨p, hp, rfl⟩ := hhead hl
      obtain ⟨⟨u, hu, -⟩, hturn⟩ := post.ledger.known p (List.mem_append_left rest hp)
      rw [hnow hp]
      exact ⟨hturn, u, hu⟩
    · rw [hlater hi]
      exact h.queued i l hi hl
  · intro i l hi hl
    rcases Nat.eq_or_lt_of_le hi with rfl | hi
    · obtain ⟨p, hp, -⟩ := hhead hl
      exact .inr ⟨p, List.mem_append_left rest hp, (hnow hp).symm⟩
    · rw [hlater hi]
      refine (post.due_rest (h.due i l hi hl)).imp_right ?_
      intro hrest
      obtain ⟨p, hp, hentry⟩ := hrest
      exact ⟨p, List.mem_append_right _ hp, hentry⟩
  · intro i j l k hi hij hl hk
    rcases Nat.eq_or_lt_of_le hi with rfl | hi
    · obtain ⟨p, hp, -⟩ := hhead hl
      rw [hnow hp, hlater hij]
      have hturn := (post.ledger.known p (List.mem_append_left rest hp)).2
      rcases post.due_rest (h.due j k hij hk) with hlate | ⟨q, hq, hentry⟩
      · intro heq
        omega
      · rw [← hentry]
        exact (List.pairwise_append.1 post.ledger.before).2.2 p hp q hq
    · rw [hlater hi, hlater (Nat.lt_trans hi hij)]
      exact h.ordered i j l k hi hij hl hk
  · intro hpaid e u l holds hfree hdue
    rcases post.due_next holds hfree hdue with ⟨p, hp, rfl, rfl⟩ | hdue
    · refine ⟨first, Nat.le_refl first, ?_, hnow hp⟩
      rw [post.lineAt?_eq, Option.mem_toList.1 hp, Option.map_some]
    · obtain ⟨i, hi, hl, horigin⟩ := h.kept hpaid e u l holds hfree hdue
      exact ⟨i, Nat.le_of_lt hi, hl, (hlater hi).trans horigin⟩

end

namespace Machine

variable {tree : Tree Source Command Modifier} {host : Host Source Command Modifier State}
  {quota : Nat} {m : Machine Source Command Modifier State}
  {turns : List (Turn Source Command Modifier)} {ending : Option (Except Fault Int32)}
  {s : Session Source Command Modifier State}

/-- **The account is kept along a course.**  By induction on the course, in a list of turns whose
later part is that course: the stack holds what is pending, so the next turn starts the next
pending line. -/
theorem Course.traces (h : Course tree host quota m turns ending s) :
    ∀ {all : List (Turn Source Command Modifier)} {first : Nat} {pending : List (Pending Source)},
      all.drop first = turns → Awaits true m.stack pending → Ledger all first pending →
      ∃ origin, Traces all first pending (ending ≠ none) origin := by
  have hsplit {all turns : List (Turn Source Command Modifier)} {first : Nat}
      {t : Turn Source Command Modifier} (hall : all.drop first = t :: turns) :
      all[first]? = some t ∧ all.drop (first + 1) = turns := by
    rw [← List.drop_drop, hall, ← List.head?_drop, hall]
    exact ⟨rfl, rfl⟩
  induction h with
  | idle rests =>
    intro all first pending hall hawaits _
    exact ⟨fun _ => ⟨0, 0⟩, .nil (List.drop_eq_nil_iff.1 hall)
      fun _ => Frame.eq_nil_of_dropCatchers hawaits rests⟩
  | unpaid =>
    intro all first pending hall _ _
    exact ⟨fun _ => ⟨0, 0⟩, .nil (List.drop_eq_nil_iff.1 hall) fun hpaid => absurd rfl hpaid⟩
  | @raised m frame stack f s next paid does falls =>
    intro all first pending hall hawaits ledger
    obtain ⟨hturn, hall⟩ := hsplit hall
    obtain ⟨head, rest, rfl, hstarts, hrest⟩ := hawaits.next next
    have hdone : Traces all (first + 1) ([] : List (Pending Source))
        (some (.error f : Except Fault Int32) ≠ none) fun _ => ⟨0, 0⟩ :=
      .nil (List.drop_eq_nil_iff.1 hall) fun _ => rfl
    rw [← List.append_nil rest] at ledger ⊢
    exact ⟨_, hdone.cons (.of_fault hturn hstarts ledger (not_turn_settles does)
      (hrest.of_unwind_none rfl falls))⟩
  | swallowed next paid does stops _ ih =>
    intro all first pending hall hawaits ledger
    obtain ⟨hturn, hall⟩ := hsplit hall
    obtain ⟨head, rest, rfl, hstarts, hrest⟩ := hawaits.next next
    obtain ⟨lost, kept, rfl, hlost, hkept⟩ := hrest.unwind rfl stops
    have hledger : Ledger all (first + 1) kept := by
      rw [← List.append_assoc] at ledger
      exact ledger.drop
    obtain ⟨origin, htraces⟩ := ih hall hkept hledger
    exact ⟨_, htraces.cons (.of_fault hturn hstarts ledger (not_turn_settles does) hlost)⟩
  | @worked m frame stack frames n turns ending s t next paid does _ ih =>
    intro all first pending hall hawaits ledger
    obtain ⟨hturn, hall⟩ := hsplit hall
    obtain ⟨head, rest, rfl, hstarts, hrest⟩ := hawaits.next next
    obtain ⟨stages, rfl, hstages⟩ := turn_frames does
    have hstack : Awaits true (Frame.ofQueued frame.forked
        (turn tree host frame m.session).queued ++ stages ++ stack)
        ((turn tree host frame m.session).pending first ++ rest) := by
      rw [List.append_assoc, ← Turn.map_line_pending _ first]
      exact (hrest.append_stages hstages).append_ofQueued _
        (fun p hp => (Turn.mem_pending_iff.1 hp).2.2) fun _ => rfl
    obtain ⟨origin, htraces⟩ := ih hall hstack (ledger.add hturn (turn_settles does))
    exact ⟨_, htraces.cons (.of_settles hturn hstarts ledger)⟩

end Machine

/-! ### Whole executions -/

namespace Tree

variable {tree : Tree Source Command Modifier} {host : Host Source Command Modifier State}
  {quota : Nat} {r : Reading Source Command Modifier}
  {s t : Session Source Command Modifier State} {turns : List (Turn Source Command Modifier)}
  {ending : Option (Except Fault Int32)}

/-- The lines that an execution starts are accounted for, and a line that was queued is lost to the
quota only, unless a turn raises a fault and the line was not queued after a fork. -/
theorem Course.accounts (h : tree.Course host quota r s turns ending t) :
    ∃ origin, Accounts turns origin ∧ (ending ≠ none →
      ∀ e u l, e.Holds turns u l → ((∀ v ∈ turns, v.Settles) ∨ u.frame.forked = true) →
        ∃ i, lineAt? turns i = some l ∧ origin i = e) := by
  have htraces : ∃ origin, Traces turns 0 ([] : List (Pending Source)) (ending ≠ none) origin := by
    unfold Course at h
    cases hopen : r.opening host [] 0 0 true s with
    | finished result session =>
      rw [hopen] at h
      obtain ⟨rfl, -, -⟩ := h
      exact ⟨fun _ => ⟨0, 0⟩, .nil (Nat.le_refl 0) fun _ => rfl⟩
    | pending m =>
      rw [hopen] at h
      obtain ⟨chain, rfl⟩ := chain_of_opening hopen
      exact Machine.Course.traces h rfl (.stage .nil) ⟨by simp, .nil⟩
  obtain ⟨origin, htraces⟩ := htraces
  have hordered (i j : Nat) (l k : QueuedLine Source) (hl : lineAt? turns i = some l)
      (hk : lineAt? turns j = some k) (hlt : i < j) : (origin i).Before (origin j) :=
    htraces.ordered i j l k (Nat.zero_le i) hlt hl hk
  refine ⟨origin, ⟨fun i l => htraces.queued i l (Nat.zero_le i), ?_, hordered⟩, ?_⟩
  · intro i j l k hl hk heq
    -- two lines of one entry would each have been queued before the other
    rcases Nat.lt_trichotomy i j with hlt | rfl | hlt
    · have := hordered i j l k hl hk hlt (congrArg Entry.turn heq)
      exact absurd (congrArg Entry.place heq) (Nat.ne_of_lt this)
    · rfl
    · have := hordered j i k l hk hl hlt (congrArg Entry.turn heq.symm)
      exact absurd (congrArg Entry.place heq.symm) (Nat.ne_of_lt this)
  · intro hpaid e u l holds hfree
    obtain ⟨i, -, hl, horigin⟩ := htraces.kept hpaid e u l holds hfree (.inl (Nat.zero_le _))
    exact ⟨i, hl, horigin⟩

/--
**Queued lines are neither leaked nor lost nor run twice.**

The calls of an execution are those of its turns, and each turn starts at most the line of
its frame.  Every line that is started was queued by a command that succeeded, in an earlier
turn that raised nothing, it is run as it was queued, and no two lines that are started
stem from one entry; so what a failed command has queued is never started.  If the quota
pays for the whole execution and no turn raises a fault, then all lines queued by commands
that succeeded are started, too.  Lines of one stage are started in the order in which they
were queued.
-/
theorem executeReading_accounts (tree : Tree Source Command Modifier)
    (host : Host Source Command Modifier State) (quota : Nat)
    (r : Reading Source Command Modifier) (s : Session Source Command Modifier State) :
    ∃ turns ending opening origin,
      tree.Course host quota r s turns ending (tree.executeReading host quota r s).2 ∧
      (tree.executeReading host quota r s).2.calls =
        s.calls ++ opening ++ turns.flatMap Turn.calls ∧
      (∀ e ∈ opening, e.isCharged = false) ∧
      (∀ t ∈ turns, t.calls.filterMap Event.started? = t.line?.toList ∧
        ∃ u v, Does tree host t.frame u t.outcome v ∧ v.calls = u.calls ++ t.calls) ∧
      Accounts turns origin ∧
      (¬tree.CutOff host quota r s → (∀ t ∈ turns, t.Settles) →
        ∀ e t l, e.Holds turns t l → ∃ i, lineAt? turns i = some l ∧ origin i = e) := by
  obtain ⟨turns, ending, t, hcourse⟩ := exists_course tree host quota r s
  obtain ⟨hresult, hcut⟩ := hcourse.ends
  obtain ⟨opening, hcalls, hopening⟩ := hcourse.calls
  obtain ⟨origin, haccounts, hkept⟩ := hcourse.accounts
  rw [hresult]
  refine ⟨turns, ending, opening, origin, hcourse, hcalls, hopening, ?_, haccounts, ?_⟩
  · intro turn hturn
    obtain ⟨frame, u, rfl⟩ := hcourse.exists_turn turn hturn
    exact ⟨Machine.turn_started tree host frame u, u, Machine.turn_does tree host frame u⟩
  · intro hpaid hsettle e u l holds
    exact hkept (fun hending => hpaid (hcut.2 hending)) e u l holds (.inl hsettle)

end Tree

end CommandLines
