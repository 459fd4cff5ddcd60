/-
The rounds of an execution.

`Machine.run` goes round at most as often as it is told to, so a statement about it would
have to say that the number given was large enough.  This file takes the number away.
`Leads` is any number of rounds, `Ends` is some rounds and then one that finishes, and
`CutOff` is some rounds and then a frame that the quota does not pay for.

Each round that does not finish charges at least one entry and is never charged more than
the quota holds, so as many rounds as the quota has entries are enough: `run_ends` says
that what `run` answers is always how the rounds themselves come to an end, and never the
answer that stands in for a missing round.

The quota is looked at in one place only.  `advance` is a round that does not look, and
`step_eq` says that a round is either the check or `advance`.
-/
import CommandLines.Execution.Machine

namespace CommandLines

variable {Source Command Modifier State : Type}

namespace Frame

/-- Every frame that is not skipped is charged for. -/
theorem weight_pos {frame : Frame Source Command Modifier} (h : frame.isCatcher = false) :
    0 < frame.weight := by
  cases frame with
  | stage chain sources forked counts =>
    exact Nat.lt_of_lt_of_le Nat.zero_lt_one (Nat.le_max_left ..)
  | line queued => exact Nat.zero_lt_one
  | catcher forked => simp [isCatcher] at h

end Frame

namespace Machine

/-- What a fault that falls on a stack comes to: the first frame that swallows faults lets what is
below it go on, and if there is none the execution is over. -/
def fall (f : Fault) (stack : List (Frame Source Command Modifier)) (entries : Nat) (total : Int32)
    (session : Session Source Command Modifier State) : Round Source Command Modifier State :=
  match Frame.unwind? stack with
  | some stack => .pending { stack, entries, total, session }
  | none => .finished (.error f) session

/-- What the work on a frame comes to for the stack below it: frames on top of it, or a fault that
falls on it. -/
def settle (outcome : Except Fault (Int32 × List (Frame Source Command Modifier)) ×
      Session Source Command Modifier State) (stack : List (Frame Source Command Modifier))
    (entries : Nat) (total : Int32) : Round Source Command Modifier State :=
  match outcome with
  | (.ok (n, frames), session) =>
    .pending { stack := frames ++ stack, entries, total := total + n, session }
  | (.error f, session) => fall f stack entries total session

variable (tree : Tree Source Command Modifier) (host : Host Source Command Modifier State)

/-- A round that does not look at the quota. -/
def advance (m : Machine Source Command Modifier State) : Round Source Command Modifier State :=
  match m.stack.dropWhile Frame.isCatcher with
  | [] => .finished (.ok m.total) m.session
  | frame :: stack =>
    settle (work tree host frame m.session) stack (m.entries + frame.weight) m.total

/-- Whether the quota does not pay for the next frame. -/
def overdraws (quota : Nat) (m : Machine Source Command Modifier State) : Bool :=
  match m.stack.dropWhile Frame.isCatcher with
  | [] => false
  | frame :: _ => decide (quota < m.entries + frame.weight)

/-- Going round any number of times leads from the first machine to the second. -/
inductive Leads (quota : Nat) :
    Machine Source Command Modifier State → Machine Source Command Modifier State → Prop where
  | refl (m : Machine Source Command Modifier State) : Leads quota m m
  | step {m n k : Machine Source Command Modifier State}
      (h : m.step tree host quota = .pending n) (rest : Leads quota n k) : Leads quota m k

/-- Some rounds of the machine, and then one that finishes with the result and the session. -/
def Ends (quota : Nat) (m : Machine Source Command Modifier State) (result : Except Fault Int32)
    (session : Session Source Command Modifier State) : Prop :=
  ∃ k, Leads tree host quota m k ∧ k.step tree host quota = .finished result session

/-- Some rounds of the machine, and then a frame that the quota does not pay for. -/
def CutOff (quota : Nat) (m : Machine Source Command Modifier State) : Prop :=
  ∃ k, Leads tree host quota m k ∧ k.overdraws quota = true

variable {tree host} {quota : Nat} {m n k : Machine Source Command Modifier State}

/-! ### One round -/

/-- A round checks the quota and otherwise does what it would do without one. -/
theorem step_eq (quota : Nat) (m : Machine Source Command Modifier State) :
    m.step tree host quota =
      if m.overdraws quota then .finished (.error ⟨.limitReached quota, none⟩) m.session
      else m.advance tree host := by
  unfold step overdraws advance
  cases hstack : m.stack.dropWhile Frame.isCatcher with
  | nil => simp
  | cons frame stack =>
    simp only [decide_eq_true_eq]
    by_cases hq : quota < m.entries + frame.weight
    · simp only [hq, if_true]
    · simp only [hq, if_false]
      cases hw : work tree host frame m.session with
      | mk outcome session =>
        cases outcome with
        | ok r => rfl
        | error f =>
          cases hunwind : Frame.unwind? stack <;> simp [settle, fall, hunwind]

theorem step_of_overdraws (h : m.overdraws quota = true) :
    m.step tree host quota = .finished (.error ⟨.limitReached quota, none⟩) m.session := by
  rw [step_eq, if_pos h]

theorem step_of_not_overdraws (h : m.overdraws quota = false) :
    m.step tree host quota = m.advance tree host := by
  rw [step_eq, if_neg (by simp [h])]

theorem not_overdraws_of_pending (h : m.step tree host quota = .pending n) :
    m.overdraws quota = false := by
  cases hm : m.overdraws quota with
  | false => rfl
  | true => rw [step_of_overdraws hm] at h; cases h

/-- What a round that does not look at the quota does with the frame it works on. -/
theorem advance_cons {frame : Frame Source Command Modifier}
    {stack : List (Frame Source Command Modifier)}
    (h : m.stack.dropWhile Frame.isCatcher = frame :: stack) :
    m.advance tree host =
      settle (work tree host frame m.session) stack (m.entries + frame.weight) m.total := by
  unfold advance
  rw [h]

theorem isCatcher_of_dropWhile {frames : List (Frame Source Command Modifier)}
    {frame : Frame Source Command Modifier} {stack : List (Frame Source Command Modifier)}
    (h : frames.dropWhile Frame.isCatcher = frame :: stack) : frame.isCatcher = false := by
  have := List.head?_dropWhile_not Frame.isCatcher frames
  rw [h] at this
  simpa using this

/-- A machine that goes on has worked on a frame, has been charged for it, and is left with the
session of that work. -/
theorem pending_cases (h : m.step tree host quota = .pending n) :
    ∃ frame stack, m.stack.dropWhile Frame.isCatcher = frame :: stack ∧
      m.entries + frame.weight ≤ quota ∧ n.entries = m.entries + frame.weight ∧
      n.session = (work tree host frame m.session).2 := by
  have hq := not_overdraws_of_pending h
  rw [step_of_not_overdraws hq] at h
  cases hstack : m.stack.dropWhile Frame.isCatcher with
  | nil => unfold advance at h; rw [hstack] at h; cases h
  | cons frame stack =>
    refine ⟨frame, stack, rfl, ?_, ?_⟩
    · simpa [overdraws, hstack] using hq
    · rw [advance_cons hstack] at h
      cases hw : work tree host frame m.session with
      | mk outcome session =>
        rw [hw] at h
        cases outcome with
        | ok r => cases h; exact ⟨rfl, rfl⟩
        | error f =>
          simp only [settle, fall] at h
          split at h
          · cases h; exact ⟨rfl, rfl⟩
          · cases h

theorem entries_lt_of_pending (h : m.step tree host quota = .pending n) :
    m.entries < n.entries ∧ n.entries ≤ quota := by
  obtain ⟨frame, stack, hstack, hq, he, -⟩ := pending_cases h
  have := Frame.weight_pos (isCatcher_of_dropWhile hstack)
  omega

/-! ### Many rounds -/

theorem ends_of_finished {result : Except Fault Int32}
    {session : Session Source Command Modifier State}
    (h : m.step tree host quota = .finished result session) :
    Ends tree host quota m result session :=
  ⟨m, .refl m, h⟩

theorem ends_of_pending {result : Except Fault Int32}
    {session : Session Source Command Modifier State} (h : m.step tree host quota = .pending n)
    (rest : Ends tree host quota n result session) : Ends tree host quota m result session := by
  obtain ⟨k, hk, hend⟩ := rest
  exact ⟨k, .step h hk, hend⟩

/-- A machine whose first round is that of another ends as that one does. -/
theorem ends_of_step_eq {result : Except Fault Int32}
    {session : Session Source Command Modifier State}
    (h : m.step tree host quota = n.step tree host quota)
    (rest : Ends tree host quota n result session) : Ends tree host quota m result session := by
  obtain ⟨k, hk, hend⟩ := rest
  cases hk with
  | refl => exact ends_of_finished (h.trans hend)
  | step hstep rest => exact ⟨k, .step (h.trans hstep) rest, hend⟩

theorem cutOff_of_pending (h : m.step tree host quota = .pending n)
    (rest : CutOff tree host quota n) : CutOff tree host quota m := by
  obtain ⟨k, hk, hend⟩ := rest
  exact ⟨k, .step h hk, hend⟩

/-- A machine ends as the next one does. -/
theorem ends_pending_iff {result : Except Fault Int32}
    {session : Session Source Command Modifier State} (h : m.step tree host quota = .pending n) :
    Ends tree host quota m result session ↔ Ends tree host quota n result session := by
  refine ⟨?_, ends_of_pending h⟩
  intro hends
  obtain ⟨k, hk, hend⟩ := hends
  cases hk with
  | refl => rw [h] at hend; cases hend
  | step h' rest =>
    cases h.symm.trans h'
    exact ⟨k, rest, hend⟩

theorem ends_finished_iff {result result' : Except Fault Int32}
    {session session' : Session Source Command Modifier State}
    (h : m.step tree host quota = .finished result session) :
    Ends tree host quota m result' session' ↔ result = result' ∧ session = session' := by
  constructor
  · intro hends
    obtain ⟨k, hk, hend⟩ := hends
    cases hk with
    | refl => rw [h] at hend; cases hend; exact ⟨rfl, rfl⟩
    | step h' rest => rw [h] at h'; cases h'
  · intro heq
    obtain ⟨rfl, rfl⟩ := heq
    exact ends_of_finished h

theorem cutOff_pending_iff (h : m.step tree host quota = .pending n) :
    CutOff tree host quota m ↔ CutOff tree host quota n := by
  refine ⟨?_, cutOff_of_pending h⟩
  intro hcut
  obtain ⟨k, hk, hend⟩ := hcut
  cases hk with
  | refl => rw [not_overdraws_of_pending h] at hend; cases hend
  | step h' rest =>
    cases h.symm.trans h'
    exact ⟨k, rest, hend⟩

theorem cutOff_finished_iff {result : Except Fault Int32}
    {session : Session Source Command Modifier State}
    (h : m.step tree host quota = .finished result session) :
    CutOff tree host quota m ↔ m.overdraws quota = true := by
  constructor
  · intro hcut
    obtain ⟨k, hk, hend⟩ := hcut
    cases hk with
    | refl => exact hend
    | step h' rest => rw [h] at h'; cases h'
  · exact fun h' => ⟨m, .refl m, h'⟩

/-- The rounds of a machine end in one way. -/
theorem ends_unique {result result' : Except Fault Int32}
    {session session' : Session Source Command Modifier State}
    (h : Ends tree host quota m result session) (h' : Ends tree host quota m result' session') :
    result = result' ∧ session = session' := by
  obtain ⟨k, hk, hend⟩ := h
  induction hk with
  | refl m => exact (ends_finished_iff hend).1 h'
  | step hstep _ ih => exact ih ((ends_pending_iff hstep).1 h') hend

/-- **As many rounds as the quota has entries are enough.**  Each one that does not finish adds to
the entries, which never exceed the quota, so `run` stops because the execution is over. -/
theorem run_ends :
    ∀ (rounds : Nat) (m : Machine Source Command Modifier State), quota ≤ m.entries + rounds →
      Ends tree host quota m (run tree host quota rounds m).1 (run tree host quota rounds m).2 := by
  intro rounds
  induction rounds with
  | zero =>
    intro m hq
    rw [run]
    cases hstep : m.step tree host quota with
    | finished result session => exact ends_of_finished hstep
    | pending n =>
      have := entries_lt_of_pending hstep
      omega
  | succ rounds ih =>
    intro m hq
    rw [run]
    cases hstep : m.step tree host quota with
    | finished result session => exact ends_of_finished hstep
    | pending n =>
      have := entries_lt_of_pending hstep
      exact ends_of_pending hstep (ih n (by omega))

/-- A machine that is cut off ends with the fault that says so. -/
theorem ends_of_cutOff (h : CutOff tree host quota m) :
    ∃ session, Ends tree host quota m (.error ⟨.limitReached quota, none⟩) session := by
  obtain ⟨k, hk, hover⟩ := h
  exact ⟨k.session, k, hk, step_of_overdraws hover⟩

/-- What finishes a machine: it is not paid for, it has nothing left to do, or a fault that nothing
swallows. -/
theorem finished_cases {result : Except Fault Int32}
    {session : Session Source Command Modifier State}
    (h : m.step tree host quota = .finished result session) :
    (m.overdraws quota = true ∧ result = .error ⟨.limitReached quota, none⟩ ∧
        session = m.session) ∨
      (m.overdraws quota = false ∧ m.stack.dropWhile Frame.isCatcher = [] ∧
        result = .ok m.total ∧ session = m.session) ∨
      (m.overdraws quota = false ∧ ∃ frame stack f,
        m.stack.dropWhile Frame.isCatcher = frame :: stack ∧
        work tree host frame m.session = (.error f, session) ∧ Frame.unwind? stack = none ∧
        result = .error f) := by
  cases hq : m.overdraws quota with
  | true =>
    rw [step_of_overdraws hq] at h
    cases h
    exact .inl ⟨rfl, rfl, rfl⟩
  | false =>
    rw [step_of_not_overdraws hq] at h
    cases hstack : m.stack.dropWhile Frame.isCatcher with
    | nil =>
      unfold advance at h
      rw [hstack] at h
      cases h
      exact .inr (.inl ⟨rfl, rfl, rfl, rfl⟩)
    | cons frame stack =>
      rw [advance_cons hstack] at h
      cases hw : work tree host frame m.session with
      | mk outcome after =>
        rw [hw] at h
        cases outcome with
        | ok r => cases h
        | error f =>
          simp only [settle, fall] at h
          split at h
          · cases h
          · next hf =>
            cases h
            exact .inr (.inr ⟨rfl, frame, stack, f, rfl, hw, hf, rfl⟩)

end Machine

/-! ### Whole executions -/

namespace Round

variable (tree : Tree Source Command Modifier) (host : Host Source Command Modifier State)

/-- How an execution ends after a round. -/
def Ends (quota : Nat) : Round Source Command Modifier State → Except Fault Int32 →
    Session Source Command Modifier State → Prop
  | .finished result session, result', session' => result = result' ∧ session = session'
  | .pending m, result', session' => m.Ends tree host quota result' session'

/-- Whether an execution is cut off after a round. -/
def CutOff (quota : Nat) : Round Source Command Modifier State → Prop
  | .finished _ _ => False
  | .pending m => m.CutOff tree host quota

end Round

theorem Reading.chain_of_some {r : Reading Source Command Modifier}
    {chain : Chain Source Command Modifier}
    (h : Chain.ofContext? (r.route.context r.cursor.line) = some chain)
    (host : Host Source Command Modifier State) (s : Session Source Command Modifier State) :
    r.chain host s = (.ok chain, s) := by
  simp only [Reading.chain, h]

theorem Reading.chain_of_none {r : Reading Source Command Modifier}
    (h : Chain.ofContext? (r.route.context r.cursor.line) = none)
    (host : Host Source Command Modifier State) (s : Session Source Command Modifier State) :
    r.chain host s =
      (.error (r.cursor.fault .unknownCommand),
        s.report host (r.route.context r.cursor.line) false 0) := by
  simp only [Reading.chain, h]

/-- What the execution of a reading comes to before any work is done, on top of a stack: a fault
that falls on the stack, or a chain to be run. -/
def Reading.opening (r : Reading Source Command Modifier)
    (host : Host Source Command Modifier State) (stack : List (Frame Source Command Modifier))
    (entries : Nat) (total : Int32) (counts : Bool)
    (s : Session Source Command Modifier State) : Round Source Command Modifier State :=
  match r.syntaxFault? with
  | some f => Machine.fall f stack entries total s
  | none =>
    match r.chain host s with
    | (.error f, s) => Machine.fall f stack entries total s
    | (.ok chain, s) =>
      .pending {
        stack := .stage chain [chain.top.source] false counts :: stack, entries, total,
        session := s }

namespace Tree

variable (tree : Tree Source Command Modifier) (host : Host Source Command Modifier State)

/-- The rounds of the execution of a reading end with the result and the session. -/
def Ends (quota : Nat) (r : Reading Source Command Modifier)
    (s : Session Source Command Modifier State) (result : Except Fault Int32)
    (session : Session Source Command Modifier State) : Prop :=
  (r.opening host [] 0 0 true s).Ends tree host quota result session

/-- The execution of a reading comes to a frame that the quota does not pay for. -/
def CutOff (quota : Nat) (r : Reading Source Command Modifier)
    (s : Session Source Command Modifier State) : Prop :=
  (r.opening host [] 0 0 true s).CutOff tree host quota

variable {tree host} {quota : Nat} {r : Reading Source Command Modifier}
  {s : Session Source Command Modifier State}

/-- What an execution answers is how its rounds end. -/
theorem executeReading_ends (tree : Tree Source Command Modifier)
    (host : Host Source Command Modifier State) (quota : Nat)
    (r : Reading Source Command Modifier) (s : Session Source Command Modifier State) :
    tree.Ends host quota r s (tree.executeReading host quota r s).1
      (tree.executeReading host quota r s).2 := by
  unfold Ends executeReading Reading.opening
  cases r.syntaxFault? with
  | some f => exact ⟨rfl, rfl⟩
  | none =>
    cases r.chain host s with
    | mk outcome s' =>
      cases outcome with
      | error f => exact ⟨rfl, rfl⟩
      | ok chain => exact Machine.run_ends quota _ (Nat.le_add_left ..)

/-- The rounds of an execution end in one way. -/
theorem ends_iff {result : Except Fault Int32}
    {session : Session Source Command Modifier State} :
    tree.Ends host quota r s result session ↔
      tree.executeReading host quota r s = (result, session) := by
  have h := executeReading_ends tree host quota r s
  constructor
  · intro h'
    unfold Ends at h h'
    cases hopen : r.opening host [] 0 0 true s with
    | finished result₀ session₀ =>
      rw [hopen] at h h'
      exact Prod.ext (h.1.symm.trans h'.1) (h.2.symm.trans h'.2)
    | pending m =>
      rw [hopen] at h h'
      exact Prod.ext (Machine.ends_unique h h').1 (Machine.ends_unique h h').2
  · intro h'
    rwa [h'] at h

end Tree

end CommandLines
