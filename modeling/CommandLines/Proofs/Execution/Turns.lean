/-
The turns of an execution.

A turn is the work on one frame: what the frame was, what came of it, and which calls were
made.  `Course` is how an execution goes, told by its turns from the first to the last and
by how they end.  It adds nothing to the rounds of a machine, each of which is a turn, but
`Leads` only keeps the machines, and "each line that is started was queued before" or "all
sources of this stage were tried" are said of what happened in between.
-/
import CommandLines.Proofs.Execution.Work

namespace CommandLines

variable {Source Command Modifier State : Type}

/-- The work on one frame. -/
structure Turn (Source Command Modifier : Type) where
  frame : Frame Source Command Modifier
  /-- What it came to: what it adds to the total, and the frames that came of it. -/
  outcome : Except Fault (Int32 × List (Frame Source Command Modifier))
  /-- The calls that were made on the way. -/
  calls : List (Event Source Command Modifier)

namespace Turn

/-- The turn came to its end without raising a fault. -/
def Settles (t : Turn Source Command Modifier) : Prop :=
  ∃ answer, t.outcome = .ok answer

/-- The queued line that the turn starts. -/
def line? (t : Turn Source Command Modifier) : Option (QueuedLine Source) :=
  t.frame.line?

/-- The lines queued by the commands of the turn that succeeded. -/
def queued (t : Turn Source Command Modifier) : List (QueuedLine Source) :=
  t.calls.flatMap Event.queued

end Turn

open Session

namespace Machine

variable (tree : Tree Source Command Modifier) (host : Host Source Command Modifier State)

/-- The turn of a frame in a session. -/
def turn (frame : Frame Source Command Modifier) (s : Session Source Command Modifier State) :
    Turn Source Command Modifier where
  frame
  outcome := (work tree host frame s).1
  calls := (work tree host frame s).2.calls.drop s.calls.length

/-- The turns of a machine from the first to the last, how they end, and the session that is left.
Without an ending the quota has cut them off. -/
inductive Course (quota : Nat) : Machine Source Command Modifier State →
    List (Turn Source Command Modifier) → Option (Except Fault Int32) →
    Session Source Command Modifier State → Prop where
  /-- Nothing is pending. -/
  | idle {m : Machine Source Command Modifier State}
      (rests : m.stack.dropWhile Frame.isCatcher = []) :
      Course quota m [] (some (.ok m.total)) m.session
  /-- The next frame is not paid for. -/
  | unpaid {m : Machine Source Command Modifier State} (short : m.overdraws quota = true) :
      Course quota m [] none m.session
  /-- A fault falls through. -/
  | raised {m : Machine Source Command Modifier State} {frame : Frame Source Command Modifier}
      {stack : List (Frame Source Command Modifier)} {f : Fault}
      {s : Session Source Command Modifier State}
      (next : m.stack.dropWhile Frame.isCatcher = frame :: stack)
      (paid : m.overdraws quota = false) (does : work tree host frame m.session = (.error f, s))
      (falls : Frame.unwind? stack = none) :
      Course quota m [turn tree host frame m.session] (some (.error f)) s
  /-- A fault is swallowed, and what is below the one that swallows it is left. -/
  | swallowed {m : Machine Source Command Modifier State} {frame : Frame Source Command Modifier}
      {stack below : List (Frame Source Command Modifier)} {f : Fault}
      {turns : List (Turn Source Command Modifier)} {ending : Option (Except Fault Int32)}
      {s t : Session Source Command Modifier State}
      (next : m.stack.dropWhile Frame.isCatcher = frame :: stack)
      (paid : m.overdraws quota = false) (does : work tree host frame m.session = (.error f, s))
      (stops : Frame.unwind? stack = some below)
      (rest : Course quota
        { stack := below, entries := m.entries + frame.weight, total := m.total, session := s }
        turns ending t) :
      Course quota m (turn tree host frame m.session :: turns) ending t
  /-- What comes of the frame is put in its place. -/
  | worked {m : Machine Source Command Modifier State} {frame : Frame Source Command Modifier}
      {stack frames : List (Frame Source Command Modifier)} {n : Int32}
      {turns : List (Turn Source Command Modifier)} {ending : Option (Except Fault Int32)}
      {s t : Session Source Command Modifier State}
      (next : m.stack.dropWhile Frame.isCatcher = frame :: stack)
      (paid : m.overdraws quota = false)
      (does : work tree host frame m.session = (.ok (n, frames), s))
      (rest : Course quota
        { stack := frames ++ stack, entries := m.entries + frame.weight, total := m.total + n,
          session := s }
        turns ending t) :
      Course quota m (turn tree host frame m.session :: turns) ending t

variable {tree host} {quota : Nat} {m : Machine Source Command Modifier State}
  {frame : Frame Source Command Modifier} {turns : List (Turn Source Command Modifier)}
  {ending : Option (Except Fault Int32)} {s t : Session Source Command Modifier State}

/-! ### One turn -/

theorem turn_settles {n : Int32} {frames : List (Frame Source Command Modifier)}
    (h : work tree host frame s = (.ok (n, frames), t)) : (turn tree host frame s).Settles :=
  ⟨(n, frames), congrArg Prod.fst h⟩

theorem not_turn_settles {f : Fault} (h : work tree host frame s = (.error f, t)) :
    ¬(turn tree host frame s).Settles := by
  intro hsettles
  obtain ⟨answer, hanswer⟩ := hsettles
  cases (congrArg Prod.fst h).symm.trans hanswer

/-- The calls of a turn come after those of the session it is made in. -/
theorem calls_work (tree : Tree Source Command Modifier)
    (host : Host Source Command Modifier State) (frame : Frame Source Command Modifier)
    (s : Session Source Command Modifier State) :
    (work tree host frame s).2.calls = s.calls ++ (turn tree host frame s).calls := by
  obtain ⟨events, hcalls⟩ := Spends.calls_prefix (work_spends tree host frame s)
  rw [turn, ← hcalls, List.drop_left]

theorem turn_calls_eq {events : List (Event Source Command Modifier)}
    (h : (work tree host frame s).2.calls = s.calls ++ events) :
    (turn tree host frame s).calls = events := by
  rw [calls_work] at h
  exact List.append_cancel_left h

/-- A turn does what the rules say, by its calls. -/
theorem turn_does (tree : Tree Source Command Modifier)
    (host : Host Source Command Modifier State) (frame : Frame Source Command Modifier)
    (s : Session Source Command Modifier State) :
    ∃ t, Does tree host frame s (turn tree host frame s).outcome t ∧
      t.calls = s.calls ++ (turn tree host frame s).calls :=
  ⟨_, work_does tree host frame s, calls_work tree host frame s⟩

/-- A turn starts the line of its frame, and no other. -/
theorem turn_started (tree : Tree Source Command Modifier)
    (host : Host Source Command Modifier State) (frame : Frame Source Command Modifier)
    (s : Session Source Command Modifier State) :
    (turn tree host frame s).calls.filterMap Event.started? =
      (turn tree host frame s).line?.toList := by
  obtain ⟨events, hcalls, hstarted, -⟩ := (work_does tree host frame s).calls
  rw [turn_calls_eq hcalls]
  exact hstarted

/-- What comes of a frame are the lines that its turn leaves, and maybe a stage. -/
theorem turn_frames {n : Int32} {frames : List (Frame Source Command Modifier)}
    (h : work tree host frame s = (.ok (n, frames), t)) :
    ∃ stages, frames = Frame.ofQueued frame.forked (turn tree host frame s).queued ++ stages ∧
      ∀ stage ∈ stages, stage.isStage = true := by
  obtain ⟨events, hcalls, -, hframes⟩ := (work_does tree host frame s).calls
  rw [Turn.queued, turn_calls_eq hcalls]
  exact hframes n frames (congrArg Prod.fst h)

/-! ### All turns -/

/-- Every machine has a course, since each turn is charged. -/
theorem exists_course (tree : Tree Source Command Modifier)
    (host : Host Source Command Modifier State) (quota : Nat)
    (m : Machine Source Command Modifier State) :
    ∃ turns ending t, Course tree host quota m turns ending t := by
  induction hleft : quota - m.entries using Nat.strongRecOn generalizing m with
  | _ left ih =>
    cases hstack : m.stack.dropWhile Frame.isCatcher with
    | nil => exact ⟨_, _, _, .idle hstack⟩
    | cons frame stack =>
      cases hpaid : m.overdraws quota with
      | true => exact ⟨_, _, _, .unpaid hpaid⟩
      | false =>
        have hweight := Frame.weight_pos (isCatcher_of_dropWhile hstack)
        have hle : m.entries + frame.weight ≤ quota := by
          simpa [overdraws, hstack] using hpaid
        have hless : quota - (m.entries + frame.weight) < left := by omega
        cases hwork : work tree host frame m.session with
        | mk outcome s =>
          cases outcome with
          | ok p =>
            obtain ⟨turns, ending, t, hrest⟩ := ih _ hless
              { stack := p.2 ++ stack, entries := m.entries + frame.weight,
                total := m.total + p.1, session := s } rfl
            exact ⟨_, _, _, .worked hstack hpaid hwork hrest⟩
          | error f =>
            cases hunwind : Frame.unwind? stack with
            | none => exact ⟨_, _, _, .raised hstack hpaid hwork hunwind⟩
            | some below =>
              obtain ⟨turns, ending, t, hrest⟩ := ih _ hless
                { stack := below, entries := m.entries + frame.weight, total := m.total,
                  session := s } rfl
              exact ⟨_, _, _, .swallowed hstack hpaid hwork hunwind hrest⟩

/-- A course makes its calls turn by turn. -/
theorem Course.calls (h : Course tree host quota m turns ending t) :
    t.calls = m.session.calls ++ turns.flatMap Turn.calls := by
  have hturn {frame : Frame Source Command Modifier}
      {s u : Session Source Command Modifier State}
      {outcome : Except Fault (Int32 × List (Frame Source Command Modifier))}
      (does : work tree host frame s = (outcome, u)) :
      u.calls = s.calls ++ (turn tree host frame s).calls := by
    rw [← calls_work, does]
  induction h with
  | idle | unpaid => simp
  | raised _ _ does _ => rw [hturn does, List.flatMap_singleton]
  | swallowed _ _ does _ _ ih | worked _ _ does _ ih =>
    rw [ih, hturn does, List.flatMap_cons, List.append_assoc]

/-- If the next frame raises no fault, what comes of it is put in its place, or the quota does not
pay for it. -/
theorem Course.cons_of_ok (h : Course tree host quota m turns ending t)
    {stack frames : List (Frame Source Command Modifier)} {n : Int32}
    (next : m.stack.dropWhile Frame.isCatcher = frame :: stack)
    (does : work tree host frame m.session = (.ok (n, frames), s)) :
    (turns = [] ∧ ending = none) ∨ ∃ rest, turns = turn tree host frame m.session :: rest ∧
      Course tree host quota
        { stack := frames ++ stack, entries := m.entries + frame.weight, total := m.total + n,
          session := s } rest ending t := by
  cases h with
  | idle rests => cases next.symm.trans rests
  | unpaid => exact .inl ⟨rfl, rfl⟩
  | raised next' _ does' _ | swallowed next' _ does' _ _ =>
    cases next.symm.trans next'
    cases does.symm.trans does'
  | worked next' _ does' rest =>
    cases next.symm.trans next'
    cases does.symm.trans does'
    exact .inr ⟨_, rfl, rest⟩

/-- A turn of a course is the turn of some frame. -/
theorem Course.exists_turn (h : Course tree host quota m turns ending t) :
    ∀ turn ∈ turns, ∃ frame s, turn = Machine.turn tree host frame s := by
  induction h with
  | idle | unpaid => simp
  | raised => exact List.forall_mem_singleton.2 ⟨_, _, rfl⟩
  | swallowed _ _ _ _ _ ih | worked _ _ _ _ ih => exact List.forall_mem_cons.2 ⟨⟨_, _, rfl⟩, ih⟩

/-- A course ends as the rounds of the machine do, and has no ending just if they are cut off. -/
theorem Course.ends (h : Course tree host quota m turns ending t) :
    Ends tree host quota m (ending.getD (.error ⟨.limitReached quota, none⟩)) t ∧
      (CutOff tree host quota m ↔ ending = none) := by
  have hpending {m n : Machine Source Command Modifier State}
      {ending : Option (Except Fault Int32)} {t : Session Source Command Modifier State}
      (hstep : m.step tree host quota = .pending n)
      (ih : Ends tree host quota n (ending.getD (.error ⟨.limitReached quota, none⟩)) t ∧
        (CutOff tree host quota n ↔ ending = none)) :
      Ends tree host quota m (ending.getD (.error ⟨.limitReached quota, none⟩)) t ∧
        (CutOff tree host quota m ↔ ending = none) :=
    ⟨(ends_pending_iff hstep).2 ih.1, (cutOff_pending_iff hstep).trans ih.2⟩
  induction h with
  | @idle m rests =>
    have hpaid : m.overdraws quota = false := by simp [overdraws, rests]
    have hstep : m.step tree host quota = .finished (.ok m.total) m.session := by
      simp [step_of_not_overdraws hpaid, advance, rests]
    exact ⟨ends_of_finished hstep, by simp [cutOff_finished_iff hstep, hpaid]⟩
  | @unpaid m short =>
    have hstep : m.step tree host quota = _ := step_of_overdraws short
    exact ⟨ends_of_finished hstep, by simp [cutOff_finished_iff hstep, short]⟩
  | @raised m frame stack f s next paid does falls =>
    have hstep : m.step tree host quota = .finished (.error f) s := by
      rw [step_of_not_overdraws paid, advance_cons next, does]
      simp only [settle, fall, falls]
    exact ⟨ends_of_finished hstep, by simp [cutOff_finished_iff hstep, paid]⟩
  | swallowed next paid does stops _ ih =>
    refine hpending ?_ ih
    rw [step_of_not_overdraws paid, advance_cons next, does]
    simp only [settle, fall, stops]
  | worked next paid does _ ih =>
    refine hpending ?_ ih
    rw [step_of_not_overdraws paid, advance_cons next, does]
    rfl

end Machine

namespace Tree

/-- The work that an execution begins with is a chain, if there is any. -/
theorem chain_of_opening {host : Host Source Command Modifier State}
    {r : Reading Source Command Modifier} {s : Session Source Command Modifier State}
    {m : Machine Source Command Modifier State}
    (h : r.opening host [] 0 0 true s = .pending m) :
    ∃ chain, m = {
      stack := [.stage chain [chain.top.source] false true], entries := 0, total := 0,
      session := s } := by
  unfold Reading.opening at h
  split at h
  · cases h
  · cases hchain : Chain.ofContext? (r.route.context r.cursor.line) with
    | some chain =>
      rw [Reading.chain_of_some hchain] at h
      cases h
      exact ⟨chain, rfl⟩
    | none =>
      rw [Reading.chain_of_none hchain] at h
      cases h

variable (tree : Tree Source Command Modifier) (host : Host Source Command Modifier State)

/-- The turns of the execution of a reading, how they end, and the session that is left.  If there
is no chain to be run there are no turns. -/
def Course (quota : Nat) (r : Reading Source Command Modifier)
    (s : Session Source Command Modifier State) (turns : List (Turn Source Command Modifier))
    (ending : Option (Except Fault Int32)) (t : Session Source Command Modifier State) : Prop :=
  match r.opening host [] 0 0 true s with
  | .finished result session => turns = [] ∧ ending = some result ∧ t = session
  | .pending m => m.Course tree host quota turns ending t

variable {tree host} {quota : Nat} {r : Reading Source Command Modifier}
  {s t : Session Source Command Modifier State} {turns : List (Turn Source Command Modifier)}
  {ending : Option (Except Fault Int32)}

theorem exists_course (tree : Tree Source Command Modifier)
    (host : Host Source Command Modifier State) (quota : Nat)
    (r : Reading Source Command Modifier) (s : Session Source Command Modifier State) :
    ∃ turns ending t, tree.Course host quota r s turns ending t := by
  unfold Course
  cases r.opening host [] 0 0 true s with
  | finished result session => exact ⟨[], some result, session, rfl, rfl, rfl⟩
  | pending m => exact Machine.exists_course tree host quota m

/-- **The course of an execution is how it goes.**  It ends with what the execution answers, and has
no ending just if the quota has cut the execution off. -/
theorem Course.ends (h : tree.Course host quota r s turns ending t) :
    tree.executeReading host quota r s =
        (ending.getD (.error ⟨.limitReached quota, none⟩), t) ∧
      (tree.CutOff host quota r s ↔ ending = none) := by
  rw [← ends_iff]
  unfold Course at h
  unfold Ends CutOff
  cases hopen : r.opening host [] 0 0 true s with
  | finished result session =>
    rw [hopen] at h
    obtain ⟨-, rfl, rfl⟩ := h
    exact ⟨⟨rfl, rfl⟩, by simp [Round.CutOff]⟩
  | pending m =>
    rw [hopen] at h
    exact h.ends

/-- A course makes its calls turn by turn.  If there is nothing to be run the host may have been
told so before. -/
theorem Course.calls (h : tree.Course host quota r s turns ending t) :
    ∃ opening, t.calls = s.calls ++ opening ++ turns.flatMap Turn.calls ∧
      ∀ e ∈ opening, e.isCharged = false := by
  unfold Course at h
  rcases opening_cases r host s with ⟨f, s', hopen, hspends⟩ | ⟨m, hopen, -, hs⟩
  · rw [hopen] at h
    obtain ⟨rfl, -, rfl⟩ := h
    obtain ⟨events, hjournal, hcharged⟩ := hspends
    refine ⟨events.reverse, ?_, ?_⟩
    · rw [Session.calls, hjournal, List.reverse_append, Session.calls, List.flatMap_nil,
        List.append_nil]
    · intro e he
      have := List.countP_eq_zero.1 (Nat.le_zero.1 hcharged) e (List.mem_reverse.1 he)
      simpa using this
  · rw [hopen] at h
    refine ⟨[], ?_, by simp⟩
    rw [h.calls, hs, List.append_nil]

/-- The turns of a course are those of frames. -/
theorem Course.exists_turn (h : tree.Course host quota r s turns ending t) :
    ∀ turn ∈ turns, ∃ frame s, turn = Machine.turn tree host frame s := by
  unfold Course at h
  split at h
  · obtain ⟨rfl, -⟩ := h
    simp
  · exact Machine.Course.exists_turn h

end Tree

end CommandLines
