/-
The quota bounds what is called, and does nothing else.

A frame is charged before it is worked on, and the charge covers the calls that the work
makes: one modifier for each source of a redirect, one command for each source of the
last stage, and the start of a queued line.  `work_spends` is that, and since the entries
never exceed the quota the journal of a whole execution holds no more such calls than the
quota has entries.

For the second half, two executions that differ only in the quota go through the same
rounds until one of them is cut off.  The smaller quota can only be the first to do so,
and the other one then goes on from the same session, so what has been called under the
smaller quota is the beginning of what is called under the greater one.
-/
import CommandLines.Proofs.Execution.Rounds

namespace CommandLines

variable {Source Command Modifier State : Type}

/-- Whether the event is one that a quota pays for: a callback of the host that does work, or the
start of a queued line. -/
def Event.isCharged : Event Source Command Modifier → Bool
  | .modified _ _ => true
  | .ran _ _ => true
  | .started _ => true
  | .reported _ _ _ => false

/-! ### What is called in between two sessions -/

namespace Session

/-- The second session comes from the first by events of which at most `n` are charged. -/
def Spends (n : Nat) (before after : Session Source Command Modifier State) : Prop :=
  ∃ events, after.journal = events ++ before.journal ∧ events.countP Event.isCharged ≤ n

variable {s t u : Session Source Command Modifier State}

theorem Spends.refl (n : Nat) (s : Session Source Command Modifier State) : Spends n s s :=
  ⟨[], rfl, Nat.zero_le n⟩

theorem Spends.trans {a b : Nat} (h : Spends a s t) (k : Spends b t u) : Spends (a + b) s u := by
  obtain ⟨first, hfirst, ha⟩ := h
  obtain ⟨second, hsecond, hb⟩ := k
  refine ⟨second ++ first, by rw [hsecond, hfirst, List.append_assoc], ?_⟩
  rw [List.countP_append]
  omega

theorem Spends.mono {a b : Nat} (h : Spends a s t) (hle : a ≤ b) : Spends b s t := by
  obtain ⟨events, hj, hc⟩ := h
  exact ⟨events, hj, Nat.le_trans hc hle⟩

theorem spends_note (s : Session Source Command Modifier State)
    (e : Event Source Command Modifier) (state : State) : Spends 1 s (s.note e state) :=
  ⟨[e], rfl, List.countP_le_length ..⟩

theorem spends_report (s : Session Source Command Modifier State)
    (host : Host Source Command Modifier State) (context : Context Source Command Modifier)
    (success : Bool) (result : Int32) : Spends 0 s (s.report host context success result) :=
  ⟨[.reported context success result], rfl, by simp [Event.isCharged]⟩

@[simp] theorem calls_note (s : Session Source Command Modifier State)
    (e : Event Source Command Modifier) (state : State) :
    (s.note e state).calls = s.calls ++ [e] :=
  List.reverse_cons

@[simp] theorem calls_report (s : Session Source Command Modifier State)
    (host : Host Source Command Modifier State) (context : Context Source Command Modifier)
    (success : Bool) (result : Int32) :
    (s.report host context success result).calls =
      s.calls ++ [.reported context success result] :=
  List.reverse_cons

/-- What was called before one session was called before the other. -/
theorem Spends.calls_prefix {n : Nat} (h : Spends n s t) : s.calls <+: t.calls := by
  obtain ⟨events, hj, -⟩ := h
  refine ⟨events.reverse, ?_⟩
  rw [calls, calls, hj, List.reverse_append]

end Session

open Session

/-! ### What each piece of work is charged -/

namespace Host

variable (host : Host Source Command Modifier State)

theorem passOne_spends (hop : Context Source Command Modifier) (forked : Bool) (source : Source)
    (s : Session Source Command Modifier State) :
    Spends 1 s (host.passOne hop forked source s).2 := by
  unfold passOne
  cases hop.hop.modifier? with
  | none => exact .refl 1 s
  | some m =>
    cases hm : host.modify m (hop.withSource source) s.state with
    | mk result state =>
      have hnote := spends_note s (.modified (hop.withSource source) result) state
      cases result with
      | ok next => simpa only [hm] using hnote
      | error f => simpa only [hm] using hnote.trans (spends_report _ host _ _ _)

theorem passEach_spends (hop : Context Source Command Modifier) (forked : Bool) :
    ∀ (sources done : List Source) (s : Session Source Command Modifier State),
      Spends sources.length s (host.passEach hop forked done sources s).2 := by
  intro sources
  induction sources with
  | nil => intro done s; exact .refl 0 s
  | cons source sources ih =>
    intro done s
    have hone := passOne_spends host hop forked source s
    rw [passEach]
    cases hpass : host.passOne hop forked source s with
    | mk result s' =>
      rw [hpass] at hone
      cases result with
      | error f => exact hone.mono (by simp)
      | ok next => exact (hone.trans (ih _ s')).mono (by rw [List.length_cons]; omega)

theorem runOne_spends (hop : Context Source Command Modifier) (forked : Bool) (source : Source)
    (s : Session Source Command Modifier State) :
    Spends 1 s (host.runOne hop forked source s).2 := by
  unfold runOne
  cases hop.hop.command? with
  | none => exact .refl 1 s
  | some c =>
    cases hc : host.run c (hop.withSource source) s.state with
    | mk outcome state =>
      have hnote := spends_note s (.ran (hop.withSource source) outcome) state
      simp only [hc]
      cases outcome.result with
      | ok n => exact hnote.trans (spends_report _ host _ _ _)
      | error f => exact hnote.trans (spends_report _ host _ _ _)

theorem runEach_spends (hop : Context Source Command Modifier) (forked : Bool) :
    ∀ (sources : List Source) (total : Int32) (queued : List (QueuedLine Source))
      (s : Session Source Command Modifier State),
      Spends sources.length s (host.runEach hop forked total queued sources s).2 := by
  intro sources
  induction sources with
  | nil => intro total queued s; exact .refl 0 s
  | cons source sources ih =>
    intro total queued s
    have hone := runOne_spends host hop forked source s
    rw [runEach]
    cases hrun : host.runOne hop forked source s with
    | mk result s' =>
      rw [hrun] at hone
      cases result with
      | error f => exact hone.mono (by simp)
      | ok next => exact (hone.trans (ih _ _ s')).mono (by rw [List.length_cons]; omega)

end Host

theorem Reading.chain_spends (r : Reading Source Command Modifier)
    (host : Host Source Command Modifier State) (s : Session Source Command Modifier State) :
    Spends 0 s (r.chain host s).2 := by
  cases hchain : Chain.ofContext? (r.route.context r.cursor.line) with
  | some chain => rw [Reading.chain_of_some hchain]; exact .refl 0 s
  | none => rw [Reading.chain_of_none hchain]; exact spends_report s host _ _ _

namespace Machine

variable {tree : Tree Source Command Modifier} {host : Host Source Command Modifier State}
  {quota greater : Nat} {m n k : Machine Source Command Modifier State}

/-- The work on a frame makes no more calls than the frame is charged for. -/
theorem work_spends (tree : Tree Source Command Modifier)
    (host : Host Source Command Modifier State) (frame : Frame Source Command Modifier)
    (s : Session Source Command Modifier State) :
    Spends frame.weight s (work tree host frame s).2 := by
  cases frame with
  | stage chain sources forked counts =>
    obtain ⟨hops, executable⟩ := chain
    have hlen : sources.length ≤ Frame.weight (.stage ⟨hops, executable⟩ sources forked counts) :=
      Nat.le_max_right ..
    cases hops with
    | nil =>
      have hrun :=
        (host.runEach_spends { executable with queues := true } forked sources 0 [] s).mono hlen
      simp only [work, Host.runAll]
      split <;> (next heq => rwa [heq] at hrun)
    | cons hop hops =>
      have hpass := (host.passEach_spends hop (forked || hop.hop.forks) sources [] s).mono hlen
      simp only [work, Host.pass]
      split <;> (next heq => rwa [heq] at hpass)
  | line queued =>
    have hnote := spends_note s (.started queued) s.state
    simp only [work]
    split
    · exact hnote
    · have hchain := hnote.trans
        ((tree.read queued.line queued.source).chain_spends host (s.note (.started queued) s.state))
      split <;> (next heq => rwa [heq] at hchain)
  | catcher forked => exact .refl 0 s

/-- A round that goes on makes no more calls than it charges. -/
theorem pending_spends (h : m.step tree host quota = .pending n) :
    Spends (n.entries - m.entries) m.session n.session := by
  obtain ⟨frame, stack, -, -, he, hs⟩ := pending_cases h
  have hwork := work_spends tree host frame m.session
  rw [← hs] at hwork
  exact hwork.mono (by omega)

/-- A round that finishes makes no more calls than the quota still pays for. -/
theorem finished_spends {result : Except Fault Int32}
    {session : Session Source Command Modifier State}
    (h : m.step tree host quota = .finished result session) :
    Spends (quota - m.entries) m.session session := by
  rcases finished_cases h with ⟨-, -, hs⟩ | ⟨-, -, -, hs⟩ | ⟨hq, frame, stack, f, hstack, hw, -, -⟩
  · rw [hs]; exact .refl _ _
  · rw [hs]; exact .refl _ _
  · have hwork := work_spends tree host frame m.session
    rw [hw] at hwork
    refine hwork.mono ?_
    simp only [overdraws, hstack, decide_eq_false_iff_not] at hq
    omega

/-- **From any round on, no more calls are made than the quota still pays for.** -/
theorem ends_spends {result : Except Fault Int32}
    {session : Session Source Command Modifier State}
    (h : Ends tree host quota m result session) :
    Spends (quota - m.entries) m.session session := by
  obtain ⟨k, hk, hend⟩ := h
  induction hk with
  | refl m => exact finished_spends hend
  | step hstep _ ih =>
    have hlt := entries_lt_of_pending hstep
    exact ((pending_spends hstep).trans (ih hend)).mono (by omega)

/-! ### Two quotas -/

theorem not_overdraws_of_le (hle : quota ≤ greater) (h : m.overdraws quota = false) :
    m.overdraws greater = false := by
  unfold overdraws at h ⊢
  cases hstack : m.stack.dropWhile Frame.isCatcher with
  | nil => rfl
  | cons frame stack =>
    simp only [hstack, decide_eq_false_iff_not] at h ⊢
    omega

/-- A round that the quota pays for is the same under a greater one. -/
theorem step_of_le (hle : quota ≤ greater) (h : m.overdraws quota = false) :
    m.step tree host greater = m.step tree host quota := by
  rw [step_of_not_overdraws h, step_of_not_overdraws (not_overdraws_of_le hle h)]

/-- Where an execution ends under a quota, it goes on under a greater one if it was cut off, and
ends in the same way if it was not. -/
theorem ends_of_le {result result' : Except Fault Int32}
    {session session' : Session Source Command Modifier State} (hle : quota ≤ greater)
    (h : Ends tree host quota m result session) (h' : Ends tree host greater m result' session') :
    (∃ n, Spends n session session') ∧
      (¬CutOff tree host quota m → result' = result ∧ session' = session) := by
  obtain ⟨k, hk, hend⟩ := h
  induction hk with
  | refl m =>
    rcases finished_cases hend with ⟨hover, -, rfl⟩ | ⟨hq, -⟩ | ⟨hq, -⟩
    · exact ⟨⟨_, ends_spends h'⟩, fun hcut => absurd ((cutOff_finished_iff hend).2 hover) hcut⟩
    all_goals
      have hsame := (ends_finished_iff ((step_of_le hle hq).trans hend)).1 h'
      exact ⟨⟨0, by rw [hsame.2]; exact .refl 0 _⟩, fun _ => ⟨hsame.1.symm, hsame.2.symm⟩⟩
  | step hstep _ ih =>
    have hstep' := (step_of_le hle (not_overdraws_of_pending hstep)).trans hstep
    obtain ⟨hspends, hsame⟩ := ih ((ends_pending_iff hstep').1 h') hend
    exact ⟨hspends, fun hcut => hsame fun hn => hcut (cutOff_of_pending hstep hn)⟩

end Machine

/-! ### Whole executions -/

namespace Tree

variable {tree : Tree Source Command Modifier} {host : Host Source Command Modifier State}
  {quota greater : Nat} {r : Reading Source Command Modifier}
  {s : Session Source Command Modifier State}

theorem opening_cases (r : Reading Source Command Modifier)
    (host : Host Source Command Modifier State) (s : Session Source Command Modifier State) :
    (∃ f s', r.opening host [] 0 0 true s = .finished (.error f) s' ∧ Spends 0 s s') ∨
      ∃ m, r.opening host [] 0 0 true s = .pending m ∧ m.entries = 0 ∧ m.session = s := by
  unfold Reading.opening
  cases r.syntaxFault? with
  | some f => exact .inl ⟨f, s, rfl, .refl 0 s⟩
  | none =>
    cases hchain : Chain.ofContext? (r.route.context r.cursor.line) with
    | some chain => rw [Reading.chain_of_some hchain]; exact .inr ⟨_, rfl, rfl, rfl⟩
    | none =>
      rw [Reading.chain_of_none hchain]
      exact .inl ⟨_, _, rfl, spends_report s host _ _ _⟩

theorem executeReading_spends (quota : Nat) (r : Reading Source Command Modifier)
    (s : Session Source Command Modifier State) :
    Spends quota s (tree.executeReading host quota r s).2 := by
  have h := executeReading_ends tree host quota r s
  unfold Ends at h
  rcases opening_cases r host s with ⟨f, s', hopen, hspends⟩ | ⟨m, hopen, he, hs⟩
  · rw [hopen] at h
    rw [← h.2]
    exact hspends.mono (Nat.zero_le quota)
  · rw [hopen] at h
    have := Machine.ends_spends h
    rwa [he, hs] at this

/-- An execution that is cut off says so. -/
theorem executeReading_of_cutOff (h : tree.CutOff host quota r s) :
    (tree.executeReading host quota r s).1 = .error ⟨.limitReached quota, none⟩ := by
  have hends := executeReading_ends tree host quota r s
  unfold CutOff at h
  unfold Ends at hends
  cases hopen : r.opening host [] 0 0 true s with
  | finished result session => rw [hopen] at h; exact h.elim
  | pending m =>
    rw [hopen] at h hends
    obtain ⟨session, hcut⟩ := Machine.ends_of_cutOff h
    exact (Machine.ends_unique hends hcut).1

theorem executeReading_of_le (hle : quota ≤ greater) (r : Reading Source Command Modifier)
    (s : Session Source Command Modifier State) :
    (tree.executeReading host quota r s).2.calls <+:
        (tree.executeReading host greater r s).2.calls ∧
      (¬tree.CutOff host quota r s →
        tree.executeReading host greater r s = tree.executeReading host quota r s) := by
  have h := executeReading_ends tree host quota r s
  have h' := executeReading_ends tree host greater r s
  unfold CutOff
  unfold Ends at h h'
  cases hopen : r.opening host [] 0 0 true s with
  | finished result session =>
    rw [hopen] at h h'
    have hsame : tree.executeReading host greater r s = tree.executeReading host quota r s :=
      Prod.ext (h'.1.symm.trans h.1) (h'.2.symm.trans h.2)
    exact ⟨by simp [hsame], fun _ => hsame⟩
  | pending m =>
    rw [hopen] at h h'
    obtain ⟨⟨n, hspends⟩, hsame⟩ := Machine.ends_of_le hle h h'
    exact ⟨hspends.calls_prefix, fun hcut => Prod.ext (hsame hcut).1 (hsame hcut).2⟩

/-- **The quota bounds every execution, and acts only as a cut-off.**  The rounds of an execution
come to an end, with at most as many modifiers, commands and queued lines called as the quota has
entries; a frame that it does not pay for ends the execution with the fault that says so; and
under a greater quota the same calls are made first, and the very same execution comes about
where the smaller one was enough. -/
theorem executeReading_quota (tree : Tree Source Command Modifier)
    (host : Host Source Command Modifier State) (r : Reading Source Command Modifier)
    (s : Session Source Command Modifier State) (quota : Nat) :
    tree.Ends host quota r s (tree.executeReading host quota r s).1
        (tree.executeReading host quota r s).2 ∧
      (∃ events, (tree.executeReading host quota r s).2.journal = events ++ s.journal ∧
        events.countP Event.isCharged ≤ quota) ∧
      (tree.CutOff host quota r s →
        (tree.executeReading host quota r s).1 = .error ⟨.limitReached quota, none⟩) ∧
      ∀ greater, quota ≤ greater →
        (tree.executeReading host quota r s).2.calls <+:
            (tree.executeReading host greater r s).2.calls ∧
          (¬tree.CutOff host quota r s →
            tree.executeReading host greater r s = tree.executeReading host quota r s) :=
  ⟨executeReading_ends tree host quota r s, executeReading_spends quota r s,
    executeReading_of_cutOff, fun _ hle => executeReading_of_le hle r s⟩

end Tree

end CommandLines
