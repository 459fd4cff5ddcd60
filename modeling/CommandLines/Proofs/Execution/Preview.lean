/-
What a line would report, before it is run.

`Reading.fault?` looks at a reading and nothing else: at what is left of the line, and at the
command of the last hop.  Running the reading looks at the same things in another way, since
it takes the hops of the route apart into a chain.  Both have to choose among the same
faults, and here they are shown to choose alike: a preview has a fault exactly when the
execution is over before any work is done, and then it is the fault of the execution.

That there is a chain, and that it has all the hops, is an induction along the route, so it
does not matter how often the line is redirected.
-/
import CommandLines.Proofs.Execution.Rounds

namespace CommandLines

variable {Source Command Modifier State : Type}

/-- Taking a route apart keeps its hops in order. -/
theorem Chain.hops_contexts (line : String) (later : List (Hop Source Command Modifier))
    (hop : Hop Source Command Modifier) :
    (contexts line hop later).modifiers.map Context.hop ++
      [(contexts line hop later).executable.hop] = hop :: later := by
  induction later generalizing hop with
  | nil => rfl
  | cons next later ih =>
    rw [contexts, List.map_cons, List.cons_append]
    exact congrArg (hop :: ·) (ih next)

namespace Reading

variable {r : Reading Source Command Modifier} {f : Fault}

theorem syntaxFault?_eq_none_iff : r.syntaxFault? = none ↔ r.cursor.atEnd = true := by
  unfold syntaxFault?
  cases r.cursor.atEnd with
  | true => simp
  | false =>
    simp only [Bool.false_eq_true, if_false, iff_false]
    split <;> simp

/-- There is a chain exactly if the last hop has a command, and it has all the hops. -/
theorem chain_iff (line : String) : r.route.last.command?.isSome = true ↔
    ∃ chain, Chain.ofContext? (r.route.context line) = some chain ∧
      chain.modifiers.map Context.hop ++ [chain.executable.hop] = r.route.hops := by
  have hlast : (r.route.context line).last = r.route.last := rfl
  unfold Chain.ofContext?
  rw [hlast]
  constructor
  · intro hcommand
    exact ⟨_, if_pos hcommand, Chain.hops_contexts ..⟩
  · intro hex
    obtain ⟨chain, hchain, -⟩ := hex
    split at hchain
    · assumption
    · cases hchain

/-- A complete reading has no fault, and starts with the work on its chain. -/
theorem opening_of_complete (h : r.isComplete = true) (host : Host Source Command Modifier State)
    (s : Session Source Command Modifier State) :
    r.fault? = none ∧ ∃ chain, r.opening host [] 0 0 true s = .pending {
      stack := [.stage chain [chain.top.source] false true], session := s } := by
  rw [isComplete, Bool.and_eq_true] at h
  have hleft := syntaxFault?_eq_none_iff.2 h.1
  obtain ⟨chain, hchain, -⟩ := (chain_iff r.cursor.line).1 h.2
  refine ⟨?_, chain, ?_⟩
  · simp [fault?, hleft, isComplete, h.1, h.2]
  · simp only [opening, hleft, Reading.chain_of_some hchain]

/-- A reading that is not complete has a fault, and ends with it before any work is done.  The host
hears at most that nothing was run. -/
theorem opening_of_incomplete (h : r.isComplete = false)
    (host : Host Source Command Modifier State) (s : Session Source Command Modifier State) :
    ∃ f after, r.fault? = some f ∧ r.opening host [] 0 0 true s = .finished (.error f) after ∧
      (after = s ∨ after = s.report host (r.route.context r.cursor.line) false 0) := by
  cases hleft : r.syntaxFault? with
  | some f =>
    refine ⟨f, s, ?_, ?_, .inl rfl⟩
    · simp [fault?, hleft]
    · simp only [opening, hleft]
      rfl
  | none =>
    have hend := syntaxFault?_eq_none_iff.1 hleft
    have hnone : Chain.ofContext? (r.route.context r.cursor.line) = none := by
      rw [isComplete, hend, Bool.true_and] at h
      exact if_neg (Bool.not_eq_true _ ▸ h)
    refine ⟨r.cursor.fault .unknownCommand, _, ?_, ?_, .inr rfl⟩
    · simp [fault?, hleft, h]
    · simp only [opening, hleft, Reading.chain_of_none hnone]
      rfl

theorem isComplete_iff : r.isComplete = true ↔ r.cursor.atEnd = true ∧
    ∃ chain, Chain.ofContext? (r.route.context r.cursor.line) = some chain ∧
      chain.modifiers.map Context.hop ++ [chain.executable.hop] = r.route.hops := by
  rw [isComplete, Bool.and_eq_true, chain_iff r.cursor.line]

end Reading

namespace Tree

variable (tree : Tree Source Command Modifier) (host : Host Source Command Modifier State)

/-- What the opening of an execution finishes with is what the execution answers. -/
theorem executeReading_of_finished {r : Reading Source Command Modifier}
    {s after : Session Source Command Modifier State} {result : Except Fault Int32} (quota : Nat)
    (h : r.opening host [] 0 0 true s = .finished result after) :
    tree.executeReading host quota r s = (result, after) := by
  rw [← ends_iff, Ends, h]
  exact ⟨rfl, rfl⟩

/-- What the opening of an execution leaves to do is what the execution does. -/
theorem executeReading_of_pending {r : Reading Source Command Modifier}
    {s : Session Source Command Modifier State} {m : Machine Source Command Modifier State}
    (quota : Nat) (h : r.opening host [] 0 0 true s = .pending m) :
    tree.executeReading host quota r s = Machine.run tree host quota quota m := by
  unfold Reading.opening at h
  unfold executeReading
  cases hleft : r.syntaxFault? with
  | some f => simp [hleft, Machine.fall, Frame.unwind?] at h
  | none =>
    cases hchain : r.chain host s with
    | mk outcome s' =>
      cases outcome with
      | error f => simp [hleft, hchain, Machine.fall, Frame.unwind?] at h
      | ok chain =>
        rw [hleft, hchain] at h
        cases h
        rfl

/--
**A preview reports what running the line would.**

A reading has a fault exactly when running it ends before any frame is worked on.  Then the
execution answers that very fault, and the host has heard nothing, or at most that nothing
was run.  A reading has no fault exactly when its execution starts with a frame to be worked
on, which every quota but zero pays for.

And a reading is complete exactly when the whole line is matched and its route, which may
have any number of hops, can be taken apart into a chain, which then has all of them.
-/
theorem fault_previews_execution (quota : Nat) (r : Reading Source Command Modifier)
    (s : Session Source Command Modifier State) :
    (∀ f, r.fault? = some f ↔ ∃ after,
      r.opening host [] 0 0 true s = .finished (.error f) after ∧
        tree.executeReading host quota r s = (.error f, after) ∧
        (after = s ∨ after = s.report host (r.route.context r.cursor.line) false 0)) ∧
    (r.fault? = none ↔ ∃ m, r.opening host [] 0 0 true s = .pending m ∧
      tree.executeReading host quota r s = Machine.run tree host quota quota m ∧
      (m.overdraws quota = true ↔ quota = 0)) ∧
    (r.isComplete = true ↔ r.cursor.atEnd = true ∧
      ∃ chain, Chain.ofContext? (r.route.context r.cursor.line) = some chain ∧
        chain.modifiers.map Context.hop ++ [chain.executable.hop] = r.route.hops) := by
  refine ⟨?_, ?_, Reading.isComplete_iff⟩
  · intro f
    cases hcomplete : r.isComplete with
    | true =>
      obtain ⟨hfault, chain, hopen⟩ := Reading.opening_of_complete hcomplete host s
      simp [hfault, hopen]
    | false =>
      obtain ⟨g, after, hfault, hopen, hafter⟩ := Reading.opening_of_incomplete hcomplete host s
      have hanswer := executeReading_of_finished tree host quota hopen
      rw [hfault, hopen]
      constructor
      · intro h
        obtain rfl := Option.some.inj h
        exact ⟨after, rfl, hanswer, hafter⟩
      · intro h
        obtain ⟨other, h, -, -⟩ := h
        cases h
        rfl
  · cases hcomplete : r.isComplete with
    | true =>
      obtain ⟨hfault, chain, hopen⟩ := Reading.opening_of_complete hcomplete host s
      refine iff_of_true hfault ⟨_, hopen, executeReading_of_pending tree host quota hopen, ?_⟩
      simp [Machine.overdraws, Frame.isCatcher, Frame.weight]
    | false =>
      obtain ⟨f, after, hfault, hopen, -⟩ := Reading.opening_of_incomplete hcomplete host s
      simp [hfault, hopen]

end Tree

end CommandLines
