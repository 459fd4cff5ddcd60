/-
Failures after a fork stay where they are.

A chain whose first redirect forks runs for many sources, and what one of them does should
be no concern of the others: a modifier or a command that fails must not keep the other
sources of its stage from being tried, nor a queued line that fails the other lines of its
stage from being started, whatever else it has queued before.  So the only fault that such
a chain can end with is that of the quota, and what it counts are the commands that have
succeeded.

The stages of the chain come first.  `Spreads` says what they try, by recursion on the
redirects that are left, and none of them raises a fault.  After them the stack is
`Sheltered`: every frame on it stands above a catcher that swallows faults.  A course from
there on ends with the total that it has begun with, because faults stop on the way and
the frames that are left belong to other chains.
-/
import CommandLines.Proofs.Execution.Queueing
import CommandLines.Proofs.Execution.Direct

namespace CommandLines

variable {Source Command Modifier State : Type}

/-! ### Sheltered stacks -/

/-- Faults of any frame on the stack are swallowed on the stack, and no frame counts. -/
inductive Sheltered : List (Frame Source Command Modifier) → Prop where
  | nil : Sheltered []
  | catcher {forked : Bool} {stack : List (Frame Source Command Modifier)}
      (rest : Sheltered stack) : Sheltered (.catcher forked :: stack)
  | frame {frame : Frame Source Command Modifier} {stack : List (Frame Source Command Modifier)}
      (apart : frame.counts = false) (stops : (Frame.unwind? stack).isSome = true)
      (rest : Sheltered stack) : Sheltered (frame :: stack)

theorem Frame.isSome_unwind?_append {stack : List (Frame Source Command Modifier)}
    (h : (Frame.unwind? stack).isSome = true) (frames : List (Frame Source Command Modifier)) :
    (Frame.unwind? (frames ++ stack)).isSome = true := by
  induction frames with
  | nil => exact h
  | cons frame frames ih =>
    rw [List.cons_append, Frame.unwind?]
    split
    · rfl
    · exact ih

namespace Sheltered

variable {frame : Frame Source Command Modifier}
  {stack below frames : List (Frame Source Command Modifier)}

theorem dropCatchers (h : Sheltered stack) : Sheltered (stack.dropWhile Frame.isCatcher) := by
  induction h with
  | nil => exact .nil
  | catcher _ ih => exact ih
  | @frame frame stack apart stops rest ih =>
    rw [List.dropWhile_cons]
    split
    · exact ih
    · exact .frame apart stops rest

theorem next (h : Sheltered stack) (hnext : stack.dropWhile Frame.isCatcher = frame :: below) :
    frame.counts = false ∧ (Frame.unwind? below).isSome = true ∧ Sheltered below := by
  have htop := h.dropCatchers
  rw [hnext] at htop
  cases htop with
  | catcher => cases Machine.isCatcher_of_dropWhile hnext
  | frame apart stops rest => exact ⟨apart, stops, rest⟩

theorem unwind (h : Sheltered stack) (hunwind : Frame.unwind? stack = some below) :
    Sheltered below := by
  induction h with
  | nil => cases hunwind
  | @catcher forked stack rest ih =>
    cases forked with
    | true => cases hunwind; exact rest
    | false => exact ih hunwind
  | @frame frame stack _ _ rest ih =>
    rw [Frame.unwind?] at hunwind
    split at hunwind
    · cases hunwind; exact rest
    · exact ih hunwind

theorem append (h : Sheltered stack) (stops : (Frame.unwind? stack).isSome = true)
    (apart : ∀ f ∈ frames, f.counts = false) : Sheltered (frames ++ stack) := by
  induction frames with
  | nil => exact h
  | cons frame frames ih =>
    obtain ⟨hframe, hframes⟩ := List.forall_mem_cons.1 apart
    exact .frame hframe (Frame.isSome_unwind?_append stops frames) (ih hframes)

/-- The lines of a stage after a fork shelter themselves. -/
theorem ofQueued (lines : List (QueuedLine Source)) :
    Sheltered (Frame.ofQueued true lines : List (Frame Source Command Modifier)) := by
  induction lines with
  | nil => exact .nil
  | cons l lines ih => exact .frame rfl rfl (.catcher ih)

end Sheltered

namespace Machine

variable {tree : Tree Source Command Modifier} {host : Host Source Command Modifier State}
  {quota : Nat} {m : Machine Source Command Modifier State}
  {turns : List (Turn Source Command Modifier)} {ending : Option (Except Fault Int32)}
  {s t : Session Source Command Modifier State}

/-- **Nothing falls through a sheltered stack.**  No turn on it counts, and if the quota pays for
all of them the total is what it was. -/
theorem Course.sheltered (h : Course tree host quota m turns ending t)
    (hstack : Sheltered m.stack) :
    (∀ u ∈ turns, u.frame.counts = false) ∧ ∀ result, ending = some result →
      result = .ok m.total := by
  induction h with
  | idle => exact ⟨by simp, fun result h => (Option.some.inj h).symm⟩
  | unpaid => exact ⟨by simp, by simp⟩
  | raised next paid does falls =>
    obtain ⟨-, hstops, -⟩ := hstack.next next
    rw [falls] at hstops
    cases hstops
  | swallowed next paid does stops _ ih =>
    obtain ⟨hcounts, -, hrest⟩ := hstack.next next
    obtain ⟨hturns, hending⟩ := ih (hrest.unwind stops)
    exact ⟨List.forall_mem_cons.2 ⟨hcounts, hturns⟩, hending⟩
  | @worked m frame stack frames n turns ending s t next paid does _ ih =>
    obtain ⟨hcounts, hstops, hrest⟩ := hstack.next next
    have hdoes := work_does tree host frame m.session
    rw [does] at hdoes
    obtain ⟨rfl, hframes⟩ := hdoes.uncounted hcounts
    obtain ⟨hturns, hending⟩ := ih (hrest.append hstops hframes)
    exact ⟨List.forall_mem_cons.2 ⟨hcounts, hturns⟩, by simpa using hending⟩

end Machine

/-! ### The stages of a chain -/

/-- The stages of a chain that is asked for, with the redirects that are left and the sources that
have come so far.  Each stage tries all its sources, and all who come out of it go on; no command
is called before the last stage. -/
inductive Spreads (cut : Prop) (executable : Context Source Command Modifier) : (forked : Bool) →
    List (Context Source Command Modifier) → List Source →
    List (Turn Source Command Modifier) → Prop where
  /-- The quota does not pay for the stage. -/
  | unpaid {forked : Bool} {hops : List (Context Source Command Modifier)}
      {sources : List Source} (short : cut) : Spreads cut executable forked hops sources []
  /-- Nobody comes out of a redirect, which ends the chain. -/
  | empties {forked : Bool} {hop : Context Source Command Modifier}
      {hops : List (Context Source Command Modifier)} {sources : List Source}
      {t : Turn Source Command Modifier}
      (stage : t.frame = .stage ⟨hop :: hops, executable⟩ sources forked true)
      (passes : hop.PassesAll sources t.calls []) (aside : ∀ e ∈ t.calls, e.Aside) :
      Spreads cut executable forked (hop :: hops) sources [t]
  /-- All who come out of a redirect go on together. -/
  | redirects {forked : Bool} {hop : Context Source Command Modifier}
      {hops : List (Context Source Command Modifier)} {sources next : List Source}
      {t : Turn Source Command Modifier} {turns : List (Turn Source Command Modifier)}
      (stage : t.frame = .stage ⟨hop :: hops, executable⟩ sources forked true)
      (passes : hop.PassesAll sources t.calls next) (aside : ∀ e ∈ t.calls, e.Aside)
      (left : next ≠ []) (rest : Spreads cut executable (forked || hop.hop.forks) hops next turns) :
      Spreads cut executable forked (hop :: hops) sources (t :: turns)
  /-- The command is run for all who have come through. -/
  | commands {forked : Bool} {sources : List Source} {t : Turn Source Command Modifier}
      (stage : t.frame = .stage ⟨[], executable⟩ sources forked true)
      (tries : t.calls.filterMap Event.tried? = sources) :
      Spreads cut executable forked [] sources [t]

theorem Chain.executable_contexts (line : String) :
    ∀ (later : List (Hop Source Command Modifier)) (hop : Hop Source Command Modifier),
      (contexts line hop later).executable.hop = later.getLastD hop := by
  intro later
  induction later with
  | nil => intro hop; rfl
  | cons next later ih =>
    intro hop
    rw [List.getLastD_cons, ← ih next]
    rfl

/-- A chain ends in a command. -/
theorem Chain.command_of_ofContext? {c : Context Source Command Modifier}
    {chain : Chain Source Command Modifier} (h : Chain.ofContext? c = some chain) :
    chain.executable.hop.command?.isSome = true := by
  unfold Chain.ofContext? at h
  split at h
  · next hcommand =>
    cases h
    rw [Chain.executable_contexts]
    exact hcommand
  · cases h

/-- The turns begin with the stages of a chain, and the others do not count.  If the quota pays for
all of them they end with the total, to which each command of the stages that has succeeded has
added one. -/
def SpreadsOut (executable : Context Source Command Modifier) (forked : Bool)
    (hops : List (Context Source Command Modifier)) (sources : List Source) (total : Int32)
    (turns : List (Turn Source Command Modifier)) (ending : Option (Except Fault Int32)) : Prop :=
  ∃ stages rest, turns = stages ++ rest ∧
    Spreads (ending = none) executable forked hops sources stages ∧
    (∀ u ∈ stages, u.frame.counts = true) ∧ (∀ u ∈ rest, u.frame.counts = false) ∧
    ∀ result, ending = some result → result =
      .ok (total + Int32.ofNat ((stages.flatMap Turn.calls).countP Event.succeeded))

theorem SpreadsOut.unpaid {executable : Context Source Command Modifier} {forked : Bool}
    {hops : List (Context Source Command Modifier)} {sources : List Source} {total : Int32} :
    SpreadsOut executable forked hops sources total [] none :=
  ⟨[], [], rfl, .unpaid rfl, by simp, by simp, by simp⟩

namespace Machine

variable {tree : Tree Source Command Modifier} {host : Host Source Command Modifier State}
  {quota : Nat} {executable hop : Context Source Command Modifier}
  {hops : List (Context Source Command Modifier)} {sources : List Source} {forked : Bool}
  {m : Machine Source Command Modifier State} {turns : List (Turn Source Command Modifier)}
  {ending : Option (Except Fault Int32)} {t : Session Source Command Modifier State}

/-- After a fork the last stage tries all its sources, and the lines that it leaves are
sheltered. -/
theorem Course.spreads_commands (h : Course tree host quota m turns ending t)
    (command : executable.hop.command?.isSome = true)
    (hstack : m.stack = [.stage ⟨[], executable⟩ sources true true]) :
    SpreadsOut executable true [] sources m.total turns ending := by
  obtain ⟨r, u, hruns⟩ := runs_total host { executable with queues := true } true sources m.session
  obtain ⟨n, queued, rfl⟩ := hruns.ok_of_forked
  obtain ⟨events, hevents, -, hresult⟩ := hruns.calls
  obtain ⟨-, htried, hcount⟩ := hresult n queued rfl
  have does : work tree host (.stage ⟨[], executable⟩ sources true true) m.session =
      (.ok (n, Frame.ofQueued true queued), u) := work_commands hruns
  have hcalls : (turn tree host (.stage ⟨[], executable⟩ sources true true) m.session).calls =
      events := turn_calls_eq (by rw [does]; exact hevents)
  have hnext : m.stack.dropWhile Frame.isCatcher =
      [.stage ⟨[], executable⟩ sources true true] := by rw [hstack]; rfl
  rcases h.cons_of_ok hnext does with ⟨rfl, rfl⟩ | ⟨rest, rfl, hrest⟩
  · exact .unpaid
  · have hsheltered : Sheltered (Frame.ofQueued true queued ++ [] :
        List (Frame Source Command Modifier)) := by
      rw [List.append_nil]
      exact .ofQueued queued
    obtain ⟨huncounted, htotal⟩ := hrest.sheltered hsheltered
    refine ⟨[_], rest, rfl, .commands rfl ?_, List.forall_mem_singleton.2 rfl, huncounted, ?_⟩
    · rw [hcalls]
      exact htried command
    · intro result hending
      rw [htotal result hending, List.flatMap_singleton, hcalls, ← hcount rfl]

/-- After a fork a redirect tries all its sources, and all who come out of it go on, if there are
any. -/
theorem Course.redirect_cases (h : Course tree host quota m turns ending t)
    (hstack : m.stack = [.stage ⟨hop :: hops, executable⟩ sources forked true])
    (fork : (forked || hop.hop.forks) = true) :
    (turns = [] ∧ ending = none) ∨
      ∃ (u : Turn Source Command Modifier) (rest : List (Turn Source Command Modifier))
          (next : List Source) (n : Machine Source Command Modifier State),
        turns = u :: rest ∧ u.frame = .stage ⟨hop :: hops, executable⟩ sources forked true ∧
        hop.PassesAll sources u.calls next ∧ (∀ e ∈ u.calls, e.Aside) ∧
        Course tree host quota n rest ending t ∧ n.total = m.total ∧
        n.stack = if next = [] then []
          else [.stage ⟨hops, executable⟩ next (forked || hop.hop.forks) true] := by
  obtain ⟨r, u, hpasses⟩ := passes_total host hop (forked || hop.hop.forks) sources m.session
  obtain ⟨next, rfl⟩ := Passes.ok_of_forked (fork ▸ hpasses)
  obtain ⟨events, hevents, haside, hall⟩ := hpasses.calls
  have does : work tree host (.stage ⟨hop :: hops, executable⟩ sources forked true) m.session =
      (.ok (0, if next = [] then []
        else [.stage ⟨hops, executable⟩ next (forked || hop.hop.forks) true]), u) := by
    by_cases hnext : next = []
    · subst hnext
      exact work_redirectEmpties hpasses
    · rw [if_neg hnext]
      exact work_redirects hpasses hnext
  have hcalls : (turn tree host (.stage ⟨hop :: hops, executable⟩ sources forked true)
      m.session).calls = events := turn_calls_eq (by rw [does]; exact hevents)
  have htop : m.stack.dropWhile Frame.isCatcher =
      [.stage ⟨hop :: hops, executable⟩ sources forked true] := by rw [hstack]; rfl
  refine (h.cons_of_ok htop does).imp_right ?_
  intro hturn
  obtain ⟨rest, rfl, hrest⟩ := hturn
  exact ⟨_, rest, next, _, rfl, rfl, hcalls ▸ hall next rfl, hcalls ▸ haside, hrest,
    Int32.add_zero _, List.append_nil _⟩

/-- **After a fork the stages of a chain come to their end.**  By induction on the redirects that
are left. -/
theorem Course.spreads (command : executable.hop.command?.isSome = true) :
    ∀ (hops : List (Context Source Command Modifier)) {forked : Bool} {sources : List Source}
      {m : Machine Source Command Modifier State} {turns : List (Turn Source Command Modifier)},
      Course tree host quota m turns ending t →
      m.stack = [.stage ⟨hops, executable⟩ sources forked true] →
      (forked || hops.head?.any fun hop => hop.hop.forks) = true →
      SpreadsOut executable forked hops sources m.total turns ending := by
  intro hops
  induction hops with
  | nil =>
    intro forked sources m turns h hstack hforked
    obtain rfl : forked = true := by simpa using hforked
    exact h.spreads_commands command hstack
  | cons hop hops ih =>
    intro forked sources m turns h hstack hforked
    have hfork : (forked || hop.hop.forks) = true := by simpa using hforked
    rcases h.redirect_cases hstack hfork with
      ⟨rfl, rfl⟩ | ⟨u, rest, next, n, rfl, hframe, hpasses, haside, hrest, htotal, hleft⟩
    · exact .unpaid
    · have hcounts : u.frame.counts = true := by rw [hframe]; rfl
      have hnone := Event.countP_succeeded_of_aside haside
      by_cases hnext : next = []
      · subst hnext
        rw [if_pos rfl] at hleft
        obtain ⟨huncounted, hending⟩ := hrest.sheltered (hleft ▸ .nil)
        refine ⟨[u], rest, rfl, .empties hframe hpasses haside,
          List.forall_mem_singleton.2 hcounts, huncounted, ?_⟩
        intro result hresult
        rw [hending result hresult, htotal, List.flatMap_singleton, hnone]
        exact congrArg Except.ok (Int32.add_zero _).symm
      · rw [if_neg hnext] at hleft
        obtain ⟨stages, others, rfl, hspreads, hcounted, huncounted, hending⟩ :=
          ih hrest hleft (by simp [hfork])
        refine ⟨u :: stages, others, rfl, .redirects hframe hpasses haside hnext hspreads,
          List.forall_mem_cons.2 ⟨hcounts, hcounted⟩, huncounted, ?_⟩
        intro result hresult
        rw [hending result hresult, htotal, List.flatMap_cons, List.countP_append, hnone,
          Nat.zero_add]

end Machine

namespace Tree

variable {tree : Tree Source Command Modifier} {host : Host Source Command Modifier State}
  {quota : Nat} {r : Reading Source Command Modifier}
  {chain : Chain Source Command Modifier} {hop : Context Source Command Modifier}
  {hops : List (Context Source Command Modifier)} {s : Session Source Command Modifier State}

/-- The course of a chain whose first redirect forks. -/
theorem Course.spreads {turns : List (Turn Source Command Modifier)}
    {ending : Option (Except Fault Int32)} {t : Session Source Command Modifier State}
    (h : tree.Course host quota r s turns ending t) (whole : r.syntaxFault? = none)
    (given : Chain.ofContext? (r.route.context r.cursor.line) = some chain)
    (first : chain.modifiers = hop :: hops) (forks : hop.hop.forks = true) :
    SpreadsOut chain.executable false chain.modifiers [chain.top.source] 0 turns ending := by
  have hopen : r.opening host [] 0 0 true s = .pending {
      stack := [.stage chain [chain.top.source] false true], entries := 0, total := 0,
      session := s } := by
    simp only [Reading.opening, whole, Reading.chain_of_some given]
  unfold Course at h
  rw [hopen] at h
  exact Machine.Course.spreads (Chain.command_of_ofContext? given) chain.modifiers h rfl
    (by simp [first, forks])

/--
**A fork keeps failures apart.**

If the first redirect of a chain forks, its execution answers how many commands of the last
stage have succeeded, and nothing but the quota keeps it from doing so.  Each stage of the
chain tries all its sources, and all who come out of it go on to the next.  Every line that
was queued after a fork, by a stage of this chain or of a chain that was queued, is started
from an entry of its own unless the quota ends the execution.
-/
theorem executeReading_forked (host : Host Source Command Modifier State) (quota : Nat)
    (s : Session Source Command Modifier State) (whole : r.syntaxFault? = none)
    (given : Chain.ofContext? (r.route.context r.cursor.line) = some chain)
    (first : chain.modifiers = hop :: hops) (forks : hop.hop.forks = true) :
    ∃ stages rest ending origin,
      tree.Course host quota r s (stages ++ rest) ending
        (tree.executeReading host quota r s).2 ∧
      Spreads (tree.CutOff host quota r s) chain.executable false chain.modifiers
        [chain.top.source] stages ∧
      (∀ t ∈ rest, t.frame.counts = false) ∧
      Accounts (stages ++ rest) origin ∧
      (¬tree.CutOff host quota r s →
        ∀ e t l, e.Holds (stages ++ rest) t l → t.frame.forked = true →
          ∃ i, lineAt? (stages ++ rest) i = some l ∧ origin i = e) ∧
      (tree.CutOff host quota r s →
        (tree.executeReading host quota r s).1 = .error ⟨.limitReached quota, none⟩) ∧
      (¬tree.CutOff host quota r s → (tree.executeReading host quota r s).1 =
        .ok (Int32.ofNat ((stages.flatMap Turn.calls).countP Event.succeeded))) := by
  obtain ⟨turns, ending, t, hcourse⟩ := exists_course tree host quota r s
  obtain ⟨hresult, hcut⟩ := hcourse.ends
  obtain ⟨origin, haccounts, hkept⟩ := hcourse.accounts
  obtain ⟨stages, rest, rfl, hstages, -, huncounted, htotal⟩ :=
    hcourse.spreads whole given first forks
  rw [hresult, hcut]
  refine ⟨stages, rest, ending, origin, hcourse, hstages, huncounted, haccounts, ?_, ?_, ?_⟩
  · intro hpaid e u l holds hforked
    exact hkept hpaid e u l holds (.inr hforked)
  · intro hcut
    rw [hcut]
    rfl
  · intro hpaid
    cases ending with
    | none => exact absurd rfl hpaid
    | some result =>
      have htotal := htotal result rfl
      rw [Int32.zero_add] at htotal
      exact htotal

end Tree

/-- A host that lets the sources 1 and 2 go on, and whose command succeeds for the source 1 only,
for which it queues a line that is unknown and one that fails. -/
def unrulyHost : Host Nat Unit Unit Unit where
  run _ context state :=
    if context.source = 1 then (⟨.ok 7, [⟨"nowhere", 1⟩, ⟨"go", 3⟩]⟩, state)
    else (⟨.error ⟨.unknownCommand, none⟩, []⟩, state)
  modify _ _ state := (.ok [1, 2], state)

/-- On `both go` one of two sources succeeds, and the lines that it queues both fail. -/
theorem executeReading_forked_unruly :
    ∃ (chain : Chain Nat Unit Unit) (hop : Context Nat Unit Unit)
        (hops : List (Context Nat Unit Unit)),
      (splitTree.read "both go" 0).syntaxFault? = none ∧
      Chain.ofContext? ((splitTree.read "both go" 0).route.context
        (splitTree.read "both go" 0).cursor.line) = some chain ∧
      chain.modifiers = hop :: hops ∧ hop.hop.forks = true ∧
      (splitTree.executeReading unrulyHost 9 (splitTree.read "both go" 0) ⟨(), []⟩).1 = .ok 1 ∧
      ∃ stages rest ending,
        splitTree.Course unrulyHost 9 (splitTree.read "both go" 0) ⟨(), []⟩ (stages ++ rest) ending
          (splitTree.executeReading unrulyHost 9 (splitTree.read "both go" 0) ⟨(), []⟩).2 ∧
        (splitTree.executeReading unrulyHost 9 (splitTree.read "both go" 0) ⟨(), []⟩).1 =
          .ok (Int32.ofNat ((stages.flatMap Turn.calls).countP Event.succeeded)) := by
  have hresult : (splitTree.executeReading unrulyHost 9 (splitTree.read "both go" 0)
      ⟨(), []⟩).1 = .ok 1 := rfl
  have paid : ¬splitTree.CutOff unrulyHost 9 (splitTree.read "both go" 0) ⟨(), []⟩ := by
    intro hcut
    have hlimit := Tree.executeReading_of_cutOff hcut
    rw [hresult] at hlimit
    cases hlimit
  obtain ⟨chain, hop, hops, whole, given, first, forks⟩ :
      ∃ (chain : Chain Nat Unit Unit) (hop : Context Nat Unit Unit)
          (hops : List (Context Nat Unit Unit)),
        (splitTree.read "both go" 0).syntaxFault? = none ∧
        Chain.ofContext? ((splitTree.read "both go" 0).route.context
          (splitTree.read "both go" 0).cursor.line) = some chain ∧
        chain.modifiers = hop :: hops ∧ hop.hop.forks = true :=
    ⟨_, _, _, rfl, rfl, rfl, rfl⟩
  obtain ⟨stages, rest, ending, origin, hcourse, -, -, -, -, -, hcount⟩ :=
    Tree.executeReading_forked unrulyHost 9 ⟨(), []⟩ whole given first forks
  exact ⟨chain, hop, hops, whole, given, first, forks, hresult, stages, rest, ending, hcourse,
    hcount paid⟩

end CommandLines
