/-
Why a line goes no further.

Faults come up at every place that reading comes to, and most of them are lost: those of a
place are dropped as soon as one child matches there, and a reading that is dropped takes
its faults with it.  What a reading ends with is therefore the faults of one place, the one
where it stops, and of every child that is tried there.  `Explained` says so, and
`readFrom_explained` follows it down the line.

The place is found in the route itself: below the last node matched, or below the root of
the last hop if that has matched nothing.  Defaults would get in the way of that, since they
are nodes of the last hop, too.  But they are taken at the end of the line only, and a
reading that stops there has faults only in a hop that has matched nothing yet, which takes
no defaults.
-/
import CommandLines.Execution.Machine
import CommandLines.Proofs.Reading.Stages

namespace CommandLines

variable {Source Command Modifier : Type}

/-! ### Faults of single readings -/

namespace Cursor

variable {α β : Type} {c after : Cursor} {f : Fault}

/-- A reading that fails does so at its start or further on in the line. -/
def FaultsAhead (read : Cursor → Read α) : Prop :=
  ∀ (c after : Cursor) (f : Fault), read c = (.error f, after) →
    ∃ place cause, c.Reaches place ∧ f = fault place cause

/-- Some readings stay at their start and say there what is wrong. -/
theorem faultsAhead_here {cause : Cause}
    (h : ((.error (c.fault cause), c) : Read α) = (.error f, after)) :
    ∃ place cause, c.Reaches place ∧ f = fault place cause := by
  obtain ⟨rfl, -⟩ : c.fault cause = f ∧ c = after := by simpa using h
  exact ⟨c, cause, .refl c, rfl⟩

/-- A quoted text that is not read leaves the cursor where it says what is wrong. -/
theorem readClosing_fault {closing : Char} {escaped : Bool} {text behind ahead : List Char}
    (h : readClosing closing escaped text behind ahead = (.error f, after)) :
    ∃ cause, f = after.fault cause := by
  induction ahead generalizing escaped text behind with
  | nil =>
    obtain ⟨rfl, rfl⟩ : fault ⟨behind, []⟩ .unclosedQuote = f ∧ ⟨behind, []⟩ = after := by
      simpa [readClosing] using h
    exact ⟨_, rfl⟩
  | cons d ds ih =>
    cases escaped with
    | true =>
      rw [readClosing] at h
      split at h
      · exact ih h
      · obtain ⟨rfl, rfl⟩ : fault ⟨behind, d :: ds⟩ (.badEscape d) = f ∧
            ⟨behind, d :: ds⟩ = after := by simpa using h
        exact ⟨_, rfl⟩
    | false =>
      rw [readClosing] at h
      split at h
      · exact ih h
      · split at h
        · simp at h
        · exact ih h

theorem faultsAhead_readString : FaultsAhead readString := by
  intro c after f h
  have hreaches := reaches_readString c
  rw [h] at hreaches
  unfold readString at h
  split at h
  · obtain ⟨cause, hcause⟩ := readClosing_fault h
    exact ⟨after, cause, hreaches, hcause⟩
  · simp at h

theorem faultsAhead_readNumber (t : NumberType) : FaultsAhead (readNumber t) := by
  intro c after f h
  unfold readNumber at h
  simp only at h
  split at h
  · exact faultsAhead_here h
  · split at h
    · simp at h
    · exact faultsAhead_here h

theorem faultsAhead_readBool : FaultsAhead readBool := by
  intro c after f h
  unfold readBool at h
  split at h
  · next g place hstring =>
    obtain ⟨rfl, rfl⟩ : g = f ∧ place = after := by simpa using h
    exact faultsAhead_readString c _ _ hstring
  · next word place hstring =>
    have hreaches := reaches_readString c
    rw [hstring] at hreaches
    split at h
    · obtain ⟨hfault, -⟩ : place.fault .expectedBool = f ∧ place = after := by simpa using h
      exact ⟨place, _, hreaches, hfault.symm⟩
    · split at h
      · simp at h
      · split at h
        · simp at h
        · exact faultsAhead_here h

end Cursor

namespace ArgumentType

variable {type : ArgumentType}

theorem faultsAhead_readBounded (t : NumberType) (minimum maximum : t.Carrier) :
    Cursor.FaultsAhead (readBounded t minimum maximum) := by
  intro c after f h
  unfold readBounded at h
  split at h
  · next g place hnumber =>
    obtain ⟨rfl, rfl⟩ : g = f ∧ place = after := by simpa using h
    exact Cursor.faultsAhead_readNumber t c _ _ hnumber
  · split at h
    · exact Cursor.faultsAhead_here h
    · split at h
      · exact Cursor.faultsAhead_here h
      · simp at h

theorem faultsAhead_readText (kind : TextKind) : Cursor.FaultsAhead (readText kind) := by
  intro c after f h
  cases kind with
  | word => simp [readText] at h
  | phrase => exact Cursor.faultsAhead_readString c after f h
  | rest => simp [readText] at h

/-- A fault of the type that has a place is at a place of the line that is read, and never before
the one where reading starts. -/
def Points (type : ArgumentType) : Prop :=
  ∀ (c after : Cursor) (f : Fault), type.readValue c = (.error f, after) →
    ∀ p, f.place? = some p → ∃ offset, c.offset ≤ offset ∧ p = .within c.line offset

theorem points_of_faultsAhead (h : Cursor.FaultsAhead type.read) : type.Points := by
  intro c after f hread p hp
  obtain ⟨after', hread'⟩ : ∃ after', type.read c = (.error f, after') := by
    unfold readValue at hread
    split at hread
    · next g place heq =>
      obtain ⟨rfl, -⟩ : g = f ∧ place = after := by simpa using hread
      exact ⟨place, heq⟩
    · simp at hread
  obtain ⟨place, cause, hreaches, rfl⟩ := h c after' f hread'
  obtain rfl := Option.some.inj hp
  refine ⟨place.offset, hreaches.offset_le, ?_⟩
  have hle : place.offset ≤ Text.bytes c.line.toList := by
    rw [← hreaches.line_eq, Cursor.bytes_line, Cursor.length]
    exact Nat.le_add_right _ _
  rw [Cursor.place_of_reaches hreaches, Place.within, Nat.min_eq_left hle]

/-- The types that come with the language point at what they cannot read. -/
theorem BuiltIn.points (h : BuiltIn type) : type.Points := by
  cases h with
  | number t minimum maximum => exact points_of_faultsAhead (faultsAhead_readBounded t _ _)
  | bool => exact points_of_faultsAhead Cursor.faultsAhead_readBool
  | text kind => exact points_of_faultsAhead (faultsAhead_readText kind)

end ArgumentType

/-! ### Faults of single nodes -/

namespace Node

variable {n : Node Source Command Modifier} {id : NodeId} {c : Cursor}
  {hop : Hop Source Command Modifier} {f : Fault}

/-- What is wrong with the node at a cursor, if it does not match there: the word of a literal is
not ahead, or what the type of an argument finds, or something else than a space follows. -/
def refusal? (n : Node Source Command Modifier) (c : Cursor) : Option Fault :=
  let followed (after : Cursor) : Option Fault :=
    if after.atSeparator then none else some (after.fault .expectedSeparator)
  match n.label? with
  | none => followed c
  | some (.literal word) =>
    match c.afterWord? word with
    | some after => followed after
    | none => some (c.fault (.expectedLiteral word))
  | some (.argument _ type _) =>
    match type.readValue c with
    | (.ok _, after) => followed after
    | (.error f, _) => some f

/-- What is wrong with a node does not depend on the hop that it is tried for. -/
theorem takeWhole_eq_error_iff : n.takeWhole id c hop = .error f ↔ n.refusal? c = some f := by
  have hfollowed : ∀ (after : Cursor) (grown : Hop Source Command Modifier),
      (if after.atSeparator then .ok (after, { grown with command? := n.command? })
        else .error (after.fault .expectedSeparator)) =
          (.error f : Except Fault (Cursor × Hop Source Command Modifier)) ↔
        (if after.atSeparator then none else some (after.fault .expectedSeparator)) = some f := by
    intro after grown
    by_cases hsep : after.atSeparator = true <;> simp [hsep]
  unfold takeWhole take refusal?
  cases n.label? with
  | none => exact hfollowed c hop
  | some label =>
    cases label with
    | literal word =>
      cases hword : c.afterWord? word with
      | none => simp [hword]
      | some after => simpa only [hword] using hfollowed after _
    | argument name type provider? =>
      cases hread : type.readValue c with
      | mk outcome after =>
        cases outcome with
        | error g => simp [hread]
        | ok value => simpa only [hread] using hfollowed after _

/-- A fault is never before the place at which the node is tried, nor after the end of the line. -/
theorem place_of_refusal (hpoints : ∀ name type provider?,
      n.label? = some (.argument name type provider?) → type.Points)
    (h : n.refusal? c = some f) {p : Place} (hp : f.place? = some p) :
    p.line = c.line ∧ c.offset ≤ p.offset ∧ p.offset ≤ c.length := by
  have hreached : ∀ (place : Cursor) (cause : Cause), c.Reaches place → place.fault cause = f →
      p.line = c.line ∧ c.offset ≤ p.offset ∧ p.offset ≤ c.length := by
    intro place cause hreaches hf
    obtain rfl : place.place = p := by simpa [← hf, Cursor.fault] using hp
    refine ⟨hreaches.line_eq, hreaches.offset_le, ?_⟩
    show place.offset ≤ c.length
    rw [← Cursor.bytes_line c, ← hreaches.line_eq, Cursor.bytes_line, Cursor.length]
    exact Nat.le_add_right _ _
  have hfollowed : ∀ after, c.Reaches after →
      (if after.atSeparator then none else some (after.fault .expectedSeparator)) = some f →
        p.line = c.line ∧ c.offset ≤ p.offset ∧ p.offset ≤ c.length := by
    intro after hreaches h
    by_cases hsep : after.atSeparator = true
    · simp [hsep] at h
    · exact hreached after _ hreaches (by simpa [hsep] using h)
  unfold refusal? at h
  split at h
  · exact hfollowed c (.refl c) h
  · next word hlabel =>
    split at h
    · next after hword =>
      obtain ⟨hahead, hbehind, -⟩ := Cursor.afterWord?_eq_some_iff.1 hword
      exact hfollowed after ⟨word.toList, hahead, hbehind⟩ h
    · exact hreached c _ (.refl c) (Option.some.inj h)
  · next name type provider? hlabel =>
    split at h
    · next hread => exact hfollowed _ (ArgumentType.reaches_readValue hread) h
    · next hread =>
      obtain rfl := Option.some.inj h
      obtain ⟨offset, hle, rfl⟩ := hpoints name type provider? hlabel _ _ _ hread p hp
      have hlength := Cursor.bytes_line c
      have hoffset : c.offset ≤ c.length := Nat.le_add_right _ _
      refine ⟨rfl, ?_, ?_⟩
      · show c.offset ≤ min offset (Text.bytes c.line.toList)
        omega
      · show min offset (Text.bytes c.line.toList) ≤ c.length
        omega

end Node

/-! ### Faults of readings -/

/-- The node below which a hop goes on: the last one matched, or the one that it starts with. -/
def Hop.stop (h : Hop Source Command Modifier) : NodeId :=
  (h.nodes.getLast?.map Match.node).getD h.root

namespace Tree

variable {t : Tree Source Command Modifier} {source : Source} {id child : NodeId} {c : Cursor}
  {hop : Hop Source Command Modifier} {r : Reading Source Command Modifier}

/-- Where every child is refused, all of them are listed, each with what is wrong with it. -/
theorem tryEach_refused {attempt : NodeId → Trial Source Command Modifier} {ids : List NodeId}
    (h : ∀ id ∈ ids, ∃ f, attempt id = .refused f) :
    ∃ faults, tryEach attempt ids = .ok ([], faults) ∧ faults.map Prod.fst = ids ∧
      ∀ e ∈ faults, attempt e.1 = .refused e.2 := by
  induction ids with
  | nil => exact ⟨[], rfl, rfl, nofun⟩
  | cons id ids ih =>
    obtain ⟨f, hf⟩ := h id List.mem_cons_self
    obtain ⟨faults, htries, hids, hrefused⟩ := ih fun id hid => h id (List.mem_cons_of_mem _ hid)
    refine ⟨(id, f) :: faults, ?_, ?_, ?_⟩
    · simp [tryEach, hf, htries, Except.map]
    · rw [List.map_cons, hids]
    · intro e he
      rcases List.mem_cons.1 he with rfl | he
      · exact hf
      · exact hrefused e he

theorem refusal_of_refused
    {further : NodeId → Cursor → Hop Source Command Modifier → Reading Source Command Modifier}
    {f : Fault} (h : t.tryChild further c hop child = .refused f) :
    (t.node child).refusal? c = some f := by
  unfold Arena.tryChild at h
  simp only at h
  split at h
  · next g htake => exact Node.takeWhole_eq_error_iff.1 (Trial.refused.inj h ▸ htake)
  · split at h <;> split at h <;> simp at h

/-- The faults of a reading are those of all children that are tried where it stops. -/
structure Explained (t : Tree Source Command Modifier) (source : Source)
    (r : Reading Source Command Modifier) : Prop where
  children : r.faults.map Prod.fst = t.usable source r.route.last.stop r.cursor
  refusals : ∀ e ∈ r.faults, (t.node e.1).refusal? r.cursor = some e.2
  /-- A hop that stops at the end of the line has matched nothing. -/
  fresh : r.route.last.nodes ≠ [] → r.cursor.atEnd = false

/-- Reading stops where every child that is tried is refused, and all their faults are told. -/
theorem explained_of_refused (steps : Nat) (hstop : hop.stop = id)
    (hopen : hop.nodes ≠ [] → c.atEnd = false)
    (h : ∀ child ∈ t.usable hop.source id c, ∃ f,
      t.tryChild (t.readFrom steps) c hop child = .refused f) :
    t.Explained hop.source (t.readFrom (steps + 1) id c hop) := by
  obtain ⟨faults, htries, hids, hrefused⟩ := tryEach_refused h
  have hresult : t.readFrom (steps + 1) id c hop =
      { route := { first := hop }, cursor := c, faults } := by
    rw [Arena.readFrom, Arena.level, htries]
  rw [hresult]
  refine ⟨?_, ?_, hopen⟩
  · show faults.map Prod.fst = t.usable hop.source hop.stop c
    rw [hstop, hids]
  · intro e he
    exact refusal_of_refused (hrefused e he)

theorem Explained.redirects (h : t.Explained source r) (hop : Hop Source Command Modifier) :
    t.Explained source { r with route := { first := hop, later := r.route.hops } } := by
  refine ⟨?_, h.refusals, ?_⟩
  · rw [last_redirects]
    exact h.children
  · rw [last_redirects]
    exact h.fresh

/-- After a match where the line does not go on there is at most a space left. -/
theorem has_two_of_goesOn? {after : Cursor} (h : t.goesOn? child after = none) :
    after.has 2 = false := by
  unfold goesOn? at h
  split at h
  · split at h
    · simp at h
    · next hone =>
      simp only [Cursor.has, decide_eq_true_eq, decide_eq_false_iff_not] at hone ⊢
      omega
  · split at h
    · simp at h
    · next htwo => simpa using htwo

/-- From a place on, reading either ends with a match, after which no more than a space is left, or
it tells what is wrong with all the children that are tried where it stops. -/
theorem readFrom_explained (t : Tree Source Command Modifier) (id : NodeId) (c : Cursor)
    (hop : Hop Source Command Modifier) {steps : Nat} (hc : c.ahead.length < steps)
    (hstop : hop.stop = id) (hopen : hop.nodes ≠ [] → c.atEnd = false) :
    ((t.readFrom steps id c hop).faults = [] ∧ (t.readFrom steps id c hop).cursor.has 2 = false) ∨
      t.Explained hop.source (t.readFrom steps id c hop) := by
  induction steps generalizing id c hop with
  | zero => omega
  | succ steps ih =>
    have hshorter {child : NodeId} {after : Cursor} {grown : Hop Source Command Modifier}
        (htake : (t.node child).takeWhole child c hop = .ok (after, grown))
        (hlen : after.atEnd = false) : after.skip.ahead.length < steps := by
      have hlt := (open_of_takeWhole htake hlen).2
      omega
    rcases t.readFrom_tries steps id c hop with ⟨child, hchild, htry | htry⟩ | ⟨hrefused, -⟩
    · generalize t.readFrom (steps + 1) id c hop = result at htry
      cases htry with
      | @redirects after grown redirect r htake hredirect hlen hr =>
        have hnext := ih redirect.target after.skip
          (.start grown.source redirect.target after.skip.offset)
          (hshorter htake (Cursor.atEnd_of_has hlen)) rfl (absurd rfl)
        rw [hr, Hop.start, Node.source_of_takeWhole htake] at hnext
        exact hnext.imp_right fun hexplained => hexplained.redirects grown
    · generalize t.readFrom (steps + 1) id c hop = result at htry
      cases htry with
      | ends htake hgo => exact .inl ⟨rfl, has_two_of_goesOn? hgo⟩
      | @descends after grown htake hredirect hlen =>
        have hsep := (Node.whole?_eq_some_iff.1 (Node.whole?_of_takeWhole htake)).2
        have hgrown : grown.stop = child := by
          rw [Hop.stop, (grown_of_takeWhole hchild htake).nodes_eq, List.getLast?_concat]
          rfl
        have hnext := ih child after.skip grown (hshorter htake (Cursor.atEnd_of_has hlen)) hgrown
          fun _ => Cursor.skip_not_atEnd hsep hlen
        rwa [Node.source_of_takeWhole htake] at hnext
    · exact .inr (explained_of_refused steps hstop hopen hrefused)

/-- What is explained takes no defaults. -/
theorem Explained.filled (h : t.Explained source r) : t.filled r = r := by
  refine filled_eq_self fun hend => fillDefaults_fresh ?_
  by_cases hnodes : r.route.last.nodes = []
  · exact hnodes
  · simp [h.fresh hnodes] at hend

theorem readAt_explained (t : Tree Source Command Modifier) (c : Cursor) (source : Source) :
    ((t.readAt c source).faults = [] ∧ (t.readAt c source).cursor.has 2 = false) ∨
      t.Explained source (t.readAt c source) := by
  let typed := t.readFrom (c.ahead.length + 1) .root c (.start source .root c.offset)
  have hfilled : t.readAt c source = t.filled typed := rfl
  have hexplained := t.readFrom_explained .root c (.start source .root c.offset)
    (Nat.lt_succ_self c.ahead.length) rfl (absurd rfl)
  rcases hexplained with ⟨hnone, hshort⟩ | hexplained
  · refine .inl ⟨?_, ?_⟩
    · rw [hfilled, ← hnone]
      unfold Tree.filled
      split <;> rfl
    · rw [hfilled, cursor_filled]
      exact hshort
  · right
    rw [hfilled, hexplained.filled]
    exact hexplained

/--
**The faults of a reading are of the place where it stops.**

A reading from a cursor that has any faults has those of the children that are tried below
the last node matched, or below the root of the last hop if that has matched nothing, at the
place where it stops: of all these children, of each one once, in the order in which they
are tried, and each with what is wrong with it there.  It has none only if it ends with a
match, after which no more than a space is left, or if no child is tried.

If the types of arguments point at nothing before their start, every fault that has a place
is between the place where the reading stops and the end of the line.

And if a part of the line is left, running the reading fails: with the fault of the one child
if one is listed, and else with an unknown command if the first hop covers nothing, or an
unknown argument if it covers something, at the place where the reading stops.
-/
theorem faults_at_divergence (t : Tree Source Command Modifier) (c : Cursor) (source : Source) :
    let r := t.readAt c source
    let tried := t.usable source r.route.last.stop r.cursor
    ((r.faults = [] ∧ r.cursor.has 2 = false) ∨ r.faults.map Prod.fst = tried) ∧
      tried.Nodup ∧
      (∀ child f, (child, f) ∈ r.faults → (t.node child).refusal? r.cursor = some f) ∧
      ((∀ id name type provider?,
          (t.node id).label? = some (.argument name type provider?) → type.Points) →
        ∀ child f p, (child, f) ∈ r.faults → f.place? = some p →
          p.line = c.line ∧ r.cursor.offset ≤ p.offset ∧ p.offset ≤ c.length) ∧
      (r.cursor.atEnd = false → ∀ (State : Type) (host : Host Source Command Modifier State)
          (quota : Nat) (s : Session Source Command Modifier State),
        (∀ child f, r.faults = [(child, f)] → t.executeReading host quota r s = (.error f, s)) ∧
        (r.faults.length ≠ 1 → t.executeReading host quota r s =
          (.error (r.cursor.fault
            (if r.route.first.span.isEmpty then .unknownCommand else .unknownArgument)), s))) := by
  intro r tried
  have hreaches : c.Reaches r.cursor := (t.readAt_sound c source).1
  have hrefusals : ∀ child f, (child, f) ∈ r.faults →
      (t.node child).refusal? r.cursor = some f := by
    intro child f he
    rcases t.readAt_explained c source with ⟨hnone, -⟩ | hexplained
    · rw [show r.faults = [] from hnone] at he
      cases he
    · exact hexplained.refusals _ he
  refine ⟨?_, ?_, hrefusals, ?_, ?_⟩
  · exact (t.readAt_explained c source).imp_right Explained.children
  · exact (t.nodup_relevant _ _).filter _
  · intro hpoints child f p he hp
    obtain ⟨hline, hstart, hstop⟩ :=
      Node.place_of_refusal (hpoints child) (hrefusals child f he) hp
    rw [hreaches.line_eq] at hline
    rw [← Cursor.bytes_line, hreaches.line_eq, Cursor.bytes_line] at hstop
    exact ⟨hline, hstart, hstop⟩
  · intro hopen State host quota s
    constructor
    · intro child f hone
      have hfault : r.syntaxFault? = some f := by simp [Reading.syntaxFault?, hopen, hone]
      rw [executeReading, hfault]
    · intro hother
      have hfault : r.syntaxFault? = some (r.cursor.fault
          (if r.route.first.span.isEmpty then .unknownCommand else .unknownArgument)) := by
        unfold Reading.syntaxFault?
        rw [if_neg (by simp [hopen])]
        split
        · next hone => simp [hone] at hother
        · rfl
      rw [executeReading, hfault]

end Tree

/-- The tree that comes of adding a literal `set` with a number `n` and a truth value `b` beside
each other below it. -/
def doubtfulTree : Except Tree.MissingNode (Tree Unit Unit Unit) := do
  let number := (Draft.argument "n" (.number .int)).runs ()
  let flag := (Draft.argument "b" .bool).runs ()
  let (t, _) ← Tree.empty.register { Draft.literal "set" with children := [number, flag] }
  return t

theorem builtIn_doubtfulTree {t : Tree Unit Unit Unit} (h : doubtfulTree = .ok t) (id : NodeId)
    (name : String) (type : ArgumentType) (provider? : Option (Provider Unit Unit Unit))
    (hlabel : (t.node id).label? = some (.argument name type provider?)) : type.BuiltIn := by
  refine Tree.forall_node (p := fun n => ∀ name type provider?,
    n.label? = some (.argument name type provider?) → type.BuiltIn) nofun ?_ id _ _ _ hlabel
  intro i hi name type provider? hlabel
  have hsize : t.size = 4 := by
    obtain rfl := Except.ok.inj h
    rfl
  obtain rfl | rfl | rfl | rfl : i = 0 ∨ i = 1 ∨ i = 2 ∨ i = 3 := by omega
  all_goals
    obtain rfl := Except.ok.inj h
    cases hlabel
  · exact .number ..
  · exact .bool

/-- On `set x` neither the number nor the truth value is read.  Both are told, and what is reported
is an unknown argument. -/
theorem faults_at_divergence_doubtful : ∃ t, doubtfulTree = .ok t ∧
    (∀ id name type provider?,
      (t.node id).label? = some (.argument name type provider?) → type.Points) ∧
    (t.read "set x" ()).faults.map Prod.fst = [⟨2⟩, ⟨3⟩] ∧
    (∀ child f p, (child, f) ∈ (t.read "set x" ()).faults → f.place? = some p →
      p.line = "set x" ∧ 4 ≤ p.offset ∧ p.offset ≤ 5) ∧
    ∀ (State : Type) (host : Host Unit Unit Unit State) (s : Session Unit Unit Unit State),
      t.executeReading host 1 (t.read "set x" ()) s =
        (.error ⟨.unknownArgument, some ⟨"set x", 4⟩⟩, s) := by
  cases h : doubtfulTree with
  | error e => cases h
  | ok t =>
    have hpoints (id : NodeId) (name : String) (type : ArgumentType)
        (provider? : Option (Provider Unit Unit Unit))
        (hlabel : (t.node id).label? = some (.argument name type provider?)) : type.Points :=
      (builtIn_doubtfulTree h id name type provider? hlabel).points
    obtain ⟨-, -, -, hplaces, hreport⟩ := t.faults_at_divergence (.ofLine "set x") ()
    obtain rfl := Except.ok.inj h
    exact ⟨_, rfl, hpoints, rfl, hplaces hpoints,
      fun State host s => (hreport rfl State host 1 s).2 (by decide)⟩

end CommandLines
