/-
Which lines are read to their end.

A `Path` is a way through a line from node to node, each of them a match that a space or
the end follows.  If reading tried every child that matches, a line would be read to its
end whenever there is a path through usable children.  It does not: a child that redirects
settles the matter as soon as something follows it, and its siblings, those before it
included, are dropped however far they lead.

`kept` is what that leaves of the usable children, and `atEnd_read_iff` says that a line is
read to its end exactly when there is a path through those.  Apart from such a child no
choice between readings loses a path: `atEnd_readFrom_iff` goes down the line, and at each
node one of the readings that take all of it is kept if there is one at all.
-/
import CommandLines.Proofs.Reading.Steps
import CommandLines.Tree.Register

namespace CommandLines

variable {Source Command Modifier : Type}

namespace Trial

/-- The reading of a child that matches. -/
def reading? : Trial Source Command Modifier → Option (Reading Source Command Modifier)
  | .fits r | .settles r => some r
  | .refused _ => none

theorem reading?_of_unsettled {trial : Trial Source Command Modifier}
    (h : trial.isSettled = false) : trial.reading? = trial.fit? := by
  cases trial with
  | refused f => rfl
  | fits r => rfl
  | settles r => simp [isSettled] at h

end Trial

namespace Tree

/-- A way through the rest of a line from a node on: each node of it is one of those `tried` at its
place and matches there, and the next place is where the line goes on after it. -/
inductive Path (t : Tree Source Command Modifier) (tried : NodeId → Cursor → List NodeId) :
    NodeId → Cursor → List NodeId → Prop where
  /-- The line ends after the node. -/
  | ends {id child : NodeId} {c after : Cursor} (hchild : child ∈ tried id c)
      (hwhole : (t.node child).whole? c = some after) (hend : after.atEnd = true) :
      Path t tried id c [child]
  /-- The line ends with the space after the node. -/
  | lapses {id child next : NodeId} {c after place : Cursor} (hchild : child ∈ tried id c)
      (hwhole : (t.node child).whole? c = some after)
      (hgo : t.goesOn? child after = some (next, place)) (hend : place.atEnd = true) :
      Path t tried id c [child]
  /-- The path goes on where the line does. -/
  | goesOn {id child next : NodeId} {c after place : Cursor} {path : List NodeId}
      (hchild : child ∈ tried id c) (hwhole : (t.node child).whole? c = some after)
      (hgo : t.goesOn? child after = some (next, place))
      (rest : Path t tried next place path) : Path t tried id c (child :: path)

/-- Whether a child that is tried at a cursor settles the matter: it matches and redirects, and
something follows it. -/
def settles (t : Tree Source Command Modifier) (c : Cursor) (child : NodeId) : Bool :=
  (t.node child).redirect?.isSome && ((t.node child).whole? c).any fun after => after.has 1

/-- The usable children that count: all of them, unless one settles the matter. -/
def kept (t : Tree Source Command Modifier) (source : Source) (id : NodeId) (c : Cursor) :
    List NodeId :=
  match (t.usable source id c).find? (t.settles c) with
  | some child => [child]
  | none => t.usable source id c

/-- The child matches, and from where the line goes on after it there is a path to the end. -/
def Finishes (t : Tree Source Command Modifier) (tried : NodeId → Cursor → List NodeId)
    (c : Cursor) (child : NodeId) : Prop :=
  ∃ after, (t.node child).whole? c = some after ∧
    (after.atEnd = true ∨ ∃ next place, t.goesOn? child after = some (next, place) ∧
      (place.atEnd = true ∨ ∃ path, t.Path tried next place path))

variable {t : Tree Source Command Modifier} {source : Source} {id child : NodeId}
  {c after place : Cursor} {hop : Hop Source Command Modifier}
  {tried : NodeId → Cursor → List NodeId}

/-- A path starts with a child from which there is a way to the end. -/
theorem Path.head {path : List NodeId} (h : t.Path tried id c path) :
    ∃ child rest, path = child :: rest ∧ child ∈ tried id c ∧ t.Finishes tried c child := by
  cases h with
  | ends hchild hwhole hend => exact ⟨_, _, rfl, hchild, _, hwhole, .inl hend⟩
  | lapses hchild hwhole hgo hend =>
    exact ⟨_, _, rfl, hchild, _, hwhole, .inr ⟨_, _, hgo, .inl hend⟩⟩
  | goesOn hchild hwhole hgo rest =>
    exact ⟨_, _, rfl, hchild, _, hwhole, .inr ⟨_, _, hgo, .inr ⟨_, rest⟩⟩⟩

/-- A path is its first node and what follows it. -/
theorem exists_path_iff :
    (∃ path, t.Path tried id c path) ↔ ∃ child ∈ tried id c, t.Finishes tried c child := by
  constructor
  · intro hex
    obtain ⟨path, hpath⟩ := hex
    obtain ⟨child, -, -, hchild, hfinishes⟩ := hpath.head
    exact ⟨child, hchild, hfinishes⟩
  · intro hex
    obtain ⟨child, hchild, after, hwhole, hrest⟩ := hex
    rcases hrest with hend | ⟨next, place, hgo, hend | ⟨path, rest⟩⟩
    · exact ⟨_, .ends hchild hwhole hend⟩
    · exact ⟨_, .lapses hchild hwhole hgo hend⟩
    · exact ⟨_, .goesOn hchild hwhole hgo rest⟩

theorem kept_of_settles (h : (t.usable source id c).find? (t.settles c) = some child) :
    t.kept source id c = [child] := by
  rw [kept, h]

theorem kept_of_unsettled (h : (t.usable source id c).find? (t.settles c) = none) :
    t.kept source id c = t.usable source id c := by
  rw [kept, h]

theorem mem_usable_of_kept (h : child ∈ t.kept source id c) : child ∈ t.usable source id c := by
  unfold kept at h
  split at h
  · next settler hfind =>
    obtain rfl := List.mem_singleton.1 h
    exact List.mem_of_find?_eq_some hfind
  · exact h

/-! ### Trials and paths -/

theorem isSettled_tryChild
    (further : NodeId → Cursor → Hop Source Command Modifier → Reading Source Command Modifier)
    (c : Cursor) (hop : Hop Source Command Modifier) (child : NodeId) :
    (t.tryChild further c hop child).isSettled = t.settles c child := by
  have htries := t.tryChild_tries further c hop child
  cases htrial : t.tryChild further c hop child <;> rw [htrial] at htries
  case refused f =>
    cases htries with
    | refused _ hwhole => simp [Trial.isSettled, settles, hwhole]
  case fits r =>
    cases htries with
    | @ends after grown htake hgo =>
      cases hredirect : (t.node child).redirect? with
      | none => simp [Trial.isSettled, settles, hredirect]
      | some redirect =>
        have hlen : after.has 1 = false := by simpa [goesOn?, hredirect] using hgo
        simp [Trial.isSettled, settles, Node.whole?_of_takeWhole htake, hlen]
    | descends htake hredirect hlen => simp [Trial.isSettled, settles, hredirect]
  case settles r =>
    cases htries with
    | redirects htake hredirect hlen hr =>
      simp [Trial.isSettled, settles, hredirect, Node.whole?_of_takeWhole htake, hlen]

theorem finishes_iff (hwhole : (t.node child).whole? c = some after) :
    t.Finishes tried c child ↔
      after.atEnd = true ∨ ∃ next place, t.goesOn? child after = some (next, place) ∧
        (place.atEnd = true ∨ ∃ path, t.Path tried next place path) := by
  constructor
  · intro hfinishes
    obtain ⟨other, hother, hrest⟩ := hfinishes
    obtain rfl : after = other := Option.some.inj (hwhole.symm.trans hother)
    exact hrest
  · intro hrest
    exact ⟨after, hwhole, hrest⟩

/-- Where the line goes on after a child there is nothing else to finish. -/
theorem finishes_of_goesOn {next : NodeId} (hwhole : (t.node child).whole? c = some after)
    (hgo : t.goesOn? child after = some (next, place)) :
    t.Finishes tried c child ↔ place.atEnd = true ∨ ∃ path, t.Path tried next place path := by
  have hopen := goesOn?_open hgo
  rw [finishes_iff hwhole]
  constructor
  · intro hcases
    rcases hcases with hend | ⟨next', place', hgo', hrest⟩
    · simp [hopen] at hend
    · obtain ⟨rfl, rfl⟩ : next = next' ∧ place = place' := by simpa [hgo] using hgo'
      exact hrest
  · intro hrest
    exact .inr ⟨next, place, hgo, hrest⟩

/-- A child takes the line to its end if reading on after it does. -/
theorem atEnd_trial_iff (hop : Hop Source Command Modifier) {steps : Nat}
    (hc : c.ahead.length < steps + 1)
    (ih : ∀ id c (hop : Hop Source Command Modifier), c.ahead.length < steps →
      ((t.readFrom steps id c hop).cursor.atEnd = true ↔
        c.atEnd = true ∨ ∃ path, t.Path (t.kept hop.source) id c path)) (child : NodeId) :
    (∃ r, (t.tryChild (t.readFrom steps) c hop child).reading? = some r ∧
        r.cursor.atEnd = true) ↔ t.Finishes (t.kept hop.source) c child := by
  have hshorter {after : Cursor} (hwhole : (t.node child).whole? c = some after)
      (hopen : after.atEnd = false) : after.skip.ahead.length < steps := by
    have hle := (Node.reaches_of_whole? hwhole).ahead_length_le
    have hlt := Cursor.ahead_length_skip hopen
    omega
  have htries := t.tryChild_tries (t.readFrom steps) c hop child
  generalize t.tryChild (t.readFrom steps) c hop child = trial at htries
  cases htries with
  | refused f hwhole => simp [Trial.reading?, Finishes, hwhole]
  | ends htake hgo =>
    rw [finishes_iff (Node.whole?_of_takeWhole htake)]
    simp [Trial.reading?, hgo]
  | descends htake hredirect hlen =>
    have hwhole := Node.whole?_of_takeWhole htake
    have hon := hshorter hwhole (Cursor.atEnd_of_has hlen)
    rw [finishes_of_goesOn hwhole (by rw [goesOn?, hredirect]; exact if_pos hlen),
      ← Node.source_of_takeWhole htake, ← ih _ _ _ hon]
    simp [Trial.reading?]
  | redirects htake hredirect hlen hr =>
    have hwhole := Node.whole?_of_takeWhole htake
    have hon := hshorter hwhole (Cursor.atEnd_of_has hlen)
    have hsource := Node.source_of_takeWhole htake
    subst hr
    rw [finishes_of_goesOn hwhole (by rw [goesOn?, hredirect]; exact if_pos hlen)]
    simp only [Trial.reading?, Option.some.injEq, exists_eq_left']
    rw [ih _ _ _ hon, Hop.start, hsource]

/-- At the end of the line every child that matches is at the end, too. -/
theorem finishes_at_end {r : Reading Source Command Modifier} {steps : Nat}
    (hend : c.atEnd = true)
    (h : (t.tryChild (t.readFrom steps) c hop child).reading? = some r) :
    t.Finishes tried c child := by
  have hdone {after : Cursor} {grown : Hop Source Command Modifier}
      (htake : (t.node child).takeWhole child c hop = .ok (after, grown)) :
      t.Finishes tried c child := by
    have hwhole := Node.whole?_of_takeWhole htake
    exact ⟨_, hwhole, .inl ((Node.reaches_of_whole? hwhole).atEnd hend)⟩
  have htries := t.tryChild_tries (t.readFrom steps) c hop child
  generalize t.tryChild (t.readFrom steps) c hop child = trial at htries h
  cases htries with
  | refused f hwhole => simp [Trial.reading?] at h
  | ends htake hgo => exact hdone htake
  | descends htake hredirect hlen => exact hdone htake
  | redirects htake hredirect hlen hr => exact hdone htake

/-! ### Whole lines -/

/-- Reading on from a node takes the line to its end exactly when a path of the children that count
does. -/
theorem atEnd_readFrom_iff {steps : Nat} (hc : c.ahead.length < steps) :
    (t.readFrom steps id c hop).cursor.atEnd = true ↔
      c.atEnd = true ∨ ∃ path, t.Path (t.kept hop.source) id c path := by
  induction steps generalizing id c hop with
  | zero => omega
  | succ steps ih =>
    have htrial := atEnd_trial_iff hop hc fun id c hop h => ih h
    have hsettled := funext (t.isSettled_tryChild (t.readFrom steps) c hop)
    rw [exists_path_iff]
    rcases t.readFrom_cases steps id c hop with ⟨child, hfind, hsettles⟩ | hrest
    · have hreading : (t.tryChild (t.readFrom steps) c hop child).reading? =
          some (t.readFrom (steps + 1) id c hop) := by
        rw [hsettles]
        rfl
      have hiff : (t.readFrom (steps + 1) id c hop).cursor.atEnd = true ↔
          t.Finishes (t.kept hop.source) c child := by
        rw [← htrial child, hreading]
        simp
      rw [hsettled] at hfind
      rw [kept_of_settles hfind, hiff]
      simp only [List.mem_singleton, exists_eq_left]
      exact ⟨.inr, fun h => h.elim (fun hend => finishes_at_end hend hreading) fun hpath => hpath⟩
    · -- no child settles the matter, so each child that matches has a reading of its own
      have hnone := hrest.elim And.left And.left
      have hfit : ∀ child ∈ t.usable hop.source id c,
          (t.tryChild (t.readFrom steps) c hop child).reading? =
            (t.tryChild (t.readFrom steps) c hop child).fit? := by
        intro child hchild
        exact Trial.reading?_of_unsettled (by simpa using List.find?_eq_none.1 hnone child hchild)
      have hfinishes : (∃ r ∈ (t.usable hop.source id c).filterMap fun child =>
            (t.tryChild (t.readFrom steps) c hop child).fit?, r.cursor.atEnd = true) ↔
          ∃ child ∈ t.usable hop.source id c, t.Finishes (t.kept hop.source) c child := by
        constructor
        · intro hex
          obtain ⟨r, hr, hend⟩ := hex
          obtain ⟨child, hchild, hr⟩ := List.mem_filterMap.1 hr
          exact ⟨child, hchild, (htrial child).1 ⟨r, (hfit child hchild).trans hr, hend⟩⟩
        · intro hex
          obtain ⟨child, hchild, hfinishes⟩ := hex
          obtain ⟨r, hr, hend⟩ := (htrial child).2 hfinishes
          exact ⟨r, List.mem_filterMap.2 ⟨child, hchild, (hfit child hchild).symm.trans hr⟩, hend⟩
      rw [hsettled] at hnone
      rw [kept_of_unsettled hnone]
      rcases hrest with ⟨-, hfits, faults, hresult⟩ | ⟨-, r, rs, hfits, hresult⟩
      · rw [hfits] at hfinishes
        rw [hresult, ← hfinishes]
        simp
      · rw [hresult, Reading.atEnd_best_iff, ← hfits, hfinishes]
        refine ⟨.inr, fun h => h.elim (fun hend => ?_) fun hpath => hpath⟩
        have hmem : r ∈ (t.usable hop.source id c).filterMap fun child =>
            (t.tryChild (t.readFrom steps) c hop child).fit? := by
          rw [hfits]
          exact List.mem_cons_self
        obtain ⟨child, hchild, hr⟩ := List.mem_filterMap.1 hmem
        exact ⟨child, hchild, finishes_at_end hend ((hfit child hchild).trans hr)⟩

/-- The paths of the children that count are paths of usable children. -/
theorem Path.usable {path : List NodeId} (h : t.Path (t.kept source) id c path) :
    t.Path (t.usable source) id c path := by
  induction h with
  | ends hchild hwhole hend => exact .ends (mem_usable_of_kept hchild) hwhole hend
  | lapses hchild hwhole hgo hend => exact .lapses (mem_usable_of_kept hchild) hwhole hgo hend
  | goesOn hchild hwhole hgo rest ih => exact .goesOn (mem_usable_of_kept hchild) hwhole hgo ih

/--
**When a line is read to its end.**

It is exactly when nothing is to be read, or when there is a path through it on which no
node is passed over by a sibling that settles the matter.
-/
theorem atEnd_read_iff (t : Tree Source Command Modifier) (line : String) (source : Source) :
    (t.read line source).cursor.atEnd = true ↔
      line = "" ∨ ∃ path, t.Path (t.kept source) .root (.ofLine line) path := by
  have hcursor : (t.read line source).cursor = (t.readFrom ((Cursor.ofLine line).ahead.length + 1)
      .root (.ofLine line) (.start source .root (Cursor.ofLine line).offset)).cursor := by
    simp only [Arena.read, Arena.readAt]
    split <;> rfl
  rw [hcursor, atEnd_readFrom_iff (Nat.lt_succ_self _)]
  refine or_congr ?_ Iff.rfl
  simp [Cursor.atEnd, Cursor.ofLine]

/--
**Which lines with a path are read to their end.**

That there is a path through usable children is enough exactly for the empty line and for
a line with such a path on which no node is passed over by a sibling that settles the
matter.
-/
theorem path_suffices_iff (t : Tree Source Command Modifier) (line : String) (source : Source) :
    ((∃ path, t.Path (t.usable source) .root (.ofLine line) path) →
        (t.read line source).cursor.atEnd = true) ↔
      ((∃ path, t.Path (t.usable source) .root (.ofLine line) path) →
        line = "" ∨ ∃ path, t.Path (t.usable source) .root (.ofLine line) path ∧
          t.Path (t.kept source) .root (.ofLine line) path) := by
  have hkept : (∃ path, t.Path (t.kept source) .root (.ofLine line) path) ↔
      ∃ path, t.Path (t.usable source) .root (.ofLine line) path ∧
        t.Path (t.kept source) .root (.ofLine line) path := by
    constructor
    · intro hex
      obtain ⟨path, hpath⟩ := hex
      exact ⟨path, hpath.usable, hpath⟩
    · intro hex
      obtain ⟨path, -, hpath⟩ := hex
      exact ⟨path, hpath⟩
  rw [atEnd_read_iff, hkept]

end Tree

/-- The tree that comes of adding a literal `z`, an argument `b` with a literal `foo` below it, and
an argument `a` that redirects to `z`. -/
def settledTree : Except Tree.MissingNode (Tree Unit Unit Unit) := do
  let word (name : String) : Draft Unit Unit Unit := .argument name (.text .word)
  let (t, z) ← Tree.empty.register (.literal "z")
  let (t, _) ← t.register { word "b" with children := [(Draft.literal "foo").runs ()] }
  let (t, _) ← t.register { word "a" with redirect? := some { target := z } }
  return t

/-- On `x foo` the path by `b` to `foo` is passed over, although `b` is tried first: `a` matches
`x`, too, and settles the matter, and `z` takes nothing of what is left. -/
theorem path_passed_over :
    ∃ t, settledTree = .ok t ∧
      (∃ path, t.Path (t.usable ()) .root (.ofLine "x foo") path) ∧
      (t.read "x foo" ()).cursor.atEnd = false := by
  refine ⟨_, rfl, ⟨[⟨2⟩, ⟨3⟩], ?_⟩, rfl⟩
  refine .goesOn (by decide) rfl rfl ?_
  exact .ends (by decide) rfl rfl

namespace Tree

variable {t : Tree Source Command Modifier} {source : Source}

/-- Without redirects no child settles the matter, so all usable children count. -/
theorem kept_eq_usable (h : ∀ id, (t.node id).redirect? = none) (source : Source) :
    t.kept source = t.usable source := by
  funext id c
  refine kept_of_unsettled ?_
  simp [settles, h]

/-- Without redirects nothing is passed over: a line through which there is a path is read to its
end. -/
theorem atEnd_read_of_path (h : ∀ id, (t.node id).redirect? = none) {line : String}
    (hpath : ∃ path, t.Path (t.usable source) .root (.ofLine line) path) :
    (t.read line source).cursor.atEnd = true := by
  rw [atEnd_read_iff, kept_eq_usable h]
  exact .inr hpath

end Tree

end CommandLines
