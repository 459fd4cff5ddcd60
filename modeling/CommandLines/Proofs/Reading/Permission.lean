/-
What a source may not use.

A child that the source may not use is never followed, but that does not hide it.  Which
children are worth a try is settled before it is asked who may use them: a literal whose
word stands ahead is the only one, and if the source may not use it nothing is tried,
although the arguments beside it would be if there were no such literal.

`Arena.visible` is what is left of a tree without the children that a source may not use.
Nodes keep their numbers in it, so it is an arena that no drafts build, but it can be read
like any other.  The children tried at a place differ exactly where the place is `shadowed`
(`usable_visible_iff`).  So a line is read alike in both if none of the places at which its
reading depends on what is tried is shadowed, and `read_visible` follows it from place to
place.
-/
import CommandLines.Proofs.List
import CommandLines.Proofs.Reading.Completeness
import CommandLines.Proofs.Reading.Stages

namespace CommandLines

variable {Source Command Modifier : Type}

/-! ### Nodes with fewer children -/

namespace Index

variable {κ : Type} [DecidableEq κ]

/-- The index of those names alone that go to a node with a property. -/
def restrict (ix : Index κ) (p : NodeId → Bool) : Index κ :=
  ⟨ix.entries.filter fun e => (ix.get? e.1).all p⟩

theorem get?_restrict (ix : Index κ) (p : NodeId → Bool) (name : κ) :
    (ix.restrict p).get? name = (ix.get? name).filter p := by
  have hlookup := lookup_filter (fun name => (ix.get? name).all p) name ix.entries
  show List.lookup name _ = _
  rw [restrict, hlookup]
  show (if (ix.get? name).all p = true then ix.get? name else none) = _
  cases ix.get? name with
  | none => rfl
  | some id => rfl

end Index

/-- The node with those children alone that have a property. -/
def Node.restrict (n : Node Source Command Modifier) (p : NodeId → Bool) :
    Node Source Command Modifier :=
  { n with
    children := n.children.filter p
    index := n.index.restrict p
    literals := n.literals.restrict p
    arguments := n.arguments.filter p }

namespace Arena

/-- The arena in which no node has a child that a source may not use. -/
def visible (a : Arena Source Command Modifier) (source : Source) :
    Arena Source Command Modifier :=
  ⟨(a.nodes.toList.map fun n => n.restrict fun child => (a.node child).allows source).toArray⟩

/-! ### What is left of single nodes -/

variable {a : Arena Source Command Modifier} {source : Source} {id : NodeId} {c : Cursor}

theorem node_visible (a : Arena Source Command Modifier) (source : Source) (id : NodeId) :
    (a.visible source).node id =
      (a.node id).restrict fun child => (a.node child).allows source := by
  simp only [node, visible, Array.getD_eq_getD_getElem?, List.getElem?_toArray, List.getElem?_map,
    Array.getElem?_toList]
  cases a.nodes[id.index]? <;> rfl

@[simp]
theorem size_visible (a : Arena Source Command Modifier) (source : Source) :
    (a.visible source).size = a.size := by
  simp [size, visible]

/-- A child is tried by itself, whatever children it has. -/
theorem tryChild_visible (a : Arena Source Command Modifier) (source : Source) :
    (a.visible source).tryChild = a.tryChild := by
  funext further c hop id
  rw [tryChild, node_visible]
  rfl

theorem takeDefault_visible (a : Arena Source Command Modifier) (source : Source) :
    (a.visible source).takeDefault = a.takeDefault := by
  funext id stop hop
  rw [takeDefault, node_visible]
  rfl

theorem literals_visible (word : String) :
    ((a.visible source).node id).literals.get? word =
      ((a.node id).literals.get? word).filter fun child => (a.node child).allows source := by
  rw [node_visible]
  exact Index.get?_restrict ..

theorem arguments_visible :
    (((a.visible source).node id).arguments.filter fun child =>
        ((a.visible source).node child).allows source) =
      (a.node id).arguments.filter fun child => (a.node child).allows source := by
  simp only [node_visible, Node.restrict, List.filter_filter, Bool.and_self]

theorem defaultChild?_visible (a : Arena Source Command Modifier) (source : Source) (id : NodeId) :
    (a.visible source).defaultChild? id source = a.defaultChild? id source := by
  simp only [defaultChild?, node_visible, Node.restrict, List.find?_filter]
  congr 1
  funext child
  cases (a.node child).allows source <;> simp

end Arena

namespace Tree

variable {t : Tree Source Command Modifier} {source : Source} {line : String}
  {id child next : NodeId} {c after place : Cursor} {hop : Hop Source Command Modifier}

/-! ### Places where a word is in the way -/

/-- Whether the word of a literal that the source may not use stands at a place and keeps an
argument from being tried that the source may use. -/
def shadowed (t : Tree Source Command Modifier) (source : Source) (id : NodeId) (c : Cursor) :
    Bool :=
  ((t.node id).literals.get? c.wordAhead).any (fun literal => !(t.node literal).allows source) &&
    (t.node id).arguments.any fun child => (t.node child).allows source

/-- The children that are tried at a place are those tried in what is visible, unless the place is
shadowed. -/
theorem usable_visible_iff :
    (t.toArena.visible source).usable source id c = t.usable source id c ↔
      t.shadowed source id c = false := by
  unfold Arena.usable
  cases hword : (t.node id).literals.get? c.wordAhead with
  | none =>
    have hnone : ((t.toArena.visible source).node id).literals.get? c.wordAhead = none := by
      rw [Arena.literals_visible, hword]
      rfl
    rw [Arena.relevant_of_none hword, Arena.relevant_of_none hnone, Arena.arguments_visible]
    simp [shadowed, hword]
  | some literal =>
    cases hallows : (t.node literal).allows source with
    | true =>
      have hsome : ((t.toArena.visible source).node id).literals.get? c.wordAhead =
          some literal := by
        rw [Arena.literals_visible, hword, Option.filter_some, if_pos hallows]
      rw [Arena.relevant_of_some hword, Arena.relevant_of_some hsome]
      simp [shadowed, hword, hallows, Arena.node_visible, Node.restrict]
    | false =>
      -- the word is the only one to be tried, unless there is no such literal
      have hnone : ((t.toArena.visible source).node id).literals.get? c.wordAhead = none := by
        rw [Arena.literals_visible, hword, Option.filter_some, if_neg (by simp [hallows])]
      rw [Arena.relevant_of_some hword, Arena.relevant_of_none hnone, Arena.arguments_visible]
      simp [shadowed, hword, hallows]

/-- A place that reading a line comes to, so that what is read depends on what is tried there. -/
inductive Visits (t : Tree Source Command Modifier) (source : Source) (line : String) :
    NodeId → Cursor → Prop where
  /-- The root, at the start of the line. -/
  | start : Visits t source line .root (.ofLine line)
  /-- Where the line goes on after a child that counts. -/
  | goesOn {id child next : NodeId} {c after place : Cursor} (before : Visits t source line id c)
      (hchild : child ∈ t.kept source id c) (hwhole : (t.node child).whole? c = some after)
      (hgo : t.goesOn? child after = some (next, place)) : Visits t source line next place

/-! ### From one place to the next -/

/-- Only the first child that settles the matter counts, and if there is none then all do. -/
theorem tryEach_congr {attempt other : NodeId → Trial Source Command Modifier}
    {ids : List NodeId} (hsettled : ∀ id, (attempt id).isSettled = (other id).isSettled)
    (hfirst : ∀ id, ids.find? (fun id => (other id).isSettled) = some id → attempt id = other id)
    (hall : ids.find? (fun id => (other id).isSettled) = none →
      ∀ id ∈ ids, attempt id = other id) :
    tryEach attempt ids = tryEach other ids := by
  cases hfind : ids.find? fun id => (other id).isSettled with
  | some settler =>
    have hfind' : ids.find? (fun id => (attempt id).isSettled) = some settler := by
      rw [funext hsettled, hfind]
    rcases tryEach_cases attempt ids with ⟨id, r, hid, hr, heq⟩ | ⟨hnone, -⟩
    · rcases tryEach_cases other ids with ⟨id', r', hid', hr', heq'⟩ | ⟨hnone', -⟩
      · obtain rfl : settler = id := Option.some.inj (hfind'.symm.trans hid)
        obtain rfl : settler = id' := Option.some.inj (hfind.symm.trans hid')
        have hsame := hfirst settler hfind
        rw [hr, hr'] at hsame
        rw [heq, heq', Trial.settles.inj hsame]
      · simp [hnone'] at hfind
    · simp [hnone] at hfind'
  | none => exact tryEach_of_eq (hall hfind)

/-- From a place on the line is read alike in what is visible, if no place that reading comes to is
shadowed. -/
theorem readFrom_visible
    (hclear : ∀ id c, t.Visits source line id c → t.shadowed source id c = false) (steps : Nat)
    (hplace : t.Visits source line id c) (hsource : hop.source = source) :
    (t.toArena.visible source).readFrom steps id c hop = t.readFrom steps id c hop := by
  induction steps generalizing id c hop with
  | zero => rfl
  | succ steps ih =>
    have husable := usable_visible_iff.2 (hclear id c hplace)
    have htrial : ∀ child ∈ t.kept source id c,
        t.tryChild ((t.toArena.visible source).readFrom steps) c hop child =
          t.tryChild (t.readFrom steps) c hop child := by
      intro child hchild
      refine tryChild_congr ?_ ?_
      · intro after grown htake hredirect hlen
        have hgo : t.goesOn? child after = some (child, after.skip) := by
          rw [goesOn?, hredirect]
          exact if_pos hlen
        exact ih (.goesOn hplace hchild (Node.whole?_of_takeWhole htake) hgo)
          ((Node.source_of_takeWhole htake).trans hsource)
      · intro after grown redirect htake hredirect hlen
        have hgo : t.goesOn? child after = some (redirect.target, after.skip) := by
          rw [goesOn?, hredirect]
          exact if_pos hlen
        exact ih (.goesOn hplace hchild (Node.whole?_of_takeWhole htake) hgo)
          ((Node.source_of_takeWhole htake).trans hsource)
    have htrials : tryEach (t.tryChild ((t.toArena.visible source).readFrom steps) c hop)
          (t.usable source id c) =
        tryEach (t.tryChild (t.readFrom steps) c hop) (t.usable source id c) := by
      refine tryEach_congr ?_ ?_ ?_
      · intro child
        rw [isSettled_tryChild, isSettled_tryChild]
      · intro child hfind
        simp only [isSettled_tryChild] at hfind
        exact htrial child (kept_of_settles hfind ▸ List.mem_singleton_self child)
      · intro hfind child hchild
        simp only [isSettled_tryChild] at hfind
        exact htrial child (kept_of_unsettled hfind ▸ hchild)
    subst hsource
    rw [Arena.readFrom, Arena.readFrom, Arena.level, Arena.level, Arena.tryChild_visible, husable,
      htrials]

/-! ### Defaults -/

theorem takeDefaults_visible (stop steps : Nat) (hsource : hop.source = source) :
    (t.toArena.visible source).takeDefaults stop steps id hop =
      t.takeDefaults stop steps id hop := by
  induction steps generalizing id hop with
  | zero => rfl
  | succ steps ih =>
    subst hsource
    rw [Arena.takeDefaults, Arena.takeDefaults, Arena.defaultChild?_visible,
      Arena.takeDefault_visible]
    cases t.defaultChild? id hop.source with
    | none => rfl
    | some child => simp only [ih (t.takeDefault_eq child stop hop).1]

theorem fillDefaults_visible (stop : Nat) (hsource : hop.source = source) :
    (t.toArena.visible source).fillDefaults stop hop = t.fillDefaults stop hop := by
  rw [Arena.fillDefaults, Arena.fillDefaults]
  cases hop.nodes.getLast? with
  | none => rfl
  | some last => simp only [Arena.size_visible, takeDefaults_visible _ _ hsource]

/-! ### Whole lines -/

/--
**A source does not see what it may not use, except where a word is in the way.**

If no place that the reading of a line comes to is shadowed, the line is read in the tree as
it is read where no node has a child that the source may not use: with the same hops, so the
same nodes, spans, arguments and commands, up to the same place, and with the same faults.
-/
theorem read_visible (t : Tree Source Command Modifier) (line : String) (source : Source)
    (hclear : ∀ id c, t.Visits source line id c → t.shadowed source id c = false) :
    (t.toArena.visible source).read line source = t.read line source := by
  have htyped : (t.toArena.visible source).readFrom ((Cursor.ofLine line).ahead.length + 1) .root
      (.ofLine line) (.start source .root (Cursor.ofLine line).offset) = t.typed line source :=
    readFrom_visible hclear _ .start rfl
  have hsource : (t.typed line source).route.last.source = source :=
    (t.readFrom_comes _ .root (.ofLine line) (.start source .root _)).source_last
  rw [read_eq_filled, filled, Arena.read, Arena.readAt, htyped]
  simp only [mapLast_congr (fillDefaults_visible (t := t) _ hsource)]

end Tree

/-- The tree that comes of adding a literal `stop`, which only the source `true` may use, and an
argument `w`, which is any word. -/
def guardedTree : Except Tree.MissingNode (Tree Bool Unit Unit) := do
  let (t, _) ← Tree.empty.register (((Draft.literal "stop").runs ()).onlyFor id)
  let (t, _) ← t.register ((Draft.argument "w" (.text .word)).runs ())
  return t

theorem visits_guardedTree {t : Tree Bool Unit Unit} (h : guardedTree = .ok t) {id : NodeId}
    {c : Cursor} (hplace : t.Visits false "go" id c) : id = .root ∧ c = .ofLine "go" := by
  induction hplace with
  | start => exact ⟨rfl, rfl⟩
  | @goesOn id child next c after place before hchild hwhole hgo ih =>
    exfalso
    obtain ⟨rfl, rfl⟩ := ih
    obtain rfl := Except.ok.inj h
    obtain rfl : child = ⟨2⟩ := List.mem_singleton.1 hchild
    obtain rfl := Option.some.inj hwhole
    cases hgo

/-- What the source `false` may not use is out of the way of `go`. -/
theorem read_visible_guarded : ∃ t, guardedTree = .ok t ∧
    (∀ id c, t.Visits false "go" id c → t.shadowed false id c = false) ∧
    (t.toArena.visible false).read "go" false = t.read "go" false ∧
    (t.read "go" false).isComplete = true := by
  have hclear : ∀ {t : Tree Bool Unit Unit}, guardedTree = .ok t →
      ∀ id c, t.Visits false "go" id c → t.shadowed false id c = false := by
    intro t h id c hplace
    obtain ⟨rfl, rfl⟩ := visits_guardedTree h hplace
    obtain rfl := Except.ok.inj h
    rfl
  exact ⟨_, rfl, hclear rfl, Tree.read_visible _ "go" false (hclear rfl), rfl⟩

/-- On `stop` the source `false` is told of an unknown command.  Any other word would do, and so
would this one if there were no such literal. -/
theorem read_shadowed :
    ∃ t, guardedTree = .ok t ∧
      (t.toArena.visible false).read "stop" false ≠ t.read "stop" false ∧
      ((t.toArena.visible false).read "stop" false).isComplete = true ∧
      (t.read "stop" false).fault? = some ⟨.unknownCommand, some ⟨"stop", 0⟩⟩ := by
  refine ⟨_, rfl, fun heq => ?_, rfl, rfl⟩
  have hcomplete := congrArg Reading.isComplete heq
  cases hcomplete

end CommandLines
