/-
Which of several ways through a line is taken.

At each place the children are tried in the order in which `relevant` lists them, and one
reading is kept: the best, and of equally good ones the first.  That is a choice between
readings at one place.  Over a whole line it comes to the first path, where paths are
compared at the first place at which they differ.

Nothing has to be known of the readings that are dropped but whether they are at the end of
the line.  One that stops short serves worse than any that does not, and one that takes the
line to its end has no fault, since faults are of children tried where more than a space is
left.  So the first child from which there is a path is taken, and below it the same holds.
Redirects are left out: a child that redirects may be taken however early others come.
-/
import CommandLines.Proofs.Reading.Completeness
import CommandLines.Proofs.Reading.Defaults

namespace CommandLines

variable {Source Command Modifier : Type}

namespace Reading

variable {r first : Reading Source Command Modifier}
  {others before after : List (Reading Source Command Modifier)}

/-- A reading that nothing can serve better than is kept where it comes first. -/
theorem best_of_least (hr : r.badness = 0) (after : List (Reading Source Command Modifier)) :
    best r after = r := by
  induction after with
  | nil => rfl
  | cons q after ih =>
    have hq : ¬q.badness < r.badness := by omega
    rw [best, List.foldl_cons, if_neg hq]
    exact ih

/-- And it is kept where all that come before it serve worse. -/
theorem best_eq (h : first :: others = before ++ r :: after) (hr : r.badness = 0)
    (hbefore : ∀ q ∈ before, q.badness ≠ 0) : best first others = r := by
  have hlater : ∀ first : Reading Source Command Modifier, first.badness ≠ 0 →
      ∀ before : List (Reading Source Command Modifier), (∀ q ∈ before, q.badness ≠ 0) →
        best first (before ++ r :: after) = r := by
    intro first hfirst before hbefore
    induction before generalizing first with
    | nil =>
      have hlt : r.badness < first.badness := by omega
      rw [List.nil_append, best, List.foldl_cons, if_pos hlt]
      exact best_of_least hr after
    | cons q before ih =>
      have hrest : ∀ p ∈ before, p.badness ≠ 0 := fun p hp => hbefore p (List.mem_cons_of_mem _ hp)
      rw [List.cons_append, best, List.foldl_cons]
      split
      · exact ih q (hbefore q List.mem_cons_self) hrest
      · exact ih first hfirst hrest
  cases before with
  | nil =>
    obtain ⟨rfl, rfl⟩ := List.cons.inj h
    exact best_of_least hr _
  | cons q before =>
    obtain ⟨rfl, rfl⟩ := List.cons.inj h
    exact hlater first (hbefore first List.mem_cons_self) before
      fun p hp => hbefore p (List.mem_cons_of_mem _ hp)

theorem badness_eq_zero_iff : r.badness = 0 ↔ r.cursor.atEnd = true ∧ r.faults = [] := by
  unfold badness
  cases r.cursor.atEnd <;> cases r.faults <;> simp

end Reading

/-! ### Paths in order -/

/-- In a list without repetitions, what comes after an element has a greater index. -/
theorem idxOf_lt_of_filter {l before after : List NodeId} (hl : l.Nodup) {p : NodeId → Bool}
    {a b : NodeId} (h : l.filter p = before ++ a :: after) (hb : b ∈ after) :
    l.idxOf a < l.idxOf b := by
  have hsub : [a, b].Sublist l := by
    have hcut : (a :: after).Sublist l :=
      (List.sublist_append_right before _).trans (h ▸ List.filter_sublist)
    exact (List.Sublist.cons_cons a (List.singleton_sublist.2 hb)).trans hcut
  obtain ⟨front, back, rfl, ha, hback⟩ := List.cons_sublist_iff.1 hsub
  have hnot : b ∉ front := fun hfront =>
    (List.disjoint_of_nodup_append hl) hfront (List.singleton_sublist.1 hback)
  rw [List.idxOf_append_of_mem ha, List.idxOf_append_of_notMem hnot]
  exact Nat.lt_of_lt_of_le (List.idxOf_lt_length_iff.2 ha) (Nat.le_add_right _ _)

namespace Tree

/-- The one path comes before the other: at the first place at which they differ its child is listed
earlier. -/
inductive Before (t : Tree Source Command Modifier) :
    NodeId → Cursor → List NodeId → List NodeId → Prop where
  /-- They differ here. -/
  | here {id a b : NodeId} {c : Cursor} {as bs : List NodeId}
      (h : (t.relevant id c).idxOf a < (t.relevant id c).idxOf b) :
      Before t id c (a :: as) (b :: bs)
  /-- They have the same child here and differ where the line goes on after it. -/
  | later {id child next : NodeId} {c after place : Cursor} {as bs : List NodeId}
      (hwhole : (t.node child).whole? c = some after)
      (hgo : t.goesOn? child after = some (next, place)) (rest : Before t next place as bs) :
      Before t id c (child :: as) (child :: bs)

/-- The path comes before all others through usable children. -/
structure FirstPath (t : Tree Source Command Modifier) (source : Source) (id : NodeId) (c : Cursor)
    (path : List NodeId) : Prop where
  isPath : t.Path (t.usable source) id c path
  before : ∀ other, t.Path (t.usable source) id c other → other = path ∨ t.Before id c path other

variable {t : Tree Source Command Modifier} {source : Source} {id child next : NodeId}
  {c after place : Cursor} {path : List NodeId} {tried : NodeId → Cursor → List NodeId}

theorem Before.asymm {as bs : List NodeId} (h : t.Before id c as bs) : ¬t.Before id c bs as := by
  induction h with
  | here h =>
    intro h'
    cases h' with
    | here h' => exact Nat.lt_asymm h h'
    | later => exact Nat.lt_irrefl _ h
  | later hwhole hgo rest ih =>
    intro h'
    cases h' with
    | here h' => exact Nat.lt_irrefl _ h'
    | later hwhole' hgo' rest' =>
      obtain rfl := Option.some.inj (hwhole.symm.trans hwhole')
      obtain ⟨rfl, rfl⟩ := Prod.mk.inj (Option.some.inj (hgo.symm.trans hgo'))
      exact ih rest'

/-- There is at most one first path. -/
theorem FirstPath.unique {other : List NodeId} (h : t.FirstPath source id c path)
    (h' : t.FirstPath source id c other) : path = other := by
  rcases h.before other h'.isPath with heq | hbefore
  · exact heq.symm
  · rcases h'.before path h.isPath with heq | hbefore'
    · exact heq
    · exact absurd hbefore' hbefore.asymm

/-! ### The first child from which there is a path -/

theorem exists_first {l : List NodeId} {p : NodeId → Prop} (h : ∃ x ∈ l, p x) :
    ∃ before x after, l = before ++ x :: after ∧ p x ∧ ∀ y ∈ before, ¬p y := by
  classical
  obtain ⟨x, hx⟩ := Option.isSome_iff_exists.1
    ((List.find?_isSome (p := fun x => decide (p x))).2 (by simpa using h))
  obtain ⟨hpx, before, after, heq, hbefore⟩ := List.find?_eq_some_iff_append.1 hx
  exact ⟨before, x, after, heq, by simpa using hpx, fun y hy => by simpa using hbefore y hy⟩

section

variable {pre post : List NodeId} (hsplit : t.usable source id c = pre ++ child :: post)
  (hpre : ∀ b ∈ pre, ¬t.Finishes (t.usable source) c b)

include hsplit hpre

/-- Other paths start with the same child, or with one that is listed later. -/
theorem head_cases {other : List NodeId} (h : t.Path (t.usable source) id c other) :
    (∃ rest, other = child :: rest) ∨ t.Before id c (child :: path) other := by
  obtain ⟨b, rest, rfl, hb, hfinishes⟩ := h.head
  rw [hsplit, List.mem_append, List.mem_cons] at hb
  rcases hb with hb | rfl | hb
  · exact absurd hfinishes (hpre b hb)
  · exact .inl ⟨rest, rfl⟩
  · exact .inr (.here (idxOf_lt_of_filter (t.nodup_relevant id c) hsplit hb))

theorem firstPath_of_end (hwhole : (t.node child).whole? c = some after)
    (hend : after.atEnd = true) : t.FirstPath source id c [child] := by
  refine ⟨.ends (by simp [hsplit]) hwhole hend, ?_⟩
  intro other hother
  rcases head_cases hsplit hpre hother with ⟨rest, rfl⟩ | hbefore
  · cases hother with
    | ends => exact .inl rfl
    | lapses => exact .inl rfl
    | goesOn _ hwhole' hgo =>
      obtain rfl := Option.some.inj (hwhole.symm.trans hwhole')
      simp [goesOn?_open hgo] at hend
  · exact .inr hbefore

theorem firstPath_of_goesOn (hwhole : (t.node child).whole? c = some after)
    (hgo : t.goesOn? child after = some (next, place)) (hopen : place.atEnd = false)
    (hrest : t.FirstPath source next place path) : t.FirstPath source id c (child :: path) := by
  refine ⟨.goesOn (by simp [hsplit]) hwhole hgo hrest.isPath, ?_⟩
  intro other hother
  rcases head_cases hsplit hpre hother with ⟨rest, rfl⟩ | hbefore
  · cases hother with
    | ends _ hwhole' hend =>
      obtain rfl := Option.some.inj (hwhole.symm.trans hwhole')
      simp [goesOn?_open hgo] at hend
    | lapses _ hwhole' hgo' hend =>
      obtain rfl := Option.some.inj (hwhole.symm.trans hwhole')
      obtain ⟨rfl, rfl⟩ := Prod.mk.inj (Option.some.inj (hgo.symm.trans hgo'))
      simp [hopen] at hend
    | goesOn _ hwhole' hgo' rest' =>
      obtain rfl := Option.some.inj (hwhole.symm.trans hwhole')
      obtain ⟨rfl, rfl⟩ := Prod.mk.inj (Option.some.inj (hgo.symm.trans hgo'))
      rcases hrest.before _ rest' with rfl | hbefore
      · exact .inl rfl
      · exact .inr (.later hwhole hgo hbefore)
  · exact .inr hbefore

end

/-- The reading takes the line to its end in one hop, by the first path there is below the nodes
that the hop had. -/
structure Follows (t : Tree Source Command Modifier) (source : Source) (id : NodeId) (c : Cursor)
    (had path : List NodeId) (r : Reading Source Command Modifier) : Prop where
  first : t.FirstPath source id c path
  atEnd : r.cursor.atEnd = true
  /-- There is one hop, and there are no faults. -/
  plain : r = { route := { first := r.route.first }, cursor := r.cursor }
  source_eq : r.route.first.source = source
  ids : r.route.first.ids = had ++ path

variable {hop grown : Hop Source Command Modifier}

/-- What is read on from the first child from which there is a path follows the first path. -/
theorem follows_trial (hstays : ∀ id, (t.node id).redirect? = none) {steps : Nat}
    (hc : c.ahead.length < steps + 1)
    (ih : ∀ id c (hop : Hop Source Command Modifier), c.ahead.length < steps →
      (∃ path, t.Path (t.usable hop.source) id c path) →
      ∃ path, t.Follows hop.source id c hop.ids path (t.readFrom steps id c hop))
    {pre post : List NodeId} (hsplit : t.usable hop.source id c = pre ++ child :: post)
    (hpre : ∀ b ∈ pre, ¬t.Finishes (t.usable hop.source) c b)
    (hfinishes : t.Finishes (t.usable hop.source) c child) :
    ∃ q path, t.tryChild (t.readFrom steps) c hop child = .fits q ∧
      t.Follows hop.source id c hop.ids path q := by
  have hchild : child ∈ t.usable hop.source id c := by simp [hsplit]
  have hids {after : Cursor} {grown : Hop Source Command Modifier}
      (htake : (t.node child).takeWhole child c hop = .ok (after, grown)) :
      grown.ids = hop.ids ++ [child] := by
    simp [Hop.ids, (grown_of_takeWhole hchild htake).nodes_eq]
  have htries := t.tryChild_tries (t.readFrom steps) c hop child
  generalize t.tryChild (t.readFrom steps) c hop child = trial at htries
  cases htries with
  | refused f hwhole =>
    obtain ⟨after, hafter, -⟩ := hfinishes
    simp [hwhole] at hafter
  | @ends after grown htake hgo =>
    have hwhole := Node.whole?_of_takeWhole htake
    have hend : after.atEnd = true := by simpa [hgo] using (finishes_iff hwhole).1 hfinishes
    exact ⟨_, [child], rfl, firstPath_of_end hsplit hpre hwhole hend, hend, rfl,
      Node.source_of_takeWhole htake, hids htake⟩
  | @descends after grown htake hredirect hlen =>
    have hwhole := Node.whole?_of_takeWhole htake
    have hgo : t.goesOn? child after = some (child, after.skip) := by
      rw [goesOn?, hredirect]
      exact if_pos hlen
    have hopen := Cursor.skip_not_atEnd (Node.whole?_eq_some_iff.1 hwhole).2 hlen
    have hlt := (open_of_takeWhole htake (Cursor.atEnd_of_has hlen)).2
    have hsource := Node.source_of_takeWhole htake
    have hrest : ∃ path, t.Path (t.usable hop.source) child after.skip path := by
      simpa [hopen] using (finishes_of_goesOn hwhole hgo).1 hfinishes
    rw [← hsource] at hrest
    obtain ⟨path, hfollows⟩ := ih child after.skip grown (by omega) hrest
    rw [hsource] at hfollows
    refine ⟨_, child :: path, rfl, ?_, hfollows.atEnd, hfollows.plain, hfollows.source_eq, ?_⟩
    · exact firstPath_of_goesOn hsplit hpre hwhole hgo hopen hfollows.first
    · rw [hfollows.ids, hids htake, List.append_assoc, List.singleton_append]
  | redirects htake hredirect hlen hr => simp [hstays] at hredirect

/-- Reading on from a node follows the first path if there is one. -/
theorem follows_readFrom (hstays : ∀ id, (t.node id).redirect? = none) (id : NodeId) (c : Cursor)
    (hop : Hop Source Command Modifier) {steps : Nat} (hc : c.ahead.length < steps)
    (hpath : ∃ path, t.Path (t.usable hop.source) id c path) :
    ∃ path, t.Follows hop.source id c hop.ids path (t.readFrom steps id c hop) := by
  induction steps generalizing id c hop with
  | zero => omega
  | succ steps ih =>
    have hsettled : ∀ child, (t.tryChild (t.readFrom steps) c hop child).isSettled = false := by
      intro child
      simp [isSettled_tryChild, settles, hstays]
    -- the children whose readings are at the end of the line are those from which there is a path
    have htrial (child : NodeId) : (∃ q, (t.tryChild (t.readFrom steps) c hop child).fit? = some q ∧
        q.cursor.atEnd = true) ↔ t.Finishes (t.usable hop.source) c child := by
      rw [← kept_eq_usable hstays, ← Trial.reading?_of_unsettled (hsettled child)]
      exact atEnd_trial_iff hop hc (fun id c hop h => atEnd_readFrom_iff h) child
    obtain ⟨pre, child, post, hsplit, hfinishes, hpre⟩ := exists_first (exists_path_iff.1 hpath)
    obtain ⟨q, path, hfits, hfollows⟩ := follows_trial hstays hc ih hsplit hpre hfinishes
    have hq : q.badness = 0 :=
      Reading.badness_eq_zero_iff.2 ⟨hfollows.atEnd, congrArg Reading.faults hfollows.plain⟩
    rcases t.readFrom_cases steps id c hop with ⟨other, hfind, -⟩ | ⟨-, hnone, -⟩ |
      ⟨-, r, rs, hrs, hresult⟩
    · have hother := List.find?_some hfind
      simp [hsettled] at hother
    · rw [hsplit, List.filterMap_append, List.filterMap_cons_some (by rw [hfits]; rfl)] at hnone
      simp at hnone
    · refine ⟨path, ?_⟩
      have hbefore : ∀ p ∈ pre.filterMap fun child =>
          (t.tryChild (t.readFrom steps) c hop child).fit?, p.badness ≠ 0 := by
        intro p hp hzero
        obtain ⟨b, hb, hfit⟩ := List.mem_filterMap.1 hp
        exact hpre b hb ((htrial b).1 ⟨p, hfit, (Reading.badness_eq_zero_iff.1 hzero).1⟩)
      rw [hsplit, List.filterMap_append, List.filterMap_cons_some (by rw [hfits]; rfl)] at hrs
      rw [hresult, Reading.best_eq hrs.symm hq hbefore]
      exact hfollows

/--
**The first path is taken.**

In a tree without redirects, let there be a path through usable children from the start of a
line to its end.  Then what is typed is matched in one hop along the first such path, where
paths are compared at the first place at which they differ, by the order in which the
children worth a try are listed there.  The whole reading is these matches with defaults
after the last of them.  It is at the end of the line, and it has no faults.
-/
theorem first_path_taken (t : Tree Source Command Modifier)
    (hstays : ∀ id, (t.node id).redirect? = none) (source : Source) (line : String)
    (hpath : ∃ path, t.Path (t.usable source) .root (.ofLine line) path) :
    let typed := (t.typed line source).route.first.nodes
    let r := t.read line source
    t.FirstPath source .root (.ofLine line) (typed.map Match.node) ∧
      (∃ m defaults, typed.getLast? = some m ∧ r.route.first.nodes = typed ++ defaults ∧
        t.Defaults source line m.node defaults) ∧
      r.route.later = [] ∧ r.cursor.atEnd = true ∧ r.faults = [] := by
  intro typed r
  obtain ⟨path, hfollows⟩ :
      ∃ path, t.Follows source .root (.ofLine line) [] path (t.typed line source) :=
    follows_readFrom hstays .root (.ofLine line) (.start source .root 0) (Nat.lt_succ_self _) hpath
  have hfirst := hfollows.first
  have hids : typed.map Match.node = path := hfollows.ids
  rw [← hids] at hfirst
  obtain ⟨m, hlast⟩ : ∃ m, typed.getLast? = some m := by
    obtain ⟨child, rest, hcons, -⟩ := hfirst.isPath.head
    refine Option.ne_none_iff_exists'.1 fun hnone => ?_
    rw [List.getLast?_eq_none_iff.1 hnone] at hcons
    cases hcons
  have hread : r = _ := read_of_typed hfollows.plain hfollows.atEnd
  obtain ⟨defaults, hnodes, hdefaults, -⟩ := fillDefaults_fills line hfollows.source_eq hlast
  rw [hread]
  exact ⟨hfirst, ⟨m, defaults, hlast, hnodes, hdefaults⟩, rfl, hfollows.atEnd, rfl⟩

end Tree

/-- The tree that comes of adding three words: `a` with a literal `x` below it, `b` with a literal
`y` and a number with a default below each other, and `c` with a literal `y`. -/
def rivalTree : Except Tree.MissingNode (Tree Unit Unit Unit) := do
  let word (name : String) (below : Draft Unit Unit Unit) : Draft Unit Unit Unit :=
    { Draft.argument name (.text .word) with children := [below] }
  let number := { (Draft.argument "n" (.number .int)).runs () with default? := some (.int 1) }
  let (t, _) ← Tree.empty.register (word "a" ((Draft.literal "x").runs ()))
  let (t, _) ← t.register (word "b" { Draft.literal "y" with children := [number] })
  let (t, _) ← t.register (word "c" ((Draft.literal "y").runs ()))
  return t

/-- On `q y` there is a path by `b` and another by `c`, though none by `a`.  The one by `b` is
taken, with the default after it, although the one by `c` would need none. -/
theorem first_path_taken_rival : ∃ t, rivalTree = .ok t ∧ (∀ id, (t.node id).redirect? = none) ∧
    t.Path (t.usable ()) .root (.ofLine "q y") [⟨6⟩, ⟨7⟩] ∧
    t.FirstPath () .root (.ofLine "q y") [⟨3⟩, ⟨4⟩] ∧
    (t.read "q y" ()).route.first.ids = [⟨3⟩, ⟨4⟩, ⟨5⟩] ∧ (t.read "q y" ()).faults = [] := by
  obtain ⟨t, h⟩ : ∃ t, rivalTree = .ok t := ⟨_, rfl⟩
  have hstays : ∀ id, (t.node id).redirect? = none := by
    refine Tree.forall_node (p := fun n => n.redirect? = none) rfl ?_
    obtain rfl := Except.ok.inj h
    decide
  have hpath : t.Path (t.usable ()) .root (.ofLine "q y") [⟨6⟩, ⟨7⟩] := by
    obtain rfl := Except.ok.inj h
    refine .goesOn (by decide) rfl rfl ?_
    exact .ends (by decide) rfl rfl
  obtain ⟨hfirst, -, -, -, hfaults⟩ := t.first_path_taken hstays () "q y" ⟨_, hpath⟩
  have htyped : (t.typed "q y" ()).route.first.nodes.map Match.node = [⟨3⟩, ⟨4⟩] := by
    obtain rfl := Except.ok.inj h
    rfl
  rw [htyped] at hfirst
  refine ⟨t, h, hstays, hpath, hfirst, ?_, hfaults⟩
  obtain rfl := Except.ok.inj h
  rfl

end CommandLines
