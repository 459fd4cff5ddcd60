/-
Reading ends, and the spaces of a line bound what it finds.

A redirect may lead back to the root, to a node above or to its own node, and a token may
cover nothing.  So neither how deep the tree is nor how much a token covers gets smaller
along a line.  The number of spaces ahead does, since reading goes on after a match only
past a space, and takes it (`spaces_of_takeWhole`).

`readFrom` recurses on a number of steps, which tells nothing of whether reading would end
without it.  So `Arrives` says what reading is with no bound: one level of it, where what is
read further on is arrived at in turn.  A derivation is a tree of calls, and a finite one.
There is one for every place of every tree (`readFrom_arrives`), and no two of them come to
different readings (`Arrives.unique`).
-/
import CommandLines.Proofs.Reading.Defaults

namespace CommandLines

variable {Source Command Modifier : Type}

/-! ### Spaces ahead -/

namespace Cursor

variable {a b c : Cursor}

/-- How many spaces are ahead. -/
def spaces (c : Cursor) : Nat := c.ahead.count separator

theorem Reaches.spaces_le (h : a.Reaches b) : b.spaces ≤ a.spaces := by
  obtain ⟨cs, hahead, -⟩ := h
  simp [spaces, hahead]

theorem spaces_skip (h : c.atSeparator = true) (hopen : c.atEnd = false) :
    c.skip.spaces + 1 = c.spaces := by
  obtain ⟨rest, hahead⟩ := ahead_of_atSeparator h hopen
  simp [spaces, ahead_skip hahead, hahead]

end Cursor

/-! ### Nodes of a route -/

namespace Route

/-- The nodes matched in all hops. -/
def nodes (r : Route Source Command Modifier) : List Match := r.hops.flatMap Hop.nodes

theorem nodes_redirects (h : Hop Source Command Modifier) (r : Route Source Command Modifier) :
    (Route.mk h r.hops).nodes = h.nodes ++ r.nodes := by
  simp [nodes, hops]

variable {f : Hop Source Command Modifier → Hop Source Command Modifier}
  {r : Route Source Command Modifier}

theorem length_hops_mapLast (f : Hop Source Command Modifier → Hop Source Command Modifier)
    (r : Route Source Command Modifier) : (r.mapLast f).hops.length = r.hops.length := by
  obtain ⟨first, later⟩ := r
  rcases List.eq_nil_or_concat later with rfl | ⟨init, last, rfl⟩
  · rfl
  · simp [mapLast, hops]

/-- What the last hop gets more of is what the route gets more of. -/
theorem nodes_mapLast {ms : List Match} (h : (f r.last).nodes = r.last.nodes ++ ms) :
    (r.mapLast f).nodes = r.nodes ++ ms := by
  obtain ⟨first, later⟩ := r
  rcases List.eq_nil_or_concat later with rfl | ⟨init, last, rfl⟩
  · simpa [mapLast, nodes, hops, last] using h
  · have hlast : (f last).nodes = last.nodes ++ ms := by simpa [Route.last] using h
    simp [mapLast, nodes, hops, hlast]

end Route

namespace Tree

variable {t : Tree Source Command Modifier} {source : Source} {id child : NodeId} {c after : Cursor}
  {hop grown final : Hop Source Command Modifier} {r : Reading Source Command Modifier}
  {stop : Nat} {ms : List Match}

/-- Going on after a match takes a space. -/
theorem spaces_of_takeWhole (h : (t.node child).takeWhole child c hop = .ok (after, grown))
    {n : Nat} (hlen : after.has (n + 1) = true) : after.skip.spaces + 1 ≤ c.spaces := by
  have hwhole := Node.whole?_of_takeWhole h
  have hsep := (Node.whole?_eq_some_iff.1 hwhole).2
  rw [Cursor.spaces_skip hsep (Cursor.atEnd_of_has hlen)]
  exact (Node.reaches_of_whole? hwhole).spaces_le

/-! ### Reading without a bound -/

/-- Reading on from a node, however deep it goes, arrives at a reading. -/
inductive Arrives (t : Tree Source Command Modifier) :
    NodeId → Cursor → Hop Source Command Modifier → Reading Source Command Modifier → Prop where
  /-- One level arrives if all that is read further on from its children arrives. -/
  | level {id : NodeId} {c : Cursor} {hop : Hop Source Command Modifier}
      (further : NodeId → Cursor → Hop Source Command Modifier → Reading Source Command Modifier)
      (descends : ∀ child ∈ t.usable hop.source id c, ∀ after grown,
        (t.node child).takeWhole child c hop = .ok (after, grown) →
        (t.node child).redirect? = none → after.has 2 = true →
        Arrives t child after.skip grown (further child after.skip grown))
      (redirects : ∀ child ∈ t.usable hop.source id c, ∀ after grown redirect,
        (t.node child).takeWhole child c hop = .ok (after, grown) →
        (t.node child).redirect? = some redirect → after.has 1 = true →
        let start := Hop.start grown.source redirect.target after.skip.offset
        Arrives t redirect.target after.skip start (further redirect.target after.skip start)) :
      Arrives t id c hop (t.level further id c hop)

/-- A level asks for nothing but what is read further on from the children that match. -/
theorem level_congr
    {further other :
      NodeId → Cursor → Hop Source Command Modifier → Reading Source Command Modifier}
    (descends : ∀ child ∈ t.usable hop.source id c, ∀ after grown,
      (t.node child).takeWhole child c hop = .ok (after, grown) →
      (t.node child).redirect? = none → after.has 2 = true →
      further child after.skip grown = other child after.skip grown)
    (redirects : ∀ child ∈ t.usable hop.source id c, ∀ after grown redirect,
      (t.node child).takeWhole child c hop = .ok (after, grown) →
      (t.node child).redirect? = some redirect → after.has 1 = true →
      let start := Hop.start grown.source redirect.target after.skip.offset
      further redirect.target after.skip start = other redirect.target after.skip start) :
    t.level further id c hop = t.level other id c hop := by
  have htries : tryEach (t.tryChild further c hop) (t.usable hop.source id c) =
      tryEach (t.tryChild other c hop) (t.usable hop.source id c) :=
    tryEach_of_eq fun child hchild =>
      tryChild_congr (descends child hchild) (redirects child hchild)
  rw [Arena.level, Arena.level, htries]

/-- No two readings are arrived at. -/
theorem Arrives.unique {q : Reading Source Command Modifier} (hr : t.Arrives id c hop r)
    (hq : t.Arrives id c hop q) : r = q := by
  induction hr generalizing q with
  | @level id c hop further descends redirects ihdescends ihredirects =>
    cases hq with
    | level other descends' redirects' =>
      refine level_congr ?_ ?_
      · intro child hchild after grown htake hredirect hlen
        exact ihdescends child hchild after grown htake hredirect hlen
          (descends' child hchild after grown htake hredirect hlen)
      · intro child hchild after grown redirect htake hredirect hlen
        exact ihredirects child hchild after grown redirect htake hredirect hlen
          (redirects' child hchild after grown redirect htake hredirect hlen)

/-- With more steps than there are spaces ahead, the bound on steps is not met. -/
theorem readFrom_arrives (t : Tree Source Command Modifier) (id : NodeId) (c : Cursor)
    (hop : Hop Source Command Modifier) {steps : Nat} (hsteps : c.spaces < steps) :
    t.Arrives id c hop (t.readFrom steps id c hop) := by
  induction steps generalizing id c hop with
  | zero => omega
  | succ steps ih =>
    rw [Arena.readFrom]
    refine .level (t.readFrom steps) ?_ ?_
    · intro child hchild after grown htake hredirect hlen
      have hfewer := spaces_of_takeWhole htake hlen
      exact ih child after.skip grown (by omega)
    · intro child hchild after grown redirect htake hredirect hlen
      have hfewer := spaces_of_takeWhole htake hlen
      exact ih redirect.target after.skip _ (by omega)

/-! ### Whole lines without a bound -/

/-- No two rows of defaults are taken. -/
theorem Fills.unique {ms' : List Match} {final' : Hop Source Command Modifier}
    (h : t.Fills source stop id hop ms final) (h' : t.Fills source stop id hop ms' final') :
    ms = ms' ∧ final = final' := by
  induction h generalizing ms' final' with
  | ends hnone =>
    cases h' with
    | ends => exact ⟨rfl, rfl⟩
    | runs hchild => simp [hnone] at hchild
    | goesOn hchild => simp [hnone] at hchild
  | runs hchild hcommand =>
    cases h' with
    | ends hnone => simp [hnone] at hchild
    | runs hchild' =>
      obtain rfl := Option.some.inj (hchild.symm.trans hchild')
      exact ⟨rfl, rfl⟩
    | goesOn hchild' hcommand' =>
      obtain rfl := Option.some.inj (hchild.symm.trans hchild')
      simp [hcommand'] at hcommand
  | goesOn hchild hcommand rest ih =>
    cases h' with
    | ends hnone => simp [hnone] at hchild
    | runs hchild' hcommand' =>
      obtain rfl := Option.some.inj (hchild.symm.trans hchild')
      simp [hcommand] at hcommand'
    | goesOn hchild' hcommand' rest' =>
      obtain rfl := Option.some.inj (hchild.symm.trans hchild')
      obtain ⟨rfl, rfl⟩ := ih rest'
      exact ⟨rfl, rfl⟩

/-- What becomes of a reading of what is typed when the defaults that are due at the end of the line
are taken, however many there are. -/
inductive Concludes (t : Tree Source Command Modifier) (typed : Reading Source Command Modifier) :
    Reading Source Command Modifier → Prop where
  /-- A part of the line is left. -/
  | left (hopen : typed.cursor.atEnd = false) : Concludes t typed typed
  /-- The last hop has a command, or it has matched nothing. -/
  | settled (hend : typed.cursor.atEnd = true)
      (hlast : typed.route.last.command?.isSome = true ∨ typed.route.last.nodes = []) :
      Concludes t typed typed
  /-- The last hop takes defaults below its last match. -/
  | fills {m : Match} {defaults : List Match} {final : Hop Source Command Modifier}
      (hend : typed.cursor.atEnd = true) (hcommand : typed.route.last.command? = none)
      (hlast : typed.route.last.nodes.getLast? = some m)
      (rest : t.Fills typed.route.last.source typed.cursor.length m.node typed.route.last defaults
        final) :
      Concludes t typed { typed with route := typed.route.mapLast fun _ => final }

/-- Of a reading of what is typed only one thing becomes. -/
theorem Concludes.unique {typed q : Reading Source Command Modifier} (hr : t.Concludes typed r)
    (hq : t.Concludes typed q) : r = q := by
  cases hr with
  | left hopen =>
    cases hq with
    | left => rfl
    | settled => rfl
    | fills hend => simp [hopen] at hend
  | settled hend hlast =>
    cases hq with
    | left => rfl
    | settled => rfl
    | fills _ hcommand hsome =>
      rcases hlast with hsettled | hnone
      · simp [hcommand] at hsettled
      · simp [hnone] at hsome
  | fills hend hcommand hlast rest =>
    cases hq with
    | left hopen => simp [hopen] at hend
    | settled _ hsettled =>
      rcases hsettled with hsettled | hnone
      · simp [hcommand] at hsettled
      · simp [hnone] at hlast
    | fills _ _ hlast' rest' =>
      obtain rfl := Option.some.inj (hlast.symm.trans hlast')
      obtain ⟨-, rfl⟩ := rest.unique rest'
      rfl

/-- As many steps as there are nodes are enough for the defaults. -/
theorem concludes_filled (t : Tree Source Command Modifier)
    (typed : Reading Source Command Modifier) : t.Concludes typed (t.filled typed) := by
  cases hend : typed.cursor.atEnd with
  | false =>
    rw [filled_eq_self (by simp [hend])]
    exact .left hend
  | true =>
    cases hlast : typed.route.last.nodes.getLast? with
    | none =>
      have hfresh : typed.route.last.nodes = [] := List.getLast?_eq_none_iff.1 hlast
      rw [filled_eq_self fun _ => fillDefaults_fresh hfresh]
      exact .settled hend (.inr hfresh)
    | some m =>
      cases hcommand : typed.route.last.command? with
      | some command =>
        have hsome : typed.route.last.command?.isSome = true := by
          rw [hcommand]
          rfl
        rw [filled_eq_self fun _ => fillDefaults_of_command hsome _]
        exact .settled hend (.inl hsome)
      | none =>
        obtain ⟨defaults, hfills⟩ := t.takeDefaults_fills typed.cursor.length t.size
          (Nat.le_add_right t.size m.node.index) (rfl : typed.route.last.source = _)
        rw [← fillDefaults_eq hlast hcommand] at hfills
        rw [filled, if_pos hend, mapLast_congr (g := fun _ =>
          t.fillDefaults typed.cursor.length typed.route.last) rfl]
        exact .fills hend hcommand hlast hfills

/-- The defaults come after what is typed, below its last match. -/
theorem Concludes.nodes_eq {typed : Reading Source Command Modifier} (h : t.Concludes typed r) :
    ∃ defaults, r.route.nodes = typed.route.nodes ++ defaults ∧
      (defaults ≠ [] → ∃ m, typed.route.last.nodes.getLast? = some m ∧
        t.Defaults typed.route.last.source typed.cursor.line m.node defaults) := by
  cases h with
  | left hopen => exact ⟨[], (List.append_nil _).symm, absurd rfl⟩
  | settled hend hlast => exact ⟨[], (List.append_nil _).symm, absurd rfl⟩
  | @fills m defaults final hend hcommand hlast rest =>
    refine ⟨defaults, Route.nodes_mapLast rest.nodes_eq, fun _ => ⟨m, hlast, ?_⟩⟩
    rw [← Cursor.bytes_line] at rest
    exact rest.defaults

theorem Concludes.length_hops {typed : Reading Source Command Modifier}
    (h : t.Concludes typed r) : r.route.hops.length = typed.route.hops.length := by
  cases h with
  | left hopen => rfl
  | settled hend hlast => rfl
  | fills hend hcommand hlast rest => exact Route.length_hops_mapLast _ typed.route

/-! ### What is found -/

theorem Comes.length_hops (h : t.Comes id c hop r) : r.route.hops.length ≤ 1 + c.spaces := by
  induction h with
  | stops faults => simp [Route.hops]
  | ends hchild htake hgo => simp [Route.hops]
  | descends hchild htake hredirect hlen further ih =>
    have hfewer := spaces_of_takeWhole htake hlen
    omega
  | @redirects id child c after hop grown redirect r hchild htake hredirect hlen further ih =>
    have hfewer := spaces_of_takeWhole htake hlen
    show (grown :: r.route.hops).length ≤ _
    rw [List.length_cons]
    omega

/-- The match is of a child that is tried at some place from the cursor on, and takes there what the
match covers. -/
def Found (t : Tree Source Command Modifier) (source : Source) (c : Cursor) (m : Match) : Prop :=
  ∃ parent place after, c.Reaches place ∧ m.node ∈ t.usable source parent place ∧
    (t.node m.node).whole? place = some after ∧ m.span = ⟨place.offset, after.offset⟩

theorem found_of_takeWhole (hchild : child ∈ t.usable hop.source id c)
    (h : (t.node child).takeWhole child c hop = .ok (after, grown)) :
    t.Found hop.source c ⟨child, ⟨c.offset, after.offset⟩⟩ :=
  ⟨id, c, after, .refl c, hchild, Node.whole?_of_takeWhole h, rfl⟩

theorem Found.of_further {m : Match} (h : (t.node child).takeWhole child c hop = .ok (after, grown))
    (hm : t.Found grown.source after.skip m) : t.Found hop.source c m := by
  obtain ⟨parent, place, stop, hplace, hrest⟩ := hm
  have hafter := Node.reaches_of_whole? (Node.whole?_of_takeWhole h)
  rw [Node.source_of_takeWhole h] at hrest
  exact ⟨parent, place, stop, (hafter.trans (Cursor.reaches_skip after)).trans hplace, hrest⟩

/-- What reading on adds to a hop and to those after it is found on the way, and is no more than the
spaces ahead, and one. -/
theorem Comes.nodes_eq (h : t.Comes id c hop r) :
    ∃ ms, r.route.nodes = hop.nodes ++ ms ∧ ms.length ≤ 1 + c.spaces ∧
      ∀ m ∈ ms, t.Found hop.source c m := by
  induction h with
  | @stops id c hop faults =>
    refine ⟨[], ?_, Nat.zero_le _, nofun⟩
    simp [Route.nodes, Route.hops]
  | @ends id child c after hop grown hchild htake hgo =>
    refine ⟨[⟨child, ⟨c.offset, after.offset⟩⟩], ?_, Nat.le_add_right 1 _, ?_⟩
    · simpa [Route.nodes, Route.hops] using (grown_of_takeWhole hchild htake).nodes_eq
    · intro m hm
      obtain rfl := List.mem_singleton.1 hm
      exact found_of_takeWhole hchild htake
  | @descends id child c after hop grown r hchild htake hredirect hlen further ih =>
    have hfewer := spaces_of_takeWhole htake hlen
    obtain ⟨ms, hms, hlength, hfound⟩ := ih
    refine ⟨⟨child, ⟨c.offset, after.offset⟩⟩ :: ms, ?_, ?_, ?_⟩
    · rw [hms, (grown_of_takeWhole hchild htake).nodes_eq, List.append_assoc, List.singleton_append]
    · rw [List.length_cons]
      omega
    · intro m hm
      rcases List.mem_cons.1 hm with rfl | hm
      · exact found_of_takeWhole hchild htake
      · exact (hfound m hm).of_further htake
  | @redirects id child c after hop grown redirect r hchild htake hredirect hlen further ih =>
    have hfewer := spaces_of_takeWhole htake hlen
    obtain ⟨ms, hms, hlength, hfound⟩ := ih
    refine ⟨⟨child, ⟨c.offset, after.offset⟩⟩ :: ms, ?_, ?_, ?_⟩
    · rw [Route.nodes_redirects, hms, (grown_of_takeWhole hchild htake).nodes_eq, List.append_assoc,
        List.singleton_append]
      rfl
    · rw [List.length_cons]
      omega
    · intro m hm
      rcases List.mem_cons.1 hm with rfl | hm
      · exact found_of_takeWhole hchild htake
      · exact (hfound m hm).of_further htake

/-- A reading has the matches of what is typed, which are found on the way, and then the defaults.
-/
theorem readAt_nodes (t : Tree Source Command Modifier) (c : Cursor) (source : Source) :
    let typed := t.readFrom (c.ahead.length + 1) .root c (.start source .root c.offset)
    typed.route.nodes.length ≤ 1 + c.spaces ∧ (∀ m ∈ typed.route.nodes, t.Found source c m) ∧
      ∃ defaults, (t.readAt c source).route.nodes = typed.route.nodes ++ defaults ∧
        (defaults ≠ [] → ∃ m, typed.route.last.nodes.getLast? = some m ∧
          t.Defaults source c.line m.node defaults) := by
  intro typed
  have hcomes : t.Comes .root c (.start source .root c.offset) typed := t.readFrom_comes ..
  obtain ⟨ms, hms, hlength, hfound⟩ := hcomes.nodes_eq
  obtain ⟨defaults, hnodes, hdefaults⟩ := (t.concludes_filled typed).nodes_eq
  rw [hcomes.source_last, (hcomes.trail (absurd rfl)).1.line_eq] at hdefaults
  rw [hms]
  exact ⟨hlength, hfound, defaults, hms ▸ hnodes, hdefaults⟩

/--
**Reading a line ends, and finds no more than the spaces of the line allow.**

Read from any cursor without a bound on how deep it goes, a line arrives at one reading of
what is typed and at no other, and one thing and no other becomes of that when the defaults
are taken, without a bound on how many: the reading that `readAt` gives.

With `n` spaces from the cursor on it has at most `n + 1` hops, and at most `n + 1` of its
matches, over all hops, are of what is typed.  The others are defaults at the end of the line.
-/
theorem reading_ends (t : Tree Source Command Modifier) (c : Cursor) (source : Source) :
    let r := t.readAt c source
    ∃ typed defaults,
      (∀ q, t.Arrives .root c (.start source .root c.offset) q ↔ q = typed) ∧
      (∀ q, t.Concludes typed q ↔ q = r) ∧
      r.route.hops.length ≤ 1 + c.spaces ∧
      typed.route.nodes.length ≤ 1 + c.spaces ∧
      r.route.nodes = typed.route.nodes ++ defaults ∧
      (defaults ≠ [] → ∃ m, typed.route.last.nodes.getLast? = some m ∧
        t.Defaults source c.line m.node defaults) := by
  intro r
  let typed := t.readFrom (c.ahead.length + 1) .root c (.start source .root c.offset)
  have harrives : t.Arrives .root c (.start source .root c.offset) typed :=
    t.readFrom_arrives .root c _ (Nat.lt_succ_of_le List.count_le_length)
  have hconcludes : t.Concludes typed r := t.concludes_filled typed
  have hcomes := t.readFrom_comes (c.ahead.length + 1) .root c (.start source .root c.offset)
  obtain ⟨hlength, -, defaults, hnodes, hdefaults⟩ := t.readAt_nodes c source
  refine ⟨typed, defaults, ?_, ?_, ?_, hlength, hnodes, hdefaults⟩
  · exact fun q => ⟨fun h => h.unique harrives, fun h => h ▸ harrives⟩
  · exact fun q => ⟨fun h => h.unique hconcludes, fun h => h ▸ hconcludes⟩
  · rw [hconcludes.length_hops]
    exact hcomes.length_hops

end Tree

/-- In a tree that leads back to its root a line with two spaces has three hops, the last of which
has matched nothing. -/
example : ∃ t, loopingTree = .ok t ∧ (Cursor.ofLine "go go ").spaces = 2 ∧
    (t.read "go go " ()).route.hops.length = 3 := ⟨_, rfl, rfl, rfl⟩

end CommandLines
