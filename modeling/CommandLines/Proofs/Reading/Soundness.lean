/-
Readings are sound.

Whatever is tried and dropped on the way, what a reading keeps is a trail: its nodes lie
below each other or below the target of a redirect, the source may use them all, and they
cover the line from the start on without a gap but the spaces between them.

The proof is by the ways in which a reading comes about, and the defaults are part of the
induction.  They are only ever taken right after a token: reading goes on below a node only
if more than a space is left, so where nothing more is matched a part of the line is left,
unless the hop is a fresh one, and a fresh hop has no node to take defaults below.
-/
import CommandLines.Proofs.Reading.Trail

namespace CommandLines

variable {Source Command Modifier : Type}

/-! ### Offsets of a line -/

namespace Cursor

variable {a b c : Cursor}

theorem bytes_line (c : Cursor) : Text.bytes c.line.toList = c.length := by
  simp [line, chars, length, offset, bytesAhead]

theorem Reaches.line_eq (h : a.Reaches b) : b.line = a.line := by
  rw [line, h.chars_eq, line]

theorem place_of_reaches (h : a.Reaches b) : b.place = ⟨a.line, b.offset⟩ := by
  rw [place, h.line_eq]

theorem offset_of_atEnd (h : c.atEnd = true) : c.offset = Text.bytes c.line.toList := by
  have hnil : c.ahead = [] := by simpa [atEnd] using h
  simp [bytes_line, length, bytesAhead, hnil]

/-- The text between two cursors is what the one has passed and the other has not. -/
theorem text?_between {cs : List Char} (hahead : a.ahead = cs ++ b.ahead)
    (hbehind : b.behind = cs.reverse ++ a.behind) :
    (Span.mk a.offset b.offset).text? a.line = some (String.ofList cs) := by
  have hoffset : b.offset = a.offset + Text.bytes cs := by
    simp [offset, hbehind, Nat.add_comm]
  have hfirst : Text.cut? a.line.toList a.offset = some (a.behind.reverse, a.ahead) :=
    Text.cut?_eq_some_iff.2 ⟨by simp [line, chars], by simp [offset]⟩
  have hsecond : Text.cut? a.ahead (Text.bytes cs) = some (cs, b.ahead) :=
    Text.cut?_eq_some_iff.2 ⟨hahead, rfl⟩
  have hlen : a.offset + Text.bytes cs - a.offset = Text.bytes cs := by omega
  simp [Span.text?, Text.between?, hoffset, hfirst, hlen, hsecond]

theorem spaceAt_offset {rest : List Char} (h : c.ahead = separator :: rest) :
    SpaceAt c.line c.offset := by
  have hbehind : c.skip.behind = [separator].reverse ++ c.behind := by simp [skip, h]
  have htext := text?_between (b := c.skip) (by simpa [ahead_skip h] using h) hbehind
  rwa [offset_skip h] at htext

end Cursor

namespace Tree

variable {t : Tree Source Command Modifier} {id child : NodeId} {c after : Cursor}
  {hop grown : Hop Source Command Modifier}

/-! ### Single matches -/

/-- Where something follows a match, a space does, and the line goes on after it. -/
theorem space_of_takeWhole (h : (t.node child).takeWhole child c hop = .ok (after, grown))
    (hopen : after.atEnd = false) :
    SpaceAt c.line after.offset ∧ c.Reaches after.skip ∧ after.skip.offset = after.offset + 1 := by
  have hwhole := Node.whole?_of_takeWhole h
  have hreaches := Node.reaches_of_whole? hwhole
  obtain ⟨rest, hahead⟩ := Cursor.ahead_of_atSeparator (Node.whole?_eq_some_iff.1 hwhole).2 hopen
  refine ⟨?_, hreaches.trans (Cursor.reaches_skip after), Cursor.offset_skip hahead⟩
  rw [← hreaches.line_eq]
  exact Cursor.spaceAt_offset hahead

/-- What follows a match is a space or the end. -/
theorem followed_of_takeWhole (h : (t.node child).takeWhole child c hop = .ok (after, grown)) :
    after.offset = Text.bytes c.line.toList ∨ SpaceAt c.line after.offset := by
  cases hend : after.atEnd with
  | true =>
    rw [← (Node.reaches_of_whole? (Node.whole?_of_takeWhole h)).line_eq]
    exact .inl (Cursor.offset_of_atEnd hend)
  | false => exact .inr (space_of_takeWhole h hend).1

theorem token_of_takeWhole (hchild : child ∈ t.usable hop.source id c)
    (h : (t.node child).takeWhole child c hop = .ok (after, grown)) :
    t.Token hop.source c.line id c.offset ⟨child, ⟨c.offset, after.offset⟩⟩ := by
  obtain ⟨hrelevant, hallows⟩ := Arena.mem_usable.1 hchild
  have hreaches := Node.reaches_of_whole? (Node.whole?_of_takeWhole h)
  refine ⟨mem_children_of_relevant hrelevant, hallows, rfl, hreaches.offset_le, ?_,
    followed_of_takeWhole h⟩
  rcases Node.takeWhole_cases h with ⟨hlabel, -⟩ | ⟨word, hlabel, hword, -⟩ |
    ⟨name, type, provider?, value, hlabel, hread, -⟩
  · have hsome := label_of_relevant hrelevant
    simp [hlabel] at hsome
  · obtain ⟨hahead, hbehind, -⟩ := Cursor.afterWord?_eq_some_iff.1 hword
    refine .inl ⟨word, hlabel, ?_⟩
    simpa using Cursor.text?_between hahead hbehind
  · exact .inr ⟨name, value, type, provider?, c, after, hlabel, rfl,
      Cursor.place_of_reaches hreaches, hread⟩

theorem mem_putArgument {name : String} {x : Argument} {entry : String × Argument}
    {entries : List (String × Argument)} (h : entry ∈ Hop.putArgument name x entries) :
    entry = (name, x) ∨ entry ∈ entries := by
  induction entries with
  | nil => simpa [Hop.putArgument] using h
  | cons other entries ih =>
    rw [Hop.putArgument] at h
    split at h
    · next heq =>
      rcases List.mem_cons.1 h with rfl | h
      · exact .inl (by rw [heq])
      · exact .inr (List.mem_cons_of_mem _ h)
    · rcases List.mem_cons.1 h with rfl | h
      · exact .inr List.mem_cons_self
      · exact (ih h).imp_right (List.mem_cons_of_mem _)

theorem grown_of_takeWhole (hchild : child ∈ t.usable hop.source id c)
    (h : (t.node child).takeWhole child c hop = .ok (after, grown)) :
    t.Grown c.line hop [⟨child, ⟨c.offset, after.offset⟩⟩] grown := by
  have hreaches := Node.reaches_of_whole? (Node.whole?_of_takeWhole h)
  rcases Node.takeWhole_cases h with ⟨hlabel, -⟩ | ⟨word, hlabel, hword, rfl⟩ |
    ⟨name, type, provider?, value, hlabel, hread, rfl⟩
  · have hsome := label_of_relevant (Arena.mem_usable.1 hchild).1
    simp [hlabel] at hsome
  · exact ⟨rfl, rfl, rfl, rfl, rfl, rfl, rfl, fun _ hentry => .inl hentry⟩
  · refine ⟨rfl, rfl, rfl, rfl, rfl, rfl, rfl, ?_⟩
    intro entry hentry
    rcases mem_putArgument hentry with rfl | hentry
    · exact .inr ⟨_, List.mem_singleton_self _, rfl, .inl ⟨type, provider?, c, after, hlabel, rfl,
        Cursor.place_of_reaches hreaches, hread⟩⟩
    · exact .inl hentry

/-! ### Defaults -/

theorem takeDefault_eq (id : NodeId) (stop : Nat) (hop : Hop Source Command Modifier) :
    (t.takeDefault id stop hop).source = hop.source ∧
      (t.takeDefault id stop hop).nodes = hop.nodes ++ [⟨id, .point stop⟩] ∧
      (t.takeDefault id stop hop).command? = (t.node id).command? := by
  unfold Arena.takeDefault
  refine ⟨?_, ?_, rfl⟩
  · simp only
    split <;> rfl
  · simp only
    split <;> rfl

theorem grown_takeDefault (line : String) (id : NodeId) (hop : Hop Source Command Modifier) :
    t.Grown line hop [⟨id, .point (Text.bytes line.toList)⟩]
      (t.takeDefault id (Text.bytes line.toList) hop) := by
  unfold Arena.takeDefault
  simp only
  split
  · next name type provider? value hlabel hdefault =>
    refine ⟨rfl, rfl, rfl, rfl, rfl, rfl, rfl, ?_⟩
    intro entry hentry
    rcases mem_putArgument hentry with rfl | hentry
    · exact .inr ⟨_, List.mem_singleton_self _, rfl, .inr ⟨type, provider?, hlabel, hdefault, rfl⟩⟩
    · exact .inl hentry
  · exact ⟨rfl, rfl, rfl, rfl, rfl, rfl, rfl, fun _ hentry => .inl hentry⟩

theorem takeDefaults_grown (line : String) (steps : Nat) (id : NodeId)
    (hop : Hop Source Command Modifier) :
    ∃ ms, t.Grown line hop ms (t.takeDefaults (Text.bytes line.toList) steps id hop) ∧
      t.Defaults hop.source line id ms := by
  induction steps generalizing id hop with
  | zero => exact ⟨[], .refl hop, trivial⟩
  | succ steps ih =>
    rw [Arena.takeDefaults]
    split
    · exact ⟨[], .refl hop, trivial⟩
    · next child hchild =>
      have hfirst := grown_takeDefault (t := t) line child hop
      have hmem := List.mem_of_find?_eq_some hchild
      have hhas := List.find?_some hchild
      simp only [Bool.and_eq_true] at hhas
      simp only
      split
      · exact ⟨_, hfirst, ⟨hmem, hhas.2, hhas.1, rfl⟩, trivial⟩
      · obtain ⟨ms, hrest, hdefaults⟩ :=
          ih child (t.takeDefault child (Text.bytes line.toList) hop)
        rw [hfirst.source_eq] at hdefaults
        exact ⟨_, hfirst.trans hrest, ⟨hmem, hhas.2, hhas.1, rfl⟩, hdefaults⟩

/-- Defaults are taken below the last match, and only if it has no command. -/
theorem fillDefaults_grown (line : String) {m : Match} {ms : List Match}
    (hnodes : hop.nodes = ms ++ [m]) (hcommand : hop.command? = (t.node m.node).command?) :
    ∃ defaults, t.Grown line hop defaults (t.fillDefaults (Text.bytes line.toList) hop) ∧
      t.Defaults hop.source line m.node defaults ∧
      (defaults ≠ [] → (t.node m.node).command? = none) := by
  unfold Arena.fillDefaults
  split
  · exact ⟨[], .refl hop, trivial, fun h => absurd rfl h⟩
  · next hnone =>
    rw [hnodes, List.getLast?_concat]
    obtain ⟨defaults, hgrown, hdefaults⟩ := takeDefaults_grown (t := t) line t.size m.node hop
    refine ⟨defaults, hgrown, hdefaults, fun _ => ?_⟩
    rw [← hcommand]
    simpa using hnone

theorem fillDefaults_fresh {stop : Nat} (h : hop.nodes = []) : t.fillDefaults stop hop = hop := by
  unfold Arena.fillDefaults
  split
  · rfl
  · simp [h]

/-! ### Last hops -/

theorem mapLast_hops (f : Hop Source Command Modifier → Hop Source Command Modifier)
    (h : Hop Source Command Modifier) (r : Route Source Command Modifier) :
    (Route.mk h r.hops).mapLast f = ⟨h, (r.mapLast f).hops⟩ := by
  obtain ⟨first, later⟩ := r
  rcases List.eq_nil_or_concat later with rfl | ⟨init, last, rfl⟩
  · rfl
  · have hlast : (first :: (init ++ [last])).getLast? = some last :=
      List.getLast?_concat (l := first :: init)
    have hinit : (first :: (init ++ [last])).dropLast = first :: init := by
      rw [← List.cons_append, List.dropLast_concat]
    simp [Route.mapLast, Route.hops, hlast, hinit]

/-- A hop that goes on in another one leaves the last hop as it is. -/
theorem last_redirects (h : Hop Source Command Modifier) (route : Route Source Command Modifier) :
    (Route.mk h route.hops).last = route.last := by
  simp only [Route.last, Route.hops, List.getLastD_cons]

theorem mapLast_congr {f g : Hop Source Command Modifier → Hop Source Command Modifier}
    {r : Route Source Command Modifier} (h : f r.last = g r.last) :
    r.mapLast f = r.mapLast g := by
  obtain ⟨first, later⟩ := r
  rw [Route.last, List.getLastD_eq_getLast?] at h
  unfold Route.mapLast
  cases hlast : later.getLast? with
  | none =>
    simp only [hlast, Option.getD_none] at h
    simp only [h]
  | some last =>
    simp only [hlast, Option.getD_some] at h
    simp only [h]

theorem mapLast_eq_self {f : Hop Source Command Modifier → Hop Source Command Modifier}
    {route : Route Source Command Modifier} (h : f route.last = route.last) :
    route.mapLast f = route := by
  obtain ⟨first, later⟩ := route
  rcases List.eq_nil_or_concat later with rfl | ⟨init, last, rfl⟩
  · exact congrArg (Route.mk · []) h
  · have hlast : f last = last := by simpa [Route.last] using h
    simp [Route.mapLast, hlast]

/-! ### Whole readings -/

/-- The reading with the defaults it takes if it is at the end of the line. -/
def filled (t : Tree Source Command Modifier) (r : Reading Source Command Modifier) :
    Reading Source Command Modifier :=
  if r.cursor.atEnd then { r with route := r.route.mapLast (t.fillDefaults r.cursor.length) } else r

/-- A reading whose last hop takes no defaults stays as it is. -/
theorem filled_eq_self {r : Reading Source Command Modifier}
    (h : r.cursor.atEnd = true → t.fillDefaults r.cursor.length r.route.last = r.route.last) :
    t.filled r = r := by
  unfold filled
  split
  · next hend => rw [mapLast_eq_self (h hend)]
  · rfl

theorem filled_redirects (r : Reading Source Command Modifier)
    (h : Hop Source Command Modifier) :
    (t.filled { r with route := { first := h, later := r.route.hops } }).route =
      ⟨h, (t.filled r).route.hops⟩ := by
  unfold filled
  simp only
  split
  · exact mapLast_hops _ h r.route
  · rfl

/-- A hop takes no defaults if it has matched nothing or a part of the line is left. -/
theorem filled_stops (hopen : hop.nodes ≠ [] → c.atEnd = false) (faults : List (NodeId × Fault)) :
    (t.filled { route := { first := hop }, cursor := c, faults }).route = { first := hop } := by
  cases hend : c.atEnd with
  | false => simp [filled, hend]
  | true =>
    have hfresh : hop.nodes = [] := by
      by_cases hnodes : hop.nodes = []
      · exact hnodes
      · simp [hopen hnodes] at hend
    simp [filled, hend, Route.mapLast, fillDefaults_fresh hfresh]

/-- After its last match a hop takes defaults at the end of the line if the match has no command. -/
theorem filled_ends {m : Match} {ms : List Match} (hnodes : hop.nodes = ms ++ [m])
    (hcommand : hop.command? = (t.node m.node).command?) :
    ∃ defaults, t.Grown c.line hop defaults
        (t.filled { route := { first := hop }, cursor := c }).route.first ∧
      (t.filled { route := { first := hop }, cursor := c }).route.later = [] ∧
      t.Defaults hop.source c.line m.node defaults ∧
      (defaults ≠ [] → c.atEnd = true ∧ (t.node m.node).command? = none) := by
  cases hend : c.atEnd with
  | false =>
    refine ⟨[], ?_, ?_, trivial, fun h => absurd rfl h⟩
    · simpa [filled, hend] using .refl hop
    · simp [filled, hend]
  | true =>
    obtain ⟨defaults, hgrown, hdefaults, hnone⟩ := fillDefaults_grown c.line hnodes hcommand
    refine ⟨defaults, ?_, ?_, hdefaults, fun h => ⟨rfl, hnone h⟩⟩
    · rw [Cursor.bytes_line] at hgrown
      simpa [filled, hend, Route.mapLast] using hgrown
    · simp [filled, hend, Route.mapLast]

/-- Every hop of a line is read for the same source. -/
theorem Comes.source_last {r : Reading Source Command Modifier} (h : t.Comes id c hop r) :
    r.route.last.source = hop.source := by
  induction h with
  | stops faults => rfl
  | ends hchild htake hgo => exact Node.source_of_takeWhole htake
  | descends hchild htake hredirect hlen further ih =>
    exact ih.trans (Node.source_of_takeWhole htake)
  | redirects hchild htake hredirect hlen further ih =>
    rw [Hop.start, Node.source_of_takeWhole htake] at ih
    rw [← ih]
    exact congrArg Hop.source (last_redirects _ _)

/-- Where a reading stops it has come forward, and what it matched on the way, with the defaults
after it, is a trail. -/
theorem Comes.trail {r : Reading Source Command Modifier} (h : t.Comes id c hop r)
    (hopen : hop.nodes ≠ [] → c.atEnd = false) :
    c.Reaches r.cursor ∧ ∃ ms, t.Grown c.line hop ms (t.filled r).route.first ∧
      t.Trail hop.source c.line id c.offset ms (t.filled r).route.later r.cursor.offset := by
  induction h with
  | @stops id c hop faults =>
    refine ⟨.refl c, [], ?_, ?_⟩
    · rw [filled_stops hopen]
      exact .refl hop
    · rw [filled_stops hopen]
      exact .stops
  | @ends id child c after hop grown hchild htake hgo =>
    have hreaches := Node.reaches_of_whole? (Node.whole?_of_takeWhole htake)
    have hgrown := grown_of_takeWhole hchild htake
    obtain ⟨defaults, hfilled, hlater, hdefaults, hend⟩ :=
      filled_ends (t := t) (c := after) hgrown.nodes_eq hgrown.command_eq
    rw [hreaches.line_eq] at hfilled hdefaults
    rw [hgrown.source_eq] at hdefaults
    refine ⟨hreaches, _, hgrown.trans hfilled, ?_⟩
    rw [hlater]
    refine .ends (token_of_takeWhole hchild htake) hdefaults fun hne => ⟨?_, (hend hne).2⟩
    rw [← hreaches.line_eq]
    exact Cursor.offset_of_atEnd (hend hne).1
  | @descends id child c after hop grown r hchild htake hredirect hlen further ih =>
    have hsep := (Node.whole?_eq_some_iff.1 (Node.whole?_of_takeWhole htake)).2
    obtain ⟨hspace, hreaches, hoffset⟩ := space_of_takeWhole htake (Cursor.atEnd_of_has hlen)
    -- more than a space is left, so that no defaults are due where the child's children fail
    obtain ⟨hon, ms, hms, htrail⟩ := ih fun _ => Cursor.skip_not_atEnd hsep hlen
    rw [hreaches.line_eq] at hms htrail
    rw [Node.source_of_takeWhole htake, hoffset] at htrail
    exact ⟨hreaches.trans hon, _, (grown_of_takeWhole hchild htake).trans hms,
      .descends (token_of_takeWhole hchild htake) hspace hredirect htrail⟩
  | @redirects id child c after hop grown redirect r hchild htake hredirect hlen further ih =>
    obtain ⟨hspace, hreaches, hoffset⟩ := space_of_takeWhole htake (Cursor.atEnd_of_has hlen)
    obtain ⟨hon, ms, hms, htrail⟩ := ih fun hne => absurd rfl hne
    rw [hreaches.line_eq] at hms htrail
    rw [Node.source_of_takeWhole htake, hoffset] at hms htrail
    obtain ⟨hnodes, hshaped⟩ := hms.shaped htrail.ascending
    rw [← hnodes] at htrail
    refine ⟨hreaches.trans hon, [⟨child, ⟨c.offset, after.offset⟩⟩], ?_, ?_⟩
    · rw [filled_redirects]
      exact grown_of_takeWhole hchild htake
    · rw [filled_redirects]
      exact .redirects (token_of_takeWhole hchild htake) hspace hredirect hshaped htrail

/--
**Readings are sound.**

A reading from a cursor stops further on in the same line.  Its first hop starts at the
root of the tree and at the cursor, and the matches of its hops are a trail from there to
where it stops.
-/
theorem readAt_sound (t : Tree Source Command Modifier) (c : Cursor) (source : Source) :
    c.Reaches (t.readAt c source).cursor ∧
      t.Shaped source c.line .root c.offset (t.readAt c source).route.first ∧
      t.Trail source c.line .root c.offset (t.readAt c source).route.first.nodes
        (t.readAt c source).route.later (t.readAt c source).cursor.offset := by
  let r := t.readFrom (c.ahead.length + 1) .root c (.start source .root c.offset)
  have hfilled : t.readAt c source = t.filled r := rfl
  have hcursor : (t.filled r).cursor = r.cursor := by
    unfold filled
    split <;> rfl
  obtain ⟨hreaches, ms, hgrown, htrail⟩ :=
    (t.readFrom_comes (c.ahead.length + 1) .root c (.start source .root c.offset)).trail
      fun hne => absurd rfl hne
  obtain ⟨hnodes, hshaped⟩ := hgrown.shaped htrail.ascending
  rw [hfilled, hcursor]
  refine ⟨hreaches, hshaped, ?_⟩
  rw [hnodes]
  exact htrail

/-! ### Facts about every reading -/

theorem chars_read (t : Tree Source Command Modifier) (line : String) (source : Source) :
    (t.read line source).cursor.chars = line.toList :=
  (t.readAt_sound (.ofLine line) source).1.chars_eq

theorem length_read (t : Tree Source Command Modifier) (line : String) (source : Source) :
    (t.read line source).cursor.length = Text.bytes line.toList := by
  rw [← Cursor.bytes_line, Cursor.line, t.chars_read, String.ofList_toList]

theorem source_read (t : Tree Source Command Modifier) (line : String) (source : Source) :
    (t.read line source).route.first.source = source :=
  (t.readAt_sound (.ofLine line) source).2.1.source_eq

end Tree

end CommandLines
