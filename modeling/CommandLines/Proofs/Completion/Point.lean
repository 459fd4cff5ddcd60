/-
Where a line is completed.

The place where completions apply is found in a finished reading, from the spans of its
matches, but it is a place that reading has come to: the last stage that does not start
after the offset (`Stage.completionPoint?_eq`).  What follows the offset may end a token
early or late, or add matches, hops and defaults, but a stage does not depend on what is
ahead of it.  So completing a line at an offset is completing what is before the offset.
-/
import CommandLines.Proofs.Completion.Proposals
import CommandLines.Proofs.Reading.Stages

namespace CommandLines

variable {Source Command Modifier : Type}

/-! ### Points of hops -/

namespace Hop

variable {h g next : Hop Source Command Modifier} {later : List (Hop Source Command Modifier)}
  {id : NodeId} {offset n : Nat}

theorem point_before (hlt : n < h.span.start) : h.completionPoint? n later = none := by
  cases later <;>
  · unfold completionPoint?
    rw [if_pos hlt]

theorem point_inside (hholds : h.span.Holds n) :
    h.completionPoint? n later = some (pointAmong n h.span.start h.root h.nodes) := by
  cases later <;>
  · unfold completionPoint?
    rw [if_neg (Nat.not_lt_of_le hholds.1), if_neg (Nat.not_lt_of_le hholds.2)]

theorem point_after (hle : h.span.start ≤ n) (hstop : h.span.stop < n) :
    h.completionPoint? n (next :: later) = next.completionPoint? n later := by
  rw [completionPoint?, if_neg (Nat.not_lt_of_le hle), if_pos hstop]

/-- The hop has come to a node and an offset: its last match is of the node and ends one space
before, or it has no match, and is at its root and its start. -/
structure Standing (h : Hop Source Command Modifier) (id : NodeId) (offset : Nat) : Prop where
  node_eq : (h.nodes.getLast?.map Match.node).getD h.root = id
  place : h.nodes = [] ∧ h.span = .point offset ∨
    ∃ m, h.nodes.getLast? = some m ∧ m.span.stop + 1 = offset ∧ h.span.stop + 1 = offset
  passed : ∀ m ∈ h.nodes, m.span.stop < offset
  start_le : h.span.start ≤ offset

theorem pointAmong_append (start : Nat) (root : NodeId) {ms : List Match}
    (h : ∀ m ∈ ms, m.span.stop < n) (rest : List Match) :
    pointAmong n start root (ms ++ rest) =
      pointAmong n start ((ms.getLast?.map Match.node).getD root) rest := by
  induction ms generalizing root with
  | nil => rfl
  | cons m ms ih =>
    have hm := h m List.mem_cons_self
    have hnot : ¬(m.span.start ≤ n && n ≤ m.span.stop) = true := by
      simp only [Bool.and_eq_true, decide_eq_true_eq]
      omega
    rw [List.cons_append, pointAmong, if_neg hnot,
      ih m.node fun k hk => h k (List.mem_cons_of_mem _ hk)]
    simp [List.getLast?_cons]

/-- A hop with nothing after it is completed where it stands. -/
theorem Standing.point_of_stops (h : g.Standing id offset) (hle : offset ≤ n) :
    g.completionPoint? n [] = some ⟨id, offset⟩ := by
  have hstart := h.start_le
  have hnode := h.node_eq
  unfold completionPoint?
  rw [if_neg (by omega)]
  rcases h.place with ⟨hnodes, hspan⟩ | ⟨m, hlast, hm, hstop⟩
  · have hroot : g.root = id := by simpa [hnodes] using hnode
    simp [hnodes, hspan, hroot, Span.point, pointAmong]
  · rw [if_pos (by omega)]
    have hid : m.node = id := by simpa [hlast] using hnode
    simp [hlast, hid, hm]

/-- If the match after it holds the offset, a hop is completed before that match. -/
theorem Standing.point_of_match (h : g.Standing id offset) (hle : offset ≤ n)
    {grown : Hop Source Command Modifier} {m : Match} {more : List Match}
    (hroot : grown.root = g.root) (hnodes : grown.nodes = g.nodes ++ m :: more)
    (hm : m.span.start = offset) (hmstop : n ≤ m.span.stop) (hstart : grown.span.start ≤ n)
    (hstop : n ≤ grown.span.stop) : grown.completionPoint? n later = some ⟨id, offset⟩ := by
  have hamong : pointAmong n grown.span.start grown.root grown.nodes = ⟨id, offset⟩ := by
    have hpassed : ∀ k ∈ g.nodes, k.span.stop < n := by
      intro k hk
      exact Nat.lt_of_lt_of_le (h.passed k hk) hle
    have hholds : (m.span.start ≤ n && n ≤ m.span.stop) = true := by
      simp only [Bool.and_eq_true, decide_eq_true_eq]
      omega
    rw [hnodes, hroot, pointAmong_append _ _ hpassed, h.node_eq, pointAmong, if_pos hholds, hm]
  rw [point_inside ⟨hstart, hstop⟩, hamong]

end Hop

/-- Hops that end before the offset are passed over. -/
theorem Reading.completionPoint?_after {done : List (Hop Source Command Modifier)} {n : Nat}
    (h : ∀ g ∈ done, g.span.start ≤ n ∧ g.span.stop < n) (r : Reading Source Command Modifier) :
    (r.after done).route.completionPoint? n = r.route.completionPoint? n := by
  induction done with
  | nil => rfl
  | cons g done ih =>
    obtain ⟨hstart, hstop⟩ := h g List.mem_cons_self
    rw [← ih fun k hk => h k (List.mem_cons_of_mem _ hk)]
    exact Hop.point_after hstart hstop

namespace Tree

variable {t : Tree Source Command Modifier} {source : Source} {line : String} {id child : NodeId}
  {c after : Cursor} {hop grown : Hop Source Command Modifier}
  {done : List (Hop Source Command Modifier)}

/-! ### Points of stages -/

/-- What a match makes of a hop that stands where the match starts. -/
theorem span_of_match (hstanding : hop.Standing id c.offset)
    (hchild : child ∈ t.usable hop.source id c)
    (htake : (t.node child).takeWhole child c hop = .ok (after, grown)) :
    grown.root = hop.root ∧ grown.nodes = hop.nodes ++ [⟨child, ⟨c.offset, after.offset⟩⟩] ∧
      grown.span.start ≤ c.offset ∧ c.offset ≤ after.offset ∧ grown.span.stop = after.offset := by
  have hgrown := grown_of_takeWhole hchild htake
  have hle := (Node.reaches_of_whole? (Node.whole?_of_takeWhole htake)).offset_le
  have hstop : hop.span.stop ≤ c.offset := by
    rcases hstanding.place with ⟨-, hspan⟩ | ⟨m, -, -, hstop⟩
    · simp [hspan, Span.point]
    · omega
  have hspan : grown.span = hop.span.hull ⟨c.offset, after.offset⟩ := hgrown.span_eq
  refine ⟨hgrown.root_eq, hgrown.nodes_eq, ?_, hle, ?_⟩
  · rw [hspan]
    exact Nat.min_le_right ..
  · simp only [hspan, Span.hull]
    omega

/-- A stage stands where it says, and the hops that are done end before it. -/
theorem Stage.standing (h : t.Stage source line done id c hop) :
    hop.Standing id c.offset ∧ ∀ g ∈ done, g.span.start ≤ c.offset ∧ g.span.stop < c.offset := by
  induction h with
  | start => exact ⟨⟨rfl, .inl ⟨rfl, rfl⟩, by simp [Hop.start], Nat.zero_le _⟩, by simp⟩
  | @descends done id child c after hop grown before hchild htake hopen hredirect ih =>
    obtain ⟨hstanding, hdone⟩ := ih
    have hmem : child ∈ t.usable hop.source id c := by simp [before.source_eq, hchild]
    obtain ⟨hroot, hnodes, hstart, hle, hstop⟩ := span_of_match hstanding hmem htake
    have hskip := (space_of_takeWhole htake hopen).2.2
    have hlast : grown.nodes.getLast? = some ⟨child, ⟨c.offset, after.offset⟩⟩ := by simp [hnodes]
    refine ⟨⟨by simp [hlast], .inr ⟨_, hlast, hskip.symm, by omega⟩, ?_, by omega⟩, ?_⟩
    · intro m hm
      rw [hnodes, List.mem_append, List.mem_singleton] at hm
      rcases hm with hm | rfl
      · have := hstanding.passed m hm
        omega
      · exact hskip ▸ Nat.lt_succ_self after.offset
    · intro g hg
      have := hdone g hg
      omega
  | @redirects done id child c after hop grown redirect before hchild htake hopen hredirect ih =>
    obtain ⟨hstanding, hdone⟩ := ih
    have hmem : child ∈ t.usable hop.source id c := by simp [before.source_eq, hchild]
    obtain ⟨hroot, hnodes, hstart, hle, hstop⟩ := span_of_match hstanding hmem htake
    have hskip := (space_of_takeWhole htake hopen).2.2
    refine ⟨⟨rfl, .inl ⟨rfl, rfl⟩, by simp [Hop.start], Nat.le_refl _⟩, ?_⟩
    intro g hg
    rw [List.mem_append, List.mem_singleton] at hg
    rcases hg with hg | rfl
    · have := hdone g hg
      omega
    · omega

/-- A line is completed at a stage that does not start after the offset, if what matches there does
not end before it. -/
theorem Stage.completionPoint?_eq (ht : t.Ordinary) (h : t.Stage source line done id c hop)
    {n : Nat} (hle : c.offset ≤ n)
    (hlast : ∀ child ∈ t.usable source id c, ∀ after, (t.node child).whole? c = some after →
      n ≤ after.offset) :
    (t.read line source).route.completionPoint? n = some ⟨id, c.offset⟩ := by
  obtain ⟨hstanding, hdone⟩ := h.standing
  have hpassed : ∀ g ∈ done, g.span.start ≤ n ∧ g.span.stop < n := by
    intro g hg
    have := hdone g hg
    omega
  rw [read_eq_filled]
  rcases h.typed_cases ht with ⟨cursor, faults, heq, hopen, -⟩ |
    ⟨child, after, grown, r, hchild, htake, heq, ⟨ms, hgrown⟩, -⟩
  · rw [heq, filled_after, Reading.completionPoint?_after hpassed, filled_stops hopen]
    exact hstanding.point_of_stops hle
  · have hmem : child ∈ t.usable source id c := by simp [hchild]
    have hstop := hlast child hmem after (Node.whole?_of_takeWhole htake)
    rw [← h.source_eq] at hmem
    obtain ⟨hroot, hnodes, hstart, -, hgstop⟩ := span_of_match hstanding hmem htake
    have hspan : (t.filled r).route.first.span.Encloses grown.span := by
      rw [hgrown.span_eq, ← List.foldl_map]
      exact (Span.isHull_foldl _ _).encloses _ List.mem_cons_self
    have hmatch : (t.filled r).route.first.nodes =
        hop.nodes ++ ⟨child, ⟨c.offset, after.offset⟩⟩ :: ms := by
      rw [hgrown.nodes_eq, hnodes, List.append_assoc, List.singleton_append]
    rw [heq, filled_after, Reading.completionPoint?_after hpassed]
    refine hstanding.point_of_match hle (hgrown.root_eq.trans hroot) hmatch rfl hstop ?_ ?_
    · exact Nat.le_trans hspan.1 (Nat.le_trans hstart hle)
    · exact Nat.le_trans hstop (hgstop ▸ hspan.2)

/-! ### Whole lines -/

/-- A line is completed at its end where its last stage is. -/
theorem exists_point (ht : t.Ordinary) (line : String) (source : Source) :
    ∃ done id c hop, t.Stage source line done id c hop ∧ c.offset ≤ Text.bytes line.toList ∧
      (∀ child ∈ t.usable source id c, ∀ after, (t.node child).whole? c = some after →
        after.atEnd = true) ∧
      (t.read line source).route.completionPoint? (Text.bytes line.toList) =
        some ⟨id, c.offset⟩ := by
  obtain ⟨done, id, c, hop, hstage, hlast⟩ := t.exists_last ht line source
  have hle : c.offset ≤ Text.bytes line.toList := by
    rw [← hstage.chars_eq, Cursor.chars, Text.bytes_append, Text.bytes_reverse]
    exact Nat.le_add_right _ _
  refine ⟨done, id, c, hop, hstage, hle, hlast, hstage.completionPoint?_eq ht hle ?_⟩
  intro child hchild after hwhole
  rw [Cursor.offset_of_atEnd (hlast child hchild after hwhole), Cursor.line,
    (Node.reaches_of_whole? hwhole).chars_eq, hstage.chars_eq, String.ofList_toList]

theorem completionsAt_eq {before after : List Char} {point : CompletionPoint}
    (hline : line.toList = before ++ after)
    (hpoint : (t.read line source).route.completionPoint? (Text.bytes before) = some point)
    (hle : point.start ≤ Text.bytes before) :
    (t.read line source).completionsAt t (Text.bytes before) =
      .merge line ((t.read line source).proposals t point.parent (String.ofList before)
        point.start) := by
  have hcut : Text.cutAtMost line.toList (Text.bytes before) = (before, after) :=
    Text.cutAtMost_of_cut? (Text.cut?_eq_some_iff.2 ⟨hline, rfl⟩)
  rw [Reading.completionsAt_of_point (by rw [t.chars_read, hcut]) hpoint hle, Cursor.line,
    t.chars_read, String.ofList_toList]

theorem completions_eq {point : CompletionPoint}
    (hpoint : (t.read line source).route.completionPoint? (Text.bytes line.toList) = some point)
    (hle : point.start ≤ Text.bytes line.toList) :
    (t.read line source).completions t =
      .merge line ((t.read line source).proposals t point.parent line point.start) := by
  have hline : line.toList = line.toList ++ [] := by simp
  rw [Reading.completions, t.length_read, completionsAt_eq hline hpoint hle, String.ofList_toList]

/--
**Completing at an offset ignores what follows it.**

The completions of a line at an offset between two of its characters are those of the line
cut off there, at its end.
-/
theorem completionsAt_append (ht : t.Ordinary) (hprovider : t.Unprompted) (source : Source)
    (before after : String) :
    (t.read (before ++ after) source).completionsAt t (Text.bytes before.toList) =
      (t.read before source).completions t := by
  obtain ⟨done, id, c, hop, hstage, hle, hlast, hpoint⟩ := t.exists_point ht before source
  have hbefore : c.behind.reverse ++ c.ahead = before.toList := hstage.chars_eq
  -- the whole line has the same stage, and a match there that ended earlier would be in both lines
  have hpoint' : (t.read (before ++ after) source).route.completionPoint?
      (Text.bytes before.toList) = some ⟨id, c.offset⟩ := by
    have hstage' := hstage.again ht (c.ahead ++ after.toList)
    rw [← List.append_assoc, hbefore, ← String.toList_append, String.ofList_toList] at hstage'
    refine hstage'.completionPoint?_eq ht hle ?_
    intro child hchild place hwhole
    have hbytes : Text.bytes before.toList = c.offset + c.bytesAhead := by
      simp [← hbefore, Cursor.offset, Cursor.bytesAhead]
    rw [hbytes]
    exact offset_le_of_last ht hop hlast hchild hwhole
  have hsource : (t.read (before ++ after) source).route.first.source =
      (t.read before source).route.first.source := by
    rw [t.source_read, t.source_read]
  calc (t.read (before ++ after) source).completionsAt t (Text.bytes before.toList)
      = .merge (before ++ after)
          ((t.read (before ++ after) source).proposals t id before c.offset) := by
        rw [completionsAt_eq String.toList_append hpoint' hle, String.ofList_toList]
    _ = .merge before ((t.read (before ++ after) source).proposals t id before c.offset) :=
        Reading.merge_proposals ht hprovider _ _
    _ = .merge before ((t.read before source).proposals t id before c.offset) := by
        rw [Reading.proposals_congr ht hprovider hsource]
    _ = (t.read before source).completions t := (completions_eq hpoint hle).symm

end Tree

theorem unprompted_loopingTree {t : Tree Unit Unit Unit} (h : loopingTree = .ok t) :
    t.Unprompted := by
  refine Tree.forall_node (p := Node.Unprompted) nofun ?_
  intro i hi name type provider? hlabel
  obtain rfl | rfl | rfl | rfl | rfl | rfl := size_loopingTree h hi <;>
    obtain rfl := Except.ok.inj h
  · cases hlabel
  · cases hlabel
  · cases hlabel
  · cases hlabel
    rfl
  · cases hlabel
    rfl
  · cases hlabel

/-- On `go set 7 true` the `t` is completed in the same way as where the line ends with it. -/
theorem completionsAt_append_looping : ∃ t, loopingTree = .ok t ∧ t.Ordinary ∧ t.Unprompted ∧
    (t.read ("go set 7 t" ++ "rue") ()).completionsAt t 10 =
      (t.read "go set 7 t" ()).completions t ∧
    ((t.read "go set 7 t" ()).completions t).span = ⟨9, 10⟩ := by
  have ht := ordinary_loopingTree rfl
  have hprovider := unprompted_loopingTree rfl
  exact ⟨_, rfl, ht, hprovider,
    Tree.completionsAt_append ht hprovider () "go set 7 t" "rue", rfl⟩

end CommandLines
