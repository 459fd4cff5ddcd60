/-
Completions are accepted.

A completion that a literal proposes puts the word of the literal in the place of what is
typed from the completion point on.  The line that comes of it has the same last stage, and
there the word is the next one up to the end of the line.  So the literal is the one child
that is tried, and it takes what is left.
-/
import CommandLines.Proofs.Completion.Point

namespace CommandLines

variable {Source Command Modifier : Type}

/-- A completion for the end of a line puts its text in the place of the end. -/
theorem Completion.apply_of_end {c : Completion} {line : String} {before after : List Char}
    (hline : line.toList = before ++ after)
    (hspan : c.span = ⟨Text.bytes before, Text.bytes line.toList⟩) :
    c.apply line = String.ofList (before ++ c.text.toList) := by
  have hstart : c.span.start = Text.bytes before := by rw [hspan]
  have hstop : c.span.stop = Text.bytes line.toList := by rw [hspan]
  have hfits : c.span.Fits line := by
    refine ⟨?_, ?_, ?_⟩
    · rw [hstart]
      exact Text.boundary_iff.2 ⟨before, after, hline, rfl⟩
    · rw [hstop]
      exact Text.boundary_end line
    · rw [hstart, hstop, hline, Text.bytes_append]
      exact Nat.le_add_right _ _
  have htext : (Span.mk 0 (Text.bytes before)).text line = String.ofList before :=
    Span.text_of_parts (a := []) (c := after) (by simpa using hline)
  rw [c.apply_eq hfits, hstart, hstop, htext, Span.text_point]
  simp

namespace Reading

/-- The completion stems from a child at the completion point that the source may use: it is one of
those that the child proposes for the end of the line, widened to the span of all completions. -/
def Stems (r : Reading Source Command Modifier) (t : Tree Source Command Modifier)
    (child : NodeId) (c : Completion) : Prop :=
  ∃ point s d, r.route.completionPoint? r.cursor.length = some point ∧
    child ∈ (t.node point.parent).children ∧
    (t.node child).allows r.route.first.source = true ∧
    (t.node child).complete (r.route.context r.cursor.line)
      (.ofLine r.cursor.line (min point.start r.cursor.length)) = .ok s ∧
    d ∈ s.list ∧ c.same (d.widen r.cursor.line (r.completions t).span) = true

end Reading

namespace Tree

variable {t : Tree Source Command Modifier} {source : Source} {line : String}
  {id child : NodeId} {c : Completion}

theorem line_read (t : Tree Source Command Modifier) (line : String) (source : Source) :
    (t.read line source).cursor.line = line := by
  rw [Cursor.line, t.chars_read, String.ofList_toList]

/-- The completions at the end of a line are a set made of what the children propose, all of it for
the text from the completion point on. -/
theorem completions_ofList (ht : t.Ordinary) (hprovider : t.Unprompted) {point : CompletionPoint}
    (hpoint : (t.read line source).route.completionPoint? (Text.bytes line.toList) = some point)
    (hle : point.start ≤ Text.bytes line.toList) :
    let proposed :=
      ((t.read line source).proposals t point.parent line point.start).flatMap (·.list)
    (t.read line source).completions t = .ofList line proposed ∧
      ∀ d ∈ proposed, d.span = ⟨point.start, Text.bytes line.toList⟩ := by
  refine ⟨?_, ?_⟩
  · rw [completions_eq hpoint hle, Completions.merge_eq_ofList]
    intro s hs
    obtain ⟨child, -, -, l, -, rfl⟩ := Reading.mem_proposals ht hprovider hs
    exact Completions.made_ofList line l
  · intro d hd
    obtain ⟨s, hs, hd⟩ := List.mem_flatMap.1 hd
    obtain ⟨child, -, -, l, hl, rfl⟩ := Reading.mem_proposals ht hprovider hs
    have hspan := Completions.span_of_mem_ofList hl.span_eq hd
    simpa [Completer.ofLine, Completer.span, Nat.min_eq_left hle] using hspan

/-- Every completion stems from a child. -/
theorem exists_stems (ht : t.Ordinary) (hprovider : t.Unprompted)
    (hc : c ∈ ((t.read line source).completions t).list) :
    ∃ child, (t.read line source).Stems t child c := by
  obtain ⟨done, id, place, hop, -, hle, -, hpoint⟩ := t.exists_point ht line source
  obtain ⟨hset, -⟩ := completions_ofList ht hprovider hpoint hle
  rw [hset] at hc
  obtain ⟨d, hd, rfl⟩ := List.mem_map.1 (Completions.mem_widened_of_mem_list hc)
  obtain ⟨s, hs, hds⟩ := List.mem_flatMap.1 hd
  obtain ⟨child, hchild, hallows, l, hl, rfl⟩ := Reading.mem_proposals ht hprovider hs
  refine ⟨child, ⟨id, place.offset⟩, _, d, ?_, hchild, hallows, ?_, hds, ?_⟩
  · rw [t.length_read]
    exact hpoint
  · rw [t.line_read, t.length_read, Nat.min_eq_left hle]
    exact hl.complete_eq _
  · rw [t.line_read, hset]
    exact Completion.same_refl _

/-- A completion that stems from a literal puts its word in the place of what stands at the
completion point. -/
theorem Stems.of_literal (ht : t.Ordinary) (hprovider : t.Unprompted) {point : CompletionPoint}
    (hpoint : (t.read line source).route.completionPoint? (Text.bytes line.toList) = some point)
    (hle : point.start ≤ Text.bytes line.toList) {word : String}
    (hlabel : (t.node child).label? = some (.literal word))
    (hstems : (t.read line source).Stems t child c) :
    child ∈ (t.node point.parent).children ∧ (t.node child).allows source = true ∧
      c.text = word ∧ c.span = ⟨point.start, Text.bytes line.toList⟩ := by
  obtain ⟨point', s, d, hpoint', hchild, hallows, hcomplete, hd, hsame⟩ := hstems
  obtain ⟨hset, hspans⟩ := completions_ofList ht hprovider hpoint hle
  rw [t.length_read, hpoint] at hpoint'
  obtain rfl := Option.some.inj hpoint'
  obtain ⟨l, hl⟩ := Reading.exists_proposes_child ht hprovider hchild line point.start
  rw [t.line_read, t.length_read, Nat.min_eq_left hle, hl.complete_eq] at hcomplete
  obtain rfl := Except.ok.inj hcomplete
  have hproposed : d ∈ ((t.read line source).proposals t point.parent line point.start).flatMap
      (·.list) := by
    refine List.mem_flatMap.2 ⟨.ofList line l, List.mem_filterMap.2 ⟨child, hchild, ?_⟩, hd⟩
    simp only [Context.source, Route.context, hallows, if_true, hl.complete_eq]
    rfl
  -- all completions have the span of this one, so it is not widened
  rw [t.line_read, hset, Completions.span_ofList_of_span line (List.ne_nil_of_mem hproposed) hspans,
    ← hspans d hproposed, Completion.widen_self] at hsame
  obtain ⟨htext, hspan, -⟩ := Completion.same_iff.1 hsame
  rw [t.source_read] at hallows
  refine ⟨hchild, hallows, ?_, hspan.trans (hspans d hproposed)⟩
  have hmem := Completions.mem_widened_of_mem_list hd
  rw [Completions.widened_of_span line hl.span_eq] at hmem
  exact htext.trans (hl.text_eq word hlabel d hmem)

/-- A literal that the source may use is the one child that is tried where its word is all that is
ahead, and it takes it. -/
theorem takes_literal (ht : t.Ordinary) {parent : NodeId} {word : String}
    (hchild : child ∈ (t.node parent).children) (hallows : (t.node child).allows source = true)
    (hlabel : (t.node child).label? = some (.literal word)) (behind : List Char)
    (hop : Hop Source Command Modifier) :
    child ∈ t.usable source parent ⟨behind, word.toList⟩ ∧
      ∃ grown, (t.node child).takeWhole child ⟨behind, word.toList⟩ hop =
        .ok (⟨word.toList.reverse ++ behind, []⟩, grown) := by
  have hspace := ((ht.nodes child (by simp [hlabel])).of_literal hlabel).2
  obtain ⟨husable, hword⟩ :=
    takes_word hchild hallows hlabel hspace (Cursor.atSeparator_nil (word.toList.reverse ++ behind))
  rw [List.append_nil] at husable hword
  exact ⟨husable ▸ List.mem_singleton_self child, _, Node.takeWhole_of_word hlabel hword⟩

/--
**Completions are accepted.**

Every completion of a line at its end stems from a child.  Where that is a literal, the line
with the completion accepted is read to its end for the same source, and in its last hop the
literal is matched from where the completion starts to the end of the line.
-/
theorem completion_accepted (ht : t.Ordinary) (hprovider : t.Unprompted) (source : Source)
    (line : String) (hc : c ∈ ((t.read line source).completions t).list) :
    (∃ child, (t.read line source).Stems t child c) ∧
      ∀ child, (t.read line source).Stems t child c → (t.node child).isLiteral = true →
        (t.read (c.apply line) source).cursor.atEnd = true ∧
          ⟨child, ⟨c.span.start, Text.bytes (c.apply line).toList⟩⟩ ∈
            (t.read (c.apply line) source).route.last.nodes := by
  refine ⟨exists_stems ht hprovider hc, ?_⟩
  intro child hstems hliteral
  obtain ⟨word, hlabel⟩ : ∃ word, (t.node child).label? = some (.literal word) := by
    unfold Node.isLiteral at hliteral
    cases hlabel : (t.node child).label? with
    | none => simp [hlabel] at hliteral
    | some label =>
      cases label with
      | literal word => exact ⟨word, rfl⟩
      | argument name type provider? => simp [hlabel, Label.isLiteral] at hliteral
  obtain ⟨done, id, place, hop, hstage, hle, -, hpoint⟩ := t.exists_point ht line source
  obtain ⟨hchild, hallows, htext, hspan⟩ := Stems.of_literal ht hprovider hpoint hle hlabel hstems
  have hline : c.apply line = String.ofList (place.behind.reverse ++ word.toList) := by
    have hchars : line.toList = place.behind.reverse ++ place.ahead := hstage.chars_eq.symm
    rw [← htext]
    exact Completion.apply_of_end hchars (by simpa [Cursor.offset] using hspan)
  -- the new line comes to the same stage, where the literal takes what is left
  have hstage' := hstage.again ht word.toList
  rw [← hline] at hstage'
  obtain ⟨husable, grown, htake⟩ := takes_literal ht hchild hallows hlabel place.behind hop
  have hopen : (Cursor.mk place.behind word.toList).atEnd = false := by
    have hne := ((ht.nodes child (by simp [hlabel])).of_literal hlabel).1
    simpa [Cursor.atEnd, List.isEmpty_iff] using hne
  have htyped := hstage'.typed_of_end ht hopen husable htake rfl
  rw [← hstage'.source_eq] at husable
  have hgrown := grown_of_takeWhole husable htake
  obtain ⟨defaults, hfilled, hlater, -⟩ := filled_ends (t := t)
    (c := ⟨word.toList.reverse ++ place.behind, []⟩) hgrown.nodes_eq hgrown.command_eq
  have hstart : c.span.start = place.offset := by rw [hspan]
  have hstop : Text.bytes (c.apply line).toList =
      (Cursor.mk (word.toList.reverse ++ place.behind) []).offset := by
    simp [hline, Cursor.offset, Nat.add_comm]
  rw [read_eq_filled, htyped, filled_after, hstart, hstop]
  refine ⟨?_, ?_⟩
  · rw [Reading.cursor_after, cursor_filled]
    rfl
  · rw [Reading.last_after, Route.last, hlater]
    show _ ∈ (t.filled _).route.first.nodes
    rw [hfilled.nodes_eq, hgrown.nodes_eq]
    simp [Cursor.offset]

end Tree

/-- The completion `now` of `go set 7 true no`. -/
def nowCompletion : Completion := { span := ⟨14, 16⟩, text := "now" }

theorem stems_nowCompletion {t : Tree Unit Unit Unit} (h : loopingTree = .ok t) :
    nowCompletion ∈ ((t.read "go set 7 true no" ()).completions t).list ∧
      (t.read "go set 7 true no" ()).Stems t ⟨5⟩ nowCompletion := by
  obtain rfl := Except.ok.inj h
  have hmem : nowCompletion ∈ (Completions.ofList "go set 7 true no" [nowCompletion]).list := by
    rw [Completions.list_ofList_singleton]
    exact List.mem_singleton_self _
  exact ⟨hmem, _, _, nowCompletion, rfl, List.mem_singleton_self _, rfl, rfl, hmem, rfl⟩

/-- It stems from the literal `now`, and with it accepted the line is read to its end. -/
theorem completion_accepted_looping : ∃ t, loopingTree = .ok t ∧ t.Ordinary ∧ t.Unprompted ∧
    nowCompletion ∈ ((t.read "go set 7 true no" ()).completions t).list ∧
    (t.read "go set 7 true no" ()).Stems t ⟨5⟩ nowCompletion ∧
    (t.node ⟨5⟩).isLiteral = true ∧
    nowCompletion.apply "go set 7 true no" = "go set 7 true now" ∧
    (t.read (nowCompletion.apply "go set 7 true no") ()).cursor.atEnd = true ∧
    ⟨⟨5⟩, ⟨14, 17⟩⟩ ∈
      (t.read (nowCompletion.apply "go set 7 true no") ()).route.last.nodes := by
  have ht := ordinary_loopingTree rfl
  have hprovider := unprompted_loopingTree rfl
  obtain ⟨hmem, hstems⟩ := stems_nowCompletion rfl
  exact ⟨_, rfl, ht, hprovider, hmem, hstems, rfl, rfl,
    (Tree.completion_accepted ht hprovider () "go set 7 true no" hmem).2 ⟨5⟩ hstems rfl⟩

end CommandLines
