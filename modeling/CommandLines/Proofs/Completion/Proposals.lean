/-
What the children of a node propose.

A child that is ordinary and has no provider proposes texts for the place where it would
stand, all of them with one span, and what it proposes depends on nothing but the line up to the
offset: not on what has been read, and not on what follows.
-/
import CommandLines.Proofs.Completion.Effect
import CommandLines.Proofs.Reading.Delimited
import CommandLines.Reading.Completion

namespace CommandLines

variable {Source Command Modifier : Type}

/-! ### Sets with one span -/

namespace Completions

open Completion

variable {l : List Completion} {sets : List Completions} {s : Span}

theorem span_ofList_of_span (line : String) (hl : l ≠ []) (h : ∀ c ∈ l, c.span = s) :
    (ofList line l).span = s := by
  obtain ⟨c, hc⟩ := List.exists_mem_of_ne_nil l hl
  refine Span.Encloses.antisymm ?_ ?_
  · rw [← h c hc]
    exact encloses_of_mem line hc
  · refine (isHull_ofList line hl).encloses_iff.2 ?_
    intro u hu
    obtain ⟨d, hd, rfl⟩ := List.mem_map.1 hu
    rw [h d hd]
    exact .refl s

/-- Where all completions have one span, none is widened. -/
theorem widened_of_span (line : String) (h : ∀ c ∈ l, c.span = s) : widened line l = l := by
  refine (List.map_congr_left fun c hc => ?_).trans (List.map_id l)
  rw [span_ofList_of_span line (List.ne_nil_of_mem hc) h, ← h c hc]
  exact widen_self c line

theorem list_ofList_singleton (line : String) (c : Completion) :
    (ofList line [c]).list = [c] := by
  rw [list_ofList, widened_of_span (s := c.span) line (by simp), List.mergeSort_singleton]
  rfl

/-- So the text of the line does not matter for the set. -/
theorem ofList_of_span (line line' : String) (h : ∀ c ∈ l, c.span = s) :
    ofList line l = ofList line' l := by
  by_cases hl : l = []
  · subst hl
    rfl
  · have hspan : (ofList line l).span = (ofList line' l).span := by
      rw [span_ofList_of_span line hl h, span_ofList_of_span line' hl h]
    have hlist : (ofList line l).list = (ofList line' l).list := by
      rw [list_ofList, list_ofList, widened_of_span line h, widened_of_span line' h]
    cases hset : ofList line l
    cases hset' : ofList line' l
    simp_all

theorem span_of_mem_ofList {c : Completion} {line : String} (h : ∀ c ∈ l, c.span = s)
    (hc : c ∈ (ofList line l).list) : c.span = s := by
  have hmem := mem_widened_of_mem_list hc
  rw [widened_of_span line h] at hmem
  exact h c hmem

theorem merge_of_span (line line' : String) (hmade : ∀ cs ∈ sets, cs.Made)
    (h : ∀ cs ∈ sets, ∀ c ∈ cs.list, c.span = s) : merge line sets = merge line' sets := by
  rw [merge_eq_ofList hmade, merge_eq_ofList hmade]
  refine ofList_of_span line line' (s := s) ?_
  intro c hc
  obtain ⟨cs, hcs, hc⟩ := List.mem_flatMap.1 hc
  exact h cs hcs c hc

end Completions

/-! ### Completers -/

namespace Completer

variable {b b' : Completer}

/-- The second completer has collected more than the first, all of it for the text that the first
one completes. -/
structure Extends (b b' : Completer) : Prop where
  line_eq : b'.line = b.line
  start_eq : b'.start = b.start
  collected : ∀ c ∈ b'.collected, c ∈ b.collected ∨ c.span = b.span

theorem Extends.refl (b : Completer) : b.Extends b := ⟨rfl, rfl, fun _ => .inl⟩

theorem Extends.push {c : Completion} (h : b.Extends b') (hc : c.span = b'.span) :
    b.Extends (b'.push c) := by
  refine ⟨h.line_eq, h.start_eq, ?_⟩
  intro d hd
  rcases List.mem_append.1 hd with hd | hd
  · exact h.collected d hd
  · right
    rw [List.mem_singleton.1 hd, hc, span, span, h.line_eq, h.start_eq]

theorem Extends.suggest (h : b.Extends b') (text : String) (tooltip? : Option String := none) :
    b.Extends (b'.suggest text tooltip?) := by
  unfold Completer.suggest
  split
  · exact h
  · exact h.push rfl

theorem Extends.suggestIf (h : b.Extends b') (p : Completer → Bool) (text : String) :
    b.Extends (if p b' = true then b'.suggest text else b') := by
  split
  · exact h.suggest text
  · exact h

/-- What a fresh completer comes to collect all has its span. -/
theorem Extends.fresh {line : String} {start : Nat} (h : (ofLine line start).Extends b) :
    b.finish = .ofList line b.collected ∧
      ∀ c ∈ b.collected, c.span = (ofLine line start).span := by
  refine ⟨by rw [finish, h.line_eq]; rfl, ?_⟩
  intro c hc
  refine (h.collected c hc).resolve_left ?_
  simp [ofLine]

theorem text_of_mem_suggest {c : Completion} {text : String} (hb : b.collected = [])
    (hc : c ∈ (b.suggest text).collected) : c.text = text := by
  unfold suggest at hc
  split at hc
  · simp [hb] at hc
  · have hmem : c ∈ b.collected ++ [{ span := b.span, text := text }] := hc
    rw [hb, List.nil_append] at hmem
    rw [List.mem_singleton.1 hmem]

end Completer

/-! ### Single children -/

namespace Node

variable {n : Node Source Command Modifier}

/-- The node has no provider of completions. -/
def Unprompted (n : Node Source Command Modifier) : Prop :=
  ∀ name type provider?, n.label? = some (.argument name type provider?) → provider? = none

/-- The node proposes these completions for the end of a line, from an offset on, whatever has been
read: they are for the text from there to the end, and those of a literal are its word. -/
structure Proposes (n : Node Source Command Modifier) (line : String) (start : Nat)
    (l : List Completion) : Prop where
  complete_eq : ∀ context, n.complete context (.ofLine line start) = .ok (.ofList line l)
  span_eq : ∀ c ∈ l, c.span = (Completer.ofLine line start).span
  text_eq : ∀ word, n.label? = some (.literal word) → ∀ c ∈ l, c.text = word

variable {line : String} {start : Nat}

theorem proposes_nothing
    (hcomplete : ∀ context, n.complete context (.ofLine line start) = .ok .none) :
    n.Proposes line start [] :=
  ⟨hcomplete, by simp, by simp⟩

theorem proposes_collected {b : Completer} (hb : (Completer.ofLine line start).Extends b)
    (hcomplete : ∀ context, n.complete context (.ofLine line start) = .ok b.finish)
    (htext : ∀ word, n.label? = some (.literal word) → ∀ c ∈ b.collected, c.text = word) :
    n.Proposes line start b.collected := by
  obtain ⟨hfinish, hspan⟩ := hb.fresh
  refine ⟨?_, hspan, htext⟩
  intro context
  rw [hcomplete, hfinish]

/-- An ordinary node without a provider proposes the same, whatever has been read. -/
theorem exists_proposes (hn : n.Ordinary) (hprovider : n.Unprompted) (line : String)
    (start : Nat) : ∃ l, n.Proposes line start l := by
  cases hn with
  | literal word hlabel hne hspace =>
    by_cases hstarts :
        Text.startsWith (Text.lower word) (Completer.ofLine line start).typedLower = true
    · refine ⟨_, proposes_collected ((Completer.Extends.refl _).suggest word) ?_ ?_⟩
      · intro context
        simp [complete, hlabel, hstarts]
      · intro word' hlabel' c hc
        obtain rfl : word = word' := by simpa [hlabel] using hlabel'
        exact Completer.text_of_mem_suggest rfl hc
    · refine ⟨[], proposes_nothing ?_⟩
      intro context
      simp [complete, hlabel, hstarts]
  | argument name type provider? hlabel hbuilt =>
    obtain rfl := hprovider name type provider? hlabel
    cases hbuilt with
    | number t minimum maximum =>
      refine ⟨[], proposes_nothing ?_⟩
      intro context
      simp [complete, hlabel, ArgumentType.number]
    | text kind =>
      refine ⟨[], proposes_nothing ?_⟩
      intro context
      simp [complete, hlabel, ArgumentType.text]
    | bool =>
      have hextends := ((Completer.Extends.refl (Completer.ofLine line start)).suggestIf
        (Text.startsWith "true" ·.typedLower) "true").suggestIf
        (Text.startsWith "false" ·.typedLower) "false"
      refine ⟨_, proposes_collected hextends ?_ ?_⟩
      · intro context
        simp only [complete, hlabel, ArgumentType.bool, ArgumentType.completeBool, List.foldl_cons,
          List.foldl_nil]
      · simp [hlabel]

end Node

/-! ### All children -/

namespace Tree

/-- No node has a provider of completions. -/
def Unprompted (t : Tree Source Command Modifier) : Prop := ∀ id, (t.node id).Unprompted

end Tree

namespace Reading

variable {t : Tree Source Command Modifier} {r r' : Reading Source Command Modifier}
  {parent child : NodeId} {line : String} {start : Nat}

theorem exists_proposes_child (ht : t.Ordinary) (hprovider : t.Unprompted)
    (h : child ∈ (t.node parent).children) (line : String) (start : Nat) :
    ∃ l, (t.node child).Proposes line start l :=
  Node.exists_proposes (ht.nodes child (t.built.sound.child parent child h).2.2.2)
    (hprovider child) line start

/-- What is proposed depends on who asks, but not on what has been read. -/
theorem proposals_congr (ht : t.Ordinary) (hprovider : t.Unprompted)
    (h : r.route.first.source = r'.route.first.source) :
    r.proposals t parent line start = r'.proposals t parent line start := by
  refine List.filterMap_congr fun child hchild => ?_
  obtain ⟨l, hl⟩ := exists_proposes_child ht hprovider hchild line start
  simp only [hl.complete_eq, Context.source, Route.context, h]

/-- Each set that is proposed is that of a child that the source may use. -/
theorem mem_proposals {s : Completions} (ht : t.Ordinary) (hprovider : t.Unprompted)
    (h : s ∈ r.proposals t parent line start) :
    ∃ child ∈ (t.node parent).children, (t.node child).allows r.route.first.source = true ∧
      ∃ l, (t.node child).Proposes line start l ∧ s = .ofList line l := by
  obtain ⟨child, hchild, hs⟩ := List.mem_filterMap.1 h
  obtain ⟨l, hl⟩ := exists_proposes_child ht hprovider hchild line start
  simp only [hl.complete_eq] at hs
  split at hs
  · next hallows => exact ⟨child, hchild, hallows, l, hl, (Option.some.inj hs).symm⟩
  · simp at hs

/-- All proposals have one span, so they can be merged for any line. -/
theorem merge_proposals (ht : t.Ordinary) (hprovider : t.Unprompted) (line' line'' : String) :
    Completions.merge line' (r.proposals t parent line start) =
      Completions.merge line'' (r.proposals t parent line start) := by
  refine Completions.merge_of_span line' line'' (s := (Completer.ofLine line start).span) ?_ ?_
  · intro s hs
    obtain ⟨child, -, -, l, -, rfl⟩ := mem_proposals ht hprovider hs
    exact Completions.made_ofList line l
  · intro s hs c hc
    obtain ⟨child, -, -, l, hl, rfl⟩ := mem_proposals ht hprovider hs
    exact Completions.span_of_mem_ofList hl.span_eq hc

/-! ### Completions at an offset -/

variable {offset : Nat} {before : List Char}

theorem completionsAt_of_none (hcut : (Text.cutAtMost r.cursor.chars offset).1 = before)
    (hnone : r.route.completionPoint? (Text.bytes before) = none) :
    r.completionsAt t offset = .none := by
  simp only [completionsAt, hcut, hnone]

/-- The completions at an offset are those of one place, for the line up to the offset. -/
theorem completionsAt_of_point {point : CompletionPoint}
    (hcut : (Text.cutAtMost r.cursor.chars offset).1 = before)
    (hpoint : r.route.completionPoint? (Text.bytes before) = some point)
    (hle : point.start ≤ Text.bytes before) :
    r.completionsAt t offset = .merge r.cursor.line
      (r.proposals t point.parent (String.ofList before) point.start) := by
  simp only [completionsAt, hcut, hpoint, Nat.min_eq_left hle]
  rfl

end Reading

end CommandLines
