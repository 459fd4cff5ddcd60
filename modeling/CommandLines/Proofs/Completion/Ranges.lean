/-
What completions replace.

The place where a line is completed is looked for hop by hop, and in a hop match by match, and
the search has a case for an offset that no match holds, and one for an offset between two
hops.  Neither comes up.  The matches of a hop follow each other with one space between, so
together they hold all offsets from its start to its stop (`Trail.exists_holds`), and the next
hop starts one space after it (`Trail.next_hop`).  So what is found is the start of a match, or,
beyond them all, where the next one would start, which is behind a space.  It never lies after
the offset or inside a character, whatever has been read.

Nothing is known of what is read there, so unlike at the last stage of a line of ordinary nodes
all this has to come from the spans alone.  Of providers it is only asked that they propose by
way of the completer that they are given.
-/
import CommandLines.Proofs.Completion.Point

namespace CommandLines

variable {Source Command Modifier : Type}

/-! ### Which match holds an offset -/

/-- The hop that holds the offset, or the last one if there is none. -/
def Route.hopAt (r : Route Source Command Modifier) (n : Nat) : Hop Source Command Modifier :=
  (r.hops.find? fun h => h.span.Holds n).getD r.last

section HopAt

variable {h next : Hop Source Command Modifier} {later : List (Hop Source Command Modifier)}
  {n : Nat}

theorem Route.hopAt_of_holds (hholds : h.span.Holds n) : Route.hopAt ⟨h, later⟩ n = h := by
  simp [hopAt, hops, hholds]

theorem Route.hopAt_single : Route.hopAt ⟨h, []⟩ n = h := by
  by_cases hholds : h.span.Holds n <;> simp [hopAt, hops, last, hholds]

theorem Route.hopAt_of_not_holds (hbeyond : ¬h.span.Holds n) :
    Route.hopAt ⟨h, next :: later⟩ n = Route.hopAt ⟨next, later⟩ n := by
  simp only [hopAt, hops, last, List.getLastD_cons]
  rw [List.find?_cons_of_neg (by simpa using hbeyond)]

end HopAt

/-- Where the next match would start: one space after the last one, or where the hop starts. -/
def Hop.nextStart (h : Hop Source Command Modifier) : Nat :=
  (h.nodes.getLast?.map fun m => m.span.stop + 1).getD h.span.start

/-- Where the text starts that is typed at the offset: where the first match starts that holds it,
and beyond all matches where the next one would start. -/
def Hop.startAt (h : Hop Source Command Modifier) (n : Nat) : Nat :=
  ((h.nodes.find? fun m => m.span.Holds n).map (·.span.start)).getD h.nextStart

namespace Hop

variable {h : Hop Source Command Modifier} {n : Nat}

theorem start_pointAmong (n start : Nat) (parent : NodeId) (ms : List Match) :
    (pointAmong n start parent ms).start =
      ((ms.find? fun m => m.span.Holds n).map (·.span.start)).getD start := by
  induction ms generalizing parent with
  | nil => rfl
  | cons m ms ih =>
    unfold pointAmong
    by_cases hholds : m.span.Holds n
    · have hin : (decide (m.span.start ≤ n) && decide (n ≤ m.span.stop)) = true := by
        simpa [Span.Holds] using hholds
      simp [hin, hholds]
    · have hout : ¬(decide (m.span.start ≤ n) && decide (n ≤ m.span.stop)) = true := by
        simpa [Span.Holds] using hholds
      simp [hout, hholds, ih]

theorem start_point_beyond (hle : h.span.start ≤ n) (hstop : h.span.stop < n) :
    (h.completionPoint? n []).map CompletionPoint.start = some h.nextStart := by
  unfold completionPoint? nextStart
  rw [if_neg (Nat.not_lt_of_le hle), if_pos hstop]
  cases h.nodes.getLast? <;> rfl

end Hop

namespace Tree

variable {t : Tree Source Command Modifier} {source : Source} {line : String}
  {parent root : NodeId} {start stop n : Nat} {ms : List Match}
  {hop after : Hop Source Command Modifier} {later : List (Hop Source Command Modifier)}

/-! ### Trails leave nothing out -/

theorem Ascending.stop_le_last (h : Ascending start ms) :
    ∀ m ∈ ms, m.span.stop ≤ (ms.map (·.span.stop)).getLastD start := by
  induction ms generalizing start with
  | nil => nofun
  | cons k ms ih =>
    obtain ⟨-, -, hrest⟩ := h
    intro m hm
    rw [List.map_cons, List.getLastD_cons]
    rcases List.mem_cons.1 hm with rfl | hm
    · cases ms with
      | nil => exact Nat.le_refl _
      | cons k ms =>
        have hk := ih hrest k List.mem_cons_self
        exact Nat.le_trans (Nat.le_trans hrest.1 hrest.2.1) hk
    · exact ih hrest m hm

/-- The matches of a trail hold every offset from its start to where one of them stops. -/
theorem Trail.exists_holds (h : t.Trail source line parent start ms later stop)
    (hle : start ≤ n) (hmore : ∃ m ∈ ms, n ≤ m.span.stop) : ∃ m ∈ ms, m.span.Holds n := by
  induction h with
  | stops =>
    obtain ⟨m, hm, -⟩ := hmore
    cases hm
  | @ends parent start m defaults token rest atEnd =>
    -- the defaults after the token cover nothing, and stop where it does
    have hstop : n ≤ m.span.stop := by
      obtain ⟨k, hk, hkstop⟩ := hmore
      rcases List.mem_cons.1 hk with rfl | hk
      · exact hkstop
      · have hspan := (rest.of_mem hk).2
        rw [(atEnd (List.ne_nil_of_mem hk)).1]
        simpa [hspan, Span.point] using hkstop
    exact ⟨m, List.mem_cons_self, token.start_eq ▸ hle, hstop⟩
  | @descends parent start stop m ms later token space stays rest ih =>
    by_cases hstop : n ≤ m.span.stop
    · exact ⟨m, List.mem_cons_self, token.start_eq ▸ hle, hstop⟩
    · obtain ⟨k, hk, hkstop⟩ := hmore
      have hrest : k ∈ ms := (List.mem_cons.1 hk).resolve_left fun heq => hstop (heq ▸ hkstop)
      obtain ⟨found, hfound, hholds⟩ := ih (by omega) ⟨k, hrest, hkstop⟩
      exact ⟨found, List.mem_cons_of_mem m hfound, hholds⟩
  | @redirects parent start stop m redirect next later token space leaves shaped rest ih =>
    obtain ⟨k, hk, hkstop⟩ := hmore
    obtain rfl := List.mem_singleton.1 hk
    exact ⟨k, hk, token.start_eq ▸ hle, hkstop⟩

/-- Where a space is, a character starts after it. -/
theorem boundary_of_spaceAt (h : SpaceAt line n) : Text.Boundary line (n + 1) :=
  (Span.fits_of_text? h).stop

/-- Every match of a trail starts at a boundary if the trail does. -/
theorem Trail.boundary (h : t.Trail source line parent start ms later stop)
    (hstart : Text.Boundary line start) : ∀ m ∈ ms, Text.Boundary line m.span.start := by
  induction h with
  | stops => nofun
  | @ends parent start m defaults token rest atEnd =>
    intro k hk
    rcases List.mem_cons.1 hk with rfl | hk
    · exact token.start_eq ▸ hstart
    · rw [(rest.of_mem hk).2]
      exact Text.boundary_end line
  | @descends parent start stop m ms later token space stays rest ih =>
    intro k hk
    rcases List.mem_cons.1 hk with rfl | hk
    · exact token.start_eq ▸ hstart
    · exact ih (boundary_of_spaceAt space) k hk
  | @redirects parent start stop m redirect next later token space leaves shaped rest ih =>
    intro k hk
    obtain rfl := List.mem_singleton.1 hk
    exact token.start_eq ▸ hstart

/-- After the last match there is a space or nothing. -/
theorem Trail.followed_last (h : t.Trail source line parent start ms later stop) {m : Match}
    (hlast : ms.getLast? = some m) :
    m.span.stop = Text.bytes line.toList ∨ SpaceAt line m.span.stop := by
  induction h with
  | stops => cases hlast
  | @ends parent start k defaults token rest atEnd =>
    rcases List.mem_cons.1 (List.mem_of_getLast? hlast) with rfl | hm
    · exact token.followed
    · left
      rw [(rest.of_mem hm).2]
      rfl
  | @descends parent start stop k ms later token space stays rest ih =>
    cases ms with
    | nil =>
      obtain rfl : k = m := by simpa using hlast
      exact token.followed
    | cons k' ms => exact ih (by simpa using hlast)
  | @redirects parent start stop k redirect next later token space leaves shaped rest ih =>
    obtain rfl : k = m := by simpa using hlast
    exact token.followed

/-- Another hop starts one space after the last match, and is a trail of its own. -/
theorem Trail.next_hop (h : t.Trail source line parent start ms (after :: later) stop) :
    ∃ m root, ms.getLast? = some m ∧ SpaceAt line m.span.stop ∧
      t.Shaped source line root (m.span.stop + 1) after ∧
      t.Trail source line root (m.span.stop + 1) after.nodes later stop := by
  generalize hhops : after :: later = hops at h
  induction h with
  | stops => cases hhops
  | ends token rest atEnd => cases hhops
  | @descends parent start stop k ms later token space stays rest ih =>
    obtain ⟨m, root, hlast, hrest⟩ := ih hhops
    exact ⟨m, root, by simp [List.getLast?_cons, hlast], hrest⟩
  | @redirects parent start stop k redirect next later token space leaves shaped rest ih =>
    cases hhops
    exact ⟨k, redirect.target, rfl, space, shaped, rest⟩

/-! ### Where the search for the place ends -/

/-- At an offset a place to complete the line is found.  Where the text starts that is typed there
is a boundary, and not after the offset. -/
structure Placed (line : String) (r : Route Source Command Modifier) (n : Nat) : Prop where
  found : (r.completionPoint? n).map CompletionPoint.start = some ((r.hopAt n).startAt n)
  boundary : Text.Boundary line ((r.hopAt n).startAt n)
  le : (r.hopAt n).startAt n ≤ n
  /-- No offset lies between matches. -/
  held : (∃ m ∈ (r.hopAt n).nodes, m.span.Holds n) ∨
    ∀ h ∈ r.hops, ∀ m ∈ h.nodes, m.span.stop < n

/-- It is enough to know where the hop at the offset has the text start. -/
theorem Placed.of_start {r : Route Source Command Modifier}
    (hhere : (r.hopAt n).startAt n = start)
    (found : (r.completionPoint? n).map CompletionPoint.start = some start)
    (boundary : Text.Boundary line start) (le : start ≤ n)
    (held : (∃ m ∈ (r.hopAt n).nodes, m.span.Holds n) ∨
      ∀ h ∈ r.hops, ∀ m ∈ h.nodes, m.span.stop < n) : Placed line r n := by
  subst hhere
  exact ⟨found, boundary, le, held⟩

/-- A hop stops where its last match does, or where it starts. -/
theorem Shaped.stop_eq (h : t.Shaped source line root start hop) :
    hop.span.stop = (hop.nodes.getLast?.map (·.span.stop)).getD start := by
  rw [h.span_eq, List.getLastD_eq_getLast?, List.getLast?_map]

/-- No match stops after its hop. -/
theorem Shaped.stop_le (h : t.Shaped source line root start hop)
    (htrail : t.Trail source line root start hop.nodes later stop) :
    ∀ m ∈ hop.nodes, m.span.stop ≤ hop.span.stop := by
  rw [h.span_eq]
  exact htrail.ascending.stop_le_last

/-- A hop that reaches as far as the offset is completed where the first match starts that holds
it. -/
theorem Shaped.placed_inside (h : t.Shaped source line root start hop)
    (htrail : t.Trail source line root start hop.nodes later stop)
    (hstart : Text.Boundary line start) (hle : start ≤ n) (hstop : n ≤ hop.span.stop) :
    Placed line ⟨hop, later⟩ n := by
  have hspan : hop.span.start = start := by rw [h.span_eq]
  have hholds : hop.span.Holds n := ⟨hspan ▸ hle, hstop⟩
  have hhop : Route.hopAt ⟨hop, later⟩ n = hop := Route.hopAt_of_holds hholds
  have hpoint : Route.completionPoint? ⟨hop, later⟩ n =
      some (Hop.pointAmong n hop.span.start hop.root hop.nodes) := Hop.point_inside hholds
  cases hlast : hop.nodes.getLast? with
  | none =>
    have hnodes : hop.nodes = [] := List.getLast?_eq_none_iff.1 hlast
    have hlater : later = [] := by
      cases later with
      | nil => rfl
      | cons next later =>
        obtain ⟨m, -, hsome, -⟩ := htrail.next_hop
        cases hlast.symm.trans hsome
    refine .of_start ?_ ?_ hstart hle (.inr ?_)
    · simp [hhop, Hop.startAt, Hop.nextStart, hnodes, hspan]
    · simp [hpoint, Hop.pointAmong, hnodes, hspan]
    · simp [Route.hops, hlater, hnodes]
  | some last =>
    have hreach : n ≤ last.span.stop := by simpa [h.stop_eq, hlast] using hstop
    have hheld := htrail.exists_holds hle ⟨last, List.mem_of_getLast? hlast, hreach⟩
    obtain ⟨m, hm⟩ : ∃ m, hop.nodes.find? (fun m => m.span.Holds n) = some m := by
      rw [← Option.isSome_iff_exists, List.find?_isSome]
      simpa using hheld
    have hmholds : m.span.Holds n := by simpa using List.find?_some hm
    have hboundary := htrail.boundary hstart m (List.mem_of_find?_eq_some hm)
    refine .of_start ?_ ?_ hboundary hmholds.1 (.inl ?_)
    · simp [hhop, Hop.startAt, hm]
    · simp [hpoint, Hop.start_pointAmong, hm]
    · rwa [hhop]

/-- Where the next match would start after a hop that ends before the offset, there is a boundary,
and it is not after the offset. -/
theorem Shaped.nextStart_le (h : t.Shaped source line root start hop)
    (htrail : t.Trail source line root start hop.nodes later stop)
    (hstart : Text.Boundary line start) (hle : start ≤ n) (hstop : hop.span.stop < n)
    (hend : n ≤ Text.bytes line.toList) :
    Text.Boundary line hop.nextStart ∧ hop.nextStart ≤ n := by
  have hspan : hop.span.start = start := by rw [h.span_eq]
  unfold Hop.nextStart
  cases hlast : hop.nodes.getLast? with
  | none => exact ⟨hspan ▸ hstart, hspan ▸ hle⟩
  | some m =>
    have hm := h.stop_le htrail m (List.mem_of_getLast? hlast)
    have hspace := (htrail.followed_last hlast).resolve_left (by omega)
    exact ⟨boundary_of_spaceAt hspace, Nat.lt_of_le_of_lt hm hstop⟩

/-- Beyond its matches, the last hop is completed where the next match would start. -/
theorem Shaped.placed_beyond (h : t.Shaped source line root start hop)
    (htrail : t.Trail source line root start hop.nodes [] stop)
    (hstart : Text.Boundary line start) (hle : start ≤ n) (hstop : hop.span.stop < n)
    (hend : n ≤ Text.bytes line.toList) : Placed line ⟨hop, []⟩ n := by
  have hspan : hop.span.start = start := by rw [h.span_eq]
  have hbeyond : ∀ m ∈ hop.nodes, m.span.stop < n := by
    intro m hm
    exact Nat.lt_of_le_of_lt (h.stop_le htrail m hm) hstop
  have hnone : hop.nodes.find? (fun m => m.span.Holds n) = none := by
    rw [List.find?_eq_none]
    intro m hm hholds
    exact Nat.not_le_of_lt (hbeyond m hm) (of_decide_eq_true hholds).2
  obtain ⟨hboundary, hbefore⟩ := h.nextStart_le htrail hstart hle hstop hend
  refine .of_start ?_ (Hop.start_point_beyond (hspan ▸ hle) hstop) hboundary hbefore (.inr ?_)
  · simp [Route.hopAt_single, Hop.startAt, hnone]
  · simpa [Route.hops] using hbeyond

/-- A row of hops is completed in the one that holds the offset, or in the last one. -/
theorem Shaped.placed (h : t.Shaped source line root start hop)
    (htrail : t.Trail source line root start hop.nodes later stop)
    (hstart : Text.Boundary line start) (hle : start ≤ n) (hend : n ≤ Text.bytes line.toList) :
    Placed line ⟨hop, later⟩ n := by
  induction later generalizing hop root start with
  | nil =>
    by_cases hstop : n ≤ hop.span.stop
    · exact h.placed_inside htrail hstart hle hstop
    · exact h.placed_beyond htrail hstart hle (by omega) hend
  | cons next later ih =>
    by_cases hstop : n ≤ hop.span.stop
    · exact h.placed_inside htrail hstart hle hstop
    · obtain ⟨m, target, hlast, hspace, hnext, hrest⟩ := htrail.next_hop
      have hafter : m.span.stop + 1 ≤ n := by
        have hmstop : hop.span.stop = m.span.stop := by simp [h.stop_eq, hlast]
        omega
      have hplaced := ih hnext hrest (boundary_of_spaceAt hspace) hafter
      have hspan : hop.span.start = start := by rw [h.span_eq]
      have hhop : Route.hopAt ⟨hop, next :: later⟩ n = Route.hopAt ⟨next, later⟩ n :=
        Route.hopAt_of_not_holds fun hholds => hstop hholds.2
      have hpoint : Route.completionPoint? ⟨hop, next :: later⟩ n =
          Route.completionPoint? ⟨next, later⟩ n :=
        Hop.point_after (hspan ▸ hle) (Nat.lt_of_not_le hstop)
      refine ⟨?_, hhop ▸ hplaced.boundary, hhop ▸ hplaced.le, ?_⟩
      · rw [hpoint, hhop]
        exact hplaced.found
      · rw [hhop]
        refine hplaced.held.imp_right fun hbeyond => ?_
        -- what is beyond the later hops is beyond this one, too
        refine List.forall_mem_cons.2 ⟨fun k hk => ?_, hbeyond⟩
        have hkstop := h.stop_le htrail k hk
        omega

end Tree

/-! ### Providers that keep to their completer -/

namespace Completer

variable {b b' : Completer} {line : String} {start : Nat}

/-- What can become of a completer that a provider is handed, where none is moved to another
offset. -/
inductive Grows (b : Completer) : Completer → Prop
  | handed : Grows b b
  | restart {b' : Completer} (h : Grows b b') : Grows b b'.restart
  | suggest {b' : Completer} (text : String) (tooltip? : Option String) (h : Grows b b') :
    Grows b (b'.suggest text tooltip?)
  | suggestNumber {b' : Completer} (number : Int32) (h : Grows b b') :
    Grows b (b'.suggestNumber number)
  | add {b' other : Completer} (h : Grows b b') (hother : Grows b other) : Grows b (b'.add other)

/-- The sets that such completers yield, and those that are merged from such sets. -/
inductive Yields (b : Completer) : Completions → Prop
  | finished {b' : Completer} (h : b.Grows b') : Yields b b'.finish
  | merged (line : String) {sets : List Completions} (h : ∀ s ∈ sets, Yields b s) :
    Yields b (.merge line sets)

/-- All answers come of the completer that is handed over. -/
def Kept (answer : Completer → Except Fault Completions) : Prop :=
  ∀ b s, answer b = .ok s → b.Yields s

theorem Grows.extends (h : (ofLine line start).Grows b) : (ofLine line start).Extends b := by
  induction h with
  | handed => exact .refl _
  | @restart b' h ih =>
    refine ⟨ih.line_eq, ?_, nofun⟩
    show min b'.start (Text.bytes b'.line.toList) = _
    rw [ih.line_eq, ih.start_eq]
    exact Nat.min_eq_left (Nat.min_le_right ..)
  | suggest text tooltip? h ih => exact ih.suggest text tooltip?
  | suggestNumber number h ih => exact ih.push rfl
  | @add b' other h hother ih ih' =>
    refine ⟨ih.line_eq, ih.start_eq, fun c hc => ?_⟩
    rcases List.mem_append.1 hc with hc | hc
    · exact ih.collected c hc
    · exact ih'.collected c hc

/-- Nothing is a set, too: that of a completer that has been started again. -/
theorem yields_none (b : Completer) : b.Yields .none := .finished (.restart .handed)

theorem kept_nothing : Kept fun _ => .ok .none := by
  rintro b s ⟨⟩
  exact b.yields_none

theorem Grows.foldl_suggestIf (p : String → Completer → Bool) (texts : List String)
    (h : b.Grows b') :
    b.Grows (texts.foldl (fun b text => if p text b then b.suggest text else b) b') := by
  induction texts generalizing b' with
  | nil => exact h
  | cons text texts ih =>
    refine ih ?_
    show b.Grows (if p text b' = true then b'.suggest text else b')
    split
    · exact h.suggest text none
    · exact h

theorem kept_suggestMatching (candidates : List String) :
    Kept fun b => .ok (b.suggestMatching candidates).finish := by
  rintro b s ⟨⟩
  exact .finished (Grows.foldl_suggestIf
    (fun text b => Text.startsWith (Text.lower text) b.typedLower) candidates .handed)

end Completer

/-- The set is made of completions for one span of a line. -/
def Completions.Replaces (s : Completions) (span : Span) : Prop :=
  ∃ line l, s = ofList line l ∧ ∀ c ∈ l, c.span = span

namespace Completions.Replaces

variable {s : Completions} {sets : List Completions} {span : Span} {c : Completion}

theorem span_of_mem (h : s.Replaces span) (hc : c ∈ s.list) : c.span = span := by
  obtain ⟨line, l, rfl, hl⟩ := h
  exact span_of_mem_ofList hl hc

theorem span_eq (h : s.Replaces span) (hne : s.list ≠ []) : s.span = span := by
  obtain ⟨line, l, rfl, hl⟩ := h
  exact span_ofList_of_span line (fun hnil => hne (list_eq_nil_iff.2 hnil)) hl

/-- Sets for one span are merged to a set for that span, whatever line they are merged for. -/
theorem merge (line : String) (h : ∀ s ∈ sets, s.Replaces span) :
    (Completions.merge line sets).Replaces span := by
  have hmade : ∀ s ∈ sets, s.Made := by
    intro s hs
    obtain ⟨line', l, rfl, -⟩ := h s hs
    exact made_ofList line' l
  refine ⟨line, _, merge_eq_ofList hmade, fun c hc => ?_⟩
  obtain ⟨s, hs, hc⟩ := List.mem_flatMap.1 hc
  exact (h s hs).span_of_mem hc

end Completions.Replaces

/-- What a fresh completer yields is for its span. -/
theorem Completer.Yields.replaces {line : String} {start : Nat} {s : Completions}
    (h : (ofLine line start).Yields s) : s.Replaces (ofLine line start).span := by
  induction h with
  | finished h =>
    obtain ⟨hfinish, hspan⟩ := h.extends.fresh
    exact ⟨line, _, hfinish, hspan⟩
  | merged line' h ih => exact .merge line' ih

/-- What completes an argument, the provider if there is one and its type otherwise, keeps to the
completer that it is handed. -/
def Node.Kept (n : Node Source Command Modifier) : Prop :=
  ∀ name type provider?, n.label? = some (.argument name type provider?) →
    match provider? with
    | none => Completer.Kept type.complete
    | some provider => ∀ context, Completer.Kept (provider context)

/-- Every node of the tree keeps to the completers that it is handed. -/
def Tree.Kept (t : Tree Source Command Modifier) : Prop := ∀ id, (t.node id).Kept

/-- A literal keeps to its completer in any case. -/
theorem Node.Kept.complete {n : Node Source Command Modifier} (h : n.Kept)
    (context : Context Source Command Modifier) : Completer.Kept (n.complete context) := by
  intro b s hs
  unfold Node.complete at hs
  cases hlabel : n.label? with
  | none =>
    simp only [hlabel] at hs
    obtain rfl := Except.ok.inj hs
    exact b.yields_none
  | some label =>
    cases label with
    | literal word =>
      simp only [hlabel] at hs
      split at hs
      · obtain rfl := Except.ok.inj hs
        exact .finished (.suggest word none .handed)
      · obtain rfl := Except.ok.inj hs
        exact b.yields_none
    | argument name type provider? =>
      have hkept := h name type provider? hlabel
      cases provider? with
      | none =>
        simp only [hlabel] at hs
        exact hkept b s hs
      | some provider =>
        simp only [hlabel] at hs
        exact hkept context b s hs

/-- The types that are built in do so, too. -/
theorem ArgumentType.BuiltIn.kept {type : ArgumentType} (h : type.BuiltIn) :
    Completer.Kept type.complete := by
  cases h with
  | number t minimum maximum => exact Completer.kept_nothing
  | text kind => exact Completer.kept_nothing
  | bool =>
    rintro b s hs
    obtain rfl := Except.ok.inj hs
    exact .finished (Completer.Grows.foldl_suggestIf
      (fun text b => Text.startsWith text b.typedLower) ["true", "false"] .handed)

namespace Tree

variable {t : Tree Source Command Modifier}

/-- What the children of a node propose from an offset on is for the text from there to the end. -/
theorem Kept.replaces_proposals (h : t.Kept) (r : Reading Source Command Modifier)
    (parent : NodeId) (line : String) (start : Nat) :
    ∀ s ∈ r.proposals t parent line start, s.Replaces (Completer.ofLine line start).span := by
  intro s hs
  obtain ⟨child, -, hchild⟩ := List.mem_filterMap.1 hs
  dsimp only at hchild
  split at hchild
  · cases hset : (t.node child).complete (r.route.context line) (.ofLine line start) with
    | error f =>
      rw [hset] at hchild
      cases hchild
    | ok s' =>
      rw [hset] at hchild
      obtain rfl := Option.some.inj hchild
      exact ((h child).complete _ _ _ hset).replaces
  · cases hchild

/-- So all completions at an offset are for the text from where the place for them starts. -/
theorem Kept.replaces_completionsAt (h : t.Kept) {r : Reading Source Command Modifier}
    {offset start : Nat} {before : List Char}
    (hcut : (Text.cutAtMost r.cursor.chars offset).1 = before)
    (hfound : (r.route.completionPoint? (Text.bytes before)).map CompletionPoint.start = some start)
    (hle : start ≤ Text.bytes before) :
    (r.completionsAt t offset).Replaces ⟨start, Text.bytes before⟩ := by
  obtain ⟨point, hpoint, rfl⟩ := Option.map_eq_some_iff.1 hfound
  have hspan : (Completer.ofLine (String.ofList before) point.start).span =
      ⟨point.start, Text.bytes before⟩ := by
    simp [Completer.ofLine, Completer.span, Nat.min_eq_left hle]
  rw [Reading.completionsAt_of_point hcut hpoint hle, ← hspan]
  exact .merge _ (h.replaces_proposals r point.parent (String.ofList before) point.start)

/--
**Completions replace what is typed.**

Read a line from a cursor on, in a tree of which no provider moves the completer that it is
handed, and ask for completions at any offset.  What counts is the last boundary `n` of the
line that is not after the offset.  If it lies before the cursor, there are no completions.
Otherwise some match of the hop that holds `n` holds it, too, or it lies beyond all matches.
Let `start` be where the first such match starts, or one space after the last match, or where
the hop starts that has none.  This is a boundary and not after `n`, every completion is for
the text between the two, and so is their set, and accepting one puts its text in the place of
that and leaves the rest of the line as it is.
-/
theorem completions_replace (h : t.Kept) (c : Cursor) (source : Source) (offset : Nat) :
    ∃ n, IsGreatest {k | Text.Boundary c.line k ∧ k ≤ offset} n ∧
      (n < c.offset → (t.readAt c source).completionsAt t offset = .none) ∧
      (c.offset ≤ n →
        let route := (t.readAt c source).route
        let set := (t.readAt c source).completionsAt t offset
        let start := (route.hopAt n).startAt n
        ((∃ m ∈ (route.hopAt n).nodes, m.span.Holds n) ∨
            ∀ hop ∈ route.hops, ∀ m ∈ hop.nodes, m.span.stop < n) ∧
          start ≤ n ∧ Text.Boundary c.line start ∧
          (set.list ≠ [] → set.span = ⟨start, n⟩) ∧
          ∀ x ∈ set.list, x.span = ⟨start, n⟩ ∧
            x.apply c.line = (Span.mk 0 start).text c.line ++ x.text ++
              (Span.mk n (Text.bytes c.line.toList)).text c.line) := by
  obtain ⟨hreaches, hshaped, htrail⟩ := t.readAt_sound c source
  have hgreatest := Text.isGreatest_cutAtMost c.line offset
  have hline : (t.readAt c source).cursor.line = c.line := hreaches.line_eq
  generalize hcut : (Text.cutAtMost c.line.toList offset).1 = before at hgreatest
  have hcut' : (Text.cutAtMost (t.readAt c source).cursor.chars offset).1 = before := by
    rw [← hcut, ← hline, Cursor.line, String.toList_ofList]
  refine ⟨Text.bytes before, hgreatest, fun hlt => ?_, fun hle => ?_⟩
  · have hfirst : (t.readAt c source).route.first.span.start = c.offset := by rw [hshaped.span_eq]
    exact Reading.completionsAt_of_none hcut' (Hop.point_before (hfirst ▸ hlt))
  · have hend : Text.bytes before ≤ Text.bytes c.line.toList := hgreatest.1.1.le_end
    have hplaced := hshaped.placed htrail c.boundary_offset hle hend
    have hreplaces := h.replaces_completionsAt hcut' hplaced.found hplaced.le
    refine ⟨hplaced.held, hplaced.le, hplaced.boundary, hreplaces.span_eq, fun x hx => ?_⟩
    have hspan := hreplaces.span_of_mem hx
    have hfits : x.span.Fits c.line := hspan ▸ ⟨hplaced.boundary, hgreatest.1.1, hplaced.le⟩
    refine ⟨hspan, ?_⟩
    rw [x.apply_eq hfits, hspan]

end Tree

/-- A literal with two arguments, of which the one has sizes proposed and the other's provider
fails, and a truth value below the first. -/
def sizesTree : Except Tree.MissingNode (Tree Unit Unit Unit) := do
  let sizes : Provider Unit Unit Unit := fun _ b => .ok (b.suggestMatching ["m", "xl"]).finish
  let offline : Provider Unit Unit Unit := fun _ _ => .error (.custom "offline")
  let size : Draft Unit Unit Unit :=
    { label := .argument "size" (.text .word) (some sizes), children := [.argument "sold" .bool] }
  let other : Draft Unit Unit Unit := { label := .argument "other" (.text .word) (some offline) }
  let (t, _) ← Tree.empty.register { Draft.literal "größe" with children := [size, other] }
  return t

theorem kept_sizesTree {t : Tree Unit Unit Unit} (h : sizesTree = .ok t) : t.Kept := by
  refine Tree.forall_node (p := Node.Kept) nofun ?_
  intro i hi name type provider? hlabel
  have hsize : t.size = 5 := by
    obtain rfl := Except.ok.inj h
    rfl
  obtain rfl | rfl | rfl | rfl | rfl : i = 0 ∨ i = 1 ∨ i = 2 ∨ i = 3 ∨ i = 4 := by omega
  all_goals
    obtain rfl := Except.ok.inj h
    cases hlabel
  · exact fun context => Completer.kept_suggestMatching ["m", "xl"]
  · exact ArgumentType.BuiltIn.bool.kept
  · rintro context b s ⟨⟩

theorem completionsAt_sizesTree {t : Tree Unit Unit Unit} (h : sizesTree = .ok t) :
    (t.readAt ⟨['!'], "größe xé".toList⟩ ()).completionsAt t 11 =
      .ofList "!größe x" [{ span := ⟨9, 10⟩, text := "xl" }] := by
  obtain rfl := Except.ok.inj h
  rfl

/-- The line is read from behind its first character, and asked about inside its last one.  The size
is put in the place of what is typed of it up to there. -/
theorem completions_replace_sizes : ∃ t, sizesTree = .ok t ∧ t.Kept ∧
    let set := (t.readAt ⟨['!'], "größe xé".toList⟩ ()).completionsAt t 11
    set.list ≠ [] ∧ set.span = ⟨9, 10⟩ ∧
      ∀ x ∈ set.list, x.apply "!größe xé" = "!größe " ++ x.text ++ "é" := by
  cases h : sizesTree with
  | error e => cases h
  | ok t =>
    have hkept := kept_sizesTree h
    obtain ⟨n, hn, -, hafter⟩ := Tree.completions_replace hkept ⟨['!'], "größe xé".toList⟩ () 11
    obtain rfl : n = 10 := hn.unique (Text.isGreatest_cutAtMost "!größe xé" 11)
    have hset : ((t.readAt ⟨['!'], "größe xé".toList⟩ ()).completionsAt t 11).list ≠ [] := by
      rw [completionsAt_sizesTree h, Ne, Completions.list_eq_nil_iff]
      nofun
    obtain ⟨-, -, -, hspan, hlist⟩ := hafter (by decide)
    obtain rfl := Except.ok.inj h
    exact ⟨_, rfl, hkept, hset, hspan hset, fun x hx => (hlist x hx).2⟩

end CommandLines
