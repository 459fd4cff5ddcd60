/-
The one way through a line.

In an ordinary tree at most one child is tried at each place, so reading has no choice.  A
line is read in stages, each of them one token and one space after the one before, and
`Stage` says where reading stands and what it has got.

Three facts about stages carry what is proved about completions and about defaults.  The
whole reading is what has got done before a stage and what is read from there on
(`Stage.typed_eq`).  A stage does not depend on what is ahead of it (`Stage.again`).  And
there is a last one, where no child is followed by a space (`exists_last`).
-/
import CommandLines.Proofs.Reading.Delimited
import CommandLines.Proofs.Reading.Soundness
import CommandLines.Proofs.Span
import CommandLines.Tree.Register

namespace CommandLines

variable {Source Command Modifier : Type}

/-! ### Readings after other hops -/

namespace Reading

/-- The reading that goes on after these hops. -/
def after : List (Hop Source Command Modifier) → Reading Source Command Modifier →
    Reading Source Command Modifier
  | [], r => r
  | h :: done, r => { r with route := { first := h, later := (r.after done).route.hops } }

variable {done : List (Hop Source Command Modifier)} {r : Reading Source Command Modifier}

@[simp]
theorem hops_after : (r.after done).route.hops = done ++ r.route.hops := by
  induction done with
  | nil => rfl
  | cons h done ih =>
    show h :: (r.after done).route.hops = _
    rw [ih, List.cons_append]

@[simp]
theorem cursor_after : (r.after done).cursor = r.cursor := by
  cases done <;> rfl

theorem after_concat (h : Hop Source Command Modifier) :
    r.after (done ++ [h]) =
      ({ r with route := { first := h, later := r.route.hops } } :
        Reading Source Command Modifier).after done := by
  induction done with
  | nil => rfl
  | cons g done ih => simp [after, ih]

theorem last_after : (r.after done).route.last = r.route.last := by
  induction done with
  | nil => rfl
  | cons h done ih =>
    show ((r.after done).route.first :: (r.after done).route.later).getLastD h = _
    rw [List.getLastD_cons]
    exact ih

end Reading

namespace Cursor

variable {c : Cursor}

theorem has_one (h : c.atEnd = false) : c.has 1 = true := by
  cases hc : c.ahead with
  | nil => simp [atEnd, hc] at h
  | cons d rest =>
    have hd := d.utf8Size_pos
    simp only [has, bytesAhead, hc, Text.bytes_cons, decide_eq_true_eq]
    omega

/-- A space and no more than one byte is a space at the end of the line. -/
theorem skip_atEnd (h : c.atSeparator = true) (hopen : c.atEnd = false) (hlen : ¬c.has 2 = true) :
    c.skip.atEnd = true := by
  obtain ⟨rest, hc⟩ := ahead_of_atSeparator h hopen
  have hs : separator.utf8Size = 1 := by decide
  simp only [has, bytesAhead, hc, Text.bytes_cons, hs, decide_eq_true_eq] at hlen
  have hrest : rest = [] := Text.bytes_eq_zero.1 (by omega)
  simp [atEnd, ahead_skip hc, hrest]

end Cursor

namespace Tree

variable {t : Tree Source Command Modifier} {source : Source} {line : String} {id child : NodeId}
  {c after : Cursor} {hop grown : Hop Source Command Modifier}

@[simp]
theorem cursor_filled (r : Reading Source Command Modifier) :
    (t.filled r).cursor = r.cursor := by
  unfold filled
  split <;> rfl

theorem filled_after (done : List (Hop Source Command Modifier))
    (r : Reading Source Command Modifier) : t.filled (r.after done) = (t.filled r).after done := by
  induction done with
  | nil => rfl
  | cons h done ih =>
    unfold filled at ih ⊢
    simp only [Reading.cursor_after] at ih ⊢
    by_cases hend : r.cursor.atEnd = true
    · simp only [Reading.after, hend, if_true] at ih ⊢
      rw [mapLast_hops, ← ih]
    · simp [Reading.after, hend]

/-! ### One step of reading -/

theorem takeWhole_of_whole? (h : (t.node child).whole? c = some after)
    (hop : Hop Source Command Modifier) :
    ∃ grown, (t.node child).takeWhole child c hop = .ok (after, grown) := by
  have htake := Node.takeWhole_after (t.node child) child c hop
  rw [h] at htake
  cases heq : (t.node child).takeWhole child c hop with
  | error f => simp [heq, Except.toOption] at htake
  | ok result =>
    obtain ⟨place, grown⟩ := result
    obtain rfl : place = after := by simpa [heq, Except.toOption] using htake
    exact ⟨grown, rfl⟩

/-- Reading stops where no child that is tried matches. -/
theorem readFrom_stops (steps : Nat)
    (h : ∀ child ∈ t.usable hop.source id c, (t.node child).whole? c = none) :
    ∃ faults, t.readFrom (steps + 1) id c hop =
      { route := { first := hop }, cursor := c, faults } := by
  have hnot : ∀ child ∈ t.usable hop.source id c, ∀ after grown,
      (t.node child).takeWhole child c hop ≠ .ok (after, grown) := by
    intro child hchild after grown htake
    simpa [h child hchild] using Node.whole?_of_takeWhole htake
  have hcomes := t.readFrom_comes (steps + 1) id c hop
  generalize t.readFrom (steps + 1) id c hop = r at hcomes
  cases hcomes with
  | stops faults => exact ⟨faults, rfl⟩
  | ends hchild htake => exact absurd htake (hnot _ hchild _ _)
  | descends hchild htake => exact absurd htake (hnot _ hchild _ _)
  | redirects hchild htake => exact absurd htake (hnot _ hchild _ _)

/-- What the one child that is tried comes to is what reading comes to. -/
theorem readFrom_single (steps : Nat) (h : t.usable hop.source id c = [child])
    (htake : (t.node child).takeWhole child c hop = .ok (after, grown)) :
    t.readFrom (steps + 1) id c hop =
      match (t.node child).redirect? with
      | some redirect =>
        if after.has 1 then
          (t.readFrom steps redirect.target after.skip
            (.start hop.source redirect.target after.skip.offset)).after [grown]
        else { route := { first := grown }, cursor := after }
      | none =>
        if after.has 2 then t.readFrom steps child after.skip grown
        else { route := { first := grown }, cursor := after } := by
  have hsource := Node.source_of_takeWhole htake
  simp only [Arena.readFrom, Arena.level, h, tryEach, Arena.tryChild, htake, hsource]
  cases hredirect : (t.node child).redirect? with
  | none =>
    by_cases hlen : after.has 2 = true
    · simp [hlen, Except.map, Reading.best]
    · simp [hlen, Except.map, Reading.best]
  | some redirect =>
    by_cases hlen : after.has 1 = true
    · simp [hlen, Reading.after]
    · simp [hlen, Except.map, Reading.best]

/-! ### Stages -/

/-- A stage in reading a line: the hops that are done, the node below which reading goes on, the
place from which it does, and the hop so far. -/
inductive Stage (t : Tree Source Command Modifier) (source : Source) (line : String) :
    List (Hop Source Command Modifier) → NodeId → Cursor → Hop Source Command Modifier → Prop where
  /-- Nothing is read yet. -/
  | start : Stage t source line [] .root (.ofLine line) (.start source .root 0)
  /-- The hop goes on below a child after which something follows. -/
  | descends {done : List (Hop Source Command Modifier)} {id child : NodeId} {c after : Cursor}
      {hop grown : Hop Source Command Modifier} (before : Stage t source line done id c hop)
      (hchild : t.usable source id c = [child])
      (htake : (t.node child).takeWhole child c hop = .ok (after, grown))
      (hopen : after.atEnd = false) (hredirect : (t.node child).redirect? = none) :
      Stage t source line done child after.skip grown
  /-- The hop is done with a child that redirects, and something follows. -/
  | redirects {done : List (Hop Source Command Modifier)} {id child : NodeId} {c after : Cursor}
      {hop grown : Hop Source Command Modifier} {redirect : Redirect Modifier}
      (before : Stage t source line done id c hop) (hchild : t.usable source id c = [child])
      (htake : (t.node child).takeWhole child c hop = .ok (after, grown))
      (hopen : after.atEnd = false) (hredirect : (t.node child).redirect? = some redirect) :
      Stage t source line (done ++ [grown]) redirect.target after.skip
        (.start source redirect.target after.skip.offset)

variable {done : List (Hop Source Command Modifier)}

theorem Stage.source_eq (h : t.Stage source line done id c hop) : hop.source = source := by
  induction h with
  | start => rfl
  | descends before hchild htake hopen hredirect ih =>
    rw [Node.source_of_takeWhole htake, ih]
  | redirects before hchild htake hopen hredirect ih => rfl

/-- A stage is a place in the line. -/
theorem Stage.chars_eq (h : t.Stage source line done id c hop) : c.chars = line.toList := by
  have hskip {c after : Cursor} {child : NodeId} {hop grown : Hop Source Command Modifier}
      (htake : (t.node child).takeWhole child c hop = .ok (after, grown)) :
      after.skip.chars = c.chars := by
    have hreaches := Node.reaches_of_whole? (Node.whole?_of_takeWhole htake)
    exact (hreaches.trans (Cursor.reaches_skip after)).chars_eq
  induction h with
  | start => rfl
  | descends before hchild htake hopen hredirect ih => rw [hskip htake, ih]
  | redirects before hchild htake hopen hredirect ih => rw [hskip htake, ih]

/-- A place from which something is matched that something follows is not the end of the line, and
more is ahead of it than after the space that follows. -/
theorem open_of_takeWhole (htake : (t.node child).takeWhole child c hop = .ok (after, grown))
    (hopen : after.atEnd = false) :
    c.atEnd = false ∧ after.skip.ahead.length < c.ahead.length := by
  have hreaches := Node.reaches_of_whole? (Node.whole?_of_takeWhole htake)
  refine ⟨?_, Nat.lt_of_lt_of_le (Cursor.ahead_length_skip hopen) hreaches.ahead_length_le⟩
  cases hend : c.atEnd with
  | false => rfl
  | true => simp [hreaches.atEnd hend] at hopen

/-- The reading of what is typed, before any defaults are taken. -/
def typed (t : Tree Source Command Modifier) (line : String) (source : Source) :
    Reading Source Command Modifier :=
  t.readFrom ((Cursor.ofLine line).ahead.length + 1) .root (.ofLine line) (.start source .root 0)

theorem read_eq_filled (t : Tree Source Command Modifier) (line : String) (source : Source) :
    t.read line source = t.filled (t.typed line source) := rfl

/-- What is typed is read as the hops that are done before a stage, and what is read from there on.
But a single space at the end of the line is left over, unless another hop starts after it. -/
theorem Stage.typed_eq (h : t.Stage source line done id c hop) :
    ((hop.nodes ≠ [] → c.atEnd = false) ∧ ∃ steps, c.ahead.length < steps + 1 ∧
        t.typed line source = (t.readFrom (steps + 1) id c hop).after done) ∨
      hop.nodes ≠ [] ∧ c.atEnd = true ∧ ∃ cursor, cursor.atEnd = false ∧
        t.typed line source =
          ({ route := { first := hop }, cursor } : Reading _ _ _).after done := by
  induction h with
  | start => exact .inl ⟨fun hne => absurd rfl hne, _, Nat.lt_succ_self _, rfl⟩
  | @descends done id child c after hop grown before hchild htake hopen hredirect ih =>
    obtain ⟨hc, hlt⟩ := open_of_takeWhole htake hopen
    rcases ih with ⟨-, steps, hsteps, heq⟩ | ⟨-, hend, -⟩
    · obtain ⟨steps, rfl⟩ : ∃ n, steps = n + 1 := ⟨steps - 1, by omega⟩
      rw [← before.source_eq] at hchild
      rw [t.readFrom_single _ hchild htake, hredirect] at heq
      have hsep := (Node.whole?_eq_some_iff.1 (Node.whole?_of_takeWhole htake)).2
      have hnodes : grown.nodes ≠ [] := by
        rw [(grown_of_takeWhole (hchild ▸ List.mem_singleton_self child) htake).nodes_eq]
        simp
      by_cases hlen : after.has 2 = true
      · exact .inl ⟨fun _ => Cursor.skip_not_atEnd hsep hlen, steps, by omega,
          by simpa [hlen] using heq⟩
      · exact .inr ⟨hnodes, Cursor.skip_atEnd hsep hopen hlen, after, hopen,
          by simpa [hlen] using heq⟩
    · simp [hc] at hend
  | @redirects done id child c after hop grown redirect before hchild htake hopen hredirect ih =>
    obtain ⟨hc, hlt⟩ := open_of_takeWhole htake hopen
    rcases ih with ⟨-, steps, hsteps, heq⟩ | ⟨-, hend, -⟩
    · obtain ⟨steps, rfl⟩ : ∃ n, steps = n + 1 := ⟨steps - 1, by omega⟩
      have hsource := before.source_eq
      rw [← hsource] at hchild
      rw [t.readFrom_single _ hchild htake, hredirect, hsource] at heq
      refine .inl ⟨fun hne => absurd rfl hne, steps, by omega, ?_⟩
      rw [Reading.after_concat]
      simpa [Cursor.has_one hopen, Reading.after] using heq
    · simp [hc] at hend

/-- If one child only is tried at a stage, and it takes the line to its end, it is the last that is
typed. -/
theorem Stage.typed_of_only (h : t.Stage source line done id c hop) (hopen : c.atEnd = false)
    (hchild : t.usable source id c = [child])
    (htake : (t.node child).takeWhole child c hop = .ok (after, grown))
    (hend : after.atEnd = true) :
    t.typed line source =
      ({ route := { first := grown }, cursor := after } : Reading _ _ _).after done := by
  have hlen (n : Nat) : ¬after.has (n + 1) = true := by
    intro hlen
    simp [Cursor.atEnd_of_has hlen] at hend
  rcases h.typed_eq with ⟨-, steps, -, heq⟩ | ⟨-, hc, -⟩
  · rw [← h.source_eq] at hchild
    rw [heq, t.readFrom_single steps hchild htake]
    cases (t.node child).redirect? with
    | none => simp only [if_neg (hlen 1)]
    | some redirect => simp only [if_neg (hlen 0)]
  · simp [hopen] at hc

/-- From a stage on, either nothing more is matched, or the one child that is tried is, and the hop
grows by it and by what follows. -/
theorem Stage.typed_cases (ht : t.Ordinary) (h : t.Stage source line done id c hop) :
    (∃ cursor faults, t.typed line source =
        ({ route := { first := hop }, cursor, faults } : Reading _ _ _).after done ∧
      (hop.nodes ≠ [] → cursor.atEnd = false) ∧
      (c.atEnd = false → ∀ child ∈ t.usable source id c, (t.node child).whole? c = none)) ∨
      ∃ child after grown r, t.usable source id c = [child] ∧
        (t.node child).takeWhole child c hop = .ok (after, grown) ∧
        t.typed line source = r.after done ∧
        (∃ ms, t.Grown c.line grown ms (t.filled r).route.first) ∧
        (after.atEnd = true → r = { route := { first := grown }, cursor := after }) := by
  have hsource := h.source_eq
  rcases h.typed_eq with ⟨hopen, steps, -, heq⟩ | ⟨-, hend, cursor, hcursor, heq⟩
  · by_cases hmatch : ∃ child ∈ t.usable source id c, ∃ after,
        (t.node child).whole? c = some after
    · obtain ⟨child, hchild, after, hwhole⟩ := hmatch
      obtain ⟨grown, htake⟩ := takeWhole_of_whole? hwhole hop
      have hsep := (Node.whole?_eq_some_iff.1 hwhole).2
      have hline := (Node.reaches_of_whole? hwhole).line_eq
      have husable := ht.usable_eq hchild
      have hgrown := grown_of_takeWhole (by rwa [hsource]) htake
      -- where nothing follows, the hop grows by defaults only
      have hends : ∃ ms, t.Grown c.line grown ms
          (t.filled { route := { first := grown }, cursor := after }).route.first := by
        obtain ⟨ms, hms, -⟩ := filled_ends (c := after) hgrown.nodes_eq hgrown.command_eq
        rw [hline] at hms
        exact ⟨ms, hms⟩
      rw [t.readFrom_single steps (by rwa [hsource]) htake] at heq
      refine .inr ⟨child, after, grown, _, husable, htake, heq, ?_, ?_⟩
      · split
        · split
          · rw [filled_after]
            exact ⟨[], .refl grown⟩
          · exact hends
        · split
          · next hlen =>
            have hskip : after.skip.line = c.line :=
              (Cursor.reaches_skip after).line_eq.trans hline
            obtain ⟨-, ms, hms, -⟩ := (t.readFrom_comes steps child after.skip grown).trail
              fun _ => Cursor.skip_not_atEnd hsep hlen
            rw [hskip] at hms
            exact ⟨ms, hms⟩
          · exact hends
      · intro hend
        have hlen (n : Nat) : ¬after.has (n + 1) = true := by
          intro hlen
          simp [Cursor.atEnd_of_has hlen] at hend
        split
        · exact if_neg (hlen 0)
        · exact if_neg (hlen 1)
    · have hstops : ∀ child ∈ t.usable hop.source id c, (t.node child).whole? c = none := by
        intro child hchild
        rw [hsource] at hchild
        cases hwhole : (t.node child).whole? c with
        | none => rfl
        | some after => exact absurd ⟨child, hchild, after, hwhole⟩ hmatch
      obtain ⟨faults, hstop⟩ := t.readFrom_stops steps hstops
      rw [hstop] at heq
      exact .inl ⟨c, faults, heq, hopen, fun _ => hsource ▸ hstops⟩
  · exact .inl ⟨cursor, [], heq, fun _ => hcursor, by simp [hend]⟩

/-- What takes the line to its end from a stage on is the last that is typed. -/
theorem Stage.typed_of_end (ht : t.Ordinary) (h : t.Stage source line done id c hop)
    (hopen : c.atEnd = false) (hchild : child ∈ t.usable source id c)
    (htake : (t.node child).takeWhole child c hop = .ok (after, grown))
    (hend : after.atEnd = true) :
    t.typed line source =
      ({ route := { first := grown }, cursor := after } : Reading _ _ _).after done :=
  h.typed_of_only hopen (ht.usable_eq hchild) htake hend

/-! ### Other texts ahead -/

/-- The child that matches at a place is tried there and matches in the same way, whatever follows
its match after a space. -/
theorem tried_again (ht : t.Ordinary) (hchild : t.usable source id c = [child])
    (htake : (t.node child).takeWhole child c hop = .ok (after, grown))
    (hrest : (t.node child).TakesRest → after.atEnd = false) :
    ∃ w, c.ahead = w ++ after.ahead ∧ after.behind = w.reverse ++ c.behind ∧
      ∀ rest, (Cursor.mk after.behind rest).atSeparator = true →
        t.usable source id ⟨c.behind, w ++ rest⟩ = [child] ∧
          (t.node child).takeWhole child ⟨c.behind, w ++ rest⟩ hop =
            .ok (⟨after.behind, rest⟩, grown) := by
  have hmem : child ∈ t.usable source id c := by
    rw [hchild]
    exact List.mem_singleton_self child
  have hsep := (Node.whole?_eq_some_iff.1 (Node.whole?_of_takeWhole htake)).2
  obtain ⟨w, hahead, hbehind, hagain⟩ := Node.takeWhole_again (ht.of_usable hmem) htake hrest
  refine ⟨w, hahead, hbehind, fun rest hsep' => ⟨?_, hagain rest hsep'⟩⟩
  have hc : c = ⟨c.behind, w ++ after.ahead⟩ := by rw [← hahead]
  rw [← hchild, hc]
  exact usable_congr (Cursor.wordAhead_again hsep' hsep c.behind)

/-- A stage does not depend on what is ahead: the same hops are done, and the hop is the same, in
every line that is the same up to there. -/
theorem Stage.again (ht : t.Ordinary) (h : t.Stage source line done id c hop) (rest : List Char) :
    t.Stage source (String.ofList (c.behind.reverse ++ rest)) done id ⟨c.behind, rest⟩ hop := by
  -- the place after a token and a space is reached by the token and a space before any text
  have hstep {c after : Cursor} {w : List Char} (hopen : after.atEnd = false)
      (hsep : after.atSeparator = true) (hbehind : after.behind = w.reverse ++ c.behind)
      (rest : List Char) :
      c.behind.reverse ++ (w ++ Cursor.separator :: rest) = after.skip.behind.reverse ++ rest ∧
        (Cursor.mk after.behind (Cursor.separator :: rest)).skip = ⟨after.skip.behind, rest⟩ := by
    obtain ⟨more, hmore⟩ := Cursor.ahead_of_atSeparator hsep hopen
    simp [Cursor.skip, hmore, hbehind]
  induction h generalizing rest with
  | start =>
    have hline : Cursor.ofLine (String.ofList rest) = ⟨[], rest⟩ := by simp [Cursor.ofLine]
    have hstart : t.Stage source (String.ofList rest) [] .root (.ofLine (String.ofList rest))
      (.start source .root 0) := .start
    simpa [hline, Cursor.ofLine] using hstart
  | @descends done id child c after hop grown before hchild htake hopen hredirect ih =>
    have hsep := (Node.whole?_eq_some_iff.1 (Node.whole?_of_takeWhole htake)).2
    obtain ⟨w, -, hbehind, hagain⟩ := tried_again ht hchild htake fun _ => hopen
    obtain ⟨husable, htake'⟩ := hagain (Cursor.separator :: rest) rfl
    obtain ⟨hline, hskip⟩ := hstep hopen hsep hbehind rest
    have hnext := (ih (w ++ Cursor.separator :: rest)).descends husable htake' rfl hredirect
    rwa [hline, hskip] at hnext
  | @redirects done id child c after hop grown redirect before hchild htake hopen hredirect ih =>
    have hsep := (Node.whole?_eq_some_iff.1 (Node.whole?_of_takeWhole htake)).2
    obtain ⟨w, -, hbehind, hagain⟩ := tried_again ht hchild htake fun _ => hopen
    obtain ⟨husable, htake'⟩ := hagain (Cursor.separator :: rest) rfl
    obtain ⟨hline, hskip⟩ := hstep hopen hsep hbehind rest
    have hnext := (ih (w ++ Cursor.separator :: rest)).redirects husable htake' rfl hredirect
    rwa [hline, hskip] at hnext

/-- What takes a line to its end is followed by another stage in a line that goes on after a space.
-/
theorem Stage.goes_on (ht : t.Ordinary) (h : t.Stage source line done id c hop)
    (hchild : t.usable source id c = [child])
    (htake : (t.node child).takeWhole child c hop = .ok (after, grown)) (hend : after.atEnd = true)
    (hrest : ¬(t.node child).TakesRest) (hredirect : (t.node child).redirect? = none)
    (words : List Char) :
    t.Stage source (String.ofList (line.toList ++ Cursor.separator :: words)) done child
      ⟨Cursor.separator :: after.behind, words⟩ grown := by
  obtain ⟨w, hahead, hbehind, hagain⟩ :=
    tried_again ht hchild htake fun h => absurd h hrest
  have hw : c.ahead = w := by
    have hnil : after.ahead = [] := by simpa [Cursor.atEnd] using hend
    simpa [hnil] using hahead
  obtain ⟨husable, htake'⟩ := hagain (Cursor.separator :: words) rfl
  have hnext := (h.again ht (w ++ Cursor.separator :: words)).descends husable htake' rfl hredirect
  rwa [← List.append_assoc, ← hw, ← Cursor.chars, h.chars_eq] at hnext

/-- There is a last stage: what matches there takes the line to its end. -/
theorem exists_last (ht : t.Ordinary) (line : String) (source : Source) :
    ∃ done id c hop, t.Stage source line done id c hop ∧
      ∀ child ∈ t.usable source id c, ∀ after, (t.node child).whole? c = some after →
        after.atEnd = true := by
  have hfrom : ∀ n, ∀ done id c hop, c.ahead.length = n → t.Stage source line done id c hop →
      ∃ done id c hop, t.Stage source line done id c hop ∧
        ∀ child ∈ t.usable source id c, ∀ after, (t.node child).whole? c = some after →
          after.atEnd = true := by
    intro n
    induction n using Nat.strongRecOn with
    | _ n ih =>
      intro done id c hop hn hstage
      by_cases hnext : ∃ child ∈ t.usable source id c, ∃ after,
          (t.node child).whole? c = some after ∧ after.atEnd = false
      · obtain ⟨child, hchild, after, hwhole, hopen⟩ := hnext
        obtain ⟨grown, htake⟩ := takeWhole_of_whole? hwhole hop
        have hlt := (open_of_takeWhole htake hopen).2
        have husable := ht.usable_eq hchild
        cases hredirect : (t.node child).redirect? with
        | none =>
          exact ih _ (hn ▸ hlt) _ _ _ _ rfl (hstage.descends husable htake hopen hredirect)
        | some redirect =>
          exact ih _ (hn ▸ hlt) _ _ _ _ rfl (hstage.redirects husable htake hopen hredirect)
      · refine ⟨done, id, c, hop, hstage, ?_⟩
        intro child hchild after hwhole
        cases hend : after.atEnd with
        | true => rfl
        | false => exact absurd ⟨child, hchild, after, hwhole, hend⟩ hnext
  exact hfrom _ _ _ _ _ rfl .start

/-- At the last stage of a line, nothing that is added to the line lets a match end before it. -/
theorem offset_le_of_last (ht : t.Ordinary) (hop : Hop Source Command Modifier)
    (hlast : ∀ child ∈ t.usable source id c, ∀ after, (t.node child).whole? c = some after →
      after.atEnd = true) {more : List Char}
    (hchild : child ∈ t.usable source id ⟨c.behind, c.ahead ++ more⟩)
    (hwhole : (t.node child).whole? ⟨c.behind, c.ahead ++ more⟩ = some after) :
    c.offset + c.bytesAhead ≤ after.offset := by
  by_cases hle : c.offset + c.bytesAhead ≤ after.offset
  · exact hle
  · exfalso
    -- the match would be followed by a space within the line, and so match in the line itself
    have hreaches := Node.reaches_of_whole? hwhole
    have hopen : after.atEnd = false := by
      cases hend : after.atEnd with
      | false => rfl
      | true =>
        have hoffset := Cursor.offset_of_atEnd hend
        rw [hreaches.line_eq, Cursor.bytes_line] at hoffset
        simp only [Cursor.length, Cursor.offset, Cursor.bytesAhead, Text.bytes_append]
          at hoffset hle
        omega
    obtain ⟨grown, htake⟩ := takeWhole_of_whole? hwhole hop
    obtain ⟨w, hahead, hbehind, hagain⟩ :=
      tried_again ht (ht.usable_eq hchild) htake fun _ => hopen
    simp only at hahead hbehind hagain
    have hw : Text.bytes w < Text.bytes c.ahead := by
      simp only [Cursor.offset, Cursor.bytesAhead, hbehind, Text.bytes_append,
        Text.bytes_reverse] at hle
      omega
    obtain ⟨rest, hrest, hmore⟩ := Text.exists_of_append_eq hahead.symm (Nat.le_of_lt hw)
    obtain ⟨tail, htail⟩ :=
      Cursor.ahead_of_atSeparator (Node.whole?_eq_some_iff.1 hwhole).2 hopen
    obtain ⟨tail', rfl⟩ : ∃ tail', rest = Cursor.separator :: tail' := by
      cases rest with
      | nil => simp [hrest] at hw
      | cons d tail' =>
        rw [htail, List.cons_append] at hmore
        exact ⟨tail', by rw [(List.cons.inj hmore).1]⟩
    obtain ⟨husable, htake'⟩ := hagain (Cursor.separator :: tail') rfl
    have hc : (⟨c.behind, w ++ Cursor.separator :: tail'⟩ : Cursor) = c := by rw [← hrest]
    rw [hc] at husable htake'
    have hend := hlast child (husable ▸ List.mem_singleton_self child) _
      (Node.whole?_of_takeWhole htake')
    simp [Cursor.atEnd] at hend

theorem forall_node {p : Node Source Command Modifier → Prop} (hbare : p .bare)
    (h : ∀ i < t.size, p (t.node ⟨i⟩)) (id : NodeId) : p (t.node id) := by
  by_cases hid : t.contains id = true
  · exact h id.index (Arena.contains_iff.1 hid)
  · rw [Arena.node_of_not_contains hid]
    exact hbare

end Tree

/-- The tree that comes of adding a literal `go`, which leads back to the root, and a literal `set`
with a number `n`, a truth value `b` and a literal `now` below each other, of which `n` and `b` have
defaults. -/
def loopingTree : Except Tree.MissingNode (Tree Unit Unit Unit) := do
  let now := (Draft.literal "now").runs ()
  let flag := { (Draft.argument "b" .bool).runs () with
    children := [now], default? := some (.bool true) }
  let number := { Draft.argument "n" (.number .int) with
    children := [flag], default? := some (.int 5) }
  let (t, _) ← Tree.empty.register { Draft.literal "go" with redirect? := some { target := .root } }
  let (t, _) ← t.register { Draft.literal "set" with children := [number] }
  return t

theorem size_loopingTree {t : Tree Unit Unit Unit} (h : loopingTree = .ok t) {i : Nat}
    (hi : i < t.size) : i = 0 ∨ i = 1 ∨ i = 2 ∨ i = 3 ∨ i = 4 ∨ i = 5 := by
  have hsize : t.size = 6 := by
    obtain rfl := Except.ok.inj h
    rfl
  omega

theorem ordinary_loopingTree {t : Tree Unit Unit Unit} (h : loopingTree = .ok t) :
    t.Ordinary := by
  refine ⟨Tree.forall_node (p := fun n => n.label?.isSome = true → n.Ordinary) nofun ?_,
    Tree.forall_node (p := fun n => n.arguments.length ≤ 1) (Nat.zero_le 1) ?_⟩
  · intro i hi hlabel
    obtain rfl | rfl | rfl | rfl | rfl | rfl := size_loopingTree h hi <;>
      obtain rfl := Except.ok.inj h
    · cases hlabel
    · exact .literal "go" rfl (by decide) (by decide)
    · exact .literal "set" rfl (by decide) (by decide)
    · exact .argument "n" _ none rfl (.number ..)
    · exact .argument "b" _ none rfl .bool
    · exact .literal "now" rfl (by decide) (by decide)
  · intro i hi
    obtain rfl | rfl | rfl | rfl | rfl | rfl := size_loopingTree h hi <;>
      obtain rfl := Except.ok.inj h <;> decide

end CommandLines
