/-
The steps of reading.

Reading tries the children of a node in turn and keeps one of the readings they lead to.
`tryEach_cases` and `tryChild_tries` say once what the trials come to, and `atEnd_best_iff`
what is kept, so that nothing after this file opens those definitions again.

`Comes` puts them together.  It says what reading on from a node may come to, with one
rule for each way in which a step can end, and leaves out which of the readings is kept.
Whatever holds of all of them holds of the one that is kept, however the others compare.
-/
import CommandLines.Proofs.Reading.Matching

namespace CommandLines

variable {Source Command Modifier : Type}

/-! ### Trials -/

namespace Trial

/-- Whether nothing else is tried. -/
def isSettled : Trial Source Command Modifier → Bool
  | .settles _ => true
  | .refused _ | .fits _ => false

/-- The reading of a child that matches and leaves the others to be tried. -/
def fit? : Trial Source Command Modifier → Option (Reading Source Command Modifier)
  | .fits r => some r
  | .refused _ | .settles _ => none

end Trial

namespace Tree

variable {t : Tree Source Command Modifier}

/-- The first child that settles the matter does so for all, and without one there are the readings
of those that match. -/
theorem tryEach_cases (attempt : NodeId → Trial Source Command Modifier) (ids : List NodeId) :
    (∃ id r, ids.find? (fun id => (attempt id).isSettled) = some id ∧ attempt id = .settles r ∧
        tryEach attempt ids = .error r) ∨
      ids.find? (fun id => (attempt id).isSettled) = none ∧
        ∃ faults, tryEach attempt ids =
          .ok (ids.filterMap fun id => (attempt id).fit?, faults) := by
  induction ids with
  | nil => exact .inr ⟨rfl, [], rfl⟩
  | cons id ids ih =>
    cases htrial : attempt id with
    | settles r =>
      refine .inl ⟨id, r, ?_, htrial, ?_⟩
      · simp [htrial, Trial.isSettled]
      · simp [tryEach, htrial]
    | refused f =>
      refine ih.imp ?_ ?_
      · intro hsettler
        obtain ⟨settler, r, hfind, hsettles, heq⟩ := hsettler
        exact ⟨settler, r, by simpa [htrial, Trial.isSettled] using hfind, hsettles,
          by simp [tryEach, htrial, heq, Except.map]⟩
      · intro hunsettled
        obtain ⟨hfind, faults, heq⟩ := hunsettled
        exact ⟨by simpa [htrial, Trial.isSettled] using hfind, (id, f) :: faults,
          by simp [tryEach, htrial, heq, Except.map, Trial.fit?]⟩
    | fits r =>
      refine ih.imp ?_ ?_
      · intro hsettler
        obtain ⟨settler, q, hfind, hsettles, heq⟩ := hsettler
        exact ⟨settler, q, by simpa [htrial, Trial.isSettled] using hfind, hsettles,
          by simp [tryEach, htrial, heq, Except.map]⟩
      · intro hunsettled
        obtain ⟨hfind, faults, heq⟩ := hunsettled
        exact ⟨by simpa [htrial, Trial.isSettled] using hfind, faults,
          by simp [tryEach, htrial, heq, Except.map, Trial.fit?]⟩

theorem tryEach_of_eq {attempt other : NodeId → Trial Source Command Modifier}
    {ids : List NodeId} (h : ∀ id ∈ ids, attempt id = other id) :
    tryEach attempt ids = tryEach other ids := by
  induction ids with
  | nil => rfl
  | cons id ids ih =>
    rw [tryEach, tryEach, h id List.mem_cons_self,
      ih fun id hid => h id (List.mem_cons_of_mem _ hid)]

/-- What trying a child may come to. -/
inductive Tries (t : Tree Source Command Modifier)
    (further : NodeId → Cursor → Hop Source Command Modifier → Reading Source Command Modifier)
    (c : Cursor) (hop : Hop Source Command Modifier) (id : NodeId) :
    Trial Source Command Modifier → Prop where
  | refused (f : Fault) (h : (t.node id).whole? c = none) : Tries t further c hop id (.refused f)
  | ends {after : Cursor} {grown : Hop Source Command Modifier}
      (htake : (t.node id).takeWhole id c hop = .ok (after, grown))
      (hgo : t.goesOn? id after = none) :
      Tries t further c hop id (.fits { route := { first := grown }, cursor := after })
  | descends {after : Cursor} {grown : Hop Source Command Modifier}
      (htake : (t.node id).takeWhole id c hop = .ok (after, grown))
      (hredirect : (t.node id).redirect? = none) (hlen : after.has 2 = true) :
      Tries t further c hop id (.fits (further id after.skip grown))
  | redirects {after : Cursor} {grown : Hop Source Command Modifier} {redirect : Redirect Modifier}
      {r : Reading Source Command Modifier}
      (htake : (t.node id).takeWhole id c hop = .ok (after, grown))
      (hredirect : (t.node id).redirect? = some redirect) (hlen : after.has 1 = true)
      (hr : further redirect.target after.skip
        (.start grown.source redirect.target after.skip.offset) = r) :
      Tries t further c hop id
        (.settles { r with route := { first := grown, later := r.route.hops } })

theorem tryChild_tries (t : Tree Source Command Modifier)
    (further : NodeId → Cursor → Hop Source Command Modifier → Reading Source Command Modifier)
    (c : Cursor) (hop : Hop Source Command Modifier) (id : NodeId) :
    t.Tries further c hop id (t.tryChild further c hop id) := by
  unfold Arena.tryChild
  simp only
  split
  · next f htake =>
    refine .refused f ?_
    rw [← Node.takeWhole_after _ id c hop, htake]
    rfl
  · next after grown htake =>
    split
    · next redirect hredirect =>
      split
      · next hlen => exact .redirects htake hredirect hlen rfl
      · next hlen => exact .ends htake (by simp [goesOn?, hredirect, hlen])
    · next hredirect =>
      split
      · next hlen => exact .descends htake hredirect hlen
      · next hlen => exact .ends htake (by simp [goesOn?, hredirect, hlen])

/-- What comes of trying a child depends on what is read further on from it, and on nothing else
that is read. -/
theorem tryChild_congr
    {further other :
      NodeId → Cursor → Hop Source Command Modifier → Reading Source Command Modifier}
    {c : Cursor} {hop : Hop Source Command Modifier} {id : NodeId}
    (descends : ∀ after grown, (t.node id).takeWhole id c hop = .ok (after, grown) →
      (t.node id).redirect? = none → after.has 2 = true →
      further id after.skip grown = other id after.skip grown)
    (redirects : ∀ after grown redirect, (t.node id).takeWhole id c hop = .ok (after, grown) →
      (t.node id).redirect? = some redirect → after.has 1 = true →
      let start := Hop.start grown.source redirect.target after.skip.offset
      further redirect.target after.skip start = other redirect.target after.skip start) :
    t.tryChild further c hop id = t.tryChild other c hop id := by
  unfold Arena.tryChild
  cases htake : (t.node id).takeWhole id c hop with
  | error f => simp only [htake]
  | ok result =>
    obtain ⟨after, grown⟩ := result
    cases hredirect : (t.node id).redirect? with
    | none =>
      by_cases hlen : after.has 2 = true
      · simp only [htake, hredirect, descends after grown htake hredirect hlen]
      · simp only [htake, hredirect, if_neg hlen]
    | some redirect =>
      by_cases hlen : after.has 1 = true
      · simp only [htake, hredirect, redirects after grown redirect htake hredirect hlen]
      · simp only [htake, hredirect, if_neg hlen]

end Tree

/-! ### Which reading is kept -/

namespace Reading

theorem best_mem (first : Reading Source Command Modifier)
    (others : List (Reading Source Command Modifier)) :
    best first others ∈ first :: others := by
  unfold best
  induction others generalizing first with
  | nil => exact List.mem_cons_self
  | cons r others ih =>
    rw [List.foldl_cons]
    split
    · exact List.mem_cons_of_mem _ (ih r)
    · refine List.mem_cons.2 ((List.mem_cons.1 (ih first)).imp id ?_)
      exact List.mem_cons_of_mem _

/-- No reading serves better than the one that is kept. -/
theorem badness_best_le {first r : Reading Source Command Modifier}
    {others : List (Reading Source Command Modifier)} (h : r ∈ first :: others) :
    (best first others).badness ≤ r.badness := by
  unfold best
  induction others generalizing first r with
  | nil => simp [List.mem_singleton.1 h]
  | cons q others ih =>
    rw [List.foldl_cons]
    split
    · next hlt =>
      rcases List.mem_cons.1 h with rfl | h
      · exact Nat.le_trans (ih List.mem_cons_self) (Nat.le_of_lt hlt)
      · exact ih h
    · next hlt =>
      rcases List.mem_cons.1 h with rfl | h
      · exact ih List.mem_cons_self
      · rcases List.mem_cons.1 h with rfl | h
        · exact Nat.le_trans (ih List.mem_cons_self) (Nat.le_of_not_lt hlt)
        · exact ih (List.mem_cons_of_mem _ h)

/-- Readings that take the whole line go before all others. -/
theorem atEnd_best_iff (first : Reading Source Command Modifier)
    (others : List (Reading Source Command Modifier)) :
    (best first others).cursor.atEnd = true ↔
      ∃ r ∈ first :: others, r.cursor.atEnd = true := by
  constructor
  · intro h
    exact ⟨_, best_mem first others, h⟩
  · intro hex
    obtain ⟨r, hr, hend⟩ := hex
    have hle := badness_best_le hr
    have hr2 : r.badness < 2 := by
      rw [Reading.badness, if_pos hend]
      split <;> omega
    cases hbest : (best first others).cursor.atEnd with
    | true => rfl
    | false =>
      have : 2 ≤ (best first others).badness := by simp [Reading.badness, hbest]
      omega

end Reading

namespace Tree

/-! ### What reading on comes to -/

/-- Reading on from a node may come to a reading. -/
inductive Comes (t : Tree Source Command Modifier) :
    NodeId → Cursor → Hop Source Command Modifier → Reading Source Command Modifier → Prop where
  /-- No child leads on. -/
  | stops {id : NodeId} {c : Cursor} {hop : Hop Source Command Modifier}
      (faults : List (NodeId × Fault)) :
      Comes t id c hop { route := { first := hop }, cursor := c, faults }
  /-- A child matches and the line does not go on after it. -/
  | ends {id child : NodeId} {c after : Cursor} {hop grown : Hop Source Command Modifier}
      (hchild : child ∈ t.usable hop.source id c)
      (htake : (t.node child).takeWhole child c hop = .ok (after, grown))
      (hgo : t.goesOn? child after = none) :
      Comes t id c hop { route := { first := grown }, cursor := after }
  /-- A child matches and the line goes on below it. -/
  | descends {id child : NodeId} {c after : Cursor} {hop grown : Hop Source Command Modifier}
      {r : Reading Source Command Modifier}
      (hchild : child ∈ t.usable hop.source id c)
      (htake : (t.node child).takeWhole child c hop = .ok (after, grown))
      (hredirect : (t.node child).redirect? = none) (hlen : after.has 2 = true)
      (further : Comes t child after.skip grown r) :
      Comes t id c hop r
  /-- A child matches and the line goes on with a hop from the child's redirect. -/
  | redirects {id child : NodeId} {c after : Cursor} {hop grown : Hop Source Command Modifier}
      {redirect : Redirect Modifier} {r : Reading Source Command Modifier}
      (hchild : child ∈ t.usable hop.source id c)
      (htake : (t.node child).takeWhole child c hop = .ok (after, grown))
      (hredirect : (t.node child).redirect? = some redirect) (hlen : after.has 1 = true)
      (further : Comes t redirect.target after.skip
        (.start grown.source redirect.target after.skip.offset) r) :
      Comes t id c hop { r with route := { first := grown, later := r.route.hops } }

/-- What the trials of the usable children make of a reading: it is that of the first child that
settles the matter, or the best one of those that match, or it stops where it is. -/
theorem readFrom_cases (t : Tree Source Command Modifier) (steps : Nat) (id : NodeId) (c : Cursor)
    (hop : Hop Source Command Modifier) :
    let attempt := t.tryChild (t.readFrom steps) c hop
    let settler? := (t.usable hop.source id c).find? fun child => (attempt child).isSettled
    let fits := (t.usable hop.source id c).filterMap fun child => (attempt child).fit?
    let result := t.readFrom (steps + 1) id c hop
    (∃ child, settler? = some child ∧ attempt child = .settles result) ∨
      (settler? = none ∧ fits = [] ∧
        ∃ faults, result = { route := { first := hop }, cursor := c, faults }) ∨
      settler? = none ∧ ∃ r rs, fits = r :: rs ∧ result = Reading.best r rs := by
  intro attempt settler? fits result
  rcases tryEach_cases attempt (t.usable hop.source id c) with
    ⟨child, r, hfind, hsettles, heq⟩ | ⟨hfind, faults, heq⟩
  · have hresult : result = r := by
      simp only [result, Arena.readFrom, Arena.level]
      rw [heq]
    exact .inl ⟨child, hfind, hresult ▸ hsettles⟩
  · cases hfits : fits with
    | nil =>
      rw [show (t.usable hop.source id c).filterMap _ = [] from hfits] at heq
      refine .inr (.inl ⟨hfind, rfl, faults, ?_⟩)
      simp only [result, Arena.readFrom, Arena.level]
      rw [heq]
    | cons r rs =>
      rw [show (t.usable hop.source id c).filterMap _ = r :: rs from hfits] at heq
      refine .inr (.inr ⟨hfind, r, rs, rfl, ?_⟩)
      simp only [result, Arena.readFrom, Arena.level]
      rw [heq]

/-- Reading on from a node is the reading of a child that matches, and where all children that are
tried are refused it stops. -/
theorem readFrom_tries (t : Tree Source Command Modifier) (steps : Nat) (id : NodeId) (c : Cursor)
    (hop : Hop Source Command Modifier) :
    let result := t.readFrom (steps + 1) id c hop
    (∃ child ∈ t.usable hop.source id c,
        t.Tries (t.readFrom steps) c hop child (.settles result) ∨
          t.Tries (t.readFrom steps) c hop child (.fits result)) ∨
      (∀ child ∈ t.usable hop.source id c, ∃ f,
        t.tryChild (t.readFrom steps) c hop child = .refused f) ∧
        ∃ faults, result = { route := { first := hop }, cursor := c, faults } := by
  intro result
  have htries := t.tryChild_tries (t.readFrom steps) c hop
  rcases t.readFrom_cases steps id c hop with ⟨child, hfind, hsettles⟩ |
    ⟨hnone, hfits, hresult⟩ | ⟨-, r, rs, hfits, hresult⟩
  · have htry := htries child
    rw [hsettles] at htry
    exact .inl ⟨child, List.mem_of_find?_eq_some hfind, .inl htry⟩
  · refine .inr ⟨?_, hresult⟩
    intro child hchild
    have hunsettled := List.find?_eq_none.1 hnone child hchild
    have hunfit := List.filterMap_eq_nil_iff.1 hfits child hchild
    cases htrial : t.tryChild (t.readFrom steps) c hop child with
    | refused f => exact ⟨f, rfl⟩
    | fits r => simp [htrial, Trial.fit?] at hunfit
    | settles r => simp [htrial, Trial.isSettled] at hunsettled
  · -- the best reading is that of some child
    have hbest := Reading.best_mem r rs
    rw [← hfits, List.mem_filterMap, ← hresult] at hbest
    obtain ⟨child, hchild, hfit⟩ := hbest
    refine .inl ⟨child, hchild, .inr ?_⟩
    have htry := htries child
    cases htrial : t.tryChild (t.readFrom steps) c hop child with
    | refused f => simp [htrial, Trial.fit?] at hfit
    | settles r => simp [htrial, Trial.fit?] at hfit
    | fits r =>
      rw [htrial] at hfit htry
      rwa [Option.some.inj hfit] at htry

/-- **What is read on from a node is one of the readings that it may come to.** -/
theorem readFrom_comes (t : Tree Source Command Modifier) (steps : Nat) (id : NodeId) (c : Cursor)
    (hop : Hop Source Command Modifier) : t.Comes id c hop (t.readFrom steps id c hop) := by
  induction steps generalizing id c hop with
  | zero => exact .stops []
  | succ steps ih =>
    rcases t.readFrom_tries steps id c hop with ⟨child, hchild, htry | htry⟩ | ⟨-, faults, hresult⟩
    · generalize t.readFrom (steps + 1) id c hop = result at htry
      cases htry with
      | redirects htake hredirect hlen hr =>
        exact .redirects hchild htake hredirect hlen (hr ▸ ih _ _ _)
    · generalize t.readFrom (steps + 1) id c hop = result at htry
      cases htry with
      | ends htake hgo => exact .ends hchild htake hgo
      | descends htake hredirect hlen => exact .descends hchild htake hredirect hlen (ih _ _ _)
    · rw [hresult]
      exact .stops faults

end Tree

end CommandLines
