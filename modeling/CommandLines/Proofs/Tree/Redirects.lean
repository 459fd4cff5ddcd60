/-
Redirecting nodes that have children all the same.

A draft that redirects cannot be given children, and one with children cannot be made to
redirect, so no draft has both (`Draft.Drawn.sound`).  From that it does not follow that no node
has both.  A draft for a node that is there adds its children below it without a look at what
the node is, and so does one that is registered below the node itself.

Those are the only two ways.  Whether a node has children is read off the story of its tree as
whether a draft is mentioned right below it, and such a draft is either a child in a draft for
the node or was registered there on its own (`Draft.exists_mention_iff`).  The story has to be
told of registrations anywhere in the tree, so the path of each one's parent comes first.
-/
import CommandLines.Proofs.Tree.Merging

namespace CommandLines

variable {Source Command Modifier : Type}

namespace Draft

/-! ### Drafts in steps -/

/-- The draft has been made step by step, and no step was refused. -/
inductive Drawn : Draft Source Command Modifier → Prop
  | literal (word : String) : Drawn (literal word)
  | argument (name : String) (type : ArgumentType) : Drawn (argument name type)
  | onlyFor {d : Draft Source Command Modifier} (allows : Source → Bool) (h : Drawn d) :
    Drawn (d.onlyFor allows)
  | runs {d : Draft Source Command Modifier} (command : Command) (h : Drawn d) :
    Drawn (d.runs command)
  | withChild {d child e : Draft Source Command Modifier} (h : Drawn d) (hchild : Drawn child)
    (step : d.withChild child = .ok e) : Drawn e
  | redirects {d e : Draft Source Command Modifier} {redirect : Redirect Modifier} (h : Drawn d)
    (step : d.redirects redirect = .ok e) : Drawn e
  | completes {d e : Draft Source Command Modifier}
    {provider : Provider Source Command Modifier} (h : Drawn d)
    (step : d.completes provider = .ok e) : Drawn e
  | withDefault {d e : Draft Source Command Modifier} {value : Value} (h : Drawn d)
    (step : d.withDefault value = .ok e) : Drawn e

variable {d : Draft Source Command Modifier} {above path : List Key}

/-- No draft has both a redirect and children, and that goes for all drafts in it. -/
theorem Drawn.sound (h : d.Drawn) :
    (d.redirect?.isSome = true → d.children = []) ∧ ∀ child ∈ d.children, child.Drawn := by
  induction h with
  | literal word => exact ⟨nofun, nofun⟩
  | argument name type => exact ⟨nofun, nofun⟩
  | onlyFor allows h ih => exact ih
  | runs command h ih => exact ih
  | @withChild d child e h hchild step ih =>
    unfold Draft.withChild at step
    split at step
    · cases step
    · next hredirect =>
      cases step
      refine ⟨fun hboth => absurd hboth hredirect, fun other hother => ?_⟩
      rcases List.mem_append.1 hother with hother | hother
      · exact ih.2 other hother
      · exact List.mem_singleton.1 hother ▸ hchild
  | @redirects d e redirect h step ih =>
    unfold Draft.redirects at step
    split at step
    · next hempty =>
      cases step
      exact ⟨fun _ => List.isEmpty_iff.1 hempty, ih.2⟩
    · cases step
  | @completes d e provider h step ih =>
    unfold Draft.completes at step
    split at step
    · cases step
    · cases step
      exact ih
  | @withDefault d e value h step ih =>
    unfold Draft.withDefault at step
    split at step
    · cases step
    · cases step
      exact ih

mutual

theorem Drawn.mentions : ∀ (d : Draft Source Command Modifier) {above : List Key}, d.Drawn →
    ∀ m ∈ d.mentions above, m.draft.Drawn
  | ⟨_, children, _, _, _, _⟩, _, h, m, hm => by
    rcases List.mem_cons.1 hm with rfl | hm
    · exact h
    · exact Drawn.mentionsAll children h.sound.2 m hm

theorem Drawn.mentionsAll : ∀ (ds : List (Draft Source Command Modifier)) {above : List Key},
    (∀ d ∈ ds, d.Drawn) → ∀ m ∈ Draft.mentionsAll above ds, m.draft.Drawn
  | [], _, _, _, hm => absurd hm (List.not_mem_nil)
  | d :: ds, _, h, m, hm => by
    rcases List.mem_append.1 hm with hm | hm
    · exact Drawn.mentions d (h d List.mem_cons_self) m hm
    · exact Drawn.mentionsAll ds (fun e he => h e (List.mem_cons_of_mem d he)) m hm

end

/-! ### What is mentioned right below a path -/

mutual

/-- Right below a path, a draft is mentioned either where the whole draft is registered or as a
child in a draft that is mentioned at the path. -/
theorem exists_mention_iff : ∀ (d : Draft Source Command Modifier) {above path : List Key},
    (∃ m ∈ d.mentions above, m.above = path) ↔
      above = path ∨ ∃ m ∈ d.mentions above, m.path = path ∧ m.draft.children ≠ []
  | ⟨label, children, _, _, _, _⟩, above, path => by
    simp only [Draft.mentions, List.exists_mem_cons_iff, Mention.path,
      exists_mention_all_iff children]

theorem exists_mention_all_iff : ∀ (ds : List (Draft Source Command Modifier))
    {above path : List Key},
    (∃ m ∈ Draft.mentionsAll above ds, m.above = path) ↔
      (above = path ∧ ds ≠ []) ∨
        ∃ m ∈ Draft.mentionsAll above ds, m.path = path ∧ m.draft.children ≠ []
  | [], _, _ => by simp [Draft.mentionsAll]
  | d :: ds, above, path => by
    simp only [Draft.mentionsAll, List.mem_append, or_and_right, exists_or,
      exists_mention_iff d, exists_mention_all_iff ds]
    grind

end

end Draft

namespace Tree

/-! ### Registrations anywhere -/

/-- Add drafts one after another, each below a node of its own. -/
def addEach (t : Tree Source Command Modifier) :
    List (NodeId × Draft Source Command Modifier) →
    Except MissingNode (Tree Source Command Modifier)
  | [] => .ok t
  | (parent, d) :: rest => do
    let (t, _) ← t.add parent d
    addEach t rest

/-- The keys from below the root down to a node. -/
def keys (t : Tree Source Command Modifier) (id : NodeId) : List Key :=
  (t.lineage id).filterMap fun n => (t.node n).key?

/-- All that has been registered, each draft at the path that its parent has in the tree. -/
def story (t : Tree Source Command Modifier)
    (history : List (NodeId × Draft Source Command Modifier)) :
    List (Mention Source Command Modifier) :=
  history.flatMap fun e => e.2.mentions (t.keys e.1)

variable {t t₀ t₁ : Tree Source Command Modifier} {id parent : NodeId}
  {d : Draft Source Command Modifier} {path : List Key}
  {history : List (NodeId × Draft Source Command Modifier)}

theorem addEach_cons_cases (h : t₀.addEach ((parent, d) :: history) = .ok t) :
    ∃ t₁ id, t₀.add parent d = .ok (t₁, id) ∧ t₁.addEach history = .ok t := by
  simp only [addEach, bind, Except.bind] at h
  split at h
  · cases h
  · next p hp => exact ⟨p.1, p.2, hp, h⟩

/-- A node lies at its keys. -/
theorem at?_keys (hid : t.contains id = true) : t.at? (t.keys id) = some id := by
  refine t.from_root (p := fun id => t.at? (t.keys id) = some id) ?_ ?_ hid
  · rw [keys, lineage_root]
    rfl
  · intro parent c _ hc hparent
    obtain ⟨key, hkey⟩ := t.built.sound.exists_key hc
    have hkeys : t.keys c = t.keys parent ++ [key] := by
      simp [keys, lineage_of_child hc, hkey]
    rw [hkeys, Arena.at?_append_singleton_eq_some]
    exact ⟨parent, hparent, t.built.sound.child?_eq_some.2 ⟨hc, hkey⟩⟩

theorem keys_eq (h : t.at? path = some id) : t.keys id = path :=
  t.built.sound.at?_injective (at?_keys (t.built.sound.contains_of_at? h)) h

/-- Whatever is registered adds to the story of a tree, below nodes that stay where they are. -/
theorem records_addEach {before : List (Mention Source Command Modifier)}
    (h : t₀.Records before) (hadd : t₀.addEach history = .ok t) :
    t.Records (before ++ t.story history) ∧
      (∀ path id, t₀.at? path = some id → t.at? path = some id) ∧
      ∀ e ∈ history, t.contains e.1 = true := by
  induction history generalizing t₀ before with
  | nil =>
    cases hadd
    exact ⟨by simpa [story] using h, fun _ _ hid => hid, nofun⟩
  | cons e history ih =>
    obtain ⟨parent, d⟩ := e
    obtain ⟨t₁, id, hfirst, hrest⟩ := addEach_cons_cases hadd
    have hfirst := add_eq_ok_iff.1 hfirst
    obtain ⟨above, habove⟩ := h.sound.exists_at? (Arena.add_cases hfirst).2.1
    obtain ⟨hmiddle, hkeep⟩ := h.add d habove hfirst
    obtain ⟨hlast, hkeep', hin⟩ := ih hmiddle hrest
    have hparent : t.at? above = some parent := hkeep' _ _ (hkeep _ _ habove)
    refine ⟨?_, fun path id hid => hkeep' _ _ (hkeep _ _ hid), ?_⟩
    · have hstory : t.story ((parent, d) :: history) = d.mentions above ++ t.story history := by
        rw [← keys_eq hparent]
        rfl
      rwa [hstory, ← List.append_assoc]
    · intro e he
      rcases List.mem_cons.1 he with rfl | he
      · exact t.built.sound.contains_of_at? hparent
      · exact hin e he

/-- A node has children just if a draft is mentioned right below it. -/
theorem children_ne_nil_iff {told : List (Mention Source Command Modifier)}
    (h : t.Records told) (hid : t.at? path = some id) :
    (t.node id).children ≠ [] ↔ ∃ m ∈ told, m.above = path := by
  have horder := congrArg List.length (h.order path id hid)
  have hkeys : Mention.keysBelow told path ≠ [] ↔ ∃ m ∈ told, m.above = path := by
    rw [ne_eq, List.eq_nil_iff_forall_not_mem]
    simp [Mention.keysBelow]
  rw [← hkeys, ← List.length_pos_iff, ← List.length_pos_iff]
  simp only [List.length_map] at horder
  rw [horder]

/-- A draft is mentioned right below a node just if it was registered there, or if some draft that
is mentioned for the node has children. -/
theorem exists_mention_story_iff (hin : ∀ e ∈ history, t.contains e.1 = true)
    (hid : t.at? path = some id) :
    (∃ m ∈ t.story history, m.above = path) ↔ (∃ d, (id, d) ∈ history) ∨
      ∃ d ∈ Mention.draftsAt (t.story history) path, d.children ≠ [] := by
  have hwhere : ∀ e ∈ history, t.keys e.1 = path ↔ e.1 = id := by
    intro e he
    refine ⟨fun hkeys => ?_, fun heq => heq ▸ keys_eq hid⟩
    have hat := at?_keys (hin e he)
    rw [hkeys, hid] at hat
    exact (Option.some.inj hat).symm
  have hflat : ∀ p : Mention Source Command Modifier → Prop,
      (∃ m ∈ t.story history, p m) ↔
        ∃ e ∈ history, ∃ m ∈ e.2.mentions (t.keys e.1), p m := by
    intro p
    simp only [story, List.mem_flatMap]
    exact ⟨fun ⟨m, ⟨e, he, hm⟩, hp⟩ => ⟨e, he, m, hm, hp⟩,
      fun ⟨e, he, m, hm, hp⟩ => ⟨m, ⟨e, he, hm⟩, hp⟩⟩
  have hdrafts : (∃ d ∈ Mention.draftsAt (t.story history) path, d.children ≠ []) ↔
      ∃ m ∈ t.story history, m.path = path ∧ m.draft.children ≠ [] := by
    simp [Mention.draftsAt, and_assoc]
  rw [hdrafts, hflat, hflat]
  constructor
  · rintro ⟨e, he, hm⟩
    rcases (Draft.exists_mention_iff e.2).1 hm with habove | hmore
    · exact .inl ⟨e.2, (hwhere e he).1 habove ▸ he⟩
    · exact .inr ⟨e, he, hmore⟩
  · rintro (⟨d, hd⟩ | ⟨e, he, hmore⟩)
    · exact ⟨(id, d), hd, (Draft.exists_mention_iff d).2 (.inl ((hwhere _ hd).2 rfl))⟩
    · exact ⟨e, he, (Draft.exists_mention_iff e.2).2 (.inr hmore)⟩

/--
**A redirecting node has children just if it got them later.**

Register drafts that were made step by step, in any order and below any nodes.  A node both
redirects and has children just if the first draft for it redirects, and so has no children
itself, and then either a later draft for the node has some, or a draft is registered right
below the node.  Neither is refused.
-/
theorem redirect_with_children_iff (h : Tree.empty.addEach history = .ok t)
    (hdrawn : ∀ e ∈ history, e.2.Drawn) (id : NodeId) :
    ((t.node id).redirect?.isSome = true ∧ (t.node id).children ≠ []) ↔
      ∃ first later, Mention.draftsAt (t.story history) (t.keys id) = first :: later ∧
        first.redirect?.isSome = true ∧ first.children = [] ∧
        ((∃ d ∈ later, d.children ≠ []) ∨ ∃ d, (id, d) ∈ history) := by
  obtain ⟨records, -, hin⟩ := records_addEach Arena.Records.empty h
  rw [List.nil_append] at records
  by_cases hid : t.contains id = true
  · have hat := at?_keys hid
    have htold := (records.told _ id hat).redirect
    rw [children_ne_nil_iff records hat, exists_mention_story_iff hin hat, htold]
    have hsound : ∀ d ∈ Mention.draftsAt (t.story history) (t.keys id), d.Drawn := by
      intro d hd
      obtain ⟨m, hm, rfl⟩ := List.mem_map.1 hd
      obtain ⟨e, he, hme⟩ := List.mem_flatMap.1 (List.mem_filter.1 hm).1
      exact Draft.Drawn.mentions e.2 (hdrawn e he) m hme
    cases hdrafts : Mention.draftsAt (t.story history) (t.keys id) with
    | nil => simp
    | cons first later =>
      have hfirst := (hsound first (by simp [hdrafts])).sound.1
      simp only [List.head?_cons, Option.bind_some, List.exists_mem_cons_iff]
      grind
  · -- What is no node of the tree has no path but that of the root, for which there are no drafts.
    have hkeys : t.keys id = [] := by
      rw [keys, lineage_of_none (by rw [Arena.node_of_not_contains hid]; rfl)]
      rfl
    rw [Arena.node_of_not_contains hid, hkeys, Mention.draftsAt_nil]
    simp [Node.bare]

end Tree

/-- A literal `a` that redirects to the root. -/
def redirecting : Draft Unit Nat Unit :=
  { Draft.literal "a" with redirect? := some { target := .root } }

/-- That literal, and then the same one with a child. -/
def redirectThenChild : List (NodeId × Draft Unit Nat Unit) :=
  [(.root, redirecting), (.root, { Draft.literal "a" with children := [.literal "b"] })]

/-- All steps of both drafts are taken, and both are registered.  Their node redirects and has a
child. -/
theorem redirectThenChild_has_both :
    (∀ e ∈ redirectThenChild, e.2.Drawn) ∧
    ∃ t, Tree.empty.addEach redirectThenChild = .ok t ∧
      (t.node ⟨1⟩).redirect?.isSome = true ∧ (t.node ⟨1⟩).children = [⟨2⟩] := by
  refine ⟨?_, _, rfl, rfl, rfl⟩
  intro e he
  rcases List.mem_cons.1 he with rfl | he
  · exact .redirects (.literal "a") rfl
  · obtain rfl := List.mem_singleton.1 he
    exact .withChild (.literal "a") (.literal "b") rfl

/-- The redirecting literal, and then a literal right below its node. -/
def redirectThenBelow : List (NodeId × Draft Unit Nat Unit) :=
  [(.root, redirecting), (⟨1⟩, .literal "b")]

/-- Here no draft has children at all. -/
theorem redirect_with_children_iff_below :
    (∀ e ∈ redirectThenBelow, e.2.Drawn) ∧
    ∃ t, Tree.empty.addEach redirectThenBelow = .ok t ∧
      Mention.draftsAt (t.story redirectThenBelow) (t.keys ⟨1⟩) = [redirecting] ∧
      (t.node ⟨1⟩).redirect?.isSome = true ∧ (t.node ⟨1⟩).children ≠ [] := by
  have hdrawn : ∀ e ∈ redirectThenBelow, e.2.Drawn := by
    intro e he
    rcases List.mem_cons.1 he with rfl | he
    · exact .redirects (.literal "a") rfl
    · obtain rfl := List.mem_singleton.1 he
      exact .literal "b"
  obtain ⟨t, h, hat⟩ : ∃ t, Tree.empty.addEach redirectThenBelow = .ok t ∧
      t.at? [.literal "a"] = some ⟨1⟩ := ⟨_, rfl, rfl⟩
  have hiff := Tree.redirect_with_children_iff h hdrawn ⟨1⟩
  have hdrafts : Mention.draftsAt (t.story redirectThenBelow) (t.keys ⟨1⟩) = [redirecting] := by
    have hroot : t.keys .root = [] := Tree.keys_eq rfl
    simp only [Tree.story, redirectThenBelow, List.flatMap_cons, hroot, Tree.keys_eq hat]
    rfl
  exact ⟨hdrawn, t, h, hdrafts,
    hiff.2 ⟨redirecting, [], hdrafts, rfl, rfl, .inr ⟨.literal "b", by simp [redirectThenBelow]⟩⟩⟩

end CommandLines
