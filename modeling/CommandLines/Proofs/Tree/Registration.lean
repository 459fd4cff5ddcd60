/-
What a tree says of the drafts that were registered.

Registering walks through a draft from the top down, and at each of its nodes comes either
to a place that is new or to one that an earlier draft has made.  `mentions` is that walk,
with the keys above each draft on it, and it does not look at a tree.  The tree is what the
whole walk says, path by path: the first draft mentioned at a path says what the node
matches, who may use it, where it leads and what stands in for it, the last one with a
command says what it runs, and the keys mentioned right below say which children it has,
in the order in which they are first mentioned (`Records`).

A new node and a found one are one mention each (`Records.push`, `Records.putCommand`).
The recursion of adding adds up these steps, below any node of any tree that records some
walk already.  Nodes are not told apart by their numbers here but by the keys that lead to
them, so what has to be known beside is that each node lies at just one path
(`existsUnique_at?`).
-/
import CommandLines.Proofs.Tree.Arena
import CommandLines.Tree.Register
import Mathlib.Data.List.Induction

namespace CommandLines

variable {Source Command Modifier : Type}

/-! ### What registering comes to -/

/-- A draft, and the keys of the drafts that it lies in, the outermost first. -/
structure Mention (Source Command Modifier : Type) where
  above : List Key
  draft : Draft Source Command Modifier

namespace Mention

/-- The keys that lead to the draft. -/
def path (m : Mention Source Command Modifier) : List Key := m.above ++ [m.draft.label.key]

/-- The drafts that are mentioned at a path. -/
def draftsAt (story : List (Mention Source Command Modifier)) (path : List Key) :
    List (Draft Source Command Modifier) :=
  (story.filter fun m => m.path = path).map Mention.draft

/-- The keys that are mentioned right below a path, each where it is first mentioned. -/
def keysBelow (story : List (Mention Source Command Modifier)) (path : List Key) : List Key :=
  ((story.filter fun m => m.above = path).map fun m => m.draft.label.key).eraseDups

variable {story : List (Mention Source Command Modifier)} {m : Mention Source Command Modifier}
  {path : List Key}

theorem draftsAt_ne_nil_iff : draftsAt story path ≠ [] ↔ ∃ m ∈ story, m.path = path := by
  simp [draftsAt]

/-- No draft is for the root. -/
theorem draftsAt_nil : draftsAt story [] = [] := by
  simp [draftsAt, Mention.path]

theorem draftsAt_append_singleton : draftsAt (story ++ [m]) path =
    draftsAt story path ++ if m.path = path then [m.draft] else [] := by
  by_cases h : m.path = path <;> simp [draftsAt, h]

/-- A key that has been mentioned keeps its place, and another one comes last. -/
theorem keysBelow_append_singleton : keysBelow (story ++ [m]) path =
    keysBelow story path ++
      if m.above = path ∧ m.draft.label.key ∉ keysBelow story path then [m.draft.label.key]
      else [] := by
  have hone : [m.draft.label.key].eraseDups = [m.draft.label.key] := rfl
  by_cases h : m.above = path
  · by_cases hkey : m.draft.label.key ∈ keysBelow story path
    all_goals
      rw [keysBelow, List.mem_eraseDups] at hkey
      simp [keysBelow, h, List.eraseDups_append, List.removeAll, hkey, hone]
  · simp [keysBelow, h]

end Mention

mutual

/-- A draft and all that lies in it, each draft before those in it. -/
def Draft.mentions (above : List Key) :
    Draft Source Command Modifier → List (Mention Source Command Modifier)
  | ⟨label, children, command?, allows, redirect?, default?⟩ =>
    ⟨above, ⟨label, children, command?, allows, redirect?, default?⟩⟩ ::
      Draft.mentionsAll (above ++ [label.key]) children

/-- Drafts one after another, each with all that lies in it. -/
def Draft.mentionsAll (above : List Key) :
    List (Draft Source Command Modifier) → List (Mention Source Command Modifier)
  | [] => []
  | d :: ds => Draft.mentions above d ++ Draft.mentionsAll above ds

end

/-- The node is what the drafts that were mentioned for it say: the first says what it is, and the
last that has a command says what it runs. -/
structure Node.Recounts (n : Node Source Command Modifier)
    (drafts : List (Draft Source Command Modifier)) : Prop where
  /-- A literal, or an argument with its type and its provider. -/
  label : n.label? = drafts.head?.map Draft.label
  allows : n.allows = (drafts.head?.map Draft.allows).getD fun _ => true
  redirect : n.redirect? = drafts.head?.bind Draft.redirect?
  default : n.default? = drafts.head?.bind Draft.default?
  command : n.command? = (drafts.filterMap Draft.command?).getLast?

namespace Node.Recounts

variable {n : Node Source Command Modifier} {d : Draft Source Command Modifier}
  {drafts : List (Draft Source Command Modifier)}

/-- A root is what is said of a node by no drafts. -/
theorem bare : (Node.bare : Node Source Command Modifier).Recounts [] :=
  ⟨rfl, rfl, rfl, rfl, rfl⟩

/-- A new node is what its draft says. -/
theorem node (d : Draft Source Command Modifier) (parent : NodeId) :
    (d.node parent).Recounts [d] := by
  refine ⟨rfl, rfl, rfl, rfl, ?_⟩
  show d.command? = _
  cases h : d.command? <;> simp [h]

/-- Getting a child changes nothing of this. -/
theorem adopt (h : n.Recounts drafts) (label : Label Source Command Modifier) (id : NodeId) :
    (n.adopt label id).Recounts drafts :=
  ⟨h.label, h.allows, h.redirect, h.default, h.command⟩

/-- One more draft for a node that is there has a say in its command alone. -/
theorem again (h : n.Recounts drafts) (hne : drafts ≠ []) :
    Recounts { n with command? := d.command?.or n.command? } (drafts ++ [d]) := by
  obtain ⟨first, rest, rfl⟩ := List.exists_cons_of_ne_nil hne
  refine ⟨h.label, h.allows, h.redirect, h.default, ?_⟩
  show d.command?.or n.command? = _
  rw [h.command, List.filterMap_append, List.getLast?_append]
  cases hcommand : d.command? <;> simp [hcommand]

end Node.Recounts

namespace Arena

/-! ### Nodes by the keys that lead to them -/

/-- The node that keys lead to from the root. -/
def at? (a : Arena Source Command Modifier) (path : List Key) : Option NodeId :=
  path.foldlM a.child? .root

variable {a b : Arena Source Command Modifier} {parent id : NodeId} {above path : List Key}
  {d : Draft Source Command Modifier} {key : Key}

@[simp]
theorem at?_nil : a.at? [] = some .root := rfl

@[simp]
theorem at?_append_singleton :
    a.at? (path ++ [key]) = (a.at? path).bind fun p => a.child? p key := by
  simp [at?, List.foldlM_append]

/-- The node that a path with at least one key leads to is the child, under the last key, of the
node that the others lead to. -/
theorem at?_append_singleton_eq_some : a.at? (path ++ [key]) = some id ↔
    ∃ p, a.at? path = some p ∧ a.child? p key = some id := by
  rw [at?_append_singleton, Option.bind_eq_some_iff]

namespace Sound

theorem child?_eq_some (ok : a.Sound) : a.child? parent key = some id ↔
    id ∈ (a.node parent).children ∧ (a.node id).key? = some key :=
  ok.index parent key id

theorem contains_of_at? (ok : a.Sound) (h : a.at? path = some id) : a.contains id = true := by
  rcases List.eq_nil_or_concat path with rfl | ⟨front, key, rfl⟩
  · obtain rfl := Option.some.inj h
    exact ok.nonempty
  · rw [List.concat_eq_append] at h
    obtain ⟨p, -, hchild⟩ := at?_append_singleton_eq_some.1 h
    exact (ok.child p id (ok.child?_eq_some.1 hchild).1).1

/-- Different paths lead to different nodes: a node names its parent and has one key. -/
theorem at?_injective (ok : a.Sound) {path' : List Key} (h : a.at? path = some id)
    (h' : a.at? path' = some id) : path = path' := by
  induction path using List.reverseRecOn generalizing path' id with
  | nil =>
    obtain rfl := Option.some.inj h
    rcases List.eq_nil_or_concat path' with rfl | ⟨front, key, rfl⟩
    · rfl
    · rw [List.concat_eq_append] at h'
      obtain ⟨p, -, hchild⟩ := at?_append_singleton_eq_some.1 h'
      exact absurd rfl (ok.ne_root_of_child? hchild)
  | append_singleton front key ih =>
    obtain ⟨p, hp, hchild⟩ := at?_append_singleton_eq_some.1 h
    rcases List.eq_nil_or_concat path' with rfl | ⟨front', key', rfl⟩
    · obtain rfl := Option.some.inj h'
      exact absurd rfl (ok.ne_root_of_child? hchild)
    · rw [List.concat_eq_append] at h' ⊢
      obtain ⟨p', hp', hchild'⟩ := at?_append_singleton_eq_some.1 h'
      obtain ⟨hmem, hkey⟩ := ok.child?_eq_some.1 hchild
      obtain ⟨hmem', hkey'⟩ := ok.child?_eq_some.1 hchild'
      have hparent : some p = some p' :=
        (ok.child p id hmem).2.2.1.symm.trans (ok.child p' id hmem').2.2.1
      obtain rfl := Option.some.inj hparent
      have hsame : some key = some key' := hkey.symm.trans hkey'
      rw [ih hp hp', Option.some.inj hsame]

/-- Some keys lead to every node, by way of its parents. -/
theorem exists_at? (ok : a.Sound) (h : a.contains id = true) : ∃ path, a.at? path = some id := by
  obtain ⟨i⟩ := id
  induction i using Nat.strongRecOn with
  | ind i ih =>
    by_cases hroot : (⟨i⟩ : NodeId) = .root
    · exact ⟨[], hroot ▸ rfl⟩
    · obtain ⟨⟨p⟩, hmem⟩ := ok.below _ h hroot
      have hlt := (ok.child _ _ hmem).2.1
      have hp : a.contains ⟨p⟩ = true :=
        contains_iff.2 (Nat.lt_trans hlt (contains_iff.1 h))
      obtain ⟨path, hpath⟩ := ih p hlt hp
      obtain ⟨key, hkey⟩ := ok.exists_key hmem
      refine ⟨path ++ [key], at?_append_singleton_eq_some.2 ⟨⟨p⟩, hpath, ?_⟩⟩
      exact ok.child?_eq_some.2 ⟨hmem, hkey⟩

/-- Each node lies at just one path. -/
theorem existsUnique_at? (ok : a.Sound) (h : a.contains id = true) :
    ∃! path, a.at? path = some id := by
  obtain ⟨path, hpath⟩ := ok.exists_at? h
  exact ⟨path, hpath, fun _ hother => ok.at?_injective hother hpath⟩

/-- The children of a node have just the keys that lead on from it. -/
theorem mem_keys_iff (ok : a.Sound) :
    some key ∈ (a.node parent).children.map (fun c => (a.node c).key?) ↔
      (a.child? parent key).isSome = true := by
  rw [List.mem_map, Option.isSome_iff_exists]
  exact exists_congr fun c => ok.child?_eq_some.symm

end Sound

/-! ### What one step does to the paths -/

theorem child?_putCommand (command? : Option Command) :
    (a.putCommand id command?).child? parent key = a.child? parent key := by
  obtain ⟨c, hnode, -⟩ := a.node_putCommand id parent command?
  rw [child?, hnode]
  rfl

theorem at?_putCommand (command? : Option Command) :
    (a.putCommand id command?).at? path = a.at? path := by
  have hchild : (a.putCommand id command?).child? = a.child? := by
    funext p key
    exact child?_putCommand command?
  rw [at?, hchild, at?]

/-- A command that is given takes the place of the one before. -/
theorem command_putCommand (h : a.contains id = true) (command? : Option Command) :
    ((a.putCommand id command?).node id).command? = command?.or (a.node id).command? := by
  obtain ⟨i⟩ := id
  have hi : i < a.nodes.size := contains_iff.1 h
  cases command? with
  | none => rfl
  | some c =>
    simp [node, putCommand, Array.getD_eq_getD_getElem?, Array.getElem_modify, hi]

theorem child?_next : a.child? ⟨a.size⟩ key = none := by
  rw [child?, node_next]
  rfl

/-- Where a node has no child under a key, no node lies. -/
theorem at?_eq_none (habove : a.at? above = some parent) (hfresh : a.child? parent key = none) :
    a.at? (above ++ [key]) = none := by
  rw [at?_append_singleton, habove]
  exact hfresh

/-- A new node lies at the path of its parent and its own key, and the others where they were. -/
theorem at?_push (ok : a.Sound) (habove : a.at? above = some parent)
    (hfresh : a.child? parent d.label.key = none) (path : List Key) :
    (a.push parent d).1.at? path =
      if path = above ++ [d.label.key] then some ⟨a.size⟩ else a.at? path := by
  have hparent := ok.contains_of_at? habove
  induction path using List.reverseRecOn with
  | nil => simp
  | append_singleton front key ih =>
    have hchild : ∀ p, (a.push parent d).1.child? p key =
        if p = parent ∧ key = d.label.key then some ⟨a.size⟩ else a.child? p key :=
      fun p => index_push hparent d p key
    simp only [at?_append_singleton, ih, hchild]
    by_cases hnew : front = above ++ [d.label.key]
    · -- Nothing lies below the new node yet, and nothing lay at its path before.
      have hold : a.at? front = none := by
        rw [hnew]
        exact at?_eq_none habove hfresh
      have hlonger : front ++ [key] ≠ above ++ [d.label.key] := by
        rw [hnew]
        intro h
        have := congrArg List.length h
        simp at this
      rw [if_pos hnew, if_neg hlonger, hold, Option.bind_some, Option.bind_none,
        if_neg fun h => ne_next hparent h.1.symm, child?_next]
    · rw [if_neg hnew]
      by_cases hhere : front = above ∧ key = d.label.key
      · obtain ⟨rfl, rfl⟩ := hhere
        rw [habove, Option.bind_some, if_pos ⟨rfl, rfl⟩, if_pos rfl]
      · have helse : front ++ [key] ≠ above ++ [d.label.key] := by
          intro h
          obtain ⟨hfront, hkey⟩ := List.append_inj' h rfl
          exact hhere ⟨hfront, List.singleton_inj.1 hkey⟩
        rw [if_neg helse]
        cases hfront : a.at? front with
        | none => rfl
        | some p =>
          rw [Option.bind_some, Option.bind_some, if_neg]
          rintro ⟨rfl, hkey⟩
          exact hhere ⟨ok.at?_injective hfront habove, hkey⟩

theorem childKeys_putCommand (command? : Option Command) :
    ((a.putCommand id command?).node parent).children.map
        (fun c => ((a.putCommand id command?).node c).key?) =
      (a.node parent).children.map fun c => (a.node c).key? := by
  obtain ⟨c, hnode, -⟩ := a.node_putCommand id parent command?
  rw [hnode]
  refine List.map_congr_left fun child _ => ?_
  obtain ⟨c, hnode, -⟩ := a.node_putCommand id child command?
  rw [hnode]
  rfl

/-! ### What holds of every arena that is built -/

/-- The arena is what the story of its drafts says. -/
structure Records (a : Arena Source Command Modifier)
    (story : List (Mention Source Command Modifier)) : Prop where
  sound : a.Sound
  /-- Below the root there is a node wherever a draft is mentioned, and nowhere else. -/
  mentioned : ∀ path ≠ [], (a.at? path).isSome = true ↔ Mention.draftsAt story path ≠ []
  /-- A draft is mentioned below nodes only. -/
  above : ∀ m ∈ story, (a.at? m.above).isSome = true
  /-- Each node is what the drafts say that are mentioned where it lies. -/
  told : ∀ path id, a.at? path = some id → (a.node id).Recounts (Mention.draftsAt story path)
  /-- Its children come in the order in which their keys are first mentioned. -/
  order : ∀ path id, a.at? path = some id →
    (a.node id).children.map (fun c => (a.node c).key?) =
      (Mention.keysBelow story path).map some

namespace Records

variable {story : List (Mention Source Command Modifier)}

theorem empty : (empty : Arena Source Command Modifier).Records [] := by
  have hnode : ∀ id, (Arena.empty : Arena Source Command Modifier).node id = Node.bare := by
    rintro ⟨_ | i⟩ <;> rfl
  have hchild : ∀ id key, (Arena.empty : Arena Source Command Modifier).child? id key = none := by
    intro id key
    rw [child?, hnode]
    rfl
  refine ⟨.empty, ?_, ?_, ?_, ?_⟩
  · intro path hne
    rcases List.eq_nil_or_concat path with rfl | ⟨front, key, rfl⟩
    · exact absurd rfl hne
    · simp [hchild, Mention.draftsAt]
  · simp
  · intro path id _
    rw [hnode]
    exact .bare
  · intro path id _
    rw [hnode]
    rfl

/-- The keys mentioned right below a path are those that lead on from its node. -/
theorem mem_keysBelow_iff (h : a.Records story) (habove : a.at? above = some parent) :
    key ∈ Mention.keysBelow story above ↔ (a.child? parent key).isSome = true := by
  rw [← h.sound.mem_keys_iff, h.order above parent habove]
  simp

/-- Nothing has been mentioned where no node lies. -/
theorem draftsAt_eq_nil (h : a.Records story) (hne : path ≠ []) (hnone : a.at? path = none) :
    Mention.draftsAt story path = [] := by
  have hiff := h.mentioned path hne
  rw [hnone] at hiff
  simpa using hiff

/-- Nor has anything below. -/
theorem keysBelow_eq_nil (h : a.Records story) (hnone : a.at? path = none) :
    Mention.keysBelow story path = [] := by
  have hno : ∀ m ∈ story, m.above ≠ path := by
    rintro m hm rfl
    have hsome := h.above m hm
    rw [hnone] at hsome
    cases hsome
  rw [Mention.keysBelow, List.filter_eq_nil_iff.2 (by simpa using hno)]
  rfl

/-- A draft mentioned below a node is below a node of any arena that has all paths. -/
theorem above_append (h : a.Records story) (habove : a.at? above = some parent)
    (hkeep : ∀ path, (a.at? path).isSome = true → (b.at? path).isSome = true) :
    ∀ m ∈ story ++ [⟨above, d⟩], (b.at? m.above).isSome = true := by
  intro m hm
  refine hkeep m.above ?_
  rcases List.mem_append.1 hm with hm | hm
  · exact h.above m hm
  · obtain rfl := List.mem_singleton.1 hm
    rw [habove]
    rfl

section Push

variable (h : a.Records story) (habove : a.at? above = some parent)
  (hfresh : a.child? parent d.label.key = none)

include h habove hfresh

theorem mentioned_push (hne : path ≠ []) : ((a.push parent d).1.at? path).isSome = true ↔
    Mention.draftsAt (story ++ [⟨above, d⟩]) path ≠ [] := by
  rw [at?_push h.sound habove hfresh, Mention.draftsAt_append_singleton, Mention.path]
  by_cases hpath : path = above ++ [d.label.key]
  · simp [hpath]
  · simpa [hpath, Ne.symm hpath] using h.mentioned path hne

theorem told_push (hid : (a.push parent d).1.at? path = some id) :
    ((a.push parent d).1.node id).Recounts
      (Mention.draftsAt (story ++ [⟨above, d⟩]) path) := by
  have hparent := h.sound.contains_of_at? habove
  rw [at?_push h.sound habove hfresh] at hid
  rw [Mention.draftsAt_append_singleton, Mention.path]
  by_cases hpath : path = above ++ [d.label.key]
  · subst hpath
    rw [if_pos rfl] at hid
    obtain rfl := Option.some.inj hid
    rw [if_pos rfl, h.draftsAt_eq_nil (by simp) (at?_eq_none habove hfresh),
      node_push_next hparent]
    exact .node d parent
  · rw [if_neg hpath] at hid
    rw [if_neg (Ne.symm hpath), List.append_nil, node_push hparent,
      if_neg (ne_next (h.sound.contains_of_at? hid))]
    split
    · next heq => exact heq ▸ (h.told path id hid).adopt d.label _
    · exact h.told path id hid

theorem order_push (hid : (a.push parent d).1.at? path = some id) :
    ((a.push parent d).1.node id).children.map (fun c => ((a.push parent d).1.node c).key?) =
      (Mention.keysBelow (story ++ [⟨above, d⟩]) path).map some := by
  have hparent := h.sound.contains_of_at? habove
  rw [at?_push h.sound habove hfresh] at hid
  rw [Mention.keysBelow_append_singleton]
  by_cases hpath : path = above ++ [d.label.key]
  · subst hpath
    rw [if_pos rfl] at hid
    obtain rfl := Option.some.inj hid
    rw [node_push_next hparent, h.keysBelow_eq_nil (at?_eq_none habove hfresh)]
    simp [Draft.node]
  · rw [if_neg hpath] at hid
    rw [h.sound.childKeys_push hparent, h.order path id hid, List.map_append]
    by_cases hhere : above = path
    · subst hhere
      obtain rfl := Option.some.inj (hid.symm.trans habove)
      have hnew : d.label.key ∉ Mention.keysBelow story above := by
        rw [h.mem_keysBelow_iff habove, hfresh]
        simp
      rw [if_pos rfl, if_pos ⟨rfl, hnew⟩, List.map_singleton]
    · have hne : id ≠ parent := by
        rintro rfl
        exact hhere (h.sound.at?_injective habove hid)
      rw [if_neg hne, if_neg fun hc => hhere hc.1]
      rfl

/-- A new node is a mention at a path that had none. -/
theorem push (htarget : ∀ r, d.redirect? = some r → a.contains r.target = true) :
    (a.push parent d).1.Records (story ++ [⟨above, d⟩]) := by
  refine ⟨h.sound.push (h.sound.contains_of_at? habove) hfresh htarget, ?_, ?_, ?_, ?_⟩
  · exact fun path => h.mentioned_push habove hfresh
  · refine h.above_append habove fun path hpath => ?_
    rw [at?_push h.sound habove hfresh]
    split
    · rfl
    · exact hpath
  · exact fun path id => h.told_push habove hfresh
  · exact fun path id => h.order_push habove hfresh

end Push

section Put

variable (h : a.Records story) (habove : a.at? above = some parent)
  (hfound : a.child? parent d.label.key = some id)

include h habove hfound

theorem draftsAt_ne_nil : Mention.draftsAt story (above ++ [d.label.key]) ≠ [] := by
  refine (h.mentioned _ (by simp)).1 ?_
  rw [at?_append_singleton_eq_some.2 ⟨parent, habove, hfound⟩]
  rfl

theorem mentioned_putCommand (hne : path ≠ []) :
    ((a.putCommand id d.command?).at? path).isSome = true ↔
      Mention.draftsAt (story ++ [⟨above, d⟩]) path ≠ [] := by
  rw [at?_putCommand, h.mentioned path hne, Mention.draftsAt_append_singleton, Mention.path]
  by_cases hpath : above ++ [d.label.key] = path
  · simpa [← hpath] using h.draftsAt_ne_nil habove hfound
  · simp [hpath]

theorem told_putCommand {other : NodeId}
    (hother : (a.putCommand id d.command?).at? path = some other) :
    ((a.putCommand id d.command?).node other).Recounts
      (Mention.draftsAt (story ++ [⟨above, d⟩]) path) := by
  have hhere : a.at? (above ++ [d.label.key]) = some id :=
    at?_append_singleton_eq_some.2 ⟨parent, habove, hfound⟩
  rw [at?_putCommand] at hother
  obtain ⟨c, hnode, hkeep⟩ := a.node_putCommand id other d.command?
  rw [hnode, Mention.draftsAt_append_singleton, Mention.path]
  by_cases hpath : above ++ [d.label.key] = path
  · subst hpath
    obtain rfl := Option.some.inj (hhere.symm.trans hother)
    have hc := command_putCommand (h.sound.contains_of_at? hhere) d.command?
    rw [hnode] at hc
    obtain rfl : c = d.command?.or (a.node id).command? := hc
    rw [if_pos rfl]
    exact (h.told _ id hhere).again (h.draftsAt_ne_nil habove hfound)
  · have hne : other ≠ id := by
      rintro rfl
      exact hpath (h.sound.at?_injective hhere hother)
    rw [hkeep hne, if_neg hpath, List.append_nil]
    exact h.told path other hother

theorem order_putCommand {other : NodeId}
    (hother : (a.putCommand id d.command?).at? path = some other) :
    ((a.putCommand id d.command?).node other).children.map
        (fun c => ((a.putCommand id d.command?).node c).key?) =
      (Mention.keysBelow (story ++ [⟨above, d⟩]) path).map some := by
  rw [at?_putCommand] at hother
  rw [childKeys_putCommand, h.order path other hother, Mention.keysBelow_append_singleton, if_neg]
  · simp
  · rintro ⟨rfl, hnew⟩
    refine hnew ((h.mem_keysBelow_iff habove).2 ?_)
    rw [hfound]
    rfl

/-- A draft for a node that is there is one more mention at its path. -/
theorem putCommand : (a.putCommand id d.command?).Records (story ++ [⟨above, d⟩]) := by
  refine ⟨h.sound.putCommand (h.sound.ne_root_of_child? hfound) _, ?_, ?_, ?_, ?_⟩
  · exact fun path => h.mentioned_putCommand habove hfound
  · refine h.above_append habove fun path hpath => ?_
    rwa [at?_putCommand]
  · exact fun path other => h.told_putCommand habove hfound
  · exact fun path other => h.order_putCommand habove hfound

end Put

mutual

/-- Adding a draft below a node adds what it mentions below the path of that node, and leaves every
node where it lies. -/
theorem add : ∀ (d : Draft Source Command Modifier) {a b : Arena Source Command Modifier}
    {story : List (Mention Source Command Modifier)} {above : List Key} {parent id : NodeId},
    a.Records story → a.at? above = some parent → a.add parent d = .ok (b, id) →
    b.Records (story ++ d.mentions above) ∧
      ∀ path other, a.at? path = some other → b.at? path = some other
  | ⟨label, children, command?, allows, redirect?, default?⟩, a, b, story, above, parent, id,
      h, habove, hadd => by
    rw [Draft.mentions, List.append_cons story]
    obtain ⟨htarget, -, ⟨hfound, hrest⟩ | ⟨hfresh, rfl, hrest⟩⟩ := add_cases hadd
    · have hhere : a.at? (above ++ [label.key]) = some id :=
        at?_append_singleton_eq_some.2 ⟨parent, habove, hfound⟩
      obtain ⟨hb, hkeep⟩ := addAll children (h.putCommand habove hfound)
        ((at?_putCommand _).trans hhere) hrest
      exact ⟨hb, fun path other hother => hkeep path other ((at?_putCommand _).trans hother)⟩
    · have hat := at?_push h.sound habove hfresh
      obtain ⟨hb, hkeep⟩ := addAll children (h.push habove hfresh htarget)
        ((hat (above ++ [label.key])).trans (if_pos rfl)) hrest
      refine ⟨hb, fun path other hother => hkeep path other ?_⟩
      rw [hat, if_neg, hother]
      rintro rfl
      rw [at?_eq_none habove hfresh] at hother
      cases hother

theorem addAll : ∀ (ds : List (Draft Source Command Modifier))
    {a b : Arena Source Command Modifier} {story : List (Mention Source Command Modifier)}
    {above : List Key} {parent : NodeId},
    a.Records story → a.at? above = some parent → a.addAll parent ds = .ok b →
    b.Records (story ++ Draft.mentionsAll above ds) ∧
      ∀ path other, a.at? path = some other → b.at? path = some other
  | [], a, b, story, above, parent, h, habove, hadd => by
    cases hadd
    rw [Draft.mentionsAll, List.append_nil]
    exact ⟨h, fun _ _ hother => hother⟩
  | d :: ds, a, b, story, above, parent, h, habove, hadd => by
    obtain ⟨c, id, hfirst, hrest⟩ := addAll_cons_cases hadd
    obtain ⟨hc, hkeep⟩ := add d h habove hfirst
    obtain ⟨hb, hkeep'⟩ := addAll ds hc (hkeep above parent habove) hrest
    rw [Draft.mentionsAll, ← List.append_assoc]
    exact ⟨hb, fun path other hother => hkeep' path other (hkeep path other hother)⟩

end

/-- The children of a node lie at the keys that are mentioned right below its path. -/
theorem children (h : a.Records story) (hid : a.at? path = some id) :
    (a.node id).children.map some =
      (Mention.keysBelow story path).map fun key => a.at? (path ++ [key]) := by
  have hlead : ∀ c ∈ (a.node id).children,
      ((a.node c).key?.bind fun key => a.at? (path ++ [key])) = some c := by
    intro c hc
    obtain ⟨key, hkey⟩ := h.sound.exists_key hc
    rw [hkey, Option.bind_some, at?_append_singleton, hid]
    exact h.sound.child?_eq_some.2 ⟨hc, hkey⟩
  calc (a.node id).children.map some
      = (a.node id).children.map fun c =>
          (a.node c).key?.bind fun key => a.at? (path ++ [key]) :=
        List.map_congr_left fun c hc => (hlead c hc).symm
    _ = ((a.node id).children.map fun c => (a.node c).key?).map fun key? =>
          key?.bind fun key => a.at? (path ++ [key]) := by rw [List.map_map]; rfl
    _ = (Mention.keysBelow story path).map fun key => a.at? (path ++ [key]) := by
        rw [h.order path id hid, List.map_map]
        rfl

end Records

end Arena

namespace Tree

theorem addAll_toArena {t t' : Tree Source Command Modifier} {parent : NodeId}
    {ds : List (Draft Source Command Modifier)} (h : t.addAll parent ds = .ok t') :
    t.toArena.addAll parent ds = .ok t'.toArena := by
  induction ds generalizing t with
  | nil =>
    cases h
    rfl
  | cons d ds ih =>
    simp only [addAll, add, bind, Except.bind] at h
    split at h
    · simp at h
    · next p hp =>
      split at hp
      · next b id hadd =>
        cases hp
        simp only [Arena.addAll, bind, Except.bind, hadd]
        exact ih h
      · simp at hp

/--
**A tree is what was registered.**

Register drafts one after another, and let their story be all drafts in them, each before
those that lie in it.  Then every node lies at one path of keys, and below the root nodes
lie just where the story mentions drafts.  The first draft mentioned at a path says what
its node matches, who may use it, where it leads and what stands in for it; the last one
there with a command says what it runs.  The children of a node are the nodes at the keys
mentioned right below it, in the order in which these are first mentioned.
-/
theorem nodes_of_registered {ds : List (Draft Source Command Modifier)}
    {t : Tree Source Command Modifier} (h : Tree.empty.addAll .root ds = .ok t) :
    (∀ id, t.contains id = true ↔ ∃! path, t.at? path = some id) ∧
    (∀ path ≠ [], (t.at? path).isSome = true ↔
      ∃ m ∈ Draft.mentionsAll [] ds, m.path = path) ∧
    ∀ path id, t.at? path = some id →
      (t.node id).Recounts (Mention.draftsAt (Draft.mentionsAll [] ds) path) ∧
      (t.node id).children.map some =
        (Mention.keysBelow (Draft.mentionsAll [] ds) path).map fun key =>
          t.at? (path ++ [key]) := by
  obtain ⟨records, -⟩ := Arena.Records.empty.addAll ds Arena.at?_nil (addAll_toArena h)
  rw [List.nil_append] at records
  refine ⟨fun id => ⟨records.sound.existsUnique_at?, ?_⟩, fun path hne => ?_, fun path id hid => ?_⟩
  · rintro ⟨path, hpath, -⟩
    exact records.sound.contains_of_at? hpath
  · rw [← Mention.draftsAt_ne_nil_iff]
    exact records.mentioned path hne
  · exact ⟨records.told path id hid, records.children hid⟩

end Tree

/-- A literal `give` with a command and two arguments, and the same literal once more with another
command and with one of the arguments again, now of another type and running something. -/
def givenTwice : List (Draft Unit Nat Unit) :=
  let first : Draft Unit Nat Unit := .argument "item" (.text .word)
  let again : Draft Unit Nat Unit := (Draft.argument "item" .bool).runs 2
  [{ (Draft.literal "give").runs 1 with children := [first, .argument "count" (.text .word)] },
    { (Draft.literal "give").runs 3 with children := [.literal "all", again] }]

/-- The literal runs what it was told last and has three children.  The argument keeps the type that
it came with, and runs what it was told later. -/
theorem nodes_of_givenTwice :
    ∃ t, Tree.empty.addAll .root givenTwice = .ok t ∧
      t.at? [.literal "give"] = some ⟨1⟩ ∧ (t.node ⟨1⟩).command? = some 3 ∧
      (t.node ⟨1⟩).children.map some =
        [t.at? [.literal "give", .argument "item"], t.at? [.literal "give", .argument "count"],
          t.at? [.literal "give", .literal "all"]] ∧
      t.at? [.literal "give", .argument "item"] = some ⟨2⟩ ∧
      (t.node ⟨2⟩).label? = some (.argument "item" (.text .word) none) ∧
      (t.node ⟨2⟩).command? = some 2 := by
  obtain ⟨t, h⟩ : ∃ t, Tree.empty.addAll .root givenTwice = .ok t := ⟨_, rfl⟩
  obtain ⟨-, -, hnodes⟩ := Tree.nodes_of_registered h
  cases h
  have hgive := hnodes [.literal "give"] ⟨1⟩ rfl
  have hitem := hnodes [.literal "give", .argument "item"] ⟨2⟩ rfl
  exact ⟨_, rfl, rfl, hgive.1.command, hgive.2, rfl, hitem.1.label, hitem.1.command⟩

end CommandLines
