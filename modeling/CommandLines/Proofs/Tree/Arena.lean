/-
What an arena means.

A node is told of its children in four places, and each child names its parent.  `Sound`
is what holds all this together: every node but the root lies below an earlier one, and
the four places agree on what lies below.

Drafts are added by a recursion that makes a node or finds one, and that recursion is all
that the proof follows.  A new node changes the arena in two places, itself and its parent
(`node_push`), a found one at most in its command (`node_putCommand`), and either way the
arena stays sound.  So an arena that has been built is sound, and since children have
greater numbers than their parents every way up or down it ends, however redirects may
turn back.
-/
import CommandLines.Tree.Basic
import Mathlib.Data.List.Nodup

namespace CommandLines

variable {Source Command Modifier : Type}

theorem Label.key_eq_literal_iff {label : Label Source Command Modifier} {word : String} :
    label.key = .literal word ↔ label = .literal word := by
  cases label <;> simp [Label.key]

namespace Arena

variable {a b : Arena Source Command Modifier} {parent id child : NodeId}
  {d : Draft Source Command Modifier}

/-! ### What one step does to the nodes -/

theorem contains_iff : a.contains id = true ↔ id.index < a.size := decide_eq_true_iff

/-- A number that is none stands for a bare node. -/
theorem node_of_not_contains (h : ¬a.contains id = true) : a.node id = Node.bare := by
  rw [contains_iff, Nat.not_lt] at h
  rw [node, Array.getD_eq_getD_getElem?, Array.getElem?_eq_none h]
  rfl

theorem contains_push :
    (a.push parent d).1.contains id = true ↔ a.contains id = true ∨ id = ⟨a.size⟩ := by
  obtain ⟨i⟩ := id
  simp only [contains_iff, push, size, Array.size_modify, Array.size_push, NodeId.mk.injEq]
  omega

/-- The new node is that of the draft, its parent has adopted it, and the others are as before. -/
theorem node_push (hparent : a.contains parent = true) (id : NodeId) :
    (a.push parent d).1.node id =
      if id = ⟨a.size⟩ then d.node parent
      else if id = parent then (a.node parent).adopt d.label ⟨a.size⟩ else a.node id := by
  obtain ⟨i⟩ := id
  obtain ⟨p⟩ := parent
  have hp : p < a.nodes.size := contains_iff.1 hparent
  simp only [node, push, size, NodeId.mk.injEq, Array.getD_eq_getD_getElem?,
    Array.getElem?_modify, Array.getElem?_push]
  by_cases hnew : i = a.nodes.size
  · have hne : p ≠ a.nodes.size := by omega
    simp [hnew, hne]
  · by_cases hi : i = p
    · subst hi
      simp [hnew, hp]
    · simp [hnew, hi, Ne.symm hi]

theorem node_next : a.node ⟨a.size⟩ = Node.bare :=
  node_of_not_contains (by simp [contains_iff])

theorem ne_next (h : a.contains id = true) : id ≠ ⟨a.size⟩ := by
  rintro rfl
  simp [contains_iff] at h

section

variable (hparent : a.contains parent = true) (d : Draft Source Command Modifier)

include hparent

/-- What a node matches and where it lies and leads does not change as another one is added. -/
theorem node_push_of_ne (h : id ≠ ⟨a.size⟩) :
    ((a.push parent d).1.node id).label? = (a.node id).label? ∧
      ((a.push parent d).1.node id).parent? = (a.node id).parent? ∧
      ((a.push parent d).1.node id).command? = (a.node id).command? ∧
      ((a.push parent d).1.node id).redirect? = (a.node id).redirect? := by
  rw [node_push hparent, if_neg h]
  by_cases hid : id = parent <;> simp [hid, Node.adopt]

theorem node_push_next : (a.push parent d).1.node ⟨a.size⟩ = d.node parent := by
  rw [node_push hparent, if_pos rfl]

theorem children_push (id : NodeId) : ((a.push parent d).1.node id).children =
    (a.node id).children ++ if id = parent then [⟨a.size⟩] else [] := by
  rw [node_push hparent]
  by_cases hnew : id = ⟨a.size⟩
  · subst hnew
    simp [node_next, Draft.node, Node.bare, (ne_next hparent).symm]
  · by_cases hid : id = parent <;> simp [hnew, hid, Node.adopt, ne_next hparent]

theorem index_push (id : NodeId) (key : Key) : ((a.push parent d).1.node id).index.get? key =
    if id = parent ∧ key = d.label.key then some ⟨a.size⟩ else (a.node id).index.get? key := by
  rw [node_push hparent]
  by_cases hnew : id = ⟨a.size⟩
  · subst hnew
    simp [node_next, Draft.node, Node.bare, (ne_next hparent).symm]
  · by_cases hid : id = parent <;>
      simp [hnew, hid, Node.adopt, ne_next hparent, Index.get?_insert]

theorem literals_push (id : NodeId) (word : String) :
    ((a.push parent d).1.node id).literals.get? word =
      if id = parent ∧ d.label.key = .literal word then some ⟨a.size⟩
      else (a.node id).literals.get? word := by
  rw [node_push hparent]
  by_cases hnew : id = ⟨a.size⟩
  · subst hnew
    simp [node_next, Draft.node, Node.bare, (ne_next hparent).symm]
  · by_cases hid : id = parent
    · cases d.label <;>
        simp [hid, Node.adopt, ne_next hparent, Index.get?_insert, Label.isLiteral, Label.name,
          Label.key, eq_comm]
    · simp [hnew, hid]

theorem arguments_push (id : NodeId) : ((a.push parent d).1.node id).arguments =
    (a.node id).arguments ++
      if id = parent ∧ d.label.isLiteral = false then [⟨a.size⟩] else [] := by
  rw [node_push hparent]
  by_cases hnew : id = ⟨a.size⟩
  · subst hnew
    simp [node_next, Draft.node, Node.bare, (ne_next hparent).symm]
  · by_cases hid : id = parent
    · cases d.label <;> simp [hid, Node.adopt, ne_next hparent, Label.isLiteral]
    · simp [hnew, hid]

end

/-- All that may change at a node that is found is its command. -/
theorem node_putCommand (a : Arena Source Command Modifier) (id other : NodeId)
    (command? : Option Command) :
    ∃ c, (a.putCommand id command?).node other = { a.node other with command? := c } ∧
      (other ≠ id → c = (a.node other).command?) := by
  obtain ⟨i⟩ := id
  obtain ⟨j⟩ := other
  cases command? with
  | none => exact ⟨_, rfl, fun _ => rfl⟩
  | some c =>
    simp only [node, putCommand, Array.getD_eq_getD_getElem?, Array.getElem?_modify]
    by_cases hij : i = j
    · cases hget : a.nodes[j]? with
      | none => exact ⟨none, by simp [hij, Node.bare], by simp [hij]⟩
      | some n => exact ⟨some c, by simp [hij], by simp [hij]⟩
    · exact ⟨_, by simp [hij], fun _ => rfl⟩

theorem size_putCommand (a : Arena Source Command Modifier) (id : NodeId)
    (command? : Option Command) : (a.putCommand id command?).size = a.size := by
  cases command? with
  | none => rfl
  | some c => exact Array.size_modify

theorem require_eq_ok {id? : Option NodeId} {u : Unit} (h : a.require id? = .ok u) :
    ∀ id, id? = some id → a.contains id = true := by
  rintro id rfl
  rw [require] at h
  split at h
  · assumption
  · simp at h

/-- What adding a draft comes to: the draft's target and the parent are there, and its children are
added below the child of its key, or below a new node if there is no such child. -/
theorem add_cases (h : a.add parent d = .ok (b, id)) :
    (∀ r, d.redirect? = some r → a.contains r.target = true) ∧ a.contains parent = true ∧
      ((a.child? parent d.label.key = some id ∧
          (a.putCommand id d.command?).addAll id d.children = .ok b) ∨
        (a.child? parent d.label.key = none ∧ id = ⟨a.size⟩ ∧
          (a.push parent d).1.addAll id d.children = .ok b)) := by
  obtain ⟨label, children, command?, allows, redirect?, default?⟩ := d
  simp only [add, bind, Except.bind] at h
  split at h
  · simp at h
  next htarget =>
  split at h
  · simp at h
  next hparent =>
  refine ⟨fun r hr => ?_, require_eq_ok hparent parent rfl, ?_⟩
  · exact require_eq_ok htarget r.target (by simp at hr; simp [hr])
  split at h
  · next found hfound =>
    split at h
    · simp at h
    · next c hc =>
      cases h
      exact .inl ⟨hfound, hc⟩
  · next hfresh =>
    split at h
    · simp at h
    · next c hc =>
      cases h
      exact .inr ⟨hfresh, rfl, hc⟩

theorem addAll_cons_cases {ds : List (Draft Source Command Modifier)}
    (h : a.addAll parent (d :: ds) = .ok b) :
    ∃ c id, a.add parent d = .ok (c, id) ∧ c.addAll parent ds = .ok b := by
  simp only [addAll, bind, Except.bind] at h
  split at h
  · simp at h
  · next p hp => exact ⟨p.1, p.2, hp, h⟩

/-! ### What holds of every arena that is built -/

/-- Nodes and their children know each other. -/
structure Sound (a : Arena Source Command Modifier) : Prop where
  /-- There is a root. -/
  nonempty : a.contains .root = true
  /-- The root matches nothing, lies below nothing and runs nothing. -/
  root : (a.node .root).label? = none ∧ (a.node .root).parent? = none ∧
    (a.node .root).command? = none
  /-- Every other node is a child. -/
  below : ∀ id, a.contains id = true → id ≠ .root → ∃ p, id ∈ (a.node p).children
  /-- A child comes after its parent, which it names, and matches something. -/
  child : ∀ p c, c ∈ (a.node p).children → a.contains c = true ∧ p.index < c.index ∧
    (a.node c).parent? = some p ∧ (a.node c).label?.isSome = true
  /-- No two children have the same key. -/
  keys : ∀ p, ((a.node p).children.map fun c => (a.node c).key?).Nodup
  /-- The index has each child under its key, and nothing else. -/
  index : ∀ p key c, (a.node p).index.get? key = some c ↔
    c ∈ (a.node p).children ∧ (a.node c).key? = some key
  /-- The literals have each child that is one under its word, and nothing else. -/
  literals : ∀ p word c, (a.node p).literals.get? word = some c ↔
    c ∈ (a.node p).children ∧ (a.node c).label? = some (.literal word)
  /-- The arguments are the children that match a value. -/
  arguments : ∀ p, (a.node p).arguments = (a.node p).children.filter fun c => (a.node c).isArgument
  /-- Redirects lead to nodes. -/
  target : ∀ p r, (a.node p).redirect? = some r → a.contains r.target = true

namespace Sound

theorem nodup_children {a : Arena Source Command Modifier} (h : a.Sound) (id : NodeId) :
    (a.node id).children.Nodup := (h.keys id).of_map _

theorem exists_key {a : Arena Source Command Modifier} (h : a.Sound) {p c : NodeId}
    (hc : c ∈ (a.node p).children) : ∃ key, (a.node c).key? = some key := by
  rw [← Option.isSome_iff_exists, Node.key?, Option.isSome_map]
  exact (h.child p c hc).2.2.2

theorem empty : (empty : Arena Source Command Modifier).Sound := by
  have hnode : ∀ id, (Arena.empty : Arena Source Command Modifier).node id = Node.bare := by
    rintro ⟨_ | i⟩ <;> rfl
  refine ⟨rfl, ⟨rfl, rfl, rfl⟩, ?_, ?_, ?_, ?_, ?_, ?_, ?_⟩
  · rintro ⟨i⟩ hid hroot
    have hi : i < 1 := contains_iff.1 hid
    exact absurd (by rw [NodeId.root, NodeId.mk.injEq]; omega) hroot
  all_goals
    intro p
    simp [hnode, Node.bare]

/-- A child is never the root. -/
theorem child_ne_root (ok : a.Sound) (h : child ∈ (a.node parent).children) : child ≠ .root := by
  rintro rfl
  have := (ok.child parent .root h).2.1
  simp [NodeId.root] at this

section

variable (ok : a.Sound) (hparent : a.contains parent = true)

include ok hparent

/-- The children of which something is told are those of before, and the new one. -/
theorem child_push_iff (d : Draft Source Command Modifier)
    (P : Option (Label Source Command Modifier) → Prop) (p c : NodeId) :
    (c ∈ ((a.push parent d).1.node p).children ∧ P ((a.push parent d).1.node c).label?) ↔
      (c ∈ (a.node p).children ∧ P (a.node c).label?) ∨
        (p = parent ∧ P (some d.label) ∧ c = ⟨a.size⟩) := by
  have hlabel : c ∈ (a.node p).children →
      ((a.push parent d).1.node c).label? = (a.node c).label? := fun hc =>
    (node_push_of_ne hparent d (ne_next (ok.child p c hc).1)).1
  have hnext : ((a.push parent d).1.node ⟨a.size⟩).label? = some d.label := by
    rw [node_push_next hparent]
    rfl
  rw [children_push hparent, List.mem_append]
  constructor
  · rintro ⟨hc | hc, hP⟩
    · rw [hlabel hc] at hP
      exact .inl ⟨hc, hP⟩
    · by_cases hp : p = parent
      · obtain rfl : c = ⟨a.size⟩ := by simpa [hp] using hc
        rw [hnext] at hP
        exact .inr ⟨hp, hP, rfl⟩
      · simp [hp] at hc
  · rintro (⟨hc, hP⟩ | ⟨rfl, hP, rfl⟩)
    · rw [hlabel hc]
      exact ⟨.inl hc, hP⟩
    · rw [hnext]
      exact ⟨.inr (by simp), hP⟩

theorem push_arguments (d : Draft Source Command Modifier) (p : NodeId) :
    ((a.push parent d).1.node p).arguments =
      ((a.push parent d).1.node p).children.filter fun c =>
        ((a.push parent d).1.node c).isArgument := by
  have hfilter : ((a.node p).children.filter fun c => ((a.push parent d).1.node c).isArgument) =
      (a.node p).children.filter fun c => (a.node c).isArgument :=
    List.filter_congr fun c hc => by
      rw [Node.isArgument, (node_push_of_ne hparent d (ne_next (ok.child p c hc).1)).1,
        Node.isArgument]
  rw [arguments_push hparent, children_push hparent, List.filter_append, hfilter, ok.arguments]
  by_cases hp : p = parent
  · cases hliteral : d.label.isLiteral <;>
      simp [hp, node_push_next hparent, Draft.node, Node.isArgument, hliteral]
  · simp [hp]

/-- The children keep their keys, and a new one comes last. -/
theorem childKeys_push (d : Draft Source Command Modifier) (p : NodeId) :
    ((a.push parent d).1.node p).children.map (fun c => ((a.push parent d).1.node c).key?) =
      (a.node p).children.map (fun c => (a.node c).key?) ++
        if p = parent then [some d.label.key] else [] := by
  have hkeep : ((a.node p).children.map fun c => ((a.push parent d).1.node c).key?) =
      (a.node p).children.map fun c => (a.node c).key? :=
    List.map_congr_left fun c hc => by
      rw [Node.key?, (node_push_of_ne hparent d (ne_next (ok.child p c hc).1)).1, Node.key?]
  rw [children_push hparent, List.map_append, hkeep]
  split
  · rw [List.map_singleton, node_push_next hparent]
    rfl
  · rfl

variable (hfresh : a.child? parent d.label.key = none)

include hfresh

omit hparent in
theorem key_ne_of_fresh (h : child ∈ (a.node parent).children) :
    (a.node child).key? ≠ some d.label.key := by
  intro hkey
  have hfound := (ok.index parent d.label.key child).2 ⟨h, hkey⟩
  rw [show (a.node parent).index.get? d.label.key = none from hfresh] at hfound
  simp at hfound

theorem push_keys (p : NodeId) : (((a.push parent d).1.node p).children.map fun c =>
    ((a.push parent d).1.node c).key?).Nodup := by
  rw [ok.childKeys_push hparent]
  by_cases hp : p = parent
  · subst hp
    rw [if_pos rfl, List.nodup_append]
    refine ⟨ok.keys p, by simp, ?_⟩
    rintro k hk l hl rfl
    obtain ⟨c, hc, rfl⟩ := List.mem_map.1 hk
    exact ok.key_ne_of_fresh hfresh hc (List.mem_singleton.1 hl)
  · simpa [hp] using ok.keys p

theorem push_index (p : NodeId) (key : Key) (c : NodeId) :
    ((a.push parent d).1.node p).index.get? key = some c ↔
      c ∈ ((a.push parent d).1.node p).children ∧
        ((a.push parent d).1.node c).key? = some key := by
  have hiff := ok.child_push_iff hparent d (fun l => l.map Label.key = some key) p c
  rw [index_push hparent, Node.key?, hiff]
  by_cases hnew : p = parent ∧ key = d.label.key
  · obtain ⟨rfl, rfl⟩ := hnew
    rw [if_pos ⟨rfl, rfl⟩]
    constructor
    · intro hc
      exact .inr ⟨rfl, rfl, (Option.some.inj hc).symm⟩
    · rintro (⟨hc, hkey⟩ | ⟨-, -, rfl⟩)
      · exact absurd hkey (ok.key_ne_of_fresh hfresh hc)
      · rfl
  · rw [if_neg hnew, ok.index]
    refine (or_iff_left ?_).symm
    rintro ⟨hp, hkey, -⟩
    exact hnew ⟨hp, (Option.some.inj hkey).symm⟩

theorem push_literals (p : NodeId) (word : String) (c : NodeId) :
    ((a.push parent d).1.node p).literals.get? word = some c ↔
      c ∈ ((a.push parent d).1.node p).children ∧
        ((a.push parent d).1.node c).label? = some (.literal word) := by
  have hiff := ok.child_push_iff hparent d (fun l => l = some (.literal word)) p c
  rw [literals_push hparent, hiff]
  by_cases hnew : p = parent ∧ d.label.key = .literal word
  · obtain ⟨rfl, hword⟩ := hnew
    rw [if_pos ⟨rfl, hword⟩]
    constructor
    · intro hc
      exact .inr ⟨rfl, by rw [Label.key_eq_literal_iff.1 hword], (Option.some.inj hc).symm⟩
    · rintro (⟨hc, hlabel⟩ | ⟨-, -, rfl⟩)
      · exact absurd (by rw [Node.key?, hlabel, hword]; rfl) (ok.key_ne_of_fresh hfresh hc)
      · rfl
  · rw [if_neg hnew, ok.literals]
    refine (or_iff_left ?_).symm
    rintro ⟨hp, hlabel, -⟩
    exact hnew ⟨hp, Label.key_eq_literal_iff.2 (Option.some.inj hlabel)⟩

/-- A child that is new under its key is taken in everywhere. -/
theorem push (htarget : ∀ r, d.redirect? = some r → a.contains r.target = true) :
    (a.push parent d).1.Sound := by
  have hgrow : ∀ {id}, a.contains id = true → (a.push parent d).1.contains id = true :=
    fun h => contains_push.2 (.inl h)
  have hkept : ∀ {id}, a.contains id = true → _ := fun h => node_push_of_ne hparent d (ne_next h)
  have hnext := node_push_next hparent d
  refine ⟨hgrow ok.nonempty, ?_, ?_, ?_, ok.push_keys hparent hfresh, ok.push_index hparent hfresh,
    ok.push_literals hparent hfresh, ok.push_arguments hparent d, ?_⟩
  · obtain ⟨hlabel, hup, hcommand, -⟩ := hkept ok.nonempty
    rw [hlabel, hup, hcommand]
    exact ok.root
  · intro id hid hne
    rcases contains_push.1 hid with hid | rfl
    · obtain ⟨p, hp⟩ := ok.below id hid hne
      exact ⟨p, by rw [children_push hparent]; exact List.mem_append_left _ hp⟩
    · exact ⟨parent, by simp [children_push hparent]⟩
  · intro p c hc
    rcases (ok.child_push_iff hparent d (fun _ => True) p c).1 ⟨hc, trivial⟩ with
      ⟨hc, -⟩ | ⟨rfl, -, rfl⟩
    · obtain ⟨hin, hlt, hp, hlabel⟩ := ok.child p c hc
      rw [(hkept hin).1, (hkept hin).2.1]
      exact ⟨hgrow hin, hlt, hp, hlabel⟩
    · rw [hnext]
      exact ⟨contains_push.2 (.inr rfl), contains_iff.1 hparent, rfl, rfl⟩
  · intro p r hr
    by_cases hp : p = ⟨a.size⟩
    · subst hp
      rw [hnext] at hr
      exact hgrow (htarget r hr)
    · rw [(node_push_of_ne hparent d hp).2.2.2] at hr
      exact hgrow (ok.target p r hr)

end

/-- Another command for a node that is not the root changes nothing of this. -/
theorem putCommand (ok : a.Sound) (hroot : id ≠ .root) (command? : Option Command) :
    (a.putCommand id command?).Sound := by
  obtain ⟨f, hf⟩ := Classical.skolem.1 fun other => a.node_putCommand id other command?
  have hnode := fun other => (hf other).1
  have hcontains : ∀ other, (a.putCommand id command?).contains other = a.contains other :=
    fun other => by rw [contains, size_putCommand, contains]
  refine ⟨?_, ?_, ?_, ?_, ?_, ?_, ?_, ?_, ?_⟩
  · simpa only [hcontains] using ok.nonempty
  · rw [hnode, (hf .root).2 (Ne.symm hroot)]
    exact ok.root
  · simpa only [hcontains, hnode] using ok.below
  · simpa only [hcontains, hnode] using ok.child
  · simpa only [hnode, Node.key?] using ok.keys
  · simpa only [hnode, Node.key?] using ok.index
  · simpa only [hnode] using ok.literals
  · simpa only [hnode, Node.isArgument] using ok.arguments
  · simpa only [hcontains, hnode] using ok.target

/-- A child that is found is not the root. -/
theorem ne_root_of_child? (ok : a.Sound) {key : Key} (h : a.child? parent key = some id) :
    id ≠ .root :=
  ok.child_ne_root ((ok.index parent key id).1 h).1

mutual

/-- Adding a draft keeps an arena sound, whether it makes nodes or finds them. -/
theorem add : ∀ (d : Draft Source Command Modifier) {a b : Arena Source Command Modifier}
    {parent id : NodeId}, a.Sound → a.add parent d = .ok (b, id) → b.Sound
  | ⟨_, children, _, _, _, _⟩, _, _, _, _, ok, h => by
    obtain ⟨htarget, hparent, ⟨hfound, hrest⟩ | ⟨hfresh, -, hrest⟩⟩ := add_cases h
    · exact addAll children (ok.putCommand (ok.ne_root_of_child? hfound) _) hrest
    · exact addAll children (ok.push hparent hfresh htarget) hrest

theorem addAll : ∀ (ds : List (Draft Source Command Modifier))
    {a b : Arena Source Command Modifier} {parent : NodeId}, a.Sound →
    a.addAll parent ds = .ok b → b.Sound
  | [], _, _, _, ok, h => by
    cases h
    exact ok
  | d :: ds, _, _, _, ok, h => by
    obtain ⟨c, id, hfirst, hrest⟩ := addAll_cons_cases h
    exact addAll ds (add d ok hfirst) hrest

end

end Sound

/-- An arena that has been built is sound. -/
theorem Built.sound (h : a.Built) : a.Sound := by
  induction h with
  | empty => exact .empty
  | add _ hadd ok => exact ok.add _ hadd

namespace Sound

/-! ### Ways up and down -/

/-- A node that names a parent is among the parent's children. -/
theorem mem_children_of_parent? (ok : a.Sound) (h : (a.node child).parent? = some parent) :
    child ∈ (a.node parent).children := by
  have hin : a.contains child = true := by
    by_contra hout
    rw [node_of_not_contains hout] at h
    simp [Node.bare] at h
  have hne : child ≠ .root := by
    rintro rfl
    simp [ok.root.2.1] at h
  obtain ⟨p, hp⟩ := ok.below child hin hne
  have hname := (ok.child p child hp).2.2.1
  rw [h] at hname
  obtain rfl := Option.some.inj hname
  exact hp

/-- Each node is listed once by its parent and never by another node. -/
theorem count_children (ok : a.Sound) (h : child ∈ (a.node parent).children) (p : NodeId) :
    (a.node p).children.count child = if p = parent then 1 else 0 := by
  by_cases hp : p = parent
  · subst hp
    rw [if_pos rfl]
    exact List.count_eq_one_of_mem (ok.nodup_children p) h
  · rw [if_neg hp, List.count_eq_zero]
    intro hc
    have hname := (ok.child p child hc).2.2.1
    rw [(ok.child parent child h).2.2.1] at hname
    exact hp (Option.some.inj hname).symm

/-- Going from children to their children comes to an end. -/
theorem wellFounded_children (ok : a.Sound) :
    WellFounded fun c p => c ∈ (a.node p).children :=
  Subrelation.wf (r := fun c p => a.size - c.index < a.size - p.index)
    (fun {c p} hc => by
      obtain ⟨hin, hlt, -⟩ := ok.child p c hc
      rw [contains_iff] at hin
      show a.size - c.index < a.size - p.index
      omega)
    (measure fun id : NodeId => a.size - id.index).wf

/-- Going from parents to their parents comes to an end. -/
theorem wellFounded_parent? (ok : a.Sound) :
    WellFounded fun p c => (a.node c).parent? = some p :=
  Subrelation.wf (r := fun p c => p.index < c.index)
    (fun hp => (ok.child _ _ (ok.mem_children_of_parent? hp)).2.1)
    (measure NodeId.index).wf

end Sound

end Arena

namespace Tree

/--
**How a tree holds its nodes.**

Every node but the root is listed exactly once among all children, by its parent, which
came before it.  Siblings have different keys.  The index of a node, its literals and its
arguments say the same as its children do.  The root is no child and runs nothing, and
redirects lead to nodes.  So every way from children to children, or from parents to
parents, comes to an end.
-/
theorem children_agree (t : Tree Source Command Modifier) :
    (∀ id, t.contains id = true → id ≠ .root → ∃ parent, (t.node id).parent? = some parent ∧
      parent.index < id.index ∧
      ∀ p, (t.node p).children.count id = if p = parent then 1 else 0) ∧
    (∀ p, ((t.node p).children.map fun c => (t.node c).key?).Nodup ∧
      (∀ c ∈ (t.node p).children, t.contains c = true ∧ c ≠ .root ∧
        ∃ key, (t.node c).key? = some key) ∧
      (∀ key c, (t.node p).index.get? key = some c ↔
        c ∈ (t.node p).children ∧ (t.node c).key? = some key) ∧
      (∀ word c, (t.node p).literals.get? word = some c ↔
        c ∈ (t.node p).children ∧ (t.node c).label? = some (.literal word)) ∧
      (t.node p).arguments = (t.node p).children.filter fun c => (t.node c).isArgument) ∧
    (t.contains .root = true ∧ (t.node .root).command? = none) ∧
    (∀ id r, (t.node id).redirect? = some r → t.contains r.target = true) ∧
    (WellFounded fun c p => c ∈ (t.node p).children) ∧
    WellFounded fun p c => (t.node c).parent? = some p := by
  have ok := t.built.sound
  refine ⟨fun id hid hne => ?_, fun p => ⟨ok.keys p, fun c hc => ?_, ok.index p, ok.literals p,
    ok.arguments p⟩, ⟨ok.nonempty, ok.root.2.2⟩, ok.target, ok.wellFounded_children,
    ok.wellFounded_parent?⟩
  · obtain ⟨p, hp⟩ := ok.below id hid hne
    obtain ⟨-, hlt, hname, -⟩ := ok.child p id hp
    exact ⟨p, hname, hlt, ok.count_children hp⟩
  · obtain ⟨hin, -, -, hlabel⟩ := ok.child p c hc
    obtain ⟨label, hlabel⟩ := Option.isSome_iff_exists.1 hlabel
    exact ⟨hin, ok.child_ne_root hc, label.key, by rw [Node.key?, hlabel]; rfl⟩

end Tree

end CommandLines
