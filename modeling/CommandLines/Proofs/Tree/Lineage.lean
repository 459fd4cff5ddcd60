/-
Lineages, and the nodes of a tree in preorder.

Every node but the root lies at the end of one way down from the root.  Its lineage is that
way, and it is told by going up, from parents to their parents.  The preorder is told by
going down: each child, and what lies below it, before the next child.  Neither is a
recursion over an inductive tree, since the nodes lie in an array, and both end because
children have greater numbers than their parents.

The two meet in `lineage_of_mem_descendants`: what lies below a node has the node's lineage
in front of its own.  So the subtrees of different children have nothing in common, and the
preorder lists every node once.
-/
import CommandLines.Proofs.Tree.Registration

namespace CommandLines

variable {Source Command Modifier : Type}

/-- An arena that has been built is what some story says. -/
theorem Arena.Built.exists_records {a : Arena Source Command Modifier} (h : a.Built) :
    ∃ story, a.Records story := by
  induction h with
  | empty => exact ⟨[], .empty⟩
  | add before hadd ih =>
    obtain ⟨story, records⟩ := ih
    obtain ⟨-, hparent, -⟩ := Arena.add_cases hadd
    obtain ⟨above, habove⟩ := records.sound.exists_at? hparent
    exact ⟨_, (records.add _ habove hadd).1⟩

namespace Tree

variable {t : Tree Source Command Modifier} {id parent child d : NodeId}

/-- No draft is ever mentioned for the root, so every source may use it and it does not redirect. -/
theorem root_open (t : Tree Source Command Modifier) :
    (∀ source, (t.node .root).allows source = true) ∧ (t.node .root).redirect? = none := by
  obtain ⟨story, records⟩ := t.built.exists_records
  have hroot := records.told [] .root Arena.at?_nil
  rw [Mention.draftsAt_nil] at hroot
  exact ⟨fun source => congrFun hroot.allows source, hroot.redirect⟩

/-! ### Going down a tree -/

/-- Only what is in the tree has children. -/
theorem contains_parent (h : child ∈ (t.node parent).children) : t.contains parent = true := by
  obtain ⟨hchild, hlt, -⟩ := t.built.sound.child parent child h
  rw [Arena.contains_iff] at hchild ⊢
  omega

/-- What holds of the root and goes from a node to its children holds of all nodes. -/
theorem from_root {p : NodeId → Prop} (root : p .root)
    (child : ∀ parent c, t.contains parent = true → c ∈ (t.node parent).children →
      p parent → p c) (hid : t.contains id = true) : p id := by
  induction h : id.index using Nat.strongRecOn generalizing id with
  | _ n ih =>
    subst h
    by_cases hroot : id = .root
    · exact hroot ▸ root
    · obtain ⟨parent, hchild⟩ := t.built.sound.below id hid hroot
      have hlt := (t.built.sound.child parent id hchild).2.1
      have hparent := contains_parent hchild
      exact child parent id hparent hchild (ih _ hlt hparent rfl)

/-- What holds of a node whenever it holds of its children holds of all nodes. -/
theorem from_leaves {p : NodeId → Prop}
    (node : ∀ id, (∀ c ∈ (t.node id).children, p c) → p id) (id : NodeId) : p id :=
  t.built.sound.wellFounded_children.induction id node

/-! ### Lineages -/

/-- The nodes from below the root down to a node. -/
def lineage (t : Tree Source Command Modifier) (id : NodeId) : List NodeId :=
  match _h : (t.node id).parent? with
  | none => []
  | some parent => lineage t parent ++ [id]
termination_by id.index
decreasing_by exact (t.built.sound.child _ _ (t.built.sound.mem_children_of_parent? _h)).2.1

theorem lineage_of_none (h : (t.node id).parent? = none) : t.lineage id = [] := by
  rw [lineage]
  split
  · rfl
  · next hparent => simp [h] at hparent

@[simp]
theorem lineage_root : t.lineage .root = [] := lineage_of_none t.built.sound.root.2.1

theorem lineage_of_child (h : child ∈ (t.node parent).children) :
    t.lineage child = t.lineage parent ++ [child] := by
  have hparent := (t.built.sound.child parent child h).2.2.1
  rw [lineage]
  split
  · next hnone => simp [hparent] at hnone
  · next p hp =>
    obtain rfl : parent = p := by simpa [hparent] using hp
    rfl

/-- The path of a node has the names along its lineage. -/
theorem path_eq (t : Tree Source Command Modifier) (id : NodeId) :
    t.path id = (t.lineage id).map fun n => (t.node n).name := by
  have habove : ∀ steps id names, (t.contains id = true → id.index < steps) →
      t.pathAbove steps id names = ((t.lineage id).map fun n => (t.node n).name) ++ names := by
    intro steps
    induction steps with
    | zero =>
      intro id names hlt
      have hbare : t.node id = Node.bare :=
        Arena.node_of_not_contains fun hid => Nat.not_lt_zero _ (hlt hid)
      rw [lineage_of_none (by rw [hbare]; rfl)]
      rfl
    | succ steps ih =>
      intro id names hlt
      rw [pathAbove]
      cases hparent : (t.node id).parent? with
      | none => simp [lineage_of_none hparent]
      | some parent =>
        have hchild := t.built.sound.mem_children_of_parent? hparent
        obtain ⟨hid, hbefore, -⟩ := t.built.sound.child parent id hchild
        have hsteps := hlt hid
        simp only
        rw [ih parent _ fun _ => by omega, lineage_of_child hchild]
        simp
  rw [path, habove _ _ _ Arena.contains_iff.1, List.append_nil]

/-! ### Preorder -/

/-- What lies below a node: each child and what lies below it, before the next child. -/
def descendants (t : Tree Source Command Modifier) (id : NodeId) : List NodeId :=
  (t.node id).children.attach.flatMap fun c => c.1 :: descendants t c.1
termination_by t.size - id.index
decreasing_by
  obtain ⟨hin, hlt, -⟩ := t.built.sound.child id c.1 c.2
  rw [Arena.contains_iff] at hin
  omega

/-- All nodes but the root, parents before their children and all that lies below a child before
the next child. -/
def preorder (t : Tree Source Command Modifier) : List NodeId := t.descendants .root

theorem descendants_eq (t : Tree Source Command Modifier) (id : NodeId) :
    t.descendants id = (t.node id).children.flatMap fun c => c :: t.descendants c := by
  rw [descendants]
  conv_rhs => rw [← List.attach_map_subtype_val (t.node id).children, List.flatMap_map]

theorem mem_descendants_iff : d ∈ t.descendants id ↔
    ∃ c ∈ (t.node id).children, d = c ∨ d ∈ t.descendants c := by
  rw [descendants_eq]
  simp

/-- What lies below a node has the node's lineage in front of its own. -/
theorem lineage_of_mem_descendants (h : d ∈ t.descendants id) :
    t.lineage id <+: (t.lineage d).dropLast := by
  induction id using t.from_leaves with
  | node id ih =>
    obtain ⟨c, hc, hd⟩ := mem_descendants_iff.1 h
    have hlineage := lineage_of_child hc
    rcases hd with rfl | hd
    · simp [hlineage]
    · exact (List.prefix_append _ _).trans (hlineage ▸ ih c hc hd)

theorem lineage_of_mem_subtree (h : d = id ∨ d ∈ t.descendants id) :
    t.lineage id <+: t.lineage d := by
  rcases h with rfl | hd
  · exact List.prefix_refl _
  · exact (lineage_of_mem_descendants hd).trans (List.dropLast_prefix _)

/-- The children of what lies below a node lie below it, too. -/
theorem mem_descendants_of_child (hd : d ∈ t.descendants id) (h : child ∈ (t.node d).children) :
    child ∈ t.descendants id := by
  induction id using t.from_leaves with
  | node id ih =>
    obtain ⟨c, hc, hmem⟩ := mem_descendants_iff.1 hd
    refine mem_descendants_iff.2 ⟨c, hc, .inr ?_⟩
    rcases hmem with rfl | hmem
    · exact mem_descendants_iff.2 ⟨child, h, .inl rfl⟩
    · exact ih c hc hmem

/-- What lies below a node is the child of some node. -/
theorem exists_parent (h : d ∈ t.descendants id) : ∃ parent, d ∈ (t.node parent).children := by
  induction id using t.from_leaves with
  | node id ih =>
    obtain ⟨c, hc, hd⟩ := mem_descendants_iff.1 h
    rcases hd with rfl | hd
    · exact ⟨id, hc⟩
    · exact ih c hc hd

/-- Every node but the root is listed. -/
theorem mem_preorder_iff : id ∈ t.preorder ↔ t.contains id = true ∧ id ≠ .root := by
  constructor
  · intro h
    obtain ⟨parent, hid⟩ := exists_parent h
    exact ⟨(t.built.sound.child parent id hid).1, t.built.sound.child_ne_root hid⟩
  · intro h
    obtain ⟨hin, hne⟩ := h
    have hall : id = .root ∨ id ∈ t.preorder := by
      refine t.from_root (p := fun id => id = .root ∨ id ∈ t.preorder) (.inl rfl) ?_ hin
      intro parent c _ hc hparent
      refine .inr ?_
      rcases hparent with rfl | hparent
      · exact mem_descendants_iff.2 ⟨c, hc, .inl rfl⟩
      · exact mem_descendants_of_child hparent hc
    exact hall.resolve_left hne

/-- Nothing is listed twice: the subtrees of two children differ in their lineages. -/
theorem nodup_descendants (t : Tree Source Command Modifier) (id : NodeId) :
    (t.descendants id).Nodup := by
  induction id using t.from_leaves with
  | node id ih =>
    rw [descendants_eq, List.nodup_flatMap]
    refine ⟨?_, ?_⟩
    · intro c hc
      refine List.nodup_cons.2 ⟨?_, ih c hc⟩
      intro hself
      have hle := (lineage_of_mem_descendants hself).length_le
      rw [lineage_of_child hc, List.dropLast_concat, List.length_append] at hle
      exact Nat.not_succ_le_self _ hle
    · refine (t.built.sound.nodup_children id).imp_of_mem ?_
      intro a b ha hb hne d hda hdb
      have hpa := lineage_of_mem_subtree (List.mem_cons.1 hda)
      have hpb := lineage_of_mem_subtree (List.mem_cons.1 hdb)
      have heq := List.prefix_of_prefix_length_le hpa hpb (by simp [lineage_of_child ha,
        lineage_of_child hb])
      rw [lineage_of_child ha, lineage_of_child hb, List.prefix_append_right_inj] at heq
      exact hne (by simpa using heq)

end Tree

end CommandLines
