/-
Nodes by their names.

The path of a node is told going up, and a path is followed going down.  The two would be
inverse if names told siblings apart, but it is keys that do: a literal and an argument may
have one name, and then the literal is the one that is found.  An argument beside such a
literal is shadowed, and it is out of reach with all that lies below it.

Nothing else comes between the two (`find?_eq_some_iff`).  The one step down is an "iff"
(`named?_eq_some_iff`), the one step up is how a lineage grows, and the induction is over the
path from its end, since that is where both steps are taken.
-/
import CommandLines.Proofs.Tree.Lineage

namespace CommandLines

variable {Source Command Modifier : Type}

namespace Node

variable {n : Node Source Command Modifier} {name : String}

theorem key?_eq_literal_iff :
    n.key? = some (.literal name) ↔ n.isLiteral = true ∧ n.name = name := by
  unfold key? isLiteral Node.name
  cases n.label? with
  | none => simp
  | some label => cases label <;> simp [Label.key, Label.isLiteral, Label.name]

theorem key?_eq_argument_iff :
    n.key? = some (.argument name) ↔ n.isArgument = true ∧ n.name = name := by
  unfold key? isArgument Node.name
  cases n.label? with
  | none => simp
  | some label => cases label <;> simp [Label.key, Label.isLiteral, Label.name]

end Node

namespace Tree

variable {t : Tree Source Command Modifier} {id parent child : NodeId} {name : String}
  {path : List String}

/-! ### One step down -/

/-- The child of a name; a literal goes before an argument of the same name. -/
def named? (t : Tree Source Command Modifier) (parent : NodeId) (name : String) :
    Option NodeId :=
  (t.child? parent (.literal name)).orElse fun _ => t.child? parent (.argument name)

/-- The node is an argument beside a literal of the same name. -/
def Shadowed (t : Tree Source Command Modifier) (id : NodeId) : Prop :=
  (t.node id).isArgument = true ∧
    ∃ parent, id ∈ (t.node parent).children ∧ ∃ sibling ∈ (t.node parent).children,
      (t.node sibling).isLiteral = true ∧ (t.node sibling).name = (t.node id).name

/-- A child matches a word or a value, and not both. -/
theorem isArgument_iff_of_child (h : child ∈ (t.node parent).children) :
    (t.node child).isArgument = true ↔ ¬(t.node child).isLiteral = true := by
  have hlabel := (t.built.sound.child parent child h).2.2.2
  obtain ⟨label, hlabel⟩ := Option.isSome_iff_exists.1 hlabel
  simp [Node.isArgument, Node.isLiteral, hlabel]

/-- A literal among the children is found, whatever arguments there are. -/
theorem named?_of_literal (h : child ∈ (t.node parent).children)
    (hliteral : (t.node child).isLiteral = true) :
    t.named? parent (t.node child).name = some child := by
  have hfound : t.child? parent (.literal (t.node child).name) = some child :=
    t.built.sound.child?_eq_some.2 ⟨h, Node.key?_eq_literal_iff.2 ⟨hliteral, rfl⟩⟩
  rw [named?, hfound]
  rfl

/-- What is found under a name is the child that has it, unless it is shadowed. -/
theorem named?_eq_some_iff : t.named? parent name = some child ↔
    child ∈ (t.node parent).children ∧ (t.node child).name = name ∧ ¬t.Shadowed child := by
  have ok := t.built.sound
  constructor
  · intro h
    unfold named? at h
    cases hliteral : t.child? parent (.literal name) with
    | some found =>
      rw [hliteral] at h
      obtain rfl : found = child := Option.some.inj h
      obtain ⟨hchild, hkey⟩ := ok.child?_eq_some.1 hliteral
      obtain ⟨hkind, hname⟩ := Node.key?_eq_literal_iff.1 hkey
      refine ⟨hchild, hname, ?_⟩
      rintro ⟨hargument, -⟩
      exact (isArgument_iff_of_child hchild).1 hargument hkind
    | none =>
      rw [hliteral] at h
      obtain ⟨hchild, hkey⟩ := ok.child?_eq_some.1 h
      obtain ⟨-, hname⟩ := Node.key?_eq_argument_iff.1 hkey
      refine ⟨hchild, hname, ?_⟩
      rintro ⟨-, p, hp, sibling, hsibling, hkind, hsame⟩
      -- the literal beside the argument would have been found first
      obtain rfl : parent = p := by
        simpa [(ok.child p child hp).2.2.1] using (ok.child parent child hchild).2.2.1.symm
      have hfound := ok.child?_eq_some.2
        ⟨hsibling, Node.key?_eq_literal_iff.2 ⟨hkind, hsame.trans hname⟩⟩
      rw [hliteral] at hfound
      cases hfound
  · rintro ⟨hchild, rfl, hshadow⟩
    by_cases hkind : (t.node child).isLiteral = true
    · exact named?_of_literal hchild hkind
    · have hargument := (isArgument_iff_of_child hchild).2 hkind
      have hnone : t.child? parent (.literal (t.node child).name) = none := by
        cases hliteral : t.child? parent (.literal (t.node child).name) with
        | none => rfl
        | some sibling =>
          obtain ⟨hsibling, hkey⟩ := ok.child?_eq_some.1 hliteral
          exact absurd ⟨hargument, parent, hchild, sibling, hsibling,
            Node.key?_eq_literal_iff.1 hkey⟩ hshadow
      rw [named?, hnone]
      exact ok.child?_eq_some.2 ⟨hchild, Node.key?_eq_argument_iff.2 ⟨hargument, rfl⟩⟩

/-! ### Whole paths -/

theorem find?_append_singleton : t.find? (path ++ [name]) = some id ↔
    ∃ parent, t.find? path = some parent ∧ t.named? parent name = some id := by
  simp only [find?, List.foldlM_append, List.foldlM_cons, List.foldlM_nil, bind_pure,
    Option.bind_eq_bind, Option.bind_eq_some_iff]
  rfl

/-- Only the root has no lineage. -/
theorem eq_root_of_lineage (hid : t.contains id = true) (h : t.lineage id = []) :
    id = .root := by
  by_contra hne
  obtain ⟨parent, hchild⟩ := t.built.sound.below id hid hne
  simp [lineage_of_child hchild] at h

/-- The node at the end of a path is the one that has the path, unless a node on its lineage is
shadowed. -/
theorem find?_eq_some_iff : t.find? path = some id ↔
    t.contains id = true ∧ t.path id = path ∧ ∀ n ∈ t.lineage id, ¬t.Shadowed n := by
  induction path using List.reverseRecOn generalizing id with
  | nil =>
    constructor
    · intro h
      obtain rfl : NodeId.root = id := Option.some.inj h
      exact ⟨t.built.sound.nonempty, by simp [path_eq], by simp⟩
    · rintro ⟨hid, hpath, -⟩
      have hlineage : t.lineage id = [] := by simpa [path_eq] using hpath
      rw [eq_root_of_lineage hid hlineage]
      rfl
  | append_singleton path name ih =>
    have hpathOf {parent : NodeId} (hchild : id ∈ (t.node parent).children) :
        t.path id = t.path parent ++ [(t.node id).name] := by
      simp [path_eq, lineage_of_child hchild]
    rw [find?_append_singleton]
    constructor
    · rintro ⟨parent, hparent, hstep⟩
      obtain ⟨-, hpath, hclear⟩ := ih.1 hparent
      obtain ⟨hchild, hname, hshadow⟩ := named?_eq_some_iff.1 hstep
      refine ⟨(t.built.sound.child parent id hchild).1, ?_, ?_⟩
      · rw [hpathOf hchild, hpath, hname]
      · intro n hn
        rw [lineage_of_child hchild, List.mem_append, List.mem_singleton] at hn
        rcases hn with hn | rfl
        · exact hclear n hn
        · exact hshadow
    · rintro ⟨hid, hpath, hclear⟩
      have hne : id ≠ .root := by
        rintro rfl
        simp [path_eq] at hpath
      obtain ⟨parent, hchild⟩ := t.built.sound.below id hid hne
      rw [hpathOf hchild] at hpath
      obtain ⟨hfront, hname⟩ := List.append_inj' hpath rfl
      rw [lineage_of_child hchild] at hclear
      refine ⟨parent, ih.2 ⟨contains_parent hchild, hfront, ?_⟩, ?_⟩
      · exact fun n hn => hclear n (List.mem_append_left _ hn)
      · exact named?_eq_some_iff.2 ⟨hchild, List.singleton_inj.1 hname, hclear id (by simp)⟩

/--
**Paths lead back to their nodes.**

A node that is found at the end of a path has that path.  And the path of a node of the tree
leads to that node, unless there is an argument on the way from the root down to it, itself
included, beside a literal of the same name.
-/
theorem find?_path_iff (t : Tree Source Command Modifier) :
    (∀ path id, t.find? path = some id → t.path id = path) ∧
    ∀ id, t.contains id = true →
      (t.find? (t.path id) = some id ↔ ∀ n ∈ t.lineage id, ¬t.Shadowed n) := by
  refine ⟨fun path id h => (find?_eq_some_iff.1 h).2.1, fun id hid => ?_⟩
  rw [find?_eq_some_iff]
  simp only [hid, true_and]

end Tree

/-- A literal `x` with a literal `deep` below it, and beside it an argument `x` with `deep` and
`lone` below it. -/
def shadowing : List (Draft Unit Unit Unit) :=
  [{ Draft.literal "x" with children := [.literal "deep"] },
    { Draft.argument "x" (.text .word) with children := [.literal "deep", .literal "lone"] }]

/-- The path of `deep` below the argument leads to that below the literal, and the path of `lone`
leads nowhere. -/
theorem find?_path_iff_shadowing : ∃ t, Tree.empty.addAll .root shadowing = .ok t ∧
    t.find? ["x", "deep"] = some ⟨2⟩ ∧ t.path ⟨2⟩ = ["x", "deep"] ∧
    t.contains ⟨4⟩ = true ∧ t.path ⟨4⟩ = ["x", "deep"] ∧
    (∃ n ∈ t.lineage ⟨4⟩, t.Shadowed n) ∧ t.find? (t.path ⟨4⟩) ≠ some ⟨4⟩ ∧
    t.path ⟨5⟩ = ["x", "lone"] ∧ t.find? ["x", "lone"] = none := by
  have hshadow : ∀ t, Tree.empty.addAll .root shadowing = .ok t →
      ∃ n ∈ t.lineage ⟨4⟩, t.Shadowed n := by
    rintro t h
    have hchild : (⟨4⟩ : NodeId) ∈ (t.node ⟨3⟩).children ∧
        (⟨3⟩ : NodeId) ∈ (t.node .root).children := by
      cases h
      decide
    refine ⟨⟨3⟩, ?_, ?_⟩
    · rw [Tree.lineage_of_child hchild.1, Tree.lineage_of_child hchild.2]
      simp
    · cases h
      exact ⟨rfl, .root, hchild.2, ⟨1⟩, by decide, rfl, rfl⟩
  obtain ⟨t, h⟩ : ∃ t, Tree.empty.addAll .root shadowing = .ok t := ⟨_, rfl⟩
  obtain ⟨n, hn, hn'⟩ := hshadow t h
  obtain ⟨hpath, hfind⟩ := t.find?_path_iff
  have hlost (hin : t.contains ⟨4⟩ = true) : t.find? (t.path ⟨4⟩) ≠ some ⟨4⟩ :=
    fun hfound => (hfind ⟨4⟩ hin).1 hfound n hn hn'
  cases h
  exact ⟨_, rfl, rfl, hpath ["x", "deep"] ⟨2⟩ rfl, rfl, rfl, ⟨n, hn, hn'⟩, hlost rfl, rfl, rfl⟩

end CommandLines
