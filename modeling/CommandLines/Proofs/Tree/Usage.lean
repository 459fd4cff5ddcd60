/-
What the full usage tells.

`pathsBelow` goes down a tree with the text of the way so far.  It cuts off what the source
may not use and goes no further where a node redirects.  Here each node is told of by
itself, from its lineage: whether it is told at all, its text and its lines.  The induction
is on the steps that are left, and it goes through because a node that is cut off, or that
redirects, stands in the lineage of all that lies below it.

The other half is that the lines can be typed.  It is stated for ways of words alone, where
what is told is also what is typed.
-/
import CommandLines.Proofs.Reading.Words
import CommandLines.Tree.Usage

namespace CommandLines

variable {Source Command Modifier : Type}

namespace Node

variable {n : Node Source Command Modifier}

theorem IsWord.usage_eq (h : n.IsWord) : n.usage = n.name := by
  rw [usage, h.label_eq]
  rfl

/-- A node that has a name is told of. -/
theorem usage_ne_empty (h : n.name ≠ "") : n.usage ≠ "" := by
  unfold usage
  cases hlabel : n.label? with
  | none => simp [name, hlabel] at h
  | some label =>
    cases label with
    | literal word => simpa [name, hlabel, Label.name, Label.usage] using h
    | argument name type provider? =>
      intro hempty
      have hchars := congrArg String.toList hempty
      simp [Label.usage] at hchars

end Node

namespace Tree

variable {t : Tree Source Command Modifier} {source : Source} {id parent child d : NodeId}

/-- The way down to a node in a description of usage. -/
def usageText (t : Tree Source Command Modifier) (id : NodeId) : String :=
  " ".intercalate ((t.lineage id).map fun n => (t.node n).usage)

/-- Whether the source may use the whole way down to a node, and nothing before the node
redirects. -/
def told (t : Tree Source Command Modifier) (source : Source) (id : NodeId) : Bool :=
  ((t.lineage id).all fun n => (t.node n).allows source) &&
    (t.lineage id).dropLast.all fun n => (t.node n).redirect?.isNone

/-- What is told of a node: the way down to it, if something runs there, and the way with where it
leads, if it redirects. -/
def usageLines (t : Tree Source Command Modifier) (id : NodeId) : List String :=
  (if (t.node id).command?.isSome then [t.usageText id] else []) ++
    match (t.node id).redirect? with
    | some r => [t.usageText id ++ " " ++ t.redirectUsage r.target]
    | none => []

/-- Every node but the root has a name. -/
def Named (t : Tree Source Command Modifier) : Prop :=
  ∀ id, t.contains id = true → id ≠ .root → (t.node id).name ≠ ""

/-! ### The text of a way -/

theorem usageText_ne_empty (ht : t.Named) (hid : t.contains id = true) (hne : id ≠ .root) :
    t.usageText id ≠ "" := by
  obtain ⟨parent, hparent⟩ := t.built.sound.below id hid hne
  intro hempty
  have hchars := congrArg String.toList hempty
  rw [usageText, lineage_of_child hparent, List.map_append, List.map_singleton, toList_joined]
    at hchars
  exact Node.usage_ne_empty (ht id hid hne)
    (String.toList_eq_nil_iff.1 (List.append_eq_nil_iff.1 hchars).2)

/-- The text of a child is that of its parent and one more part. -/
theorem usageText_of_child (ht : t.Named) (h : child ∈ (t.node parent).children) :
    t.usageText child = joinUsage (t.usageText parent) (t.node child).usage := by
  by_cases hroot : parent = .root
  · subst hroot
    simp [usageText, lineage_of_child h, joinUsage]
  · have hparent := contains_parent h
    obtain ⟨above, habove⟩ := t.built.sound.below parent hparent hroot
    have hnonempty : (t.usageText parent).isEmpty = false := by
      simpa using usageText_ne_empty ht hparent hroot
    rw [joinUsage, hnonempty, usageText, lineage_of_child h, List.map_append,
      String.intercalate_append_of_ne_nil (by simp [lineage_of_child habove]) (by simp)]
    simp [usageText]

/-! ### What is cut off -/

theorem mem_lineage_self (hid : t.contains id = true) (hne : id ≠ .root) : id ∈ t.lineage id := by
  obtain ⟨parent, hparent⟩ := t.built.sound.below id hid hne
  simp [lineage_of_child hparent]

theorem mem_lineage_cases {n : NodeId} (h : n ∈ t.lineage id) :
    n = id ∨ n ∈ (t.lineage id).dropLast := by
  cases hparent : (t.node id).parent? with
  | none => simp [lineage_of_none hparent] at h
  | some parent =>
    have hlineage := lineage_of_child (t.built.sound.mem_children_of_parent? hparent)
    rw [hlineage] at h ⊢
    simpa [or_comm] using h

/-- Where the way to a node is open, the node is told of if the source may use it. -/
theorem told_eq_allows (hid : t.contains id = true)
    (habove : ∀ n ∈ (t.lineage id).dropLast,
      (t.node n).allows source = true ∧ (t.node n).redirect? = none) :
    t.told source id = (t.node id).allows source := by
  by_cases hroot : id = .root
  · subst hroot
    simp [told, (t.root_open).1 source]
  · obtain ⟨parent, hparent⟩ := t.built.sound.below id hid hroot
    rw [lineage_of_child hparent, List.dropLast_concat] at habove
    have hallowed : (t.lineage parent).all (fun n => (t.node n).allows source) = true :=
      List.all_eq_true.2 fun n hn => (habove n hn).1
    have hstays : (t.lineage parent).all (fun n => (t.node n).redirect?.isNone) = true :=
      List.all_eq_true.2 fun n hn => by simp [(habove n hn).2]
    simp [told, lineage_of_child hparent, hallowed, hstays]

/-- What lies below a node is told of only if the node is open. -/
theorem open_of_told (hid : t.contains id = true) (hd : d ∈ t.descendants id)
    (h : t.told source d = true) :
    (t.node id).allows source = true ∧ (t.node id).redirect? = none := by
  by_cases hroot : id = .root
  · subst hroot
    exact ⟨t.root_open.1 source, t.root_open.2⟩
  · have hmem := (lineage_of_mem_descendants hd).subset (mem_lineage_self hid hroot)
    rw [told, Bool.and_eq_true, List.all_eq_true, List.all_eq_true] at h
    exact ⟨h.1 id ((List.dropLast_sublist _).subset hmem), by simpa using h.2 id hmem⟩

/-- From a node on, the lines told are those of the node and of what lies below it, if the way to
the node is open. -/
theorem pathsBelow_eq (ht : t.Named) (id : NodeId) {steps : Nat}
    (hsteps : t.size ≤ steps + id.index)
    (hid : t.contains id = true)
    (habove : ∀ n ∈ (t.lineage id).dropLast,
      (t.node n).allows source = true ∧ (t.node n).redirect? = none) :
    t.pathsBelow (some source) steps id (t.usageText id) =
      ((id :: t.descendants id).filter (t.told source)).flatMap t.usageLines := by
  induction steps generalizing id with
  | zero =>
    have hlt := Arena.contains_iff.1 hid
    omega
  | succ steps ih =>
    have htold := told_eq_allows hid habove
    -- below a node that is not open nothing is told
    have hcut (hclosed : ¬((t.node id).allows source = true ∧ (t.node id).redirect? = none)) :
        (t.descendants id).filter (t.told source) = [] :=
      List.filter_eq_nil_iff.2 fun d hd hd' => hclosed (open_of_told hid hd hd')
    rw [Arena.pathsBelow]
    simp only [Option.all_some]
    cases hallows : (t.node id).allows source with
    | false =>
      rw [List.filter_cons_of_neg (by simp [htold, hallows]), hcut (by simp [hallows])]
      rfl
    | true =>
      rw [if_pos rfl, List.filter_cons_of_pos (by rw [htold, hallows]), List.flatMap_cons]
      cases hredirect : (t.node id).redirect? with
      | some r =>
        have hroot : id ≠ .root := by
          rintro rfl
          simp [t.root_open.2] at hredirect
        have hnonempty : (t.usageText id).isEmpty = false := by
          simpa using usageText_ne_empty ht hid hroot
        rw [hcut (by simp [hredirect])]
        simp [usageLines, hredirect, hnonempty]
      | none =>
        have hchildren : ∀ c ∈ (t.node id).children,
            t.pathsBelow (some source) steps c (joinUsage (t.usageText id) (t.node c).usage) =
              ((c :: t.descendants c).filter (t.told source)).flatMap t.usageLines := by
          intro c hc
          obtain ⟨hin, hlt, -⟩ := t.built.sound.child id c hc
          rw [← usageText_of_child ht hc]
          refine ih c (by omega) hin ?_
          intro n hn
          rw [lineage_of_child hc, List.dropLast_concat] at hn
          rcases mem_lineage_cases hn with rfl | hn
          · exact ⟨hallows, hredirect⟩
          · exact habove n hn
        rw [descendants_eq, List.filter_flatMap, List.flatMap_assoc]
        simp only [usageLines, hredirect, List.append_nil]
        exact congrArg (_ ++ ·) (List.flatMap_congr hchildren)

/-- The whole usage of a tree is that of its nodes in preorder. -/
theorem allUsage_eq (ht : t.Named) (source : Source) :
    t.allUsage .root (some source) = (t.preorder.filter (t.told source)).flatMap t.usageLines := by
  have hroot : t.usageText .root = "" := by simp [usageText]
  have habove : ∀ n ∈ (t.lineage .root).dropLast,
      (t.node n).allows source = true ∧ (t.node n).redirect? = none := by
    simp
  have hbelow := pathsBelow_eq ht .root (Nat.le_add_right t.size 0) t.built.sound.nonempty habove
  have htold : t.told source .root = true := by simp [told]
  have hlines : t.usageLines .root = [] := by
    simp [usageLines, t.built.sound.root.2.2, t.root_open.2]
  rw [hroot, List.filter_cons_of_pos htold, List.flatMap_cons, hlines, List.nil_append] at hbelow
  exact hbelow

/-! ### Typing what is told -/

/-- Where a way is one of words, its text is what is typed for it. -/
theorem usageText_of_words (h : child ∈ (t.node parent).children)
    (hwords : ∀ n ∈ t.lineage child, (t.node n).IsWord) :
    t.usageText child = String.ofList (t.spaced parent ++ (t.node child).name.toList) := by
  have husage : (t.lineage child).map (fun n => (t.node n).usage) = t.path child := by
    rw [path_eq]
    exact List.map_congr_left fun n hn => (hwords n hn).usage_eq
  rw [usageText, husage, ← joined_path, path_eq, path_eq, lineage_of_child h, List.map_append]
  rfl

/-- What is told of a node that runs something, on a way of words, can be typed. -/
theorem read_usageText (hname : (t.node child).name ≠ "") (h : child ∈ (t.node parent).children)
    (htold : t.told source child = true) (hruns : (t.node child).command?.isSome = true)
    (hwords : ∀ n ∈ t.lineage child, (t.node n).IsWord) :
    let r := t.read (t.usageText child) source
    r.cursor.atEnd = true ∧ r.route.later = [] ∧ r.route.first.ids = t.lineage child ∧
      r.isComplete = true := by
  intro r
  have hlineage := lineage_of_child h
  obtain ⟨hallowed, hstays⟩ : (∀ n ∈ t.lineage child, (t.node n).allows source = true) ∧
      ∀ n ∈ t.lineage parent, (t.node n).redirect? = none := by
    rw [told, hlineage, List.dropLast_concat, ← hlineage] at htold
    simpa using htold
  have hworded : t.Worded source parent := by
    intro n hn
    have hmem : n ∈ t.lineage child := by simp [hlineage, hn]
    exact ⟨hwords n hmem, hallowed n hmem, hstays n hn⟩
  have hself : child ∈ t.lineage child := by simp [hlineage]
  have hword := hwords child hself
  obtain ⟨husable, hafter⟩ := takes_word h (hallowed child hself) hword.label_eq hword.2
    (Cursor.atSeparator_nil ((t.node child).name.toList.reverse ++ (t.spaced parent).reverse))
  rw [List.append_nil] at husable hafter
  obtain ⟨hop, hids, -, -, htyped⟩ := t.typed_of_words (contains_parent h) hworded
    (by simpa using hname) husable (fun hop => Node.takeWhole_of_word hword.label_eq hafter) rfl
  rw [← usageText_of_words h hwords] at htyped
  have hread : r = _ := read_of_typed htyped rfl
  rw [fillDefaults_of_command hruns] at hread
  rw [hread]
  refine ⟨rfl, rfl, ?_, ?_⟩
  · rw [hlineage, ← hids]
    simp [Hop.ids, Hop.withNode]
  · exact hruns

/--
**The full usage lists the executable ways, and they can be typed.**

Let every node but the root have a name.  Then the usage of a tree for a source is told of
its nodes in preorder, each once: of those whose whole way down the source may use, with
nothing before the node that redirects.  Of each it tells the way if something runs there,
and then the way with where it leads if it redirects.

And where the way to a node at which something runs is one of words, its text is read to
the end, by exactly the nodes of the way in one hop, and is complete.
-/
theorem allUsage_exhaustive (t : Tree Source Command Modifier) (ht : t.Named) (source : Source) :
    t.allUsage .root (some source) =
        (t.preorder.filter (t.told source)).flatMap t.usageLines ∧
      t.preorder.Nodup ∧ (∀ id, id ∈ t.preorder ↔ t.contains id = true ∧ id ≠ .root) ∧
      ∀ id ∈ t.preorder, t.told source id = true → (t.node id).command?.isSome = true →
        (∀ n ∈ t.lineage id, (t.node n).IsWord) →
        let r := t.read (t.usageText id) source
        r.cursor.atEnd = true ∧ r.route.later = [] ∧ r.route.first.ids = t.lineage id ∧
          r.isComplete = true := by
  refine ⟨allUsage_eq ht source, t.nodup_descendants .root, fun id => mem_preorder_iff, ?_⟩
  intro id hid htold hruns hwords
  obtain ⟨hin, hne⟩ := mem_preorder_iff.1 hid
  obtain ⟨parent, hparent⟩ := t.built.sound.below id hin hne
  exact read_usageText (ht id hin hne) hparent htold hruns hwords

end Tree

/-- The tree that comes of adding a literal `go` with a command, which leads back to the root, a
literal `set` with a literal `all` and a number `n` below each other, both with commands, and a
literal `stop` with a command that is for some only. -/
def tellingTree : Except Tree.MissingNode (Tree Bool Unit Unit) := do
  let number := (Draft.argument "n" (.number .int)).runs ()
  let all := { (Draft.literal "all").runs () with children := [number] }
  let stop := { (Draft.literal "stop").runs () with allows := id }
  let (t, _) ← Tree.empty.register
    { (Draft.literal "go").runs () with redirect? := some { target := .root } }
  let (t, _) ← t.register { Draft.literal "set" with children := [all] }
  let (t, _) ← t.register stop
  return t

/-- The tree tells of `go` twice and of `set all` with and without a number, but not of `stop`, and
`set all` can be typed. -/
theorem allUsage_exhaustive_telling : ∃ t, tellingTree = .ok t ∧ t.Named ∧
    t.allUsage .root (some false) = ["go", "go ...", "set all", "set all <n>"] ∧
    t.allUsage .root (some false) =
      (t.preorder.filter (t.told false)).flatMap t.usageLines ∧
    t.lineage ⟨3⟩ = [⟨2⟩, ⟨3⟩] ∧ t.usageText ⟨3⟩ = "set all" ∧
    (t.read (t.usageText ⟨3⟩) false).route.first.ids = t.lineage ⟨3⟩ ∧
    (t.read (t.usageText ⟨3⟩) false).isComplete = true := by
  obtain ⟨t, h⟩ : ∃ t, tellingTree = .ok t := ⟨_, rfl⟩
  have hnamed : t.Named := by
    have hnames : ∀ i < t.size, i ≠ 0 → (t.node ⟨i⟩).name ≠ "" := by
      obtain rfl := Except.ok.inj h
      decide
    intro id hid hne
    exact hnames id.index (Arena.contains_iff.1 hid) fun hzero => hne (congrArg NodeId.mk hzero)
  obtain ⟨hset, hall⟩ : ⟨2⟩ ∈ (t.node .root).children ∧ ⟨3⟩ ∈ (t.node ⟨2⟩).children := by
    obtain rfl := Except.ok.inj h
    decide
  have hlineage : t.lineage ⟨3⟩ = [⟨2⟩, ⟨3⟩] := by
    rw [Tree.lineage_of_child hall, Tree.lineage_of_child hset, Tree.lineage_root]
    rfl
  have hwords : ∀ n ∈ t.lineage ⟨3⟩, (t.node n).IsWord := by
    rw [hlineage]
    obtain rfl := Except.ok.inj h
    decide
  obtain ⟨husage, -, hmem, htyped⟩ := Tree.allUsage_exhaustive t hnamed false
  have hpreorder : ⟨3⟩ ∈ t.preorder := by
    refine (hmem ⟨3⟩).2 ⟨?_, by decide⟩
    obtain rfl := Except.ok.inj h
    decide
  obtain ⟨-, -, hids, hcomplete⟩ := htyped ⟨3⟩ hpreorder
    (by rw [Tree.told, hlineage]; obtain rfl := Except.ok.inj h; decide)
    (by obtain rfl := Except.ok.inj h; rfl) hwords
  refine ⟨t, h, hnamed, ?_, husage, hlineage, ?_, hids, hcomplete⟩
  · obtain rfl := Except.ok.inj h
    rfl
  · rw [Tree.usageText, hlineage]
    obtain rfl := Except.ok.inj h
    rfl

end CommandLines
