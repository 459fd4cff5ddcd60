/-
Which ambiguities are reported.

Whether a text matches a node by itself is decided twice.  `Node.accepts` does it for the report of
ambiguities, and the reading of a line does it for each child that is tried, with a hop to put the
match into and a fault to tell of.  They go about it differently: the report sees at once that a
space or the end follows a word, and looks after a value only when the value has been read.  The two
agree on every node but the root (`accepts_eq`), which is nobody's sibling, so what is reported is
what reading would not refuse.

The report goes down the tree, and a pair of siblings might be met twice or not at all.  Said node
by node, each node but the root is compared with its siblings once, below its one parent
(`ambiguities_eq`), and since the preorder lists every node once this settles both.
-/
import CommandLines.Proofs.List
import CommandLines.Proofs.Reading.Steps
import CommandLines.Proofs.Tree.Lineage
import CommandLines.Tree.Ambiguity
import Mathlib.Data.List.Sort
import Mathlib.Data.String.Basic

namespace CommandLines

variable {Source Command Modifier : Type}

/-- Whether the child does not match. -/
def Trial.isRefused : Trial Source Command Modifier → Bool
  | .refused _ => true
  | .fits _ | .settles _ => false

namespace Node

variable {n : Node Source Command Modifier}

/-- A text matches a node by itself just where the node would take all of it at the start of a
line, up to a space or the end. -/
theorem accepts_eq (h : n.label?.isSome = true) (text : String) :
    n.accepts text = (n.whole? (.ofLine text)).isSome := by
  unfold accepts whole? after?
  cases hlabel : n.label? with
  | none => simp [hlabel] at h
  | some label =>
    cases label with
    | literal word =>
      cases hword : (Cursor.ofLine text).afterWord? word with
      | none => simp [hword]
      | some after =>
        have hsep := (Cursor.afterWord?_eq_some_iff.1 hword).2.2
        simp [hword, Option.filter, hsep]
    | argument name type provider? =>
      cases hread : type.readValue (Cursor.ofLine text) with
      | mk outcome after =>
        cases outcome with
        | error f => simp [hread]
        | ok value => by_cases hsep : after.atSeparator <;> simp [hread, Option.filter, hsep]

end Node

namespace Tree

variable {t : Tree Source Command Modifier} {parent child sibling id : NodeId} {text : String}

/-- A child that is tried is refused just where it does not match whole, whatever has been read
before and however the line goes on. -/
theorem isRefused_tryChild (t : Tree Source Command Modifier)
    (further : NodeId → Cursor → Hop Source Command Modifier → Reading Source Command Modifier)
    (c : Cursor) (hop : Hop Source Command Modifier) (id : NodeId) :
    (t.tryChild further c hop id).isRefused = ((t.node id).whole? c).isNone := by
  have htries := t.tryChild_tries further c hop id
  generalize t.tryChild further c hop id = trial at htries ⊢
  cases htries with
  | refused f hwhole => rw [hwhole]; rfl
  | ends htake => rw [Node.whole?_of_takeWhole htake]; rfl
  | descends htake => rw [Node.whole?_of_takeWhole htake]; rfl
  | redirects htake => rw [Node.whole?_of_takeWhole htake]; rfl

/-! ### The examples that two siblings share -/

theorem mem_sharedExamples : text ∈ t.sharedExamples child sibling ↔
    text ∈ (t.node child).examples ∧ (t.node sibling).accepts text = true := by
  rw [sharedExamples, List.mem_mergeSort, List.mem_eraseDups, List.mem_filter]

/-- Each example is told once, in order. -/
theorem ascending_sharedExamples (t : Tree Source Command Modifier) (child sibling : NodeId) :
    (t.sharedExamples child sibling).Pairwise (· < ·) := by
  unfold sharedExamples
  generalize (t.node child).examples.filter (t.node sibling).accepts = texts
  have hsorted : (texts.eraseDups.mergeSort fun a b => decide (a ≤ b)).Pairwise
      fun a b => decide (a ≤ b) = true := by
    refine List.pairwise_mergeSort ?_ ?_ _
    · intro a b c hab hbc
      exact decide_eq_true (String.le_trans (of_decide_eq_true hab) (of_decide_eq_true hbc))
    · intro a b
      simpa using String.le_total a b
  have hnodup : (texts.eraseDups.mergeSort fun a b => decide (a ≤ b)).Nodup :=
    (List.mergeSort_perm _ _).nodup_iff.2 (nodup_eraseDups texts)
  refine (hsorted.and hnodup).imp ?_
  intro a b h
  exact lt_of_le_of_ne (of_decide_eq_true h.1) h.2

/-! ### The report, node by node -/

theorem mem_ambiguitiesOf_iff {a : Ambiguity} : a ∈ t.ambiguitiesOf parent child ↔
    a.parent = parent ∧ a.child = child ∧ a.sibling ∈ (t.node parent).children ∧
      a.sibling ≠ child ∧ a.examples = t.sharedExamples child a.sibling ∧ a.examples ≠ [] := by
  rw [ambiguitiesOf, List.mem_filterMap]
  constructor
  · intro h
    obtain ⟨sibling, hsibling, hreport⟩ := h
    simp only [Bool.or_eq_true, decide_eq_true_eq, List.isEmpty_iff] at hreport
    split at hreport
    · cases hreport
    · next hkept =>
      obtain rfl := Option.some.inj hreport
      rw [not_or] at hkept
      exact ⟨rfl, rfl, hsibling, hkept.1, rfl, hkept.2⟩
  · intro h
    obtain ⟨p, c, sibling, examples⟩ := a
    obtain ⟨rfl, rfl, hsibling, hne, hexamples, hsome⟩ := h
    simp only at hsibling hne hexamples hsome
    subst hexamples
    exact ⟨sibling, hsibling, by simp [hne, hsome]⟩

/-- The ambiguities of a node with its siblings. -/
def ambiguitiesAt (t : Tree Source Command Modifier) (child : NodeId) : List Ambiguity :=
  match (t.node child).parent? with
  | some parent => t.ambiguitiesOf parent child
  | none => []

theorem ambiguitiesAt_of_child (h : child ∈ (t.node parent).children) :
    t.ambiguitiesAt child = t.ambiguitiesOf parent child := by
  rw [ambiguitiesAt, (t.built.sound.child parent child h).2.2.1]

theorem mem_ambiguitiesAt_iff {a : Ambiguity} : a ∈ t.ambiguitiesAt child ↔
    a.child = child ∧ child ∈ (t.node a.parent).children ∧
      a ∈ t.ambiguitiesOf a.parent child := by
  constructor
  · intro h
    cases hparent : (t.node child).parent? with
    | none => simp [ambiguitiesAt, hparent] at h
    | some parent =>
      have hchild := t.built.sound.mem_children_of_parent? hparent
      rw [ambiguitiesAt_of_child hchild] at h
      obtain ⟨rfl, rfl, -⟩ := mem_ambiguitiesOf_iff.1 h
      exact ⟨rfl, hchild, h⟩
  · intro h
    obtain ⟨-, hchild, hreport⟩ := h
    rwa [ambiguitiesAt_of_child hchild]

/-- Below a node the report is that of all that lies below it. -/
theorem ambiguitiesBelow_eq (id : NodeId) {steps : Nat} (hsteps : t.size ≤ steps + id.index) :
    t.ambiguitiesBelow steps id = (t.descendants id).flatMap t.ambiguitiesAt := by
  induction steps generalizing id with
  | zero =>
    have hbare : t.node id = Node.bare := by
      refine Arena.node_of_not_contains ?_
      rw [Arena.contains_iff]
      omega
    rw [descendants_eq, hbare]
    rfl
  | succ steps ih =>
    rw [ambiguitiesBelow, descendants_eq, List.flatMap_assoc]
    refine List.flatMap_congr ?_
    intro child hchild
    have hlt := (t.built.sound.child id child hchild).2.1
    rw [ih child (by omega), List.flatMap_cons, ambiguitiesAt_of_child hchild]

/-- The report is that of all nodes in preorder. -/
theorem ambiguities_eq (t : Tree Source Command Modifier) :
    t.ambiguities = t.preorder.flatMap t.ambiguitiesAt :=
  ambiguitiesBelow_eq .root (Nat.le_add_right t.size 0)

/-- No two siblings are compared twice. -/
theorem nodup_ambiguities (t : Tree Source Command Modifier) :
    (t.ambiguities.map fun a => (a.child, a.sibling)).Nodup := by
  rw [ambiguities_eq, List.map_flatMap, List.nodup_flatMap]
  refine ⟨?_, ?_⟩
  · intro child _
    unfold ambiguitiesAt
    cases (t.node child).parent? with
    | none => exact List.nodup_nil
    | some parent =>
      simp only [ambiguitiesOf, List.map_filterMap]
      refine List.Nodup.filterMap ?_ (t.built.sound.nodup_children parent)
      intro a b pair ha hb
      simp only [Option.mem_def, Option.map_eq_some_iff] at ha hb
      obtain ⟨x, hx, rfl⟩ := ha
      obtain ⟨y, hy, heq⟩ := hb
      split at hx
      · cases hx
      · split at hy
        · cases hy
        · obtain rfl := Option.some.inj hx
          obtain rfl := Option.some.inj hy
          exact (Prod.mk.inj heq).2.symm
  · refine (t.nodup_descendants .root).imp ?_
    intro c d hne pair hc hd
    obtain ⟨a, ha, rfl⟩ := List.mem_map.1 hc
    obtain ⟨b, hb, heq⟩ := List.mem_map.1 hd
    rw [← (mem_ambiguitiesAt_iff.1 ha).1, ← (mem_ambiguitiesAt_iff.1 hb).1] at hne
    exact hne (Prod.mk.inj heq).1.symm

/--
**The ambiguities of a tree are all reported, each once.**

An ambiguity is in the report just if it is of two different children of some node, and tells
of at least one text, and its texts are, in order and each once, those examples of the child
that reading would not refuse for the sibling at the start of a line that is the text and no
more.  What a line has gone through before, and how it goes on, has no part in this.  And no
child is reported twice with the same sibling.
-/
theorem ambiguities_exact (t : Tree Source Command Modifier)
    (further : NodeId → Cursor → Hop Source Command Modifier → Reading Source Command Modifier)
    (hop : Hop Source Command Modifier) :
    (∀ a : Ambiguity, a ∈ t.ambiguities ↔
      a.child ∈ (t.node a.parent).children ∧ a.sibling ∈ (t.node a.parent).children ∧
        a.child ≠ a.sibling ∧ a.examples ≠ [] ∧ a.examples.Pairwise (· < ·) ∧
        ∀ text, text ∈ a.examples ↔ text ∈ (t.node a.child).examples ∧
          (t.tryChild further (.ofLine text) hop a.sibling).isRefused = false) ∧
      (t.ambiguities.map fun a => (a.child, a.sibling)).Nodup := by
  refine ⟨?_, t.nodup_ambiguities⟩
  intro a
  have haccepts (hsibling : a.sibling ∈ (t.node a.parent).children) (text : String) :
      (t.node a.sibling).accepts text = true ↔
        (t.tryChild further (.ofLine text) hop a.sibling).isRefused = false := by
    have hlabel := (t.built.sound.child a.parent a.sibling hsibling).2.2.2
    rw [Node.accepts_eq hlabel, isRefused_tryChild]
    cases (t.node a.sibling).whole? (.ofLine text) <;> simp
  rw [ambiguities_eq, List.mem_flatMap]
  constructor
  · intro h
    obtain ⟨child, -, hreport⟩ := h
    obtain ⟨rfl, hchild, hof⟩ := mem_ambiguitiesAt_iff.1 hreport
    obtain ⟨-, -, hsibling, hne, hexamples, hsome⟩ := mem_ambiguitiesOf_iff.1 hof
    refine ⟨hchild, hsibling, hne.symm, hsome, ?_, ?_⟩
    · rw [hexamples]
      exact t.ascending_sharedExamples a.child a.sibling
    · intro text
      rw [hexamples, mem_sharedExamples, haccepts hsibling]
  · intro h
    obtain ⟨hchild, hsibling, hne, hsome, hascending, htexts⟩ := h
    have hexamples : a.examples = t.sharedExamples a.child a.sibling := by
      refine hascending.eq_of_mem_iff (t.ascending_sharedExamples a.child a.sibling) ?_
      intro text
      rw [htexts, mem_sharedExamples, haccepts hsibling]
    refine ⟨a.child, ?_, mem_ambiguitiesAt_iff.2 ⟨rfl, hchild, ?_⟩⟩
    · obtain ⟨hin, -⟩ := t.built.sound.child a.parent a.child hchild
      exact mem_preorder_iff.2 ⟨hin, t.built.sound.child_ne_root hchild⟩
    · exact mem_ambiguitiesOf_iff.2 ⟨rfl, rfl, hsibling, hne.symm, hexamples, hsome⟩

end Tree

/-- The word `word` is the text of the literal, and the first example of any word. -/
example : (do
    let (t, _) ← (Tree.empty : Tree Unit Unit Unit).register (Draft.literal "word")
    let (t, _) ← t.register (Draft.argument "w" (.text .word))
    return t.ambiguities : Except Tree.MissingNode (List Ambiguity)) =
      .ok [⟨.root, ⟨1⟩, ⟨2⟩, ["word"]⟩, ⟨.root, ⟨2⟩, ⟨1⟩, ["word"]⟩] := by
  cbv

end CommandLines
