/-
Lines of words.

Where the word of a literal is ahead, the literal is the only child that is tried, whatever
lies beside it.  So a line that spells the literals down to a node, with one space after
each, is read in one way in every tree, and not only in ordinary ones: its stages are known,
and at the last of them the hop has matched the lineage of the node and read no argument.

What is written after the spaces is left open.  It may be one more word, or a value.
-/
import CommandLines.Proofs.Reading.Defaults
import CommandLines.Proofs.Tree.Lineage

namespace CommandLines

variable {Source Command Modifier : Type}

/-- Texts joined by spaces, spelled out. -/
theorem toList_joined (words : List String) (last : String) :
    (" ".intercalate (words ++ [last])).toList =
      (words.flatMap fun word => word.toList ++ [Cursor.separator]) ++ last.toList := by
  induction words with
  | nil => simp
  | cons word words ih =>
    rw [List.cons_append, ← List.singleton_append,
      String.intercalate_append_of_ne_nil (by simp) (by simp)]
    simp [ih, Cursor.separator]

namespace Node

variable {n : Node Source Command Modifier}

/-- The node is a literal, and its word has no space. -/
def IsWord (n : Node Source Command Modifier) : Prop :=
  n.isLiteral = true ∧ Cursor.separator ∉ n.name.toList

instance (n : Node Source Command Modifier) : Decidable n.IsWord :=
  inferInstanceAs (Decidable (_ ∧ _))

theorem IsWord.label_eq (h : n.IsWord) : n.label? = some (.literal n.name) := by
  have hliteral := h.1
  unfold isLiteral at hliteral
  cases hlabel : n.label? with
  | none => simp [hlabel] at hliteral
  | some label =>
    cases label with
    | literal word => simp [name, hlabel, Label.name]
    | argument name type provider? => simp [hlabel, Label.isLiteral] at hliteral

end Node

namespace Tree

variable {t : Tree Source Command Modifier} {source : Source} {id parent child : NodeId}

/-- The words down to a node, each with a space after it. -/
def spaced (t : Tree Source Command Modifier) (id : NodeId) : List Char :=
  (t.lineage id).flatMap fun n => (t.node n).name.toList ++ [Cursor.separator]

/-- The way down to a node is one of words that a source may use, and none of them redirects. -/
def Worded (t : Tree Source Command Modifier) (source : Source) (id : NodeId) : Prop :=
  ∀ n ∈ t.lineage id, (t.node n).IsWord ∧ (t.node n).allows source = true ∧
    (t.node n).redirect? = none

theorem spaced_of_child (h : child ∈ (t.node parent).children) :
    t.spaced child = t.spaced parent ++ ((t.node child).name.toList ++ [Cursor.separator]) := by
  simp [spaced, lineage_of_child h]

theorem joined_path (t : Tree Source Command Modifier) (id : NodeId) (last : String) :
    " ".intercalate (t.path id ++ [last]) = String.ofList (t.spaced id ++ last.toList) := by
  rw [← String.toList_inj, toList_joined, String.toList_ofList, path_eq, List.flatMap_map, spaced]

/-- A text written behind the path of a node comes after the words and their spaces. -/
theorem joined_path_append (hid : t.contains id = true) (hne : id ≠ .root) (text : String) :
    " ".intercalate (t.path id) ++ " " ++ text = String.ofList (t.spaced id ++ text.toList) := by
  obtain ⟨parent, hparent⟩ := t.built.sound.below id hid hne
  have hpath : t.path id ≠ [] := by simp [path_eq, lineage_of_child hparent]
  rw [← joined_path, String.intercalate_append_of_ne_nil hpath (by simp),
    String.intercalate_singleton]

/-- After the words down to a node, reading stands below it, whatever follows the last space. -/
theorem exists_stage (hid : t.contains id = true) (hwords : t.Worded source id)
    (rest : List Char) :
    ∃ hop, t.Stage source (String.ofList (t.spaced id ++ rest)) [] id
        ⟨(t.spaced id).reverse, rest⟩ hop ∧
      hop.ids = t.lineage id ∧ hop.arguments = [] := by
  -- going down, a word and a space are put in front of what follows
  refine t.from_root (p := fun id => t.Worded source id → ∀ rest, ∃ hop,
    t.Stage source (String.ofList (t.spaced id ++ rest)) [] id ⟨(t.spaced id).reverse, rest⟩ hop ∧
      hop.ids = t.lineage id ∧ hop.arguments = []) ?_ ?_ hid hwords rest
  · intro _ rest
    have hspaced : t.spaced .root = [] := by simp [spaced]
    have hline : Cursor.ofLine (String.ofList rest) = ⟨[], rest⟩ := by simp [Cursor.ofLine]
    refine ⟨.start source .root 0, ?_, ?_, rfl⟩
    · have hstart : t.Stage source (String.ofList rest) [] .root
          (.ofLine (String.ofList rest)) (.start source .root 0) := .start
      rw [hspaced]
      exact hline ▸ hstart
    · simp [Hop.ids, Hop.start]
  · intro parent child _ hchild ih hwords rest
    have hlineage := lineage_of_child hchild
    obtain ⟨hword, hallows, hredirect⟩ := hwords child (by simp [hlineage])
    obtain ⟨hop, hstage, hids, harguments⟩ :=
      ih (fun n hn => hwords n (by simp [hlineage, hn]))
        ((t.node child).name.toList ++ Cursor.separator :: rest)
    obtain ⟨husable, hafter⟩ := takes_word hchild hallows hword.label_eq hword.2
      (Cursor.atSeparator_cons ((t.node child).name.toList.reverse ++ (t.spaced parent).reverse)
        rest)
    have hnext := hstage.descends husable (Node.takeWhole_of_word hword.label_eq hafter) rfl
      hredirect
    have hspaced := spaced_of_child hchild
    have hline : t.spaced parent ++ ((t.node child).name.toList ++ Cursor.separator :: rest) =
        t.spaced child ++ rest := by simp [hspaced]
    have hskip : (Cursor.mk ((t.node child).name.toList.reverse ++ (t.spaced parent).reverse)
        (Cursor.separator :: rest)).skip = ⟨(t.spaced child).reverse, rest⟩ := by
      simp [Cursor.skip, hspaced]
    rw [hline, hskip] at hnext
    refine ⟨_, hnext, ?_, harguments⟩
    rw [hlineage, ← hids]
    simp [Hop.ids, Hop.withNode]

/-- If one child only is tried after the words down to a node, and it takes the line to its end,
what is typed is the words and that child. -/
theorem typed_of_words (hid : t.contains id = true) (hwords : t.Worded source id)
    {last : List Char} (hne : last ≠ [])
    (husable : t.usable source id ⟨(t.spaced id).reverse, last⟩ = [child]) {after : Cursor}
    {grow : Hop Source Command Modifier → Hop Source Command Modifier}
    (htake : ∀ hop, (t.node child).takeWhole child ⟨(t.spaced id).reverse, last⟩ hop =
      .ok (after, grow hop)) (hend : after.atEnd = true) :
    ∃ hop, hop.ids = t.lineage id ∧ hop.arguments = [] ∧ hop.source = source ∧
      t.typed (String.ofList (t.spaced id ++ last)) source =
        { route := { first := grow hop }, cursor := after } := by
  obtain ⟨hop, hstage, hids, harguments⟩ := t.exists_stage hid hwords last
  have hopen : (Cursor.mk (t.spaced id).reverse last).atEnd = false := by simpa [Cursor.atEnd]
  exact ⟨hop, hids, harguments, hstage.source_eq,
    hstage.typed_of_only hopen husable (htake hop) hend⟩

end Tree

end CommandLines
