/-
Finding literals by their words.

Which literal is tried is found by looking up the word ahead, which ends before the first
space.  Whether a literal matches is found by comparing its word with the text ahead, and
looking at the character after it.  The two have the same notion of a word: the word ahead
always stands there whole (`stands_wordAhead`), and nothing else does that has no space in
it (`wordAhead_eq_of_stands`).  So the look-up loses nothing against trying every literal,
and a literal that is tried never fails.

A literal with a space in it is another matter.  Its word may well stand ahead, but it is
never looked up, and so it is never tried: what is said of faults and of matches holds of it
too, and what is said of all children of a node does not.
-/
import CommandLines.Proofs.Reading.Divergence
import CommandLines.Proofs.Reading.Separators

namespace CommandLines

variable {Source Command Modifier : Type}

/-! ### Words ahead -/

namespace Cursor

variable {c after : Cursor} {word : String}

/-- The word ahead stands there whole. -/
theorem stands_wordAhead (c : Cursor) : (c.afterWord? c.wordAhead).isSome = true := by
  let rest := c.ahead.dropWhile (· != separator)
  have hsep : (Cursor.mk (c.wordAhead.toList.reverse ++ c.behind) rest).atSeparator = true := by
    rw [atSeparator, peek]
    cases hhead : rest.head? with
    | none => rfl
    | some d =>
      have hstop := List.head?_dropWhile_not (· != separator) c.ahead
      rw [show (c.ahead.dropWhile (· != separator)).head? = some d from hhead] at hstop
      simpa using hstop
  have hahead : c.ahead = c.wordAhead.toList ++ rest := by
    simp [wordAhead, rest]
  rw [afterWord?_eq_some_iff.2 ⟨hahead, rfl, hsep⟩]
  rfl

/-- A word without a space that stands ahead whole is the word ahead. -/
theorem wordAhead_eq_of_stands (hspace : separator ∉ word.toList)
    (h : (c.afterWord? word).isSome = true) : c.wordAhead = word := by
  obtain ⟨after, hafter⟩ := Option.isSome_iff_exists.1 h
  obtain ⟨hahead, hbehind, hsep⟩ := afterWord?_eq_some_iff.1 hafter
  obtain ⟨behind, ahead⟩ := c
  obtain ⟨place, rest⟩ := after
  simp only at hahead hbehind
  subst hahead hbehind
  have hword := wordAhead_of_separator hspace hsep behind
  rwa [String.ofList_toList] at hword

/-- Nothing that is only a part of the word ahead stands there whole. -/
theorem not_stands_of_part (hpart : word.toList <+: c.wordAhead.toList) (hne : word ≠ c.wordAhead) :
    (c.afterWord? word).isSome = false := by
  cases hstands : (c.afterWord? word).isSome with
  | false => rfl
  | true =>
    have hspace : separator ∉ word.toList := by
      intro hmem
      have hahead : separator ∈ c.ahead.takeWhile (· != separator) := by
        simpa [wordAhead] using hpart.subset hmem
      simpa using List.all_eq_true.1 List.all_takeWhile _ hahead
    exact absurd (wordAhead_eq_of_stands hspace hstands).symm hne

end Cursor

/-! ### Literals that are tried -/

/-- Whether the node is a literal and its word stands ahead, with a space or the end after it. -/
def Node.stands (n : Node Source Command Modifier) (c : Cursor) : Bool :=
  match n.label? with
  | some (.literal word) => (c.afterWord? word).isSome
  | _ => false

namespace Tree

variable {t : Tree Source Command Modifier} {id child : NodeId} {c : Cursor} {word : String}

/-- A literal is tried only where its word is the one ahead. -/
theorem wordAhead_of_relevant (h : child ∈ t.relevant id c)
    (hlabel : (t.node child).label? = some (.literal word)) : c.wordAhead = word := by
  cases hget : (t.node id).literals.get? c.wordAhead with
  | some literal =>
    rw [Arena.relevant_of_some hget] at h
    obtain rfl := List.mem_singleton.1 h
    have hliteral := ((t.built.sound.literals id _ _).1 hget).2
    simpa [hlabel] using hliteral.symm
  | none =>
    rw [Arena.relevant_of_none hget, t.built.sound.arguments] at h
    have hargument := (List.mem_filter.1 h).2
    simp [Node.isArgument, hlabel, Label.isLiteral] at hargument

/-- A literal that is tried matches. -/
theorem refusal?_of_relevant (h : child ∈ t.relevant id c)
    (hlabel : (t.node child).label? = some (.literal word)) : (t.node child).refusal? c = none := by
  have hstands := c.stands_wordAhead
  rw [wordAhead_of_relevant h hlabel] at hstands
  obtain ⟨after, hafter⟩ := Option.isSome_iff_exists.1 hstands
  have hsep := (Cursor.afterWord?_eq_some_iff.1 hafter).2.2
  simp [Node.refusal?, hlabel, hafter, hsep]

section Spaceless

variable (hspace : ∀ child ∈ (t.node id).children, ∀ word,
  (t.node child).label? = some (.literal word) → Cursor.separator ∉ word.toList)

include hspace

/-- The one literal whose word stands ahead is the one that is found by the word ahead. -/
theorem stands_iff (hchild : child ∈ (t.node id).children) :
    (t.node child).stands c = true ↔ (t.node id).literals.get? c.wordAhead = some child := by
  constructor
  · intro hstands
    unfold Node.stands at hstands
    split at hstands
    · next word hlabel =>
      rw [Cursor.wordAhead_eq_of_stands (hspace child hchild word hlabel) hstands]
      exact (t.built.sound.literals id word child).2 ⟨hchild, hlabel⟩
    · simp at hstands
  · intro hget
    have hlabel := ((t.built.sound.literals id _ child).1 hget).2
    simp only [Node.stands, hlabel]
    exact c.stands_wordAhead

theorem filter_stands (c : Cursor) :
    ((t.node id).children.filter fun child => (t.node child).stands c) =
      ((t.node id).literals.get? c.wordAhead).toList := by
  cases hget : (t.node id).literals.get? c.wordAhead with
  | none =>
    rw [List.filter_eq_nil_iff.2 ?_]
    · rfl
    · intro child hchild hstands
      rw [stands_iff hspace hchild, hget] at hstands
      simp at hstands
  | some literal =>
    have hmem := ((t.built.sound.literals id _ _).1 hget).1
    have hone : ∀ child ∈ (t.node id).children,
        (t.node child).stands c = (child == literal) := by
      intro child hchild
      rw [Bool.eq_iff_iff, stands_iff hspace hchild, hget, beq_iff_eq, Option.some.injEq]
      exact eq_comm
    rw [List.filter_congr hone, List.filter_beq,
      List.count_eq_one_of_mem (t.built.sound.nodup_children id) hmem]
    rfl

end Spaceless

/-! ### Literals of a reading -/

/-- What a reading says is wrong is not about literals. -/
theorem isLiteral_of_fault {source : Source} {f : Fault}
    (h : (child, f) ∈ (t.readAt c source).faults) : (t.node child).isLiteral = false := by
  rcases t.readAt_explained c source with ⟨hnone, -⟩ | hexplained
  · simp [hnone] at h
  · have htried : child ∈ t.usable source (t.readAt c source).route.last.stop
        (t.readAt c source).cursor := by
      rw [← hexplained.children]
      exact List.mem_map_of_mem h
    have hrefused := hexplained.refusals _ h
    unfold Node.isLiteral
    cases hlabel : (t.node child).label? with
    | none => rfl
    | some label =>
      cases label with
      | argument name type provider? => rfl
      | literal word =>
        rw [refusal?_of_relevant (Arena.mem_usable.1 htried).1 hlabel] at hrefused
        simp at hrefused

/-- A literal that is matched, and not taken as a default, is the word that is typed there. -/
theorem literal_of_match {source : Source} {m : Match}
    (hm : m ∈ (t.readAt c source).route.nodes)
    (hlabel : (t.node m.node).label? = some (.literal word)) :
    (∃ place : Cursor, c.Reaches place ∧ place.offset = m.span.start ∧ place.wordAhead = word) ∨
      (t.node m.node).default?.isSome = true ∧ m.span = .point c.length := by
  obtain ⟨-, hfound, defaults, hnodes, hdefaults⟩ := t.readAt_nodes c source
  rw [hnodes] at hm
  rcases List.mem_append.1 hm with hm | hm
  · obtain ⟨parent, place, after, hplace, htried, -, hspan⟩ := hfound m hm
    refine .inl ⟨place, hplace, by rw [hspan], ?_⟩
    exact wordAhead_of_relevant (Arena.mem_usable.1 htried).1 hlabel
  · obtain ⟨last, -, hbelow⟩ := hdefaults (List.ne_nil_of_mem hm)
    obtain ⟨hdefault, hspan⟩ := hbelow.of_mem hm
    rw [Cursor.bytes_line] at hspan
    exact .inr ⟨hdefault, hspan⟩

/--
**Finding a literal by the word ahead is as good as trying them all.**

If no literal below a node has a space in it, at most one of them stands at a place as a
whole word.  Where one does it is the one child worth a try, and where none does these are
the arguments below the node, in the order in which they came to be.

In any tree, what a reading says is wrong is never about a literal.  A literal that stands
in a reading is the very word that is typed there, unless it is taken as a default at the
end of the line.  And one that is only the beginning of the word ahead is not tried, and
would not match if it were.
-/
theorem literals_by_word (t : Tree Source Command Modifier) :
    (∀ id, (∀ child ∈ (t.node id).children, ∀ word,
        (t.node child).label? = some (.literal word) → Cursor.separator ∉ word.toList) →
      ∀ c, let standing := (t.node id).children.filter fun child => (t.node child).stands c
        (∃ child, standing = [child] ∧ t.relevant id c = [child]) ∨
          standing = [] ∧
            t.relevant id c = (t.node id).children.filter fun child => (t.node child).isArgument) ∧
    (∀ c source child f, (child, f) ∈ (t.readAt c source).faults →
      (t.node child).isLiteral = false) ∧
    (∀ c source m word, m ∈ (t.readAt c source).route.nodes →
      (t.node m.node).label? = some (.literal word) →
      (∃ place : Cursor, c.Reaches place ∧ place.offset = m.span.start ∧ place.wordAhead = word) ∨
        (t.node m.node).default?.isSome = true ∧ m.span = .point c.length) ∧
    (∀ id c child word, (t.node child).label? = some (.literal word) →
      word.toList <+: c.wordAhead.toList → word ≠ c.wordAhead →
      child ∉ t.relevant id c ∧ (t.node child).stands c = false) := by
  refine ⟨?_, ?_, ?_, ?_⟩
  · intro id hspace c standing
    have hstanding : standing = ((t.node id).literals.get? c.wordAhead).toList :=
      filter_stands hspace c
    cases hget : (t.node id).literals.get? c.wordAhead with
    | some literal =>
      rw [hget] at hstanding
      exact .inl ⟨literal, hstanding, Arena.relevant_of_some hget⟩
    | none =>
      rw [hget] at hstanding
      exact .inr ⟨hstanding, (Arena.relevant_of_none hget).trans (t.built.sound.arguments id)⟩
  · intro c source child f hfault
    exact isLiteral_of_fault hfault
  · intro c source m word hm hlabel
    exact literal_of_match hm hlabel
  · intro id c child word hlabel hpart hne
    constructor
    · intro htried
      exact hne (wordAhead_of_relevant htried hlabel).symm
    · simp only [Node.stands, hlabel]
      exact Cursor.not_stands_of_part hpart hne

end Tree

/-- The tree that comes of adding literals `foo` and `foobar`, and an argument `w`, which is any
word. -/
def prefixedTree : Except Tree.MissingNode (Tree Unit Unit Unit) := do
  let (t, _) ← Tree.empty.register ((Draft.literal "foo").runs ())
  let (t, _) ← t.register ((Draft.literal "foobar").runs ())
  let (t, _) ← t.register ((Draft.argument "w" (.text .word)).runs ())
  return t

theorem spaceless_prefixedTree {t : Tree Unit Unit Unit} (h : prefixedTree = .ok t) :
    ∀ child ∈ (t.node .root).children, ∀ word,
      (t.node child).label? = some (.literal word) → Cursor.separator ∉ word.toList := by
  intro child hchild word hlabel
  obtain rfl := Except.ok.inj h
  have hone : child ∈ [(⟨1⟩ : NodeId), ⟨2⟩, ⟨3⟩] := hchild
  simp only [List.mem_cons, List.not_mem_nil, or_false] at hone
  obtain rfl | rfl | rfl := hone
  · cases hlabel
    decide
  · cases hlabel
    decide
  · cases hlabel

/-- On `foobar` the literal of that name is the one that stands, and `foo` is not tried.  On `foob`
neither is, and the argument takes the word. -/
theorem literals_by_word_prefixed : ∃ t, prefixedTree = .ok t ∧
    (∀ child ∈ (t.node .root).children, ∀ word,
      (t.node child).label? = some (.literal word) → Cursor.separator ∉ word.toList) ∧
    t.relevant .root (.ofLine "foobar") = [⟨2⟩] ∧
    ⟨1⟩ ∉ t.relevant .root (.ofLine "foobar") ∧
    t.relevant .root (.ofLine "foob") = [⟨3⟩] := by
  cases h : prefixedTree with
  | error e => cases h
  | ok t =>
    have hspace := spaceless_prefixedTree h
    obtain ⟨htried, -, -, hpart⟩ := t.literals_by_word
    obtain rfl := Except.ok.inj h
    refine ⟨_, rfl, hspace, ?_, ?_, ?_⟩
    · rcases htried .root hspace (.ofLine "foobar") with ⟨child, hstanding, htried⟩ | ⟨hnone, -⟩
      · obtain rfl : ⟨2⟩ = child := List.singleton_inj.1 hstanding
        exact htried
      · exact absurd hnone (List.cons_ne_nil _ _)
    · exact (hpart .root (.ofLine "foobar") ⟨1⟩ "foo" rfl (by decide) (by decide)).1
    · rcases htried .root hspace (.ofLine "foob") with ⟨child, hstanding, -⟩ | ⟨-, htried⟩
      · exact absurd hstanding.symm (List.cons_ne_nil _ _)
      · exact htried

end CommandLines
