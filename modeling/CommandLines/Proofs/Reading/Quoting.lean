/-
Text that is quoted where it has to be reads back.

Two readers undo the quoting.  A text of word characters alone is written as it is, and the
reader of words takes it back, as long as no word character follows.  Any other text stands
in quotes, and the induction over it keeps what has been read, in reverse, next to what is
left of the quoted form.

There is one text between the two.  The empty text has only word characters, so it is
written as nothing, and a quotation mark that follows is read as the start of a text.

In a tree the text is stored under the name of its argument, and there it stays unless the
line ends without a command and a default of the same name is taken.  An argument of a name
replaces what was stored under that name, whoever stored it.
-/
import CommandLines.Cursor.Quoting
import CommandLines.Proofs.Reading.Words

namespace CommandLines

variable {Source Command Modifier : Type}

/-! ### At a cursor -/

namespace Cursor

theorem escapeFor_cons_of_marked {closing d : Char} (h : d = closing ∨ d = escapeMark)
    (text : List Char) :
    escapeFor closing (d :: text) = escapeMark :: d :: escapeFor closing text := by
  rw [escapeFor, List.flatMap_cons, if_pos (by simpa using h)]
  rfl

theorem escapeFor_cons_of_plain {closing d : Char} (hclosing : d ≠ closing)
    (hescape : d ≠ escapeMark) (text : List Char) :
    escapeFor closing (d :: text) = d :: escapeFor closing text := by
  rw [escapeFor, List.flatMap_cons, if_neg (by simp [hclosing, hescape])]
  rfl

/-- As far as a text is written for its closing mark, reading goes on, and keeps the text. -/
theorem readClosing_append (closing : Char) (text found behind tail : List Char) :
    readClosing closing false found behind (escapeFor closing text ++ tail) =
      readClosing closing false (text.reverse ++ found)
        ((escapeFor closing text).reverse ++ behind) tail := by
  induction text generalizing found behind with
  | nil => rfl
  | cons d text ih =>
    by_cases hd : d = closing ∨ d = escapeMark
    · rw [escapeFor_cons_of_marked hd, List.cons_append, List.cons_append, readClosing,
        if_pos (by simp), readClosing, if_pos (by simpa using hd), ih]
      simp
    · obtain ⟨hclosing, hescape⟩ := not_or.1 hd
      rw [escapeFor_cons_of_plain hclosing hescape, List.cons_append, readClosing,
        if_neg (by simpa using hescape), if_neg (by simpa using hclosing), ih]
      simp

/-- Between its marks every text reads back, whatever follows the closing one. -/
theorem readClosing_escapeFor {closing : Char} (hclosing : closing ≠ escapeMark)
    (text found behind rest : List Char) :
    readClosing closing false found behind (escapeFor closing text ++ closing :: rest) =
      (.ok (String.ofList (found.reverse ++ text)),
        ⟨closing :: ((escapeFor closing text).reverse ++ behind), rest⟩) := by
  rw [readClosing_append]
  simp [readClosing, hclosing]

/-- A text that is quoted if it has to be reads back, unless it is empty and quotes follow. -/
theorem readString_quoteIfNeeded (text : String) (behind rest : List Char)
    (hstop : ∀ d ∈ rest.head?, isWordChar d = false)
    (hquote : text = "" → rest.head? ≠ some quoteMark) :
    (Cursor.mk behind ((quoteIfNeeded text).toList ++ rest)).readString =
      (.ok text, ⟨(quoteIfNeeded text).toList.reverse ++ behind, rest⟩) := by
  unfold quoteIfNeeded
  by_cases hword : text.toList.all isWordChar = true
  · rw [if_pos hword]
    have hall : ∀ d ∈ text.toList, isWordChar d = true := List.all_eq_true.1 hword
    have hpeek : ((Cursor.mk behind (text.toList ++ rest)).peek == some quoteMark) = false := by
      cases htext : text.toList with
      | nil => simpa [peek] using hquote (String.toList_eq_nil_iff.1 htext)
      | cons d ds =>
        have hd : isWordChar d = true := hall d (by simp [htext])
        have hne : d ≠ quoteMark := by
          rintro rfl
          exact absurd hd (by decide)
        simpa [peek] using hne
    simp only [readString, hpeek, readWord, takeRun_of_head? hall hstop, String.ofList_toList]
    rfl
  · rw [if_neg hword]
    simp only [readString, String.toList_ofList, List.cons_append, peek, List.head?_cons,
      beq_self_eq_true, if_true, readUntil, skip]
    rw [List.append_assoc, List.singleton_append, readClosing_escapeFor (by decide)]
    simp

theorem toList_quoteIfNeeded_ne_nil {text : String} (h : text ≠ "") :
    (quoteIfNeeded text).toList ≠ [] := by
  unfold quoteIfNeeded
  split
  · simpa using h
  · simp

end Cursor

/-! ### In a tree -/

namespace Tree

variable {t : Tree Source Command Modifier} {source : Source} {last arg : NodeId}
  {hop : Hop Source Command Modifier} {name : String}

/-- An only child that is an argument is what is tried, whatever is ahead. -/
theorem usable_of_only_argument (honly : (t.node last).children = [arg])
    (hargument : (t.node arg).isArgument = true) (hallows : (t.node arg).allows source = true)
    (c : Cursor) : t.usable source last c = [arg] := by
  have hnone : (t.node last).literals.get? c.wordAhead = none := by
    cases hget : (t.node last).literals.get? c.wordAhead with
    | none => rfl
    | some literal =>
      obtain ⟨hliteral, hlabel⟩ := (t.built.sound.literals last _ literal).1 hget
      rw [honly, List.mem_singleton] at hliteral
      simp [Node.isArgument, ← hliteral, hlabel, Label.isLiteral] at hargument
  rw [Arena.usable, Arena.relevant_of_none hnone, t.built.sound.arguments, honly]
  simp [hargument, hallows]

/-- Behind words that lead to a node whose only child is a string argument, a text that is not empty
is what is typed for the argument. -/
theorem typed_quoted {provider? : Option (Provider Source Command Modifier)} {text : String}
    (hlast : t.contains last = true) (hwords : t.Worded source last)
    (honly : (t.node last).children = [arg])
    (hlabel : (t.node arg).label? = some (.argument name (.text .phrase) provider?))
    (hallows : (t.node arg).allows source = true) (htext : text ≠ "") :
    ∃ grown after,
      t.typed (String.ofList (t.spaced last ++ (Cursor.quoteIfNeeded text).toList)) source =
        { route := { first := grown }, cursor := after } ∧
      after.atEnd = true ∧ grown.source = source ∧ grown.values = [(name, .text text)] ∧
      grown.ids = t.lineage last ++ [arg] := by
  have hargument : (t.node arg).isArgument = true := by
    simp [Node.isArgument, hlabel, Label.isLiteral]
  have hread : (ArgumentType.text .phrase).readValue
      ⟨(t.spaced last).reverse, (Cursor.quoteIfNeeded text).toList⟩ = (.ok (.text text),
        ⟨(Cursor.quoteIfNeeded text).toList.reverse ++ (t.spaced last).reverse, []⟩) := by
    have hstring := Cursor.readString_quoteIfNeeded text (t.spaced last).reverse []
      (by simp) (by simp)
    rw [List.append_nil] at hstring
    simp only [ArgumentType.readValue, ArgumentType.text, ArgumentType.readText, hstring]
    rfl
  obtain ⟨hop, hids, harguments, hsource, htyped⟩ := t.typed_of_words hlast hwords
    (Cursor.toList_quoteIfNeeded_ne_nil htext)
    (usable_of_only_argument honly hargument hallows _)
    (fun hop => Node.takeWhole_of_value hlabel hread (Cursor.atSeparator_nil _)) rfl
  refine ⟨_, _, htyped, rfl, hsource, ?_, ?_⟩
  · simp [Hop.withNode, Hop.values, Hop.withArgument, harguments, Hop.putArgument]
  · rw [← hids]
    simp [Hop.ids, Hop.withNode, Hop.withArgument]

theorem argument?_of_values {value : Value} (h : hop.values = [(name, value)]) :
    (hop.argument? name).map Argument.value = some value := by
  obtain ⟨⟨other, argument⟩, harguments, hentry⟩ := List.map_eq_singleton_iff.1 h
  obtain ⟨rfl, rfl⟩ : other = name ∧ argument.value = value := by simpa using hentry
  simp [Hop.argument?, harguments]

/--
**Quoted text reads back.**

Write a text as it is if it has only word characters, and in quotes otherwise.  Read as a
string, what is written gives the text and leaves the cursor right after it, if what follows
does not start with a word character, nor, where the text is empty, with a quotation mark.

So behind words that lead to a node whose only child is a string argument, every text but
the empty one is stored as it is: the line is read to its end in one hop, what is typed are
the words and the argument, and the argument's value is the text.  Defaults may follow it,
and then its value is still the text unless one of them is for an argument of its name.
-/
theorem quoteIfNeeded_reads_back (t : Tree Source Command Modifier) (source : Source) :
    (∀ (text : String) (behind rest : List Char),
      (∀ d ∈ rest.head?, Cursor.isWordChar d = false) →
      (text = "" → rest.head? ≠ some Cursor.quoteMark) →
      (Cursor.mk behind ((Cursor.quoteIfNeeded text).toList ++ rest)).readString =
        (.ok text, ⟨(Cursor.quoteIfNeeded text).toList.reverse ++ behind, rest⟩)) ∧
    ∀ (last arg : NodeId) (name : String)
      (provider? : Option (Provider Source Command Modifier)) (text : String),
      last ≠ .root → t.Worded source last → (t.node last).children = [arg] →
      (t.node arg).label? = some (.argument name (.text .phrase) provider?) →
      (t.node arg).allows source = true → text ≠ "" →
      let line := " ".intercalate (t.path last) ++ " " ++ Cursor.quoteIfNeeded text
      let r := t.read line source
      r.cursor.atEnd = true ∧ r.route.later = [] ∧
        (t.typed line source).route.first.values = [(name, .text text)] ∧
        ∃ defaults, r.route.first.ids = t.lineage last ++ arg :: defaults.map Match.node ∧
          t.Defaults source line arg defaults ∧
          ((∀ m ∈ defaults, (t.node m.node).key? ≠ some (.argument name)) →
            (r.route.first.argument? name).map Argument.value = some (.text text)) := by
  refine ⟨fun text behind rest hstop hquote =>
    Cursor.readString_quoteIfNeeded text behind rest hstop hquote, ?_⟩
  intro last arg name provider? text hroot hwords honly hlabel hallows htext line r
  have hlast : t.contains last = true := by
    have harg : arg ∈ (t.node last).children := by simp [honly]
    exact contains_parent harg
  have hline : line = String.ofList (t.spaced last ++ (Cursor.quoteIfNeeded text).toList) :=
    joined_path_append hlast hroot _
  obtain ⟨grown, after, htyped, hend, hsource, hvalues, hids⟩ :=
    typed_quoted hlast hwords honly hlabel hallows htext
  rw [← hline] at htyped
  have hread : r = _ := read_of_typed htyped hend
  obtain ⟨m, hm, rfl⟩ : ∃ m, grown.nodes.getLast? = some m ∧ m.node = arg := by
    have hgetLast := congrArg List.getLast? hids
    simpa [Hop.ids, List.getLast?_map] using hgetLast
  obtain ⟨defaults, hnodes, hdefaults, hkept⟩ := fillDefaults_fills line hsource hm
  refine ⟨?_, ?_, ?_, defaults, ?_, hdefaults, ?_⟩
  · rw [hread]
    exact hend
  · rw [hread]
  · rw [htyped]
    exact hvalues
  · rw [hread]
    rw [Hop.ids] at hids
    simp [Hop.ids, hnodes, hids]
  · intro hnames
    rw [hread]
    simp only
    rw [hkept name hnames]
    exact argument?_of_values hvalues

end Tree

/-- The tree that comes of adding a literal `say` with a literal `loud` below it, and below that a
string `x` without a command, and a number `n` with a default and a command. -/
def sayingTree : Except Tree.MissingNode (Tree Unit Unit Unit) := do
  let times := { (Draft.argument "n" (.number .int)).runs () with default? := some (.int 1) }
  let phrase := { Draft.argument "x" (.text .phrase) with children := [times] }
  let loud := { Draft.literal "loud" with children := [phrase] }
  let (t, _) ← Tree.empty.register { Draft.literal "say" with children := [loud] }
  return t

/-- A text with a space, a quotation mark and a backslash at its end is stored by `say loud`, and
the default for `n` comes after it. -/
theorem quoteIfNeeded_reads_back_saying : ∃ t, sayingTree = .ok t ∧
    (Cursor.mk [] ((Cursor.quoteIfNeeded "").toList ++ [' ', 'x'])).readString =
      (.ok "", ⟨[], [' ', 'x']⟩) ∧
    t.path ⟨2⟩ = ["say", "loud"] ∧
    let r := t.read (" ".intercalate (t.path ⟨2⟩) ++ " " ++ Cursor.quoteIfNeeded "é \"\\") ()
    r.cursor.atEnd = true ∧ r.route.first.ids = [⟨1⟩, ⟨2⟩, ⟨3⟩, ⟨4⟩] ∧
      (r.route.first.argument? "x").map Argument.value = some (.text "é \"\\") := by
  obtain ⟨t, h⟩ : ∃ t, sayingTree = .ok t := ⟨_, rfl⟩
  obtain ⟨hsay, hloud⟩ : ⟨1⟩ ∈ (t.node .root).children ∧ ⟨2⟩ ∈ (t.node ⟨1⟩).children := by
    obtain rfl := Except.ok.inj h
    decide
  have hlineage : t.lineage ⟨2⟩ = [⟨1⟩, ⟨2⟩] := by
    rw [Tree.lineage_of_child hloud, Tree.lineage_of_child hsay, Tree.lineage_root]
    rfl
  have hwords : t.Worded () ⟨2⟩ := by
    obtain rfl := Except.ok.inj h
    rw [Tree.Worded, hlineage]
    intro n hn
    obtain rfl | rfl : n = ⟨1⟩ ∨ n = ⟨2⟩ := by simpa using hn
    · exact ⟨by decide, rfl, rfl⟩
    · exact ⟨by decide, rfl, rfl⟩
  have hpath : t.path ⟨2⟩ = ["say", "loud"] := by
    obtain rfl := Except.ok.inj h
    rfl
  have hstop : ∀ d ∈ [' ', 'x'].head?, Cursor.isWordChar d = false := by
    intro d hd
    obtain rfl : ' ' = d := by simpa using hd
    decide
  obtain ⟨hcursor, htree⟩ := Tree.quoteIfNeeded_reads_back t ()
  refine ⟨t, h, hcursor "" [] [' ', 'x'] hstop (by decide), hpath, ?_⟩
  intro r
  obtain ⟨hend, -, -, defaults, hids, -, hstored⟩ :=
    htree ⟨2⟩ ⟨3⟩ "x" none "é \"\\" (by decide) hwords
      (by obtain rfl := Except.ok.inj h; rfl) (by obtain rfl := Except.ok.inj h; rfl)
      (by obtain rfl := Except.ok.inj h; rfl) (by decide)
  have hread : r.route.first.ids = [⟨1⟩, ⟨2⟩, ⟨3⟩, ⟨4⟩] := by
    obtain rfl := Except.ok.inj h
    rfl
  refine ⟨hend, hread, hstored ?_⟩
  -- the one default is that of the number
  intro m hm
  have hnode : m.node ∈ [NodeId.mk 4] := by
    rw [hread, hlineage] at hids
    have hdefaults : defaults.map Match.node = [⟨4⟩] := by simpa using hids.symm
    exact hdefaults ▸ List.mem_map_of_mem hm
  rw [List.mem_singleton.1 hnode]
  obtain rfl := Except.ok.inj h
  decide

/-- The tree that comes of adding a literal `say` with a string `x` below it, and below that another
argument `x` with a default and a command. -/
def overwritingTree : Except Tree.MissingNode (Tree Unit Unit Unit) := do
  let other := { (Draft.argument "x" (.text .word)).runs () with default? := some (.text "d") }
  let phrase := { Draft.argument "x" (.text .phrase) with children := [other] }
  let (t, _) ← Tree.empty.register { Draft.literal "say" with children := [phrase] }
  return t

/-- The empty text is written as nothing, and does not read back in front of a quotation mark.  And
what is typed for an argument does not stay where a default of the same name is taken after it. -/
theorem quoteIfNeeded_misread :
    (Cursor.isWordChar Cursor.quoteMark = false ∧
      (Cursor.mk [] ((Cursor.quoteIfNeeded "").toList ++
          [Cursor.quoteMark, 'a', Cursor.quoteMark])).readString =
        (.ok "a", ⟨[Cursor.quoteMark, 'a', Cursor.quoteMark], []⟩)) ∧
    ∃ t, overwritingTree = .ok t ∧ t.Worded () ⟨1⟩ ∧ (t.node ⟨1⟩).children = [⟨2⟩] ∧
      (t.node ⟨2⟩).label? = some (.argument "x" (.text .phrase) none) ∧
      (t.node ⟨2⟩).allows () = true ∧
      (let r := t.read (" ".intercalate (t.path ⟨1⟩) ++ " " ++ Cursor.quoteIfNeeded "hello") ()
      r.cursor.atEnd = true ∧
        (r.route.first.argument? "x").map Argument.value = some (.text "d")) := by
  obtain ⟨t, h⟩ : ∃ t, overwritingTree = .ok t := ⟨_, rfl⟩
  have hsay : ⟨1⟩ ∈ (t.node .root).children := by
    obtain rfl := Except.ok.inj h
    decide
  have hwords : t.Worded () ⟨1⟩ := by
    intro n hn
    rw [Tree.lineage_of_child hsay, Tree.lineage_root] at hn
    obtain rfl : n = ⟨1⟩ := by simpa using hn
    obtain rfl := Except.ok.inj h
    exact ⟨by decide, rfl, rfl⟩
  refine ⟨⟨by decide, rfl⟩, t, h, hwords, ?_⟩
  obtain rfl := Except.ok.inj h
  exact ⟨rfl, rfl, rfl, rfl, rfl⟩

end CommandLines
