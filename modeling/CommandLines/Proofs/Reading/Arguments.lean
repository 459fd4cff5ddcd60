/-
Which argument a name stands for.

Names may come up more than once in a line, in argument nodes below each other, in
defaults, and in another hop after a redirect.  The arguments of a hop are written while
it is matched and again while its defaults are taken, on a copy of the hop for every child
that is tried.  So they might show what was tried and dropped, or what an earlier hop had
stored under the same name.

`Gives` says what the matches of a hop give, one after another, repeated names included.
A hop that is kept has stored just that (`Stores`): the names in the order in which they
first come up, each once, and for each of them what was given last.  A context asks the
hop, and so its answers are read off the same list (`Context.Answers`).
-/
import CommandLines.Proofs.List
import CommandLines.Proofs.Reading.Defaults

namespace CommandLines

variable {Source Command Modifier : Type}

/-! ### Storing arguments one after another -/

namespace Hop

/-- The arguments after more of them were added or replaced, one after another. -/
def putArguments (entries arguments : List (String × Argument)) : List (String × Argument) :=
  entries.foldl (fun arguments entry => putArgument entry.1 entry.2 arguments) arguments

/-- The hop has each name once, in the order in which they first come up in the entries, and for
each the last entry. -/
structure Stores (h : Hop Source Command Modifier) (entries : List (String × Argument)) : Prop where
  names_eq : h.arguments.map Prod.fst = (entries.map Prod.fst).eraseDups
  nodup : (h.arguments.map Prod.fst).Nodup
  argument?_eq : ∀ name, h.argument? name = entries.reverse.lookup name

variable {entries : List (String × Argument)} {h : Hop Source Command Modifier}

theorem putArguments_append (first later arguments : List (String × Argument)) :
    putArguments (first ++ later) arguments = putArguments later (putArguments first arguments) :=
  List.foldl_append

theorem putArguments_concat (entries : List (String × Argument)) (entry : String × Argument)
    (arguments : List (String × Argument)) :
    putArguments (entries ++ [entry]) arguments =
      putArgument entry.1 entry.2 (putArguments entries arguments) :=
  putArguments_append entries [entry] arguments

/-- A name that is there stays where it is, and another one comes after all others. -/
theorem names_putArgument (name : String) (a : Argument)
    (arguments : List (String × Argument)) :
    (putArgument name a arguments).map Prod.fst =
      if name ∈ arguments.map Prod.fst then arguments.map Prod.fst
      else arguments.map Prod.fst ++ [name] := by
  induction arguments with
  | nil => rfl
  | cons entry arguments ih =>
    by_cases hentry : entry.1 = name
    · rw [putArgument, if_pos hentry]
      simp [hentry]
    · rw [putArgument, if_neg hentry, List.map_cons, List.map_cons, ih]
      have hname : name ≠ entry.1 := fun heq => hentry heq.symm
      by_cases hmem : name ∈ arguments.map Prod.fst
      · rw [if_pos hmem, if_pos (List.mem_cons_of_mem _ hmem)]
      · rw [if_neg hmem, if_neg (List.not_mem_cons_of_ne_of_not_mem hname hmem)]
        rfl

theorem names_putArguments (entries : List (String × Argument)) :
    (putArguments entries []).map Prod.fst = (entries.map Prod.fst).eraseDups := by
  induction entries using List.reverseRecOn with
  | nil => rfl
  | append_singleton entries entry ih =>
    rw [putArguments_concat, names_putArgument, ih, List.map_append, List.map_singleton,
      eraseDups_concat]

theorem nodup_putArguments (entries : List (String × Argument)) :
    ((putArguments entries []).map Prod.fst).Nodup := by
  rw [names_putArguments]
  exact nodup_eraseDups _

theorem argument?_of_putArguments (harguments : h.arguments = putArguments entries [])
    (name : String) : h.argument? name = entries.reverse.lookup name := by
  induction entries using List.reverseRecOn generalizing h with
  | nil => rw [argument?, harguments]; rfl
  | append_singleton entries entry ih =>
    rw [putArguments_concat] at harguments
    let before : Hop Source Command Modifier := { h with arguments := putArguments entries [] }
    have hbefore : h.argument? name = (before.withArgument entry.1 entry.2).argument? name := by
      rw [argument?, harguments]
      rfl
    rw [hbefore, argument?_withArgument, ih (h := before) rfl, List.reverse_concat,
      List.lookup_cons]
    by_cases hname : entry.1 = name
    · simp [hname]
    · simp [hname, beq_false_of_ne (Ne.symm hname)]

/-- What is stored is a matter of the arguments alone. -/
theorem Stores.congr {h' : Hop Source Command Modifier} (hstores : h.Stores entries)
    (harguments : h'.arguments = h.arguments) : h'.Stores entries where
  names_eq := by rw [harguments, hstores.names_eq]
  nodup := by rw [harguments]; exact hstores.nodup
  argument?_eq := by
    intro name
    rw [← hstores.argument?_eq, argument?, harguments, argument?]

theorem stores_of_putArguments (harguments : h.arguments = putArguments entries []) :
    h.Stores entries where
  names_eq := by rw [harguments, names_putArguments]
  nodup := by rw [harguments]; exact nodup_putArguments entries
  argument?_eq := argument?_of_putArguments harguments

end Hop

namespace Context

/-- The context answers with the last entry of a name if it has the type asked for; it has no such
argument just if no entry has the name, and one of another type just if the last entry is of that
type. -/
structure Answers (context : Context Source Command Modifier) (entries : List (String × Argument)) :
    Prop where
  given : ∀ type name x, context.argument type name = .ok x ↔
    ∃ span, entries.reverse.lookup name = some ⟨span, ⟨type, x⟩⟩
  missing : ∀ type name, context.argument type name = .error ⟨.noSuchArgument name, none⟩ ↔
    ∀ a, (name, a) ∉ entries
  mistyped : ∀ type name found,
    context.argument type name = .error ⟨.argumentType name type found, none⟩ ↔
      found ≠ type ∧ ∃ span x, entries.reverse.lookup name = some ⟨span, ⟨found, x⟩⟩

/-- What a context answers is read off what is stored. -/
theorem argument_cases (context : Context Source Command Modifier) (type : ValueType)
    (name : String) :
    (context.hop.argument? name = none ∧
      context.argument type name = .error ⟨.noSuchArgument name, none⟩) ∨
    (∃ span x, context.hop.argument? name = some ⟨span, ⟨type, x⟩⟩ ∧
      context.argument type name = .ok x) ∨
    ∃ span found x, context.hop.argument? name = some ⟨span, ⟨found, x⟩⟩ ∧ found ≠ type ∧
      context.argument type name = .error ⟨.argumentType name type found, none⟩ := by
  unfold argument
  cases hstored : context.hop.argument? name with
  | none => exact .inl ⟨rfl, rfl⟩
  | some a =>
    obtain ⟨span, found, x⟩ := a
    by_cases htype : found = type
    · subst htype
      refine .inr (.inl ⟨span, x, rfl, ?_⟩)
      simp only [Value.as?_self]
    · have hnone : (Value.mk found x).as? type = none := Value.as?_eq_none_iff.2 htype
      refine .inr (.inr ⟨span, found, x, rfl, htype, ?_⟩)
      simp only [hnone]

theorem answers_of_stores {context : Context Source Command Modifier}
    {entries : List (String × Argument)} (h : context.hop.Stores entries) :
    context.Answers entries := by
  have hnone (name : String) : entries.reverse.lookup name = none ↔ ∀ a, (name, a) ∉ entries := by
    rw [List.lookup_eq_none_iff]
    constructor
    · intro hall a hmem
      simpa using hall (name, a) (List.mem_reverse.2 hmem)
    · rintro hall ⟨other, a⟩ hmem
      have hne : name ≠ other := by
        rintro rfl
        exact hall a (List.mem_reverse.1 hmem)
      simpa using hne
  refine ⟨?_, ?_, ?_⟩
  · intro type name x
    rw [← h.argument?_eq]
    rcases context.argument_cases type name with ⟨hstored, hanswer⟩ | ⟨span, y, hstored, hanswer⟩ |
      ⟨span, found, y, hstored, hfound, hanswer⟩
    · simp [hstored, hanswer]
    · simp [hstored, hanswer]
    · simp [hstored, hanswer, hfound]
  · intro type name
    rw [← hnone, ← h.argument?_eq]
    rcases context.argument_cases type name with ⟨hstored, hanswer⟩ | ⟨span, y, hstored, hanswer⟩ |
      ⟨span, found, y, hstored, hfound, hanswer⟩
    · simp [hstored, hanswer]
    · simp [hstored, hanswer]
    · simp [hstored, hanswer]
  · intro type name other
    rw [← h.argument?_eq]
    rcases context.argument_cases type name with ⟨hstored, hanswer⟩ | ⟨span, y, hstored, hanswer⟩ |
      ⟨span, found, y, hstored, hfound, hanswer⟩
    · simp [hstored, hanswer]
    · rw [hstored, hanswer]
      constructor
      · rintro ⟨⟩
      · rintro ⟨hne, _, _, ⟨⟩⟩
        exact absurd rfl hne
    · rw [hstored, hanswer]
      constructor
      · rintro ⟨⟩
        exact ⟨hfound, span, y, rfl⟩
      · rintro ⟨-, _, _, ⟨⟩⟩
        rfl

end Context

/-! ### What matches give -/

namespace Tree

/-- What matches give one after another: a literal nothing, and an argument node a value under its
name, for the span of the match. -/
inductive Gives (t : Tree Source Command Modifier) (tells : Match → String → Value → Prop) :
    List Match → List (String × Argument) → Prop where
  | nil : Gives t tells [] []
  | literal {m : Match} {ms : List Match} {word : String} {entries : List (String × Argument)}
      (label : (t.node m.node).label? = some (.literal word)) (rest : Gives t tells ms entries) :
      Gives t tells (m :: ms) entries
  | argument {m : Match} {ms : List Match} {name : String} {type : ArgumentType}
      {provider? : Option (Provider Source Command Modifier)} {value : Value}
      {entries : List (String × Argument)}
      (label : (t.node m.node).label? = some (.argument name type provider?))
      (given : tells m name value) (rest : Gives t tells ms entries) :
      Gives t tells (m :: ms) ((name, ⟨m.span, value⟩) :: entries)

/-- The second hop is the first one with matches that are read, and then defaults, and it has stored
what they give. -/
def Recorded (t : Tree Source Command Modifier) (line : String)
    (before after : Hop Source Command Modifier) : Prop :=
  ∃ typed defaults read filled, after.nodes = before.nodes ++ (typed ++ defaults) ∧
    (defaults ≠ [] → typed ≠ []) ∧ t.Gives (t.Reads line) typed read ∧
    t.Gives (t.StandsIn line) defaults filled ∧
    after.arguments = Hop.putArguments (read ++ filled) before.arguments

variable {t : Tree Source Command Modifier} {line : String} {id child : NodeId}
  {c after : Cursor} {hop grown final : Hop Source Command Modifier} {ms ns : List Match}
  {tells : Match → String → Value → Prop} {es fs : List (String × Argument)}

theorem Gives.append (h : t.Gives tells ms es) (k : t.Gives tells ns fs) :
    t.Gives tells (ms ++ ns) (es ++ fs) := by
  induction h with
  | nil => exact k
  | literal label rest ih => exact .literal label ih
  | argument label given rest ih => exact .argument label given ih

theorem Recorded.refl (t : Tree Source Command Modifier) (line : String)
    (hop : Hop Source Command Modifier) : t.Recorded line hop hop :=
  ⟨[], [], [], [], by simp, id, .nil, .nil, rfl⟩

/-- A match that is read comes before others that are read and the defaults. -/
theorem Recorded.cons {m : Match} (h : t.Recorded line grown final)
    (hnodes : grown.nodes = hop.nodes ++ [m]) (hread : t.Gives (t.Reads line) [m] es)
    (harguments : grown.arguments = Hop.putArguments es hop.arguments) :
    t.Recorded line hop final := by
  obtain ⟨typed, defaults, read, filled, hmatches, -, htyped, hdefaults, hstored⟩ := h
  refine ⟨[m] ++ typed, defaults, es ++ read, filled, ?_, by simp, hread.append htyped, hdefaults,
    ?_⟩
  · simp [hmatches, hnodes]
  · rw [hstored, harguments, List.append_assoc, Hop.putArguments_append es]

/-! ### What readings store -/

theorem gives_of_takeWhole (hchild : child ∈ t.usable hop.source id c)
    (h : (t.node child).takeWhole child c hop = .ok (after, grown)) :
    ∃ read, t.Gives (t.Reads c.line) [⟨child, ⟨c.offset, after.offset⟩⟩] read ∧
      grown.arguments = Hop.putArguments read hop.arguments := by
  have hreaches := Node.reaches_of_whole? (Node.whole?_of_takeWhole h)
  rcases Node.takeWhole_cases h with ⟨hlabel, -⟩ | ⟨word, hlabel, -, rfl⟩ |
    ⟨name, type, provider?, value, hlabel, hread, rfl⟩
  · have hsome := label_of_relevant (Arena.mem_usable.1 hchild).1
    simp [hlabel] at hsome
  · exact ⟨[], .literal hlabel .nil, rfl⟩
  · exact ⟨[(name, ⟨⟨c.offset, after.offset⟩, value⟩)], .argument hlabel ⟨type, provider?, c, after,
      hlabel, rfl, Cursor.place_of_reaches hreaches, hread⟩ .nil, rfl⟩

theorem gives_of_takeDefault {source : Source} (h : t.defaultChild? id source = some child)
    (line : String) (hop : Hop Source Command Modifier) :
    ∃ filled, t.Gives (t.StandsIn line) [⟨child, .point (Text.bytes line.toList)⟩] filled ∧
      (t.takeDefault child (Text.bytes line.toList) hop).arguments =
        Hop.putArguments filled hop.arguments := by
  obtain ⟨hmem, hdefault, -⟩ := defaultChild?_eq_some h
  obtain ⟨value, hvalue⟩ := Option.isSome_iff_exists.1 hdefault
  obtain ⟨label, hlabel⟩ := Option.isSome_iff_exists.1 (t.built.sound.child id child hmem).2.2.2
  cases label with
  | literal word =>
    refine ⟨[], .literal hlabel .nil, ?_⟩
    simp [Arena.takeDefault, hlabel, Hop.withNode, Hop.putArguments]
  | argument name type provider? =>
    refine ⟨_, .argument hlabel ⟨type, provider?, hlabel, hvalue, rfl⟩ .nil, ?_⟩
    rw [takeDefault_of_argument hlabel hvalue]
    rfl

/-- What is filled in at the end of a line is stored after everything else. -/
theorem Fills.gives {source : Source}
    (h : t.Fills source (Text.bytes line.toList) id hop ms final) :
    ∃ filled, t.Gives (t.StandsIn line) ms filled ∧
      final.arguments = Hop.putArguments filled hop.arguments := by
  induction h with
  | ends h => exact ⟨[], .nil, rfl⟩
  | runs h hcommand => exact gives_of_takeDefault h line _
  | @goesOn id child hop final ms h hcommand rest ih =>
    obtain ⟨first, hfirst, hstored⟩ := gives_of_takeDefault h line hop
    obtain ⟨filled, hfilled, hrest⟩ := ih
    exact ⟨first ++ filled, hfirst.append hfilled, by
      rw [hrest, hstored, Hop.putArguments_append]⟩

/-- After its last match a hop stores what it takes at the end of the line. -/
theorem fillDefaults_gives (line : String) {m : Match} (hlast : hop.nodes.getLast? = some m) :
    ∃ defaults filled, (t.fillDefaults (Text.bytes line.toList) hop).nodes = hop.nodes ++ defaults ∧
      t.Gives (t.StandsIn line) defaults filled ∧
      (t.fillDefaults (Text.bytes line.toList) hop).arguments =
        Hop.putArguments filled hop.arguments := by
  cases hcommand : hop.command? with
  | some command =>
    rw [fillDefaults_of_command (by rw [hcommand]; rfl)]
    exact ⟨[], [], by simp, .nil, rfl⟩
  | none =>
    rw [fillDefaults_eq hlast hcommand]
    obtain ⟨defaults, hfills⟩ := t.takeDefaults_fills (Text.bytes line.toList) t.size
      (Nat.le_add_right t.size m.node.index) rfl
    obtain ⟨filled, hgives, hstored⟩ := hfills.gives
    exact ⟨defaults, filled, hfills.nodes_eq, hgives, hstored⟩

/-- The last match of a line stores what it gives, and the defaults after it what they give. -/
theorem recorded_ends (hchild : child ∈ t.usable hop.source id c)
    (h : (t.node child).takeWhole child c hop = .ok (after, grown)) :
    (t.filled { route := { first := grown }, cursor := after }).route.later = [] ∧
      t.Recorded c.line hop
        (t.filled { route := { first := grown }, cursor := after }).route.first := by
  have hgrown := grown_of_takeWhole hchild h
  obtain ⟨read, hread, hstored⟩ := gives_of_takeWhole hchild h
  cases hend : after.atEnd with
  | false =>
    rw [filled_eq_self (by simp [hend])]
    exact ⟨rfl, (Recorded.refl t c.line grown).cons hgrown.nodes_eq hread hstored⟩
  | true =>
    have hlast : grown.nodes.getLast? = some ⟨child, ⟨c.offset, after.offset⟩⟩ := by
      rw [hgrown.nodes_eq, List.getLast?_concat]
    have hreaches := Node.reaches_of_whole? (Node.whole?_of_takeWhole h)
    obtain ⟨defaults, filled, hnodes, hfilled, hfill⟩ := fillDefaults_gives (t := t) c.line hlast
    rw [← hreaches.line_eq, Cursor.bytes_line] at hnodes hfill
    rw [filled_atEnd hend]
    refine ⟨rfl, [_], defaults, read, filled, ?_, by simp, hread, hfilled, ?_⟩
    · simp [hnodes, hgrown.nodes_eq]
    · rw [Hop.putArguments_append, ← hstored]
      exact hfill

/-- What is kept of the ways in which a reading comes about has stored what its matches give, in
every hop. -/
theorem Comes.recorded {r : Reading Source Command Modifier} (h : t.Comes id c hop r)
    (hopen : hop.nodes ≠ [] → c.atEnd = false) :
    t.Recorded c.line hop (t.filled r).route.first ∧ ∀ next ∈ (t.filled r).route.later,
      ∃ source root start, t.Recorded c.line (.start source root start) next := by
  induction h with
  | @stops id c hop faults =>
    rw [filled_stops hopen]
    exact ⟨.refl t c.line hop, by simp⟩
  | ends hchild htake hgo =>
    obtain ⟨hlater, hrecorded⟩ := recorded_ends hchild htake
    exact ⟨hrecorded, by simp [hlater]⟩
  | @descends id child c after hop grown r hchild htake hredirect hlen further ih =>
    have hsep := (Node.whole?_eq_some_iff.1 (Node.whole?_of_takeWhole htake)).2
    have hreaches := (space_of_takeWhole htake (Cursor.atEnd_of_has hlen)).2.1
    -- more than a space is left, so that no defaults are due where the child's children fail
    obtain ⟨hfirst, hlater⟩ := ih fun _ => Cursor.skip_not_atEnd hsep hlen
    rw [hreaches.line_eq] at hfirst hlater
    obtain ⟨read, hread, hstored⟩ := gives_of_takeWhole hchild htake
    exact ⟨hfirst.cons (grown_of_takeWhole hchild htake).nodes_eq hread hstored, hlater⟩
  | @redirects id child c after hop grown redirect r hchild htake hredirect hlen further ih =>
    have hreaches := (space_of_takeWhole htake (Cursor.atEnd_of_has hlen)).2.1
    obtain ⟨hfirst, hlater⟩ := ih fun hne => absurd rfl hne
    rw [hreaches.line_eq] at hfirst hlater
    obtain ⟨read, hread, hstored⟩ := gives_of_takeWhole hchild htake
    rw [filled_redirects]
    -- the next hop starts with nothing, whatever this one has stored
    refine ⟨(Recorded.refl t c.line grown).cons (grown_of_takeWhole hchild htake).nodes_eq hread
      hstored, ?_⟩
    exact List.forall_mem_cons.2 ⟨⟨_, _, _, hfirst⟩, hlater⟩

/-- A fresh hop with its matches has stored what they give, and nothing else. -/
theorem Recorded.stores {source : Source} {root : NodeId} {start : Nat}
    (h : t.Recorded line (.start source root start) hop) :
    ∃ typed defaults read filled, hop.nodes = typed ++ defaults ∧ (defaults ≠ [] → typed ≠ []) ∧
      t.Gives (t.Reads line) typed read ∧ t.Gives (t.StandsIn line) defaults filled ∧
      hop.Stores (read ++ filled) := by
  obtain ⟨typed, defaults, read, filled, hnodes, hne, hread, hfilled, harguments⟩ := h
  exact ⟨typed, defaults, read, filled, hnodes, hne, hread, hfilled,
    Hop.stores_of_putArguments harguments⟩

/--
**A name stands for the last argument of that name in its own hop.**

The nodes of a hop are matches that were read and then, maybe, defaults.  One after another
they give arguments: a literal none, and an argument node the value that its type reads
where it matches, or its default.  The hop has stored these and no others, each name once
and in the order in which the names first come up, and with what was given last.  Any
context of the hop answers with just that: the value if it has the type asked for, and
otherwise a fault that tells whether there was no argument of the name or one of another
type.
-/
theorem arguments_last_given (t : Tree Source Command Modifier) (c : Cursor) (source : Source)
    {hop : Hop Source Command Modifier} (h : hop ∈ (t.readAt c source).route.hops) :
    ∃ typed defaults read filled, hop.nodes = typed ++ defaults ∧ (defaults ≠ [] → typed ≠ []) ∧
      t.Gives (t.Reads c.line) typed read ∧ t.Gives (t.StandsIn c.line) defaults filled ∧
      hop.Stores (read ++ filled) ∧
      ∀ context : Context Source Command Modifier, context.hop.arguments = hop.arguments →
        context.Answers (read ++ filled) := by
  obtain ⟨hfirst, hlater⟩ :=
    (t.readFrom_comes (c.ahead.length + 1) .root c (.start source .root c.offset)).recorded
      fun hne => absurd rfl hne
  have hrecorded : ∃ source root start, t.Recorded c.line (.start source root start) hop :=
    (List.mem_cons.1 h).elim (fun heq => ⟨_, _, _, heq ▸ hfirst⟩) (hlater hop)
  obtain ⟨_, _, _, hrecorded⟩ := hrecorded
  obtain ⟨typed, defaults, read, filled, hnodes, hne, hread, hfilled, hstores⟩ := hrecorded.stores
  refine ⟨typed, defaults, read, filled, hnodes, hne, hread, hfilled, hstores, ?_⟩
  intro context hcontext
  exact Context.answers_of_stores (hstores.congr hcontext)

end Tree

/-- The tree that comes of adding a literal `as` with a number `n` that leads back to the root, and
a literal `pay` with two numbers below each other, both of them called `n`, too.  The last one has a
default. -/
def repeatingTree : Except Tree.MissingNode (Tree Unit Unit Unit) := do
  let payer := { Draft.argument "n" (.number .int) with redirect? := some { target := .root } }
  let second := { (Draft.argument "n" (.number .int)).runs () with default? := some (.int 7) }
  let first := { Draft.argument "n" (.number .int) with children := [second] }
  let (t, _) ← Tree.empty.register { Draft.literal "as" with children := [payer] }
  let (t, _) ← t.register { Draft.literal "pay" with children := [first] }
  return t

/-- In `as 1 pay 5` the name is given three times, and the last hop knows it for the default. -/
theorem arguments_last_given_repeating : ∃ t hop, repeatingTree = .ok t ∧
    hop ∈ (t.readAt (.ofLine "as 1 pay 5") ()).route.hops ∧
    hop.nodes = [⟨⟨3⟩, ⟨5, 8⟩⟩, ⟨⟨4⟩, ⟨9, 10⟩⟩, ⟨⟨5⟩, .point 10⟩] ∧
    hop.arguments = [("n", ⟨.point 10, .int 7⟩)] ∧
    ∃ typed defaults read filled, hop.nodes = typed ++ defaults ∧ (defaults ≠ [] → typed ≠ []) ∧
      t.Gives (t.Reads (Cursor.ofLine "as 1 pay 5").line) typed read ∧
      t.Gives (t.StandsIn (Cursor.ofLine "as 1 pay 5").line) defaults filled ∧
      hop.Stores (read ++ filled) ∧
      ∀ context : Context Unit Unit Unit, context.hop.arguments = hop.arguments →
        context.Answers (read ++ filled) := by
  cases h : repeatingTree with
  | error e => cases h
  | ok t =>
    have hmem : (t.readAt (.ofLine "as 1 pay 5") ()).route.last ∈
        (t.readAt (.ofLine "as 1 pay 5") ()).route.hops := by
      obtain rfl := Except.ok.inj h
      exact List.mem_cons_of_mem _ (List.mem_singleton_self _)
    refine ⟨t, _, rfl, hmem, ?_, ?_, Tree.arguments_last_given t _ () hmem⟩
    · obtain rfl := Except.ok.inj h
      rfl
    · obtain rfl := Except.ok.inj h
      rfl

end CommandLines
