/-
Defaults that are left out.

A default that stands in for an argument at the end of a line may as well be typed.  Two
functions are at work: defaults are taken one after another below the last match, and what
is typed is read stage by stage.  `Fills` says what the first one takes, free of its bound
on steps, and each step of it is a stage of the line in which the default is typed.

The two lines differ in where their matches lie.  So their hops are `Alike`: they agree in
everything but spans.
-/
import CommandLines.Proofs.Reading.Rendering
import CommandLines.Proofs.Reading.Stages

namespace CommandLines

variable {Source Command Modifier : Type}

/-! ### Hops that differ in spans -/

namespace Hop

/-- The arguments as names and values, wherever they were read. -/
def values (h : Hop Source Command Modifier) : List (String × Value) :=
  h.arguments.map fun entry => (entry.1, entry.2.value)

/-- The nodes that are matched, wherever they are. -/
def ids (h : Hop Source Command Modifier) : List NodeId := h.nodes.map Match.node

/-- The hops agree in everything but spans. -/
structure Alike (a b : Hop Source Command Modifier) : Prop where
  source_eq : a.source = b.source
  root_eq : a.root = b.root
  values_eq : a.values = b.values
  ids_eq : a.ids = b.ids
  command_eq : a.command? = b.command?
  modifier_eq : a.modifier? = b.modifier?
  forks_eq : a.forks = b.forks

variable {a b : Hop Source Command Modifier}

theorem Alike.refl (a : Hop Source Command Modifier) : a.Alike a :=
  ⟨rfl, rfl, rfl, rfl, rfl, rfl, rfl⟩

/-- Routes are alike whose last hops are, if all other hops are the same. -/
theorem alike_concat (done : List (Hop Source Command Modifier)) (h : a.Alike b) :
    List.Forall₂ Alike (done ++ [a]) (done ++ [b]) := by
  induction done with
  | nil => exact .cons h .nil
  | cons g done ih => exact .cons (.refl g) ih

/-- What becomes of the values when an argument is added does not depend on the spans. -/
theorem values_putArgument {name : String} {x y : Argument} (hvalue : x.value = y.value)
    {xs ys : List (String × Argument)}
    (h : xs.map (fun entry => (entry.1, entry.2.value)) =
      ys.map fun entry => (entry.1, entry.2.value)) :
    (putArgument name x xs).map (fun entry => (entry.1, entry.2.value)) =
      (putArgument name y ys).map fun entry => (entry.1, entry.2.value) := by
  induction xs generalizing ys with
  | nil =>
    obtain rfl : ys = [] := by simpa using h.symm
    simp [putArgument, hvalue]
  | cons e xs ih =>
    cases ys with
    | nil => simp at h
    | cons f ys =>
      obtain ⟨⟨hname, he⟩, hrest⟩ : (e.1 = f.1 ∧ e.2.value = f.2.value) ∧ _ := by
        simpa using h
      rw [putArgument, putArgument, ← hname]
      split
      · simp only [List.map_cons, hvalue, hrest]
      · simp only [List.map_cons, he, ih hrest]

theorem Alike.withArgument (h : a.Alike b) (name : String) {x y : Argument}
    (hvalue : x.value = y.value) : (a.withArgument name x).Alike (b.withArgument name y) :=
  ⟨h.source_eq, h.root_eq, values_putArgument hvalue h.values_eq, h.ids_eq, h.command_eq,
    h.modifier_eq, h.forks_eq⟩

/-- Hops that are alike stay so when they match the same node, wherever they do. -/
theorem Alike.withNode (h : a.Alike b) (id : NodeId) (n : Node Source Command Modifier)
    (s s' : Span) :
    Alike { a.withNode id n s with command? := n.command? }
      { b.withNode id n s' with command? := n.command? } := by
  refine ⟨h.source_eq, h.root_eq, h.values_eq, ?_, rfl, rfl, rfl⟩
  have hids : a.nodes.map Match.node = b.nodes.map Match.node := h.ids_eq
  simp [ids, Hop.withNode, hids]

/-- An argument replaces what was stored under its name, and leaves other names alone. -/
theorem argument?_withArgument (h : Hop Source Command Modifier) (name other : String)
    (a : Argument) : (h.withArgument name a).argument? other =
      if name = other then some a else h.argument? other := by
  have hput : ∀ arguments : List (String × Argument),
      ((putArgument name a arguments).find? (·.1 = other)).map (·.2) =
        if name = other then some a else (arguments.find? (·.1 = other)).map (·.2) := by
    intro arguments
    induction arguments with
    | nil => by_cases hname : name = other <;> simp [putArgument, hname]
    | cons entry arguments ih =>
      by_cases hentry : entry.1 = name
      · rw [putArgument, if_pos hentry]
        by_cases hname : name = other <;> simp [hentry, hname]
      · rw [putArgument, if_neg hentry]
        by_cases hother : entry.1 = other
        · have hname : name ≠ other := fun h => hentry (hother.trans h.symm)
          simp [hother, hname]
        · simpa [hother] using ih
  exact hput h.arguments

end Hop

namespace Tree

variable {t : Tree Source Command Modifier} {source : Source} {line : String}
  {id child : NodeId} {c : Cursor} {hop hop' final : Hop Source Command Modifier} {stop : Nat}
  {ms : List Match} {done : List (Hop Source Command Modifier)}

/-! ### What defaults are taken -/

/-- Below a node, the defaults taken for a hop, and what they make of it. -/
inductive Fills (t : Tree Source Command Modifier) (source : Source) (stop : Nat) :
    NodeId → Hop Source Command Modifier → List Match → Hop Source Command Modifier → Prop where
  /-- No child has a default. -/
  | ends {id : NodeId} {hop : Hop Source Command Modifier}
      (h : t.defaultChild? id source = none) : Fills t source stop id hop [] hop
  /-- The default of a child has a command, and it is the last one. -/
  | runs {id child : NodeId} {hop : Hop Source Command Modifier}
      (h : t.defaultChild? id source = some child)
      (hcommand : (t.node child).command?.isSome = true) :
      Fills t source stop id hop [⟨child, .point stop⟩] (t.takeDefault child stop hop)
  /-- The default of a child has no command, and more defaults are taken below it. -/
  | goesOn {id child : NodeId} {hop final : Hop Source Command Modifier} {ms : List Match}
      (h : t.defaultChild? id source = some child) (hcommand : (t.node child).command? = none)
      (rest : Fills t source stop child (t.takeDefault child stop hop) ms final) :
      Fills t source stop id hop (⟨child, .point stop⟩ :: ms) final

theorem takeDefault_of_argument {name : String} {type : ArgumentType} {value : Value}
    {provider? : Option (Provider Source Command Modifier)}
    (hlabel : (t.node id).label? = some (.argument name type provider?))
    (hvalue : (t.node id).default? = some value) (stop : Nat)
    (hop : Hop Source Command Modifier) :
    t.takeDefault id stop hop =
      { (hop.withArgument name ⟨.point stop, value⟩).withNode id (t.node id) (.point stop) with
        command? := (t.node id).command? } := by
  simp only [Arena.takeDefault, hlabel, hvalue]

theorem defaultChild?_eq_some (h : t.defaultChild? id source = some child) :
    child ∈ (t.node id).children ∧ (t.node child).default?.isSome = true ∧
      (t.node child).allows source = true := by
  have hhas := List.find?_some h
  rw [Bool.and_eq_true] at hhas
  exact ⟨List.mem_of_find?_eq_some h, hhas.1, hhas.2⟩

/-- Since children come after their parents, as many steps as there are nodes are enough. -/
theorem takeDefaults_fills (stop steps : Nat) (hsteps : t.size ≤ steps + id.index)
    (hsource : hop.source = source) :
    ∃ ms, t.Fills source stop id hop ms (t.takeDefaults stop steps id hop) := by
  induction steps generalizing id hop with
  | zero =>
    have hbare : t.node id = Node.bare := by
      refine Arena.node_of_not_contains ?_
      rw [Arena.contains_iff]
      omega
    refine ⟨[], .ends ?_⟩
    rw [Arena.defaultChild?, hbare]
    rfl
  | succ steps ih =>
    rw [Arena.takeDefaults, hsource]
    cases hchild : t.defaultChild? id source with
    | none => exact ⟨[], .ends hchild⟩
    | some child =>
      obtain ⟨hdsource, -, hdcommand⟩ := t.takeDefault_eq child stop hop
      have hlt := (t.built.sound.child id child (defaultChild?_eq_some hchild).1).2.1
      simp only [hdcommand]
      cases hcommand : (t.node child).command? with
      | some command =>
        refine ⟨_, .runs hchild ?_⟩
        rw [hcommand]
        rfl
      | none =>
        have hsteps' : t.size ≤ steps + child.index := by omega
        obtain ⟨ms, hms⟩ := ih hsteps' (hdsource.trans hsource)
        exact ⟨_, .goesOn hchild hcommand hms⟩

theorem Fills.nodes_eq (h : t.Fills source stop id hop ms final) :
    final.nodes = hop.nodes ++ ms := by
  induction h with
  | ends h => simp
  | runs h hcommand => exact (t.takeDefault_eq _ _ _).2.1
  | goesOn h hcommand rest ih => rw [ih, (t.takeDefault_eq _ _ _).2.1, List.append_assoc]; rfl

/-- What is filled in at the end of a line are defaults of that line. -/
theorem Fills.defaults (h : t.Fills source (Text.bytes line.toList) id hop ms final) :
    t.Defaults source line id ms := by
  induction h with
  | ends h => trivial
  | runs h hcommand =>
    obtain ⟨hchild, hdefault, hallows⟩ := defaultChild?_eq_some h
    exact ⟨⟨hchild, hallows, hdefault, rfl⟩, trivial⟩
  | goesOn h hcommand rest ih =>
    obtain ⟨hchild, hdefault, hallows⟩ := defaultChild?_eq_some h
    exact ⟨⟨hchild, hallows, hdefault, rfl⟩, ih⟩

theorem argument?_takeDefault {name : String} (h : (t.node id).key? ≠ some (.argument name)) :
    (t.takeDefault id stop hop).argument? name = hop.argument? name := by
  unfold Arena.takeDefault
  simp only
  split
  · next other type provider? value hlabel hdefault =>
    have hother : other ≠ name := by
      rintro rfl
      exact h (by simp [Node.key?, hlabel, Label.key])
    have hargument := hop.argument?_withArgument other name ⟨.point stop, value⟩
    rw [if_neg hother] at hargument
    exact hargument
  · rfl

/-- Defaults of other names leave an argument as it is. -/
theorem Fills.argument?_eq (h : t.Fills source stop id hop ms final) (name : String)
    (hname : ∀ m ∈ ms, (t.node m.node).key? ≠ some (.argument name)) :
    final.argument? name = hop.argument? name := by
  induction h with
  | ends h => rfl
  | runs h hcommand => exact argument?_takeDefault (hname _ (List.mem_singleton_self _))
  | goesOn h hcommand rest ih =>
    rw [ih fun m hm => hname m (List.mem_cons_of_mem _ hm)]
    exact argument?_takeDefault (hname _ List.mem_cons_self)

/-! ### Defaults that are typed -/

/-- The tree is ordinary, no argument takes the rest of the line, the defaults are whole numbers and
truth values that their arguments take, and no literal is written like the default of a sibling. -/
structure Spellable (t : Tree Source Command Modifier) : Prop extends t.Ordinary where
  brief : ∀ id, ¬(t.node id).TakesRest
  defaults : ∀ id value, (t.node id).default? = some value →
    ∃ name type provider?, (t.node id).label? = some (.argument name type provider?) ∧
      type.Takes value
  distinct : ∀ id, ∀ child ∈ (t.node id).children, ∀ sibling ∈ (t.node id).children,
    ∀ value word, (t.node child).default? = some value →
      (t.node sibling).label? = some (.literal word) → word ≠ value.render

/-- The default of a node as it is written. -/
def defaultText (t : Tree Source Command Modifier) (id : NodeId) : String :=
  ((t.node id).default?.map Value.render).getD ""

/-- The defaults of nodes as they are written, each after a space. -/
def spelled (t : Tree Source Command Modifier) (ms : List Match) : String :=
  String.join (ms.map fun m => " " ++ t.defaultText m.node)

/-- A default that is typed is matched as it would be taken. -/
theorem default_typed (ht : t.Spellable) (h : t.defaultChild? id source = some child)
    (halike : hop'.Alike hop) (stop : Nat) (behind rest : List Char)
    (hsep : (Cursor.mk ((t.defaultText child).toList.reverse ++ behind) rest).atSeparator = true) :
    (t.usable source id ⟨behind, (t.defaultText child).toList ++ rest⟩ = [child]) ∧
      (t.defaultText child).toList ≠ [] ∧
      ∃ grown, (t.node child).takeWhole child ⟨behind, (t.defaultText child).toList ++ rest⟩ hop' =
        .ok (⟨(t.defaultText child).toList.reverse ++ behind, rest⟩, grown) ∧
        grown.Alike (t.takeDefault child stop hop) := by
  obtain ⟨hchild, hdefault, hallows⟩ := defaultChild?_eq_some h
  obtain ⟨value, hvalue⟩ := Option.isSome_iff_exists.1 hdefault
  obtain ⟨name, type, provider?, hlabel, htakes⟩ := ht.defaults child value hvalue
  have htext : t.defaultText child = value.render := by
    rw [defaultText, hvalue]
    rfl
  rw [htext] at hsep ⊢
  obtain ⟨hne, hspace⟩ := htakes.word
  refine ⟨?_, ?_, ?_⟩
  · have hword := Cursor.wordAhead_of_separator hspace hsep behind
    rw [String.ofList_toList] at hword
    have hnone : (t.node id).literals.get? value.render = none := by
      cases hget : (t.node id).literals.get? value.render with
      | none => rfl
      | some literal =>
        obtain ⟨hsibling, hliteral⟩ := (t.built.sound.literals id _ literal).1 hget
        exact absurd rfl (ht.distinct id child hchild literal hsibling value _ hvalue hliteral)
    have hargument : child ∈ (t.node id).arguments := by
      rw [t.built.sound.arguments]
      refine List.mem_filter.2 ⟨hchild, ?_⟩
      simp [Node.isArgument, hlabel, Label.isLiteral]
    have hrelevant : child ∈ t.relevant id ⟨behind, value.render.toList ++ rest⟩ := by
      rw [Arena.relevant_of_none (by rw [hword, hnone])]
      exact hargument
    exact ht.usable_eq (Arena.mem_usable.2 ⟨hrelevant, hallows⟩)
  · intro hempty
    exact hne (String.toList_eq_nil_iff.1 hempty)
  · refine ⟨_, Node.takeWhole_of_value hlabel (htakes.readValue hsep) hsep, ?_⟩
    rw [takeDefault_of_argument hlabel hvalue]
    refine (halike.withArgument name ?_).withNode child (t.node child) _ _
    rfl

theorem toList_spelled_cons (m : Match) (ms : List Match) : (t.spelled (m :: ms)).toList =
    Cursor.separator :: ((t.defaultText m.node).toList ++ (t.spelled ms).toList) := by
  simp [spelled, String.toList_join, Cursor.separator]

theorem fillDefaults_of_command (h : hop.command?.isSome = true) (stop : Nat) :
    t.fillDefaults stop hop = hop := by
  rw [Arena.fillDefaults, if_pos h]

theorem takeDefaults_of_none (h : t.defaultChild? id hop.source = none) (stop steps : Nat) :
    t.takeDefaults stop steps id hop = hop := by
  cases steps with
  | zero => rfl
  | succ steps => simp only [Arena.takeDefaults, h]

/-- Below its last match a hop takes defaults if it has no command. -/
theorem fillDefaults_eq {m : Match} (hlast : hop.nodes.getLast? = some m)
    (hcommand : hop.command? = none) (stop : Nat) :
    t.fillDefaults stop hop = t.takeDefaults stop t.size m.node hop := by
  simp [Arena.fillDefaults, hcommand, hlast]

/-- What is filled in comes after what is typed, and leaves arguments of other names alone. -/
theorem fillDefaults_fills (line : String) {m : Match} (hsource : hop.source = source)
    (hlast : hop.nodes.getLast? = some m) :
    ∃ defaults, (t.fillDefaults (Text.bytes line.toList) hop).nodes = hop.nodes ++ defaults ∧
      t.Defaults source line m.node defaults ∧
      ∀ name, (∀ k ∈ defaults, (t.node k.node).key? ≠ some (.argument name)) →
        (t.fillDefaults (Text.bytes line.toList) hop).argument? name = hop.argument? name := by
  cases hcommand : hop.command? with
  | some command =>
    rw [fillDefaults_of_command (by rw [hcommand]; rfl)]
    exact ⟨[], by simp, trivial, fun _ _ => rfl⟩
  | none =>
    rw [fillDefaults_eq hlast hcommand]
    obtain ⟨defaults, hfills⟩ := t.takeDefaults_fills (Text.bytes line.toList) t.size
      (Nat.le_add_right t.size m.node.index) hsource
    exact ⟨defaults, hfills.nodes_eq, hfills.defaults, hfills.argument?_eq⟩

/-- A default that is typed at the end of the line is the last that is read, and no more defaults
are taken after it if none are taken after it where it is left out. -/
theorem last_default_typed (ht : t.Spellable) (hchild : t.defaultChild? id source = some child)
    (hlast : (t.node child).command?.isSome = true ∨ t.defaultChild? child source = none)
    (halike : hop'.Alike hop) (hstage : t.Stage source line done id c hop')
    (hahead : c.ahead = (t.defaultText child).toList) :
    ∃ final' cursor, final'.Alike (t.takeDefault child stop hop) ∧ cursor.atEnd = true ∧
      (∀ stop, t.fillDefaults stop final' = final') ∧
      t.typed line source =
        ({ route := { first := final' }, cursor } : Reading _ _ _).after done := by
  have hc : c = ⟨c.behind, (t.defaultText child).toList ++ []⟩ := by
    rw [List.append_nil, ← hahead]
  obtain ⟨husable, htext, grown, htake, hgrown⟩ :=
    default_typed ht hchild halike stop c.behind [] rfl
  rw [← hc] at husable htake
  have hmem : child ∈ t.usable source id c := by simp [husable]
  have hopen : c.atEnd = false := by simpa [Cursor.atEnd, hahead] using htext
  have hcommand : grown.command? = (t.node child).command? :=
    hgrown.command_eq.trans (t.takeDefault_eq child _ hop).2.2
  refine ⟨grown, _, hgrown, rfl, ?_, hstage.typed_of_end ht.toOrdinary hopen hmem htake rfl⟩
  intro stop
  by_cases hsome : grown.command?.isSome = true
  · exact fillDefaults_of_command hsome stop
  · have hnone : grown.command? = none := by simpa using hsome
    have hends : t.defaultChild? child grown.source = none := by
      rw [Node.source_of_takeWhole htake, hstage.source_eq]
      exact hlast.resolve_left (hcommand ▸ hsome)
    rw [← hstage.source_eq] at hmem
    have hnodes := (grown_of_takeWhole hmem htake).nodes_eq
    rw [fillDefaults_eq (m := ⟨child, _⟩) (by rw [hnodes, List.getLast?_concat]) hnone]
    exact takeDefaults_of_none hends stop t.size

/-- Below a stage, the defaults that are taken make the same of its hop as when they are typed
there, and then no more of them are taken. -/
theorem Fills.typed (ht : t.Spellable) (h : t.Fills source stop id hop ms final)
    (hne : ms ≠ []) (hstay : ∀ m ∈ ms.dropLast, (t.node m.node).redirect? = none)
    (halike : hop'.Alike hop) (hstage : t.Stage source line done id c hop')
    (hahead : Cursor.separator :: c.ahead = (t.spelled ms).toList) :
    ∃ final' cursor, final'.Alike final ∧ cursor.atEnd = true ∧
      (∀ stop, t.fillDefaults stop final' = final') ∧
      t.typed line source =
        ({ route := { first := final' }, cursor } : Reading _ _ _).after done := by
  induction h generalizing hop' done c with
  | ends hnone => exact absurd rfl hne
  | runs hchild hcommand =>
    rw [toList_spelled_cons] at hahead
    refine last_default_typed ht hchild (.inl hcommand) halike hstage ?_
    simpa [spelled] using hahead
  | @goesOn id child hop final ms hchild hcommand rest ih =>
    rw [toList_spelled_cons] at hahead
    have hahead := (List.cons.inj hahead).2
    cases ms with
    | nil =>
      cases rest with
      | ends hnone =>
        refine last_default_typed ht hchild (.inr hnone) halike hstage ?_
        simpa [spelled] using hahead
    | cons m ms =>
      obtain ⟨more, hmore⟩ : ∃ more, (t.spelled (m :: ms)).toList = Cursor.separator :: more :=
        ⟨_, toList_spelled_cons m ms⟩
      obtain ⟨husable, -, grown, htake, hgrown⟩ :=
        default_typed ht hchild halike stop c.behind (Cursor.separator :: more) rfl
      have hc : c = ⟨c.behind, (t.defaultText child).toList ++ Cursor.separator :: more⟩ := by
        rw [← hmore, ← hahead]
      rw [← hc] at husable htake
      have hredirect := hstay ⟨child, .point stop⟩ (by simp)
      refine ih (by simp) ?_ hgrown (hstage.descends husable htake rfl hredirect) hmore.symm
      intro k hk
      exact hstay k (by simpa using .inr hk)

/-- A reading that ends at the end of the line fills its last hop. -/
theorem filled_atEnd (hend : c.atEnd = true) :
    t.filled { route := { first := hop }, cursor := c } =
      { route := { first := t.fillDefaults c.length hop }, cursor := c } := by
  simp [filled, hend, Route.mapLast]

/-- What is typed to the end of a line takes defaults there, and is read. -/
theorem read_of_typed (htyped : t.typed line source = { route := { first := hop }, cursor := c })
    (hend : c.atEnd = true) :
    t.read line source =
      { route := { first := t.fillDefaults (Text.bytes line.toList) hop }, cursor := c } := by
  have hread : t.read line source =
      { route := { first := t.fillDefaults c.length hop }, cursor := c } := by
    rw [read_eq_filled, htyped, filled_atEnd hend]
  have hlength := t.length_read line source
  rw [hread] at hlength
  rw [hread, ← hlength]

/-- Where reading a line takes defaults, they are those below the match that takes the line to its
end. -/
theorem exists_fills (ht : t.Ordinary) {m : Match} {defaults : List Match} (hne : defaults ≠ [])
    (hlast : (t.typed line source).route.last.nodes.getLast? = some m)
    (hnodes : (t.read line source).route.last.nodes =
      (t.typed line source).route.last.nodes ++ defaults) :
    ∃ done id c hop after grown final, t.Stage source line done id c hop ∧
      t.usable source id c = [m.node] ∧
      (t.node m.node).takeWhole m.node c hop = .ok (after, grown) ∧ after.atEnd = true ∧
      t.Fills source after.length m.node grown defaults final ∧
      t.read line source =
        ({ route := { first := final }, cursor := after } : Reading _ _ _).after done := by
  obtain ⟨done, id, c, hop, hstage, hlastly⟩ := t.exists_last ht line source
  rw [read_eq_filled] at hnodes ⊢
  rcases hstage.typed_cases ht with ⟨cursor, faults, heq, hopen, -⟩ |
    ⟨child, after, grown, r, husable, htake, heq, -, hends⟩
  · -- where nothing more is matched, no defaults are taken
    rw [heq, filled_after, Reading.last_after, Reading.last_after, filled_stops hopen] at hnodes
    exact absurd (List.append_right_eq_self.1 hnodes.symm) hne
  · have hmem : child ∈ t.usable source id c := by simp [husable]
    have hend := hlastly child hmem after (Node.whole?_of_takeWhole htake)
    obtain rfl := hends hend
    rw [← hstage.source_eq] at hmem
    have hgrown := grown_of_takeWhole hmem htake
    have hlast' : grown.nodes.getLast? = some ⟨child, ⟨c.offset, after.offset⟩⟩ := by
      rw [hgrown.nodes_eq, List.getLast?_concat]
    rw [heq, Reading.last_after] at hlast
    obtain rfl : ⟨child, ⟨c.offset, after.offset⟩⟩ = m := Option.some.inj (hlast'.symm.trans hlast)
    rw [heq, filled_after, Reading.last_after, Reading.last_after, filled_atEnd hend] at hnodes
    have hcommand : grown.command? = none := by
      cases hcommand : grown.command? with
      | none => rfl
      | some command =>
        rw [fillDefaults_of_command (by rw [hcommand]; rfl)] at hnodes
        exact absurd (List.append_right_eq_self.1 hnodes.symm) hne
    have hsource := (Node.source_of_takeWhole htake).trans hstage.source_eq
    obtain ⟨ms, hfills⟩ := t.takeDefaults_fills after.length t.size
      (Nat.le_add_right t.size child.index) hsource
    rw [← fillDefaults_eq hlast' hcommand] at hfills
    obtain rfl : ms = defaults := List.append_cancel_left (hfills.nodes_eq.symm.trans hnodes)
    refine ⟨done, id, c, hop, after, grown, _, hstage, husable, htake, hend, hfills, ?_⟩
    rw [heq, filled_after, filled_atEnd hend]

/--
**Defaults that are left out are as if typed.**

Suppose reading a line takes defaults after a last match, and neither that match nor any of
the defaults but the last redirects.  Then the line with the defaults written after it, each
after a space, is read to its end, and its hops are the same but for spans: the same nodes,
the same values of arguments, the same commands.  And it is complete if and only if the line
without them is.
-/
theorem defaults_typed (ht : t.Spellable) (source : Source) (line : String) {m : Match}
    {defaults : List Match} (hne : defaults ≠ [])
    (hlast : (t.typed line source).route.last.nodes.getLast? = some m)
    (hnodes : (t.read line source).route.last.nodes =
      (t.typed line source).route.last.nodes ++ defaults)
    (hstay : ∀ k ∈ (m :: defaults).dropLast, (t.node k.node).redirect? = none) :
    let spelled := t.read (line ++ t.spelled defaults) source
    spelled.cursor.atEnd = true ∧
      List.Forall₂ Hop.Alike spelled.route.hops (t.read line source).route.hops ∧
      spelled.isComplete = (t.read line source).isComplete := by
  intro spelled
  obtain ⟨done, id, c, hop, after, grown, final, hstage, husable, htake, hend, hfills, hread⟩ :=
    exists_fills ht.toOrdinary hne hlast hnodes
  obtain ⟨words, hwords⟩ :
      ∃ words, (t.spelled defaults).toList = Cursor.separator :: words := by
    obtain ⟨d, ds, rfl⟩ := List.exists_cons_of_ne_nil hne
    exact ⟨_, toList_spelled_cons d ds⟩
  have hline : line ++ t.spelled defaults =
      String.ofList (line.toList ++ Cursor.separator :: words) := by
    rw [← hwords, ← String.toList_append, String.ofList_toList]
  rw [List.dropLast_cons_of_ne_nil hne] at hstay
  -- the longer line comes to the stage after the last match, and goes on as the defaults do
  have hnext := hstage.goes_on ht.toOrdinary husable htake hend (ht.brief m.node)
    (hstay m List.mem_cons_self) words
  obtain ⟨final', cursor, halike, hcursor, hfilled, htyped⟩ := hfills.typed ht hne
    (fun k hk => hstay k (List.mem_cons_of_mem m hk)) (.refl grown) hnext hwords.symm
  have hspelled : spelled =
      ({ route := { first := final' }, cursor } : Reading _ _ _).after done := by
    show t.read _ source = _
    rw [hline, read_eq_filled, htyped, filled_after, filled_atEnd hcursor, hfilled]
  rw [hspelled, hread]
  refine ⟨?_, ?_, ?_⟩
  · rw [Reading.cursor_after]
    exact hcursor
  · rw [Reading.hops_after, Reading.hops_after]
    exact Hop.alike_concat done halike
  · rw [Reading.isComplete, Reading.isComplete, Reading.cursor_after, Reading.cursor_after,
      Reading.last_after, Reading.last_after, hcursor, hend]
    exact congrArg (fun command : Option Command => true && command.isSome) halike.command_eq

end Tree

theorem spellable_loopingTree {t : Tree Unit Unit Unit} (h : loopingTree = .ok t) :
    t.Spellable := by
  refine ⟨ordinary_loopingTree h, ?_, ?_, ?_⟩
  · refine Tree.forall_node (p := fun n => ¬n.TakesRest) nofun ?_
    intro i hi hrest
    obtain ⟨name, provider?, hlabel⟩ := hrest
    obtain rfl | rfl | rfl | rfl | rfl | rfl := size_loopingTree h hi <;>
      obtain rfl := Except.ok.inj h <;> cases hlabel
  · refine Tree.forall_node (p := fun n => ∀ value, n.default? = some value →
      ∃ name type provider?, n.label? = some (.argument name type provider?) ∧
        type.Takes value) nofun ?_
    intro i hi value hvalue
    obtain rfl | rfl | rfl | rfl | rfl | rfl := size_loopingTree h hi <;>
      obtain rfl := Except.ok.inj h <;> cases hvalue
    · exact ⟨"n", _, none, rfl, .int (by decide) (by decide)⟩
    · exact ⟨"b", _, none, rfl, .bool true⟩
  · -- no literal has a sibling with a default at all
    have hapart : ∀ id, ∀ child ∈ (t.node id).children, (t.node child).default?.isSome = true →
        ∀ sibling ∈ (t.node id).children, (t.node sibling).isLiteral = false := by
      refine Tree.forall_node (p := fun n => ∀ child ∈ n.children,
        (t.node child).default?.isSome = true →
          ∀ sibling ∈ n.children, (t.node sibling).isLiteral = false) nofun ?_
      intro i hi
      obtain rfl | rfl | rfl | rfl | rfl | rfl := size_loopingTree h hi <;>
        obtain rfl := Except.ok.inj h <;> decide
    intro id child hchild sibling hsibling value word hvalue hlabel
    have hliteral := hapart id child hchild (by rw [hvalue]; rfl) sibling hsibling
    simp [Node.isLiteral, hlabel, Label.isLiteral] at hliteral

/-- The defaults that stand in at the end of `go set`. -/
def loopingDefaults : List Match := [⟨⟨3⟩, .point 6⟩, ⟨⟨4⟩, .point 6⟩]

theorem read_loopingDefaults {t : Tree Unit Unit Unit} (h : loopingTree = .ok t) :
    (t.typed "go set" ()).route.last.nodes = [⟨⟨2⟩, ⟨3, 6⟩⟩] ∧
      (t.read "go set" ()).route.last.nodes = [⟨⟨2⟩, ⟨3, 6⟩⟩] ++ loopingDefaults ∧
      t.spelled loopingDefaults = " 5 true" ∧
      ∀ m ∈ (⟨⟨2⟩, ⟨3, 6⟩⟩ :: loopingDefaults).dropLast, (t.node m.node).redirect? = none := by
  obtain rfl := Except.ok.inj h
  exact ⟨rfl, rfl, rfl, by decide⟩

/-- The defaults of `go set` may as well be typed. -/
theorem defaults_typed_looping : ∃ t, loopingTree = .ok t ∧ t.Spellable ∧
    (t.typed "go set" ()).route.last.nodes = [⟨⟨2⟩, ⟨3, 6⟩⟩] ∧
    (t.read "go set" ()).route.last.nodes = [⟨⟨2⟩, ⟨3, 6⟩⟩] ++ loopingDefaults ∧
    t.spelled loopingDefaults = " 5 true" ∧
    (t.read ("go set" ++ t.spelled loopingDefaults) ()).cursor.atEnd = true ∧
    List.Forall₂ Hop.Alike (t.read ("go set" ++ t.spelled loopingDefaults) ()).route.hops
      (t.read "go set" ()).route.hops ∧
    (t.read ("go set" ++ t.spelled loopingDefaults) ()).isComplete =
      (t.read "go set" ()).isComplete := by
  cases h : loopingTree with
  | error e => cases h
  | ok t =>
    have ht := spellable_loopingTree h
    have hne : loopingDefaults ≠ [] := by decide
    obtain ⟨htyped, hread, hspelled, hstay⟩ := read_loopingDefaults h
    have hlast : (t.typed "go set" ()).route.last.nodes.getLast? = some ⟨⟨2⟩, ⟨3, 6⟩⟩ := by
      rw [htyped]
      rfl
    have hnodes : (t.read "go set" ()).route.last.nodes =
        (t.typed "go set" ()).route.last.nodes ++ loopingDefaults := by
      rw [htyped, hread]
    exact ⟨t, rfl, ht, htyped, hread, hspelled,
      Tree.defaults_typed ht () "go set" hne hlast hnodes hstay⟩

end CommandLines
