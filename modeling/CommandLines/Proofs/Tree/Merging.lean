/-
Registering again, and registering in parts.

A draft that is registered twice comes to places that are all there the second time, so that
nothing but commands can change, and each place has been told its commands in the same order
before.  Neither is plain from the recursion alone: the draft may mention a place several
times, with other commands each time, and the first registration may have found some places
and made others.  So the two are taken apart.  `Has` says that all places of a draft are there,
and what has them changes in commands only (`Has.add`).  What becomes of commands is left to
the story of the tree, of which only the last command at a place counts.

Registering in parts needs less: the places of the first part are still there when the second
one comes (`Extends`), and the second one goes on below the same node.
-/
import CommandLines.Proofs.Tree.Lineage

namespace CommandLines

variable {Source Command Modifier : Type}

namespace Arena

variable {a b c : Arena Source Command Modifier} {parent id : NodeId} {key : Key}
  {d e : Draft Source Command Modifier} {ds : List (Draft Source Command Modifier)}

/-! ### Adding, read both ways -/

/-- Only a node has children. -/
theorem contains_of_child? (h : a.child? parent key = some id) : a.contains parent = true := by
  by_contra hout
  rw [child?, node_of_not_contains hout] at h
  simp [Node.child?, Node.bare] at h

theorem require_of_forall {id? : Option NodeId}
    (h : ∀ id, id? = some id → a.contains id = true) : a.require id? = .ok () := by
  cases id? with
  | none => rfl
  | some id => simp [require, h id rfl]

/-- A draft is added if its target and the parent are there and its children are added below its
node. -/
theorem add_eq_ok_iff : a.add parent d = .ok (b, id) ↔
    (∀ r, d.redirect? = some r → a.contains r.target = true) ∧ a.contains parent = true ∧
      ((a.child? parent d.label.key = some id ∧
          (a.putCommand id d.command?).addAll id d.children = .ok b) ∨
        (a.child? parent d.label.key = none ∧ id = ⟨a.size⟩ ∧
          (a.push parent d).1.addAll id d.children = .ok b)) := by
  refine ⟨add_cases, ?_⟩
  rintro ⟨htarget, hparent, hway⟩
  obtain ⟨label, children, command?, allows, redirect?, default?⟩ := d
  have hredirect : a.require (redirect?.map Redirect.target) = .ok () := by
    refine require_of_forall fun id hid => ?_
    obtain ⟨r, hr, rfl⟩ := Option.map_eq_some_iff.1 hid
    exact htarget r hr
  have hbelow : a.require (some parent) = .ok () :=
    require_of_forall fun id hid => Option.some.inj hid ▸ hparent
  simp only [add, hredirect, hbelow, bind, Except.bind]
  rcases hway with ⟨hfound, hrest⟩ | ⟨hfresh, rfl, hrest⟩
  · simp only at hfound hrest
    simp only [hfound, hrest, pure, Except.pure]
  · have hpush : a.push parent ⟨label, [], command?, allows, redirect?, default?⟩ =
        ((a.push parent ⟨label, children, command?, allows, redirect?, default?⟩).1, ⟨a.size⟩) :=
      rfl
    simp only at hfresh hrest
    simp only [hfresh, hpush, hrest, pure, Except.pure]

theorem addAll_append (a : Arena Source Command Modifier) (id : NodeId)
    (ds es : List (Draft Source Command Modifier)) :
    a.addAll id (ds ++ es) = (a.addAll id ds).bind fun b => b.addAll id es := by
  induction ds generalizing a with
  | nil => rfl
  | cons d ds ih =>
    simp only [List.cons_append, addAll, bind, Except.bind]
    cases a.add id d with
    | error e => rfl
    | ok result => exact ih result.1

theorem addAll_append_eq_ok {es : List (Draft Source Command Modifier)} :
    a.addAll id (ds ++ es) = .ok b ↔ ∃ c, a.addAll id ds = .ok c ∧ c.addAll id es = .ok b := by
  rw [addAll_append]
  cases a.addAll id ds <;> simp [Except.bind]

/-! ### Places stay -/

/-- All nodes and children of the first arena are in the second one, too. -/
structure Extends (a b : Arena Source Command Modifier) : Prop where
  contains : ∀ id, a.contains id = true → b.contains id = true
  child : ∀ parent key id, a.child? parent key = some id → b.child? parent key = some id

namespace Extends

theorem refl (a : Arena Source Command Modifier) : a.Extends a :=
  ⟨fun _ h => h, fun _ _ _ h => h⟩

theorem trans (h : a.Extends b) (k : b.Extends c) : a.Extends c :=
  ⟨fun id hid => k.contains id (h.contains id hid),
    fun parent key id hid => k.child parent key id (h.child parent key id hid)⟩

theorem putCommand (a : Arena Source Command Modifier) (id : NodeId)
    (command? : Option Command) : a.Extends (a.putCommand id command?) := by
  refine ⟨fun other h => ?_, fun parent key other h => (child?_putCommand command?).trans h⟩
  rwa [Arena.contains, size_putCommand]

/-- A new node takes no other one's place if there is none under its key. -/
theorem push (hparent : a.contains parent = true)
    (hfresh : a.child? parent d.label.key = none) : a.Extends (a.push parent d).1 := by
  refine ⟨fun id h => contains_push.2 (.inl h), fun p key id h => ?_⟩
  have hindex := index_push hparent d p key
  rw [if_neg] at hindex
  · exact hindex.trans h
  · rintro ⟨rfl, rfl⟩
    simp [hfresh] at h

mutual

/-- Whatever is added, the places that were there stay. -/
theorem add : ∀ (d : Draft Source Command Modifier) {a b : Arena Source Command Modifier}
    {parent id : NodeId}, a.add parent d = .ok (b, id) → a.Extends b
  | ⟨_, children, _, _, _, _⟩, a, _, _, id, h => by
    obtain ⟨-, hparent, ⟨-, hrest⟩ | ⟨hfresh, -, hrest⟩⟩ := add_cases h
    · exact (putCommand a id _).trans (addAll children hrest)
    · exact (push hparent hfresh).trans (addAll children hrest)

theorem addAll : ∀ (ds : List (Draft Source Command Modifier))
    {a b : Arena Source Command Modifier} {parent : NodeId},
    a.addAll parent ds = .ok b → a.Extends b
  | [], a, _, _, h => by
    cases h
    exact .refl a
  | d :: ds, _, _, _, h => by
    obtain ⟨c, id, hfirst, hrest⟩ := addAll_cons_cases h
    exact (add d hfirst).trans (addAll ds hrest)

end

end Extends

theorem child?_push (hparent : a.contains parent = true) :
    (a.push parent d).1.child? parent d.label.key = some ⟨a.size⟩ := by
  have hindex := index_push hparent d parent d.label.key
  rwa [if_pos ⟨rfl, rfl⟩] at hindex

/-- Where the children of a draft are added, its node is there. -/
theorem exists_stage (h : a.add parent d = .ok (b, id)) :
    ∃ c, a.Extends c ∧ c.child? parent d.label.key = some id ∧
      c.addAll id d.children = .ok b := by
  obtain ⟨-, hparent, ⟨hfound, hrest⟩ | ⟨hfresh, rfl, hrest⟩⟩ := add_cases h
  · exact ⟨_, .putCommand a id _, (child?_putCommand _).trans hfound, hrest⟩
  · exact ⟨_, .push hparent hfresh, child?_push hparent, hrest⟩

/-- What is added can be found under its key. -/
theorem child?_of_add (h : a.add parent d = .ok (b, id)) :
    b.child? parent d.label.key = some id := by
  obtain ⟨c, -, hchild, hrest⟩ := exists_stage h
  exact (Extends.addAll d.children hrest).child _ _ _ hchild

/-! ### Drafts of which all places are there -/

mutual

/-- Below the parent there is a node for the draft, and below that for all that lies in it.  The
targets of their redirects are there, too. -/
def Has (a : Arena Source Command Modifier) (parent : NodeId) :
    Draft Source Command Modifier → Prop
  | ⟨label, children, _, _, redirect?, _⟩ =>
    (∀ r, redirect? = some r → a.contains r.target = true) ∧
      ∃ id, a.child? parent label.key = some id ∧ HasAll a id children

/-- Below the parent there are nodes for all the drafts. -/
def HasAll (a : Arena Source Command Modifier) (parent : NodeId) :
    List (Draft Source Command Modifier) → Prop
  | [] => True
  | d :: ds => Has a parent d ∧ HasAll a parent ds

end

mutual

theorem Has.mono : ∀ (d : Draft Source Command Modifier) {a b : Arena Source Command Modifier}
    {parent : NodeId}, a.Has parent d → a.Extends b → b.Has parent d
  | ⟨_, children, _, _, _, _⟩, _, _, _, ⟨htarget, id, hchild, hrest⟩, hext =>
    ⟨fun r hr => hext.contains _ (htarget r hr), id, hext.child _ _ _ hchild,
      HasAll.mono children hrest hext⟩

theorem HasAll.mono : ∀ (ds : List (Draft Source Command Modifier))
    {a b : Arena Source Command Modifier} {parent : NodeId},
    a.HasAll parent ds → a.Extends b → b.HasAll parent ds
  | [], _, _, _, _, _ => trivial
  | d :: ds, _, _, _, ⟨hfirst, hrest⟩, hext => ⟨Has.mono d hfirst hext, HasAll.mono ds hrest hext⟩

end

mutual

/-- After a draft has been added, all its places are there. -/
theorem has_of_add : ∀ (d : Draft Source Command Modifier)
    {a b : Arena Source Command Modifier} {parent id : NodeId},
    a.add parent d = .ok (b, id) → b.Has parent d
  | ⟨_, children, _, _, _, _⟩, _, _, _, id, h => by
    obtain ⟨c, -, -, hrest⟩ := exists_stage h
    exact ⟨fun r hr => (Extends.add _ h).contains _ ((add_cases h).1 r hr), id,
      child?_of_add h, hasAll_of_addAll children hrest⟩

theorem hasAll_of_addAll : ∀ (ds : List (Draft Source Command Modifier))
    {a b : Arena Source Command Modifier} {parent : NodeId},
    a.addAll parent ds = .ok b → b.HasAll parent ds
  | [], _, _, _, _ => trivial
  | d :: ds, _, _, _, h => by
    obtain ⟨c, id, hfirst, hrest⟩ := addAll_cons_cases h
    exact ⟨Has.mono d (has_of_add d hfirst) (.addAll ds hrest), hasAll_of_addAll ds hrest⟩

end

/-- The second arena is the first one with other commands. -/
structure Alike (a b : Arena Source Command Modifier) : Prop where
  size_eq : b.size = a.size
  node : ∀ id, ∃ command?, b.node id = { a.node id with command? }

namespace Alike

theorem refl (a : Arena Source Command Modifier) : a.Alike a := ⟨rfl, fun _ => ⟨_, rfl⟩⟩

theorem trans (h : a.Alike b) (k : b.Alike c) : a.Alike c := by
  refine ⟨k.size_eq.trans h.size_eq, fun id => ?_⟩
  obtain ⟨first, hfirst⟩ := h.node id
  obtain ⟨last, hlast⟩ := k.node id
  exact ⟨last, by rw [hlast, hfirst]⟩

theorem putCommand (a : Arena Source Command Modifier) (id : NodeId)
    (command? : Option Command) : a.Alike (a.putCommand id command?) := by
  refine ⟨size_putCommand a id command?, fun other => ?_⟩
  obtain ⟨c, hnode, -⟩ := a.node_putCommand id other command?
  exact ⟨c, hnode⟩

/-- Arenas that are alike are equal if they have the same commands, too. -/
theorem eq (h : a.Alike b) (hcommand : ∀ id, (b.node id).command? = (a.node id).command?) :
    b = a := by
  have hnode : ∀ id, b.node id = a.node id := by
    intro id
    obtain ⟨command?, hid⟩ := h.node id
    have hsame : command? = (a.node id).command? := by rw [← hcommand, hid]
    rw [hid, hsame]
  obtain ⟨an⟩ := a
  obtain ⟨bn⟩ := b
  have hsize : bn.size = an.size := h.size_eq
  refine congrArg Arena.mk (Array.ext hsize fun i hb ha => ?_)
  have hi := hnode ⟨i⟩
  simpa [Arena.node, Array.getD_eq_getD_getElem?, ha, hb] using hi

end Alike

mutual

/-- If all places of a draft are there, it can be added, and that changes nothing but commands. -/
theorem Has.add : ∀ (d : Draft Source Command Modifier) {a : Arena Source Command Modifier}
    {parent id : NodeId}, a.Has parent d → a.child? parent d.label.key = some id →
    ∃ b, a.add parent d = .ok (b, id) ∧ a.Alike b
  | ⟨label, children, command?, allows, redirect?, default?⟩, a, parent, id,
      ⟨htarget, other, hother, hrest⟩, hchild => by
    obtain rfl : other = id := Option.some.inj (hother.symm.trans hchild)
    obtain ⟨b, hb, halike⟩ :=
      HasAll.addAll children (HasAll.mono children hrest (.putCommand a other command?))
    exact ⟨b, add_eq_ok_iff.2 ⟨htarget, contains_of_child? hchild, .inl ⟨hchild, hb⟩⟩,
      (Alike.putCommand a other command?).trans halike⟩

theorem HasAll.addAll : ∀ (ds : List (Draft Source Command Modifier))
    {a : Arena Source Command Modifier} {parent : NodeId}, a.HasAll parent ds →
    ∃ b, a.addAll parent ds = .ok b ∧ a.Alike b
  | [], a, _, _ => ⟨a, rfl, .refl a⟩
  | d :: ds, a, parent, ⟨hfirst, hrest⟩ => by
    obtain ⟨id, hchild⟩ : ∃ id, a.child? parent d.label.key = some id := by
      obtain ⟨label, children, command?, allows, redirect?, default?⟩ := d
      obtain ⟨-, id, hchild, -⟩ := hfirst
      exact ⟨id, hchild⟩
    obtain ⟨b, hb, halike⟩ := Has.add d hfirst hchild
    obtain ⟨c, hc, halike'⟩ := HasAll.addAll ds (HasAll.mono ds hrest (.add d hb))
    exact ⟨c, by simp only [Arena.addAll, bind, Except.bind, hb, hc], halike.trans halike'⟩

end

/-! ### Commands that are told again -/

/-- Of commands that are told twice over, the last is the one that came last the first time. -/
theorem Records.command_again {story told : List (Mention Source Command Modifier)}
    {path : List Key} (h : b.Records (story ++ told)) (h' : c.Records (story ++ told ++ told))
    (hid : b.at? path = some id) (hid' : c.at? path = some id) :
    (c.node id).command? = (b.node id).command? := by
  have hdrafts : ∀ s s' : List (Mention Source Command Modifier),
      Mention.draftsAt (s ++ s') path = Mention.draftsAt s path ++ Mention.draftsAt s' path :=
    fun s s' => by simp [Mention.draftsAt]
  rw [(h'.told path id hid').command, (h.told path id hid).command]
  simp only [hdrafts, List.filterMap_append, List.getLast?_append]
  cases ((Mention.draftsAt told path).filterMap Draft.command?).getLast? <;> rfl

/-- A draft that is added again below the same node changes nothing. -/
theorem Records.add_again {story : List (Mention Source Command Modifier)} (h : a.Records story)
    (hadd : a.add parent d = .ok (b, id)) : b.add parent d = .ok (b, id) := by
  obtain ⟨above, habove⟩ := h.sound.exists_at? (add_cases hadd).2.1
  obtain ⟨hb, hkeep⟩ := h.add d habove hadd
  obtain ⟨c, hagain, halike⟩ := Has.add d (has_of_add d hadd) (child?_of_add hadd)
  obtain ⟨hc, hkeep'⟩ := hb.add d (hkeep above parent habove) hagain
  have hsame : c = b := by
    refine halike.eq fun other => ?_
    by_cases hin : b.contains other = true
    · obtain ⟨path, hpath⟩ := hb.sound.exists_at? hin
      exact hb.command_again hc hpath (hkeep' path other hpath)
    · have hout : ¬c.contains other = true := by
        rwa [contains, halike.size_eq, ← contains]
      rw [node_of_not_contains hin, node_of_not_contains hout]
  rw [hagain, hsame]

/-! ### Drafts in parts -/

/-- What is added below a draft's node after the draft's first children might as well have been
among them. -/
theorem add_append_eq_ok {es : List (Draft Source Command Modifier)} :
    a.add parent { d with children := ds ++ es } = .ok (b, id) ↔
      ∃ c, a.add parent { d with children := ds } = .ok (c, id) ∧ c.addAll id es = .ok b := by
  have hpush : ∀ children, a.push parent { d with children } = a.push parent d := fun _ => rfl
  simp only [add_eq_ok_iff, hpush, addAll_append_eq_ok]
  grind

end Arena

/-- The draft goes on where another one ends: it is for the same node, runs nothing, and has these
children. -/
structure Draft.GoesOn (e d : Draft Source Command Modifier)
    (rest : List (Draft Source Command Modifier)) : Prop where
  key_eq : e.label.key = d.label.key
  command_eq : e.command? = none
  children_eq : e.children = rest

namespace Arena

variable {a b c : Arena Source Command Modifier} {parent id : NodeId}
  {d e : Draft Source Command Modifier} {ds es : List (Draft Source Command Modifier)}

/-- Adding the draft that goes on is adding its children. -/
theorem add_of_goesOn (h : e.GoesOn d es) (hchild : c.child? parent d.label.key = some id)
    (htarget : ∀ r, e.redirect? = some r → c.contains r.target = true) {id' : NodeId} :
    c.add parent e = .ok (b, id') ↔ id = id' ∧ c.addAll id es = .ok b := by
  have hput : c.putCommand id e.command? = c := by
    rw [h.command_eq]
    rfl
  rw [add_eq_ok_iff, h.key_eq, h.children_eq, hchild]
  constructor
  · rintro ⟨-, -, ⟨hid, hrest⟩ | ⟨hnone, -⟩⟩
    · obtain rfl := Option.some.inj hid
      rw [hput] at hrest
      exact ⟨rfl, hrest⟩
    · cases hnone
  · rintro ⟨rfl, hrest⟩
    rw [← hput] at hrest
    exact ⟨htarget, contains_of_child? hchild, .inl ⟨rfl, hrest⟩⟩

end Arena

namespace Tree

variable {t t' : Tree Source Command Modifier} {parent id : NodeId}
  {d : Draft Source Command Modifier}

theorem add_eq_ok_iff :
    t.add parent d = .ok (t', id) ↔ t.toArena.add parent d = .ok (t'.toArena, id) := by
  unfold add
  split
  · next b other hadd =>
    constructor
    · intro h
      cases h
      exact hadd
    · intro h
      obtain ⟨rfl, rfl⟩ := Prod.mk.inj (Except.ok.inj (hadd.symm.trans h))
      rfl
  · next e hadd => simp [hadd]

/--
**Registering merges.**

A draft that has been registered below a node of a tree may be registered there again: that
gives the same number and the same tree, with all its nodes as they are.

A draft with children `first` and then `rest` may be registered in two parts, first with the
one half of its children, and then as any draft of the same key with the other half and
without a command, provided that this one redirects to a node that is there, if anywhere.
That gives the same tree and the same number, and nothing else can be registered in two parts
but what can be registered at once.
-/
theorem registering_merges (t : Tree Source Command Modifier) (parent : NodeId)
    (d : Draft Source Command Modifier) :
    (∀ t' id, t.add parent d = .ok (t', id) → t'.add parent d = .ok (t', id)) ∧
    ∀ first rest t' id,
      (t.add parent { d with children := first ++ rest } = .ok (t', id) →
        ∃ t₁, t.add parent { d with children := first } = .ok (t₁, id) ∧
          ∀ e : Draft Source Command Modifier, e.GoesOn d rest →
            (∀ r, e.redirect? = some r → t₁.contains r.target = true) →
            t₁.add parent e = .ok (t', id)) ∧
      ∀ t₁ id₁, t.add parent { d with children := first } = .ok (t₁, id₁) →
        ∀ e : Draft Source Command Modifier, e.GoesOn d rest →
          t₁.add parent e = .ok (t', id) →
          t.add parent { d with children := first ++ rest } = .ok (t', id) := by
  refine ⟨fun t' id h => ?_, fun first rest t' id => ⟨fun h => ?_, fun t₁ id₁ h e he hrest => ?_⟩⟩
  · obtain ⟨story, records⟩ := t.built.exists_records
    exact add_eq_ok_iff.2 (records.add_again (add_eq_ok_iff.1 h))
  · obtain ⟨c, hfirst, hrest⟩ := Arena.add_append_eq_ok.1 (add_eq_ok_iff.1 h)
    have hchild : c.child? parent d.label.key = some id :=
      Arena.child?_of_add (d := { d with children := first }) hfirst
    refine ⟨⟨c, t.built.add hfirst⟩, add_eq_ok_iff.2 hfirst, fun e he htarget => ?_⟩
    exact add_eq_ok_iff.2 ((Arena.add_of_goesOn he hchild htarget).2 ⟨rfl, hrest⟩)
  · have hfirst := add_eq_ok_iff.1 h
    have hsecond := add_eq_ok_iff.1 hrest
    have htarget := (Arena.add_cases hsecond).1
    have hchild : t₁.child? parent d.label.key = some id₁ :=
      Arena.child?_of_add (d := { d with children := first }) hfirst
    obtain ⟨rfl, hmore⟩ := (Arena.add_of_goesOn he hchild htarget).1 hsecond
    exact add_eq_ok_iff.2 (Arena.add_append_eq_ok.2 ⟨_, hfirst, hmore⟩)

end Tree

/-- A literal `give` that tells of a literal `all` twice, with other commands and once with a
redirect, and once more of the argument `item` that `givenTwice` has, now with another type. -/
def toldOver : Draft Unit Nat Unit :=
  { (Draft.literal "give").runs 4 with
    children :=
      [{ (Draft.literal "all").runs 5 with redirect? := some { target := .root } },
        (Draft.argument "item" (.text .phrase)).runs 6] ++
      [{ (Draft.literal "all").runs 7 with children := [.literal "now"] }] }

/-- What is left of it after its first two children. -/
def toldOverRest : Draft Unit Nat Unit :=
  { Draft.literal "give" with
    children := [{ (Draft.literal "all").runs 7 with children := [.literal "now"] }] }

/-- In the tree of `givenTwice` its registration makes one node and gives other commands to three. A
second one, or one in two parts, comes to the same tree. -/
theorem registering_merges_toldOver :
    ∃ t t', Tree.empty.addAll .root givenTwice = .ok t ∧
      t.add .root toldOver = .ok (t', ⟨1⟩) ∧ t.size = 5 ∧ t'.size = 6 ∧
      (t'.node ⟨2⟩).command? = some 6 ∧ (t'.node ⟨4⟩).command? = some 7 ∧
      t'.add .root toldOver = .ok (t', ⟨1⟩) ∧
      toldOverRest.GoesOn toldOver toldOverRest.children ∧
      ∃ t₁, t.add .root { toldOver with children := toldOver.children.take 2 } = .ok (t₁, ⟨1⟩) ∧
        t₁.add .root toldOverRest = .ok (t', ⟨1⟩) := by
  obtain ⟨t, ht⟩ : ∃ t, Tree.empty.addAll .root givenTwice = .ok t := ⟨_, rfl⟩
  obtain ⟨⟨t', id⟩, ht'⟩ : ∃ p, t.add .root toldOver = .ok p := by
    cases ht
    exact ⟨_, rfl⟩
  obtain ⟨hagain, hparts⟩ := t.registering_merges .root toldOver
  obtain ⟨t₁, hfirst, hrest⟩ :=
    (hparts (toldOver.children.take 2) toldOverRest.children t' id).1 ht'
  have hgoes : toldOverRest.GoesOn toldOver toldOverRest.children := ⟨rfl, rfl, rfl⟩
  have hlast := hrest toldOverRest hgoes nofun
  have hsame := hagain t' id ht'
  cases ht
  cases ht'
  exact ⟨_, _, rfl, rfl, rfl, rfl, rfl, rfl, hsame, hgoes, t₁, hfirst, hlast⟩

end CommandLines
