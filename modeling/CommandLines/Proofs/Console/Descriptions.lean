/-
Grammar files are accepted just where they are well formed.

A description becomes a draft step by step, and a step of a draft may be refused: that would be
a fault of the program and not of the file.  No refusal is ever seen, because what a step needs
has been looked at before the step is taken.  But the looks and the steps are interleaved, and
what a step needs is a fact about the draft that the steps before it have left behind: that a
redirect finds no children rests on the draft being fresh (`Draft.Fresh`), and not on the
description having none.

A redirect is looked up before its node is registered, and by then the tree may have grown.  So
what is carried along is that all redirects of a draft lead into the tree (`Draft.LeadsInto`),
which growing keeps, and which is all that registering asks for.

The induction is over the description, and its statement is about both ends at once
(`Outcome`): a draft comes of well-formed descriptions only, and an error only of others.
-/
import CommandLines.Console.GrammarFile
import CommandLines.Proofs.Reading.Numerals
import CommandLines.Proofs.Tree.Lookup
import CommandLines.Proofs.Tree.Merging

namespace CommandLines

/-! ### Drafts that lead into a tree -/

namespace Draft

section

variable {Source Command Modifier : Type} {d : Draft Source Command Modifier}
  {a b : Arena Source Command Modifier}

/-- All redirects in the draft lead to nodes of the arena. -/
inductive LeadsInto (a : Arena Source Command Modifier) :
    Draft Source Command Modifier → Prop where
  | intro {d : Draft Source Command Modifier}
      (target : ∀ r, d.redirect? = some r → a.contains r.target = true)
      (children : ∀ child ∈ d.children, LeadsInto a child) : LeadsInto a d

/-- They still do when the arena grows. -/
theorem LeadsInto.mono (h : d.LeadsInto a) (hext : a.Extends b) : d.LeadsInto b := by
  induction h with
  | intro target children ih => exact .intro (fun r hr => hext.contains _ (target r hr)) ih

mutual

/-- A draft is added below any node, if all its redirects lead into the arena. -/
theorem LeadsInto.exists_add : ∀ (d : Draft Source Command Modifier)
    {a : Arena Source Command Modifier} {parent : NodeId}, d.LeadsInto a → a.Sound →
    a.contains parent = true → ∃ b id, a.add parent d = .ok (b, id)
  | ⟨label, children, command?, allows, redirect?, default?⟩, a, parent, ⟨target, hchildren⟩,
    ok, hparent => by
    have hrest {b : Arena Source Command Modifier} {id : NodeId} (hext : a.Extends b)
        (hsound : b.Sound) (hid : b.contains id = true) : ∃ c, b.addAll id children = .ok c :=
      exists_addAll children (fun child hchild => (hchildren child hchild).mono hext) hsound hid
    cases hchild : a.child? parent label.key with
    | some id =>
      have hext := Arena.Extends.putCommand a id command?
      have hid := (ok.child parent id ((ok.index parent label.key id).1 hchild).1).1
      obtain ⟨c, hc⟩ := hrest hext (ok.putCommand (ok.ne_root_of_child? hchild) command?)
        (hext.contains id hid)
      exact ⟨c, id, Arena.add_eq_ok_iff.2 ⟨target, hparent, .inl ⟨hchild, hc⟩⟩⟩
    | none =>
      obtain ⟨c, hc⟩ := hrest (.push hparent hchild) (ok.push hparent hchild target)
        (Arena.contains_push.2 (.inr rfl))
      exact ⟨c, ⟨a.size⟩, Arena.add_eq_ok_iff.2 ⟨target, hparent, .inr ⟨hchild, rfl, hc⟩⟩⟩

theorem LeadsInto.exists_addAll : ∀ (ds : List (Draft Source Command Modifier))
    {a : Arena Source Command Modifier} {parent : NodeId}, (∀ d ∈ ds, d.LeadsInto a) →
    a.Sound → a.contains parent = true → ∃ b, a.addAll parent ds = .ok b
  | [], a, _, _, _, _ => ⟨a, rfl⟩
  | d :: ds, a, parent, h, ok, hparent => by
    obtain ⟨b, id, hb⟩ := exists_add d (h d List.mem_cons_self) ok hparent
    have hext := Arena.Extends.add d hb
    obtain ⟨c, hc⟩ := exists_addAll ds
      (fun e he => (h e (List.mem_cons_of_mem d he)).mono hext) (ok.add d hb)
      (hext.contains parent hparent)
    exact ⟨c, by simp [Arena.addAll, hb, hc, bind, Except.bind]⟩

end

/-- A draft that leads into a tree can be registered there. -/
theorem LeadsInto.exists_register {t : Tree Source Command Modifier} (h : d.LeadsInto t.toArena) :
    ∃ grown id, t.register d = .ok (grown, id) := by
  obtain ⟨b, id, hb⟩ := h.exists_add d t.built.sound t.built.sound.nonempty
  exact ⟨⟨b, t.built.add hb⟩, id, Tree.add_eq_ok_iff.2 hb⟩

/-- The draft has neither children nor a redirect yet. -/
def Fresh (d : Draft Source Command Modifier) : Prop := d.children = [] ∧ d.redirect? = none

theorem Fresh.leadsInto (h : d.Fresh) : d.LeadsInto a :=
  .intro (fun r hr => by simp [h.2] at hr) fun child hchild => by simp [h.1] at hchild

end

end Draft

namespace Console

/-! ### Well-formed descriptions -/

/-- A JSON value is of the type of a kind.  Bounds do not matter. -/
inductive Kind.Fits : Kind → Json → Prop where
  | bool (b : Bool) : Fits .bool (.bool b)
  | whole (w : WholeType) (minimum? maximum? : Option w.type.Carrier) {i : Int}
      (h : w.Holds i) : Fits (.number w.type minimum? maximum?) (.ofInt i)
  | float (minimum? maximum? : Option Float32) (n : Json.Number) :
      Fits (.number .float minimum? maximum?) (.number n)
  | double (minimum? maximum? : Option Float) (n : Json.Number) :
      Fits (.number .double minimum? maximum?) (.number n)
  | text (k : ArgumentType.TextKind) (s : String) : Fits (.text k) (.string s)

/-- A node takes a default: any node takes none, and an argument takes one of its type. -/
inductive Form.Takes : Form → Option Json → Prop where
  | nothing (form : Form) : Takes form none
  | argument (name : String) {kind : Kind} {j : Json} (h : kind.Fits j) :
      Takes (.argument name kind) (some j)

/-- The description is well formed by itself, in view of a tree. -/
structure Description.WellFormed (t : Grammar) (d : Description) : Prop where
  /-- No literal has a default, and that of an argument is of its type. -/
  default : d.form.Takes d.default?
  /-- No node has both children and a redirect. -/
  leaf : d.redirect?.isSome = true → d.children = []
  /-- Only what redirects forks. -/
  fork : d.forks = true → d.redirect?.isSome = true
  /-- Redirects lead to nodes of the tree. -/
  target : ∀ path, d.redirect? = some path → ∃ id, t.find? path = some id

mutual

/-- The description and all those below it. -/
def Description.family : Description → List Description
  | ⟨form, result?, redirect?, forks, admin, children, default?⟩ =>
    ⟨form, result?, redirect?, forks, admin, children, default?⟩ :: families children

/-- All descriptions in some trees of them. -/
def Description.families : List Description → List Description
  | [] => []
  | d :: ds => d.family ++ families ds

end

theorem Description.family_eq (d : Description) : d.family = d :: families d.children := by
  cases d
  rfl

theorem Description.mem_family (d : Description) : d ∈ d.family := by
  rw [d.family_eq]
  exact List.mem_cons_self

/-- The error tells of the file.  Others tell of steps that should not have been taken. -/
def GrammarError.OfFile : GrammarError → Prop
  | .refused _ | .missing _ => False
  | _ => True

/-! ### Defaults -/

theorem numberOfJson?_eq (w : WholeType) (j : Json) :
    numberOfJson? w.type j = j.int?.bind w.ofInt? := by
  cases w <;> rfl

/-- A number of a width is made just of the integers that the width holds. -/
theorem value?_whole_eq_some_iff {w : WholeType} {minimum? maximum? : Option w.type.Carrier}
    {j : Json} {v : Value} :
    (Kind.number w.type minimum? maximum?).value? j = some v ↔
      ∃ x, v = ⟨.number w.type, x⟩ ∧ j = .ofInt (w.toInt x) := by
  have hvalue : (Kind.number w.type minimum? maximum?).value? j =
      (numberOfJson? w.type j).map fun x => ⟨.number w.type, x⟩ := by
    cases w <;> rfl
  rw [hvalue, numberOfJson?_eq]
  constructor
  · intro h
    obtain ⟨x, hx, rfl⟩ := Option.map_eq_some_iff.1 h
    obtain ⟨i, hi, hx⟩ := Option.bind_eq_some_iff.1 hx
    refine ⟨x, rfl, ?_⟩
    rw [WholeType.ofInt?_eq_some_iff.1 hx]
    unfold Json.int? at hi
    split at hi
    · exact congrArg Json.ofInt (Option.some.inj hi)
    · cases hi
  · intro h
    obtain ⟨x, rfl, rfl⟩ := h
    have hx : w.ofInt? (w.toInt x) = some x := WholeType.ofInt?_eq_some_iff.2 rfl
    simp [Json.ofInt, Json.int?, hx]

/-- A JSON value is made a value of a kind just if it is of its type. -/
theorem value?_isSome_iff {kind : Kind} {j : Json} :
    (kind.value? j).isSome = true ↔ kind.Fits j := by
  constructor
  · intro h
    obtain ⟨v, hv⟩ := Option.isSome_iff_exists.1 h
    have hwhole (w : WholeType) (minimum? maximum? : Option w.type.Carrier)
        (hv : (Kind.number w.type minimum? maximum?).value? j = some v) :
        (Kind.number w.type minimum? maximum?).Fits j := by
      obtain ⟨x, -, rfl⟩ := value?_whole_eq_some_iff.1 hv
      exact .whole w minimum? maximum? (WholeType.holds_toInt x)
    cases kind with
    | bool =>
      cases j with
      | bool b => exact .bool b
      | _ => cases hv
    | text k =>
      cases j with
      | string s => exact .text k s
      | _ => cases hv
    | number type minimum? maximum? =>
      cases type with
      | int => exact hwhole .int minimum? maximum? hv
      | long => exact hwhole .long minimum? maximum? hv
      | float =>
        cases j with
        | number n => exact .float minimum? maximum? n
        | _ => cases hv
      | double =>
        cases j with
        | number n => exact .double minimum? maximum? n
        | _ => cases hv
  · intro h
    cases h with
    | bool b => rfl
    | whole w minimum? maximum? h =>
      obtain ⟨x, rfl⟩ := WholeType.exists_toInt_eq h
      exact Option.isSome_iff_exists.2 ⟨_, value?_whole_eq_some_iff.2 ⟨x, rfl, rfl⟩⟩
    | float minimum? maximum? n => cases n <;> rfl
    | double minimum? maximum? n => cases n <;> rfl
    | text k s => rfl

/-- The draft of a node by itself is fresh, if the node takes its default, and otherwise the
default is reported. -/
theorem Form.draft_cases (form : Form) (default? : Option Json) :
    (∃ plan, form.draft default? = .ok plan ∧ plan.Fresh ∧ form.Takes default?) ∨
    ∃ e, form.draft default? = .error e ∧ e.OfFile ∧ ¬form.Takes default? := by
  cases default? with
  | none =>
    cases form with
    | literal word => exact .inl ⟨_, rfl, ⟨rfl, rfl⟩, .nothing _⟩
    | argument name kind => exact .inl ⟨_, rfl, ⟨rfl, rfl⟩, .nothing _⟩
  | some j =>
    cases form with
    | literal word => exact .inr ⟨_, rfl, trivial, nofun⟩
    | argument name kind =>
      cases hvalue : kind.value? j with
      | some v =>
        have hdraft : (Form.argument name kind).draft (some j) =
            step ((Draft.argument name kind.type).withDefault v) := by
          simp only [Form.draft, hvalue]
        have hfits := value?_isSome_iff.1 (Option.isSome_iff_exists.2 ⟨v, hvalue⟩)
        exact .inl ⟨_, hdraft, ⟨rfl, rfl⟩, .argument name hfits⟩
      | none =>
        have hdraft : (Form.argument name kind).draft (some j) = .error (.unfitDefault j name) := by
          simp only [Form.draft, hvalue]
        refine .inr ⟨_, hdraft, trivial, ?_⟩
        intro htakes
        cases htakes with
        | argument name hfits =>
          have hsome := value?_isSome_iff.2 hfits
          rw [hvalue] at hsome
          cases hsome

/-! ### Drafts of descriptions -/

variable {t : Grammar} {plan drawn : Plan}

/-- What comes of some descriptions: a draft, if all of them are well formed, and otherwise a
report. -/
inductive Outcome (t : Grammar) (ds : List Description) : Except GrammarError Plan → Prop where
  | drawn {plan : Plan} (hleads : plan.LeadsInto t.toArena) (hwell : ∀ d ∈ ds, d.WellFormed t) :
    Outcome t ds (.ok plan)
  | reported {e : GrammarError} (hfile : e.OfFile) {d : Description} (hd : d ∈ ds)
    (hflaw : ¬d.WellFormed t) : Outcome t ds (.error e)

/-- A fresh draft remains so with its permission and its command. -/
theorem fresh_equipped (h : plan.Fresh) (admin : Bool) (result? : Option Int32) :
    let plan := if admin then plan.onlyFor User.admin else plan
    Draft.Fresh (result?.elim plan fun n => plan.runs (.constant n)) := by
  cases admin <;> cases result? <;> exact h

/-- A draft without children redirects, and is otherwise the one it was. -/
theorem redirects_eq_ok_iff {r : Redirect Passing} :
    step (plan.redirects r) = .ok drawn ↔
      plan.children = [] ∧ drawn = { plan with redirect? := some r } := by
  unfold Draft.redirects
  split
  · next hempty =>
    rw [List.isEmpty_iff] at hempty
    simp [step, Except.mapError, hempty, eq_comm]
  · next hempty =>
    rw [List.isEmpty_iff] at hempty
    simp [step, Except.mapError, hempty]

/-- A draft without a redirect takes a child, and is otherwise the one it was. -/
theorem withChild_eq_ok_iff {child : Plan} :
    step (plan.withChild child) = .ok drawn ↔
      plan.redirect? = none ∧ drawn = { plan with children := plan.children ++ [child] } := by
  unfold Draft.withChild
  split
  · next hsome => simp [step, Except.mapError, Option.isSome_iff_ne_none.1 hsome]
  · next hsome =>
    rw [Option.not_isSome_iff_eq_none] at hsome
    simp [step, Except.mapError, hsome, eq_comm]

/-- A fresh draft redirects to the node at a path, or the path is reported. -/
theorem redirects_cases (hfresh : plan.Fresh) (path : List String) (forks : Bool) :
    (∃ drawn, (redirectTo t path forks >>= fun r => step (plan.redirects r)) = .ok drawn ∧
      drawn.LeadsInto t.toArena ∧ ∃ id, t.find? path = some id) ∨
    ∃ e, (redirectTo t path forks >>= fun r => step (plan.redirects r)) = .error e ∧ e.OfFile ∧
      t.find? path = none := by
  unfold redirectTo
  cases hfind : t.find? path with
  | none => exact .inr ⟨_, rfl, trivial, rfl⟩
  | some id =>
    refine .inl ⟨_, redirects_eq_ok_iff.2 ⟨hfresh.1, rfl⟩, .intro ?_ ?_, id, rfl⟩
    · intro r hr
      obtain rfl := Option.some.inj hr
      exact (Tree.find?_eq_some_iff.1 hfind).1
    · intro child hchild
      simp [hfresh.1] at hchild

/-- A draft that does not redirect takes a child and still leads into the tree. -/
theorem withChild_leadsInto {child : Plan} (hopen : plan.redirect? = none)
    (hleads : plan.LeadsInto t.toArena) (hchild : child.LeadsInto t.toArena) :
    ∃ grown, step (plan.withChild child) = .ok grown ∧ grown.redirect? = none ∧
      grown.LeadsInto t.toArena := by
  obtain ⟨target, children⟩ := hleads
  refine ⟨_, withChild_eq_ok_iff.2 ⟨hopen, rfl⟩, hopen, .intro target ?_⟩
  intro other hother
  rcases List.mem_append.1 hother with hother | hother
  · exact children other hother
  · exact List.mem_singleton.1 hother ▸ hchild

mutual

/-- Every description comes to a draft or to a report. -/
theorem draft_outcome : ∀ d : Description, Outcome t d.family (d.draft t)
  | ⟨form, result?, redirect?, forks, admin, children, default?⟩ => by
    unfold Description.draft
    obtain ⟨plan, hplan, hfresh, htakes⟩ | ⟨e, he, hfile, hnot⟩ := form.draft_cases default?
    · have hfresh := fresh_equipped hfresh admin result?
      rw [hplan]
      dsimp only [bind, Except.bind] at hfresh ⊢
      generalize Option.elim result? _ _ = plan at hfresh ⊢
      -- from here on the draft is the fresh one, whatever the node matches
      cases redirect? with
      | some path =>
        cases children with
        | cons child more => exact .reported trivial List.mem_cons_self fun h => nomatch h.leaf rfl
        | nil =>
          show Outcome t _ (redirectTo t path forks >>= fun r => step (plan.redirects r))
          obtain ⟨drawn, hdrawn, hleads, hfound⟩ | ⟨e, he, hfile, hlost⟩ :=
            redirects_cases hfresh path forks
          · rw [hdrawn]
            refine .drawn hleads (List.forall_mem_singleton.2
              ⟨htakes, fun _ => rfl, fun _ => rfl, ?_⟩)
            intro other hpath
            exact Option.some.inj hpath ▸ hfound
          · rw [he]
            refine .reported hfile List.mem_cons_self fun h => ?_
            obtain ⟨id, hid⟩ := h.target path rfl
            simp [hlost] at hid
      | none =>
        cases forks with
        | true => exact .reported trivial List.mem_cons_self fun h => nomatch h.fork rfl
        | false =>
          show Outcome t _ (Description.addTo t plan children)
          have hrest := addTo_outcome children hfresh.2 hfresh.leadsInto
          generalize Description.addTo t plan children = outcome at hrest
          cases hrest with
          | reported hfile hd hflaw => exact .reported hfile (List.mem_cons_of_mem _ hd) hflaw
          | drawn hleads hothers =>
            exact .drawn hleads (List.forall_mem_cons.2 ⟨⟨htakes, nofun, nofun, nofun⟩, hothers⟩)
    · rw [he]
      exact .reported hfile List.mem_cons_self fun h => hnot h.default

/-- So do all below a node whose draft leads into the tree and does not redirect. -/
theorem addTo_outcome : ∀ (ds : List Description) {plan : Plan}, plan.redirect? = none →
    plan.LeadsInto t.toArena → Outcome t (Description.families ds) (Description.addTo t plan ds)
  | [], plan, _, hleads => .drawn hleads nofun
  | d :: ds, plan, hopen, hleads => by
    unfold Description.addTo
    have hfirst := draft_outcome d
    generalize d.draft t = outcome at hfirst
    cases hfirst with
    | reported hfile hd hflaw => exact .reported hfile (List.mem_append_left _ hd) hflaw
    | drawn hchild hwell =>
      obtain ⟨grown, hgrown, hopen, hleads⟩ := withChild_leadsInto hopen hleads hchild
      simp only [bind, Except.bind, hgrown]
      have hrest := addTo_outcome ds hopen hleads
      generalize Description.addTo t grown ds = outcome at hrest
      cases hrest with
      | reported hfile hd hflaw => exact .reported hfile (List.mem_append_right _ hd) hflaw
      | drawn hleads hothers =>
        refine .drawn hleads fun e he => ?_
        exact (List.mem_append.1 he).elim (hwell e) (hothers e)

end

/-! ### Whole files -/

variable {d : Description}

/-- A draft that has come of a description can be registered wherever its redirects lead. -/
theorem leadsInto_of_draft (h : d.draft t = .ok plan) : plan.LeadsInto t.toArena := by
  have houtcome := draft_outcome (t := t) d
  rw [h] at houtcome
  cases houtcome with
  | drawn hleads hwell => exact hleads

/-- Only what is well formed, with all that lies below it, comes to a draft. -/
theorem wellFormed_of_draft (h : d.draft t = .ok plan) : ∀ e ∈ d.family, e.WellFormed t := by
  have houtcome := draft_outcome (t := t) d
  rw [h] at houtcome
  cases houtcome with
  | drawn hleads hwell => exact hwell

theorem ofFile_of_draft {e : GrammarError} (h : d.draft t = .error e) : e.OfFile := by
  have houtcome := draft_outcome (t := t) d
  rw [h] at houtcome
  cases houtcome with
  | reported hfile hd hflaw => exact hfile

/-- Whatever a file describes, only what it says is ever complained of. -/
theorem ofFile_of_extend {ds : List Description} {e : GrammarError}
    (h : extend t ds = .error e) : e.OfFile := by
  induction ds generalizing t with
  | nil => cases h
  | cons d ds ih =>
    unfold extend at h
    cases hdraft : d.draft t with
    | error f =>
      obtain rfl : f = e := by simpa [hdraft, bind, Except.bind] using h
      exact ofFile_of_draft hdraft
    | ok plan =>
      obtain ⟨grown, id, hgrown⟩ := (leadsInto_of_draft hdraft).exists_register
      refine ih (t := grown) ?_
      simpa [hdraft, hgrown, bind, Except.bind, Except.mapError] using h

theorem ofFile_of_load {path : String} {text? : Option String} {e : GrammarError}
    (h : load t path text? = .error e) : e.OfFile := by
  unfold load at h
  split at h
  · cases h
    trivial
  · split at h
    · cases h
      trivial
    · exact ofFile_of_extend h

/--
**Grammar files are accepted just where they are well formed.**

A description becomes a draft just if it and all descriptions below it are well formed in view
of the tree: no literal has a default, the default of an argument is of its type, no node has
both children and a redirect, only what redirects forks, and every redirect has the path of a
node.

No step of the draft is ever refused.  And what it comes to can be registered in the tree, also
after the tree has grown.
-/
theorem draft_eq_ok_iff (t : Grammar) (d : Description) :
    ((∃ plan, d.draft t = .ok plan) ↔ ∀ e ∈ d.family, e.WellFormed t) ∧
    (∀ refusal, d.draft t ≠ .error (.refused refusal)) ∧
    ∀ plan, d.draft t = .ok plan → ∀ grown : Grammar, t.Extends grown.toArena →
      ∃ larger id, grown.register plan = .ok (larger, id) := by
  refine ⟨?_, fun refusal h => ofFile_of_draft h, ?_⟩
  · have houtcome := draft_outcome (t := t) d
    generalize d.draft t = outcome at houtcome
    cases houtcome with
    | drawn hleads hwell => exact ⟨fun _ => hwell, fun _ => ⟨_, rfl⟩⟩
    | reported hfile hd hflaw =>
      exact ⟨fun ⟨_, h⟩ => (nomatch h), fun hwell => absurd (hwell _ hd) hflaw⟩
  · intro plan h grown hext
    exact ((leadsInto_of_draft h).mono hext).exists_register

/-- An argument between 0 and 10 with a default. -/
def level : Description where
  form := .argument "level" (.number .int (some 0) (some 10))
  default? := some (.ofInt 5)

/-- A literal with that argument and a literal that leads back to the root. -/
def settings : Description where
  form := .literal "set"
  children := [level, { form := .literal "again", redirect? := some [] }]

/-- It is accepted and registered below a bare root. -/
theorem draft_eq_ok_iff_settings : ∃ plan grown id, settings.draft .empty = .ok plan ∧
    Tree.empty.register plan = .ok (grown, id) := by
  obtain ⟨hiff, -, hregister⟩ := draft_eq_ok_iff .empty settings
  have hlevel : level.form.Takes level.default? :=
    .argument "level" (.whole .int (some 0) (some 10) ⟨by decide, by decide⟩)
  have hwell : ∀ e ∈ settings.family, e.WellFormed .empty := by
    refine List.forall_mem_cons.2 ⟨⟨.nothing _, nofun, nofun, nofun⟩, ?_⟩
    refine List.forall_mem_cons.2 ⟨⟨hlevel, nofun, nofun, nofun⟩, ?_⟩
    refine List.forall_mem_singleton.2 ⟨.nothing _, fun _ => rfl, nofun, fun path hpath => ?_⟩
    exact ⟨.root, by rw [← Option.some.inj hpath]; rfl⟩
  obtain ⟨plan, hplan⟩ := hiff.2 hwell
  obtain ⟨grown, id, hgrown⟩ := hregister plan hplan .empty (.refl _)
  exact ⟨plan, grown, id, hplan, hgrown⟩

end Console

end CommandLines
