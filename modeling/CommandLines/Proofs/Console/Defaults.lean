/-
Defaults in grammar files, and the bounds of their arguments.

What is typed for an argument goes through its type, bounds and all.  A default does not.  It is
made a value when the file is read, kept with its node, and stored where the line ends, and at
none of these places is it held against the bounds.  So a command may see a number that nobody
could have typed, and whether one ever does is up to the file: the number written there has to
lie between the bounds (`Description.Bounded`), and that is enough.

Two things are in the way from the file to the command.  The nodes of a draft are those of the
description, each with its default (`entries_of_draft`); and a node of a tree has its default
from the first draft that was registered for it, so that registering keeps what holds of all
defaults (`Tree.Typable.register`).  What a reading stores is then one of two things, a value
that was read or a default (`Tree.Typable.gives`).
-/
import CommandLines.Proofs.Console.Descriptions
import CommandLines.Proofs.Reading.Arguments

namespace CommandLines

/-! ### What can be typed -/

namespace ArgumentType

/-- Some text is read as the value. -/
def Accepts (type : ArgumentType) (v : Value) : Prop :=
  ∃ c after, type.readValue c = (.ok v, after)

/-- A whole number can be typed just if it lies between the bounds. -/
theorem accepts_whole_iff {w : WholeType} {minimum maximum x : w.type.Carrier} :
    (number w.type minimum maximum).Accepts ⟨.number w.type, x⟩ ↔
      w.toInt minimum ≤ w.toInt x ∧ w.toInt x ≤ w.toInt maximum := by
  constructor
  · intro h
    obtain ⟨c, after, h⟩ := h
    obtain ⟨y, hread, hxy⟩ := readValue_eq_ok_iff.1 h
    cases hxy
    obtain ⟨-, hlow, hhigh, -⟩ := readBounded_eq_ok_iff_numeral.1 hread
    exact ⟨hlow, hhigh⟩
  · intro h
    have hread : readBounded w.type minimum maximum ⟨[], (w.type.render x).toList ++ []⟩ = _ :=
      readBounded_render h.1 h.2 nofun
    exact ⟨_, _, readValue_eq_ok_iff.2 ⟨x, hread, rfl⟩⟩

end ArgumentType

section

variable {Source Command Modifier : Type}

/-- The value could have been typed for the node, if it is one for whole numbers. -/
def Label.Typable (label : Label Source Command Modifier) (v : Value) : Prop :=
  ∀ name type provider?, label = .argument name type provider? →
    ∀ w : WholeType, type.valueType = .number w.type → type.Accepts v

namespace Draft

/-- So could all defaults in the draft. -/
def Typable (d : Draft Source Command Modifier) : Prop :=
  ∀ m ∈ d.mentions [], ∀ v, m.draft.default? = some v → m.draft.label.Typable v

/-- What the node of a draft matches, and its default. -/
def entry (d : Draft Source Command Modifier) : Label Source Command Modifier × Option Value :=
  (d.label, d.default?)

/-- The entries of a draft and all that lies in it. -/
def entries (d : Draft Source Command Modifier) (above : List Key) :
    List (Label Source Command Modifier × Option Value) :=
  (d.mentions above).map fun m => m.draft.entry

/-- The entries of drafts one after another. -/
def entriesAll (above : List Key) (ds : List (Draft Source Command Modifier)) :
    List (Label Source Command Modifier × Option Value) :=
  (mentionsAll above ds).map fun m => m.draft.entry

theorem entries_eq (d : Draft Source Command Modifier) (above : List Key) :
    d.entries above = d.entry :: entriesAll (above ++ [d.label.key]) d.children := by
  cases d
  rfl

theorem entriesAll_append_singleton (above : List Key) (ds : List (Draft Source Command Modifier))
    (d : Draft Source Command Modifier) :
    entriesAll above (ds ++ [d]) = entriesAll above ds ++ d.entries above := by
  induction ds with
  | nil => simp [entriesAll, entries, mentionsAll]
  | cons e ds ih =>
    simp only [entriesAll] at ih
    simp [entriesAll, mentionsAll, ih]

end Draft

namespace Tree

/-- So could all defaults in the tree. -/
def Typable (t : Tree Source Command Modifier) : Prop :=
  ∀ id label v, (t.node id).label? = some label → (t.node id).default? = some v → label.Typable v

/-- What is said to be given by a match could have been typed for its node. -/
def CouldRead (t : Tree Source Command Modifier) (m : Match) (_ : String) (v : Value) : Prop :=
  ∀ label, (t.node m.node).label? = some label → label.Typable v

variable {t grown : Tree Source Command Modifier} {d : Draft Source Command Modifier}
  {id : NodeId}

/-! ### Registering -/

theorem typable_empty : (empty : Tree Source Command Modifier).Typable := by
  intro id label v hlabel
  have hbare : (empty : Tree Source Command Modifier).node id = Node.bare := by
    obtain ⟨_ | i⟩ := id <;> rfl
  rw [hbare] at hlabel
  cases hlabel

/-- A node has its default from the first draft for it, and no other draft changes it. -/
theorem Typable.register (ht : t.Typable) (hd : d.Typable) (h : t.register d = .ok (grown, id)) :
    grown.Typable := by
  intro other label v hlabel hdefault
  obtain ⟨story, records⟩ := t.built.exists_records
  obtain ⟨hgrown, hkeep⟩ := records.add d Arena.at?_nil (add_eq_ok_iff.1 h)
  have hin : grown.contains other = true := by
    by_contra hout
    rw [Arena.node_of_not_contains hout] at hlabel
    cases hlabel
  obtain ⟨path, hpath⟩ := hgrown.sound.exists_at? hin
  have htold := hgrown.told path other hpath
  have hdrafts : Mention.draftsAt (story ++ d.mentions []) path =
      Mention.draftsAt story path ++ Mention.draftsAt (d.mentions []) path := by
    simp [Mention.draftsAt]
  rw [htold.label, hdrafts] at hlabel
  rw [htold.default, hdrafts] at hdefault
  cases hbefore : Mention.draftsAt story path with
  | nil =>
    -- nothing was registered for the node before, so it is the draft's
    rw [hbefore, List.nil_append] at hlabel hdefault
    obtain ⟨first, hfirst, hvalue⟩ := Option.bind_eq_some_iff.1 hdefault
    rw [hfirst] at hlabel
    obtain ⟨m, hm, rfl⟩ := List.mem_map.1 (List.mem_of_head? hfirst)
    exact Option.some.inj hlabel ▸ hd m (List.mem_filter.1 hm).1 v hvalue
  | cons first later =>
    -- the node was there, with the label and the default that it has now
    rw [hbefore] at hlabel hdefault
    have hne : path ≠ [] := by
      rintro rfl
      rw [Mention.draftsAt_nil] at hbefore
      cases hbefore
    have hsome := (records.mentioned path hne).2 (by simp [hbefore])
    obtain ⟨before, hat⟩ := Option.isSome_iff_exists.1 hsome
    obtain rfl : other = before := Option.some.inj (hpath.symm.trans (hkeep path before hat))
    have htold := records.told path other hat
    rw [hbefore] at htold
    exact ht other label v (htold.label.trans hlabel) (htold.default.trans hdefault)

theorem Typable.addAll {ds : List (Draft Source Command Modifier)} (ht : t.Typable)
    (hds : ∀ d ∈ ds, d.Typable) (h : t.addAll .root ds = .ok grown) : grown.Typable := by
  induction ds generalizing t with
  | nil =>
    cases h
    exact ht
  | cons d ds ih =>
    cases hfirst : t.add .root d with
    | error e => simp [Tree.addAll, hfirst, bind, Except.bind] at h
    | ok first =>
      simp only [Tree.addAll, hfirst, bind, Except.bind] at h
      exact ih (ht.register (hds d List.mem_cons_self) hfirst)
        (fun e he => hds e (List.mem_cons_of_mem d he)) h

/-! ### Reading -/

theorem Gives.mono {tells tells' : Match → String → Value → Prop} {ms : List Match}
    {entries : List (String × Argument)} (h : t.Gives tells ms entries)
    (himp : ∀ m name v, tells m name v → tells' m name v) : t.Gives tells' ms entries := by
  induction h with
  | nil => exact .nil
  | literal label rest ih => exact .literal label ih
  | argument label given rest ih => exact .argument label (himp _ _ _ given) ih

theorem couldRead_of_reads {line : String} {m : Match} {name : String} {v : Value}
    (h : t.Reads line m name v) : t.CouldRead m name v := by
  intro label hlabel name' type provider? hargument w hwhole
  obtain ⟨type', provider'?, c, after, hlabel', -, -, hread⟩ := h
  rw [hargument, hlabel'] at hlabel
  cases hlabel
  exact ⟨c, after, hread⟩

theorem Typable.couldRead (ht : t.Typable) {line : String} {m : Match} {name : String} {v : Value}
    (h : t.StandsIn line m name v) : t.CouldRead m name v := by
  intro label hlabel
  obtain ⟨type, provider?, -, hdefault, -⟩ := h
  exact ht m.node label v hlabel hdefault

/-- Every hop has what its matches were given, and all of it could have been typed. -/
theorem Typable.gives (ht : t.Typable) {c : Cursor} {source : Source}
    {hop : Hop Source Command Modifier} (h : hop ∈ (t.readAt c source).route.hops) :
    ∃ entries, t.Gives t.CouldRead hop.nodes entries ∧ hop.Stores entries := by
  obtain ⟨hfirst, hlater⟩ :=
    (t.readFrom_comes (c.ahead.length + 1) .root c (.start source .root c.offset)).recorded
      fun hne => absurd rfl hne
  have hrecorded : ∃ source root start, t.Recorded c.line (.start source root start) hop :=
    (List.mem_cons.1 h).elim (fun heq => ⟨_, _, _, heq ▸ hfirst⟩) (hlater hop)
  obtain ⟨_, _, _, hrecorded⟩ := hrecorded
  obtain ⟨typed, defaults, read, filled, hnodes, -, hread, hfilled, hstores⟩ := hrecorded.stores
  have htyped := hread.mono fun _ _ _ => couldRead_of_reads
  have hdefaults := hfilled.mono fun _ _ _ => ht.couldRead
  exact ⟨read ++ filled, hnodes ▸ htyped.append hdefaults, hstores⟩

end Tree

end

namespace Console

/-! ### What descriptions say of defaults -/

/-- The label of a described node. -/
def Form.label : Form → Label User Verb Passing
  | .literal word => .literal word
  | .argument name kind => .argument name kind.type none

/-- The default of a described node as a value. -/
def Description.value? (d : Description) : Option Value :=
  match d.form with
  | .literal _ => none
  | .argument _ kind => d.default?.bind kind.value?

/-- What a described node matches, and its default. -/
def Description.entry (d : Description) : Label User Verb Passing × Option Value :=
  (d.form.label, d.value?)

/-- A default for a whole number lies between the bounds of its argument. -/
def Description.Bounded (d : Description) : Prop :=
  ∀ name (w : WholeType) minimum? maximum? i,
    d.form = .argument name (.number w.type minimum? maximum?) → d.default? = some (.ofInt i) →
    w.toInt (minimum?.getD w.type.lowest) ≤ i ∧ i ≤ w.toInt (maximum?.getD w.type.highest)

variable {t : Grammar} {d : Description} {plan drawn : Plan} {above : List Key}

/-- The draft of a node by itself has the node's label and its default. -/
theorem Form.draft_eq_ok {form : Form} {default? : Option Json}
    (h : form.draft default? = .ok plan) :
    plan.entry = Description.entry { form, default? } ∧ plan.children = [] := by
  cases default? with
  | none =>
    cases form with
    | literal word =>
      cases h
      exact ⟨rfl, rfl⟩
    | argument name kind =>
      cases h
      exact ⟨rfl, rfl⟩
  | some j =>
    cases form with
    | literal word => cases h
    | argument name kind =>
      simp only [Form.draft] at h
      split at h
      · next v hv =>
        cases h
        exact ⟨Prod.ext rfl hv.symm, rfl⟩
      · cases h

/-- Permissions and commands have nothing to do with labels and defaults. -/
theorem equipped_eq (plan : Plan) (admin : Bool) (result? : Option Int32) :
    let equipped := if admin then plan.onlyFor User.admin else plan
    let equipped : Plan := result?.elim equipped fun n => equipped.runs (.constant n)
    equipped.entry = plan.entry ∧ equipped.children = plan.children := by
  cases admin <;> cases result? <;> exact ⟨rfl, rfl⟩

mutual

/-- The nodes of a draft are those that are described, each with its default. -/
theorem entries_of_draft : ∀ (d : Description) {plan : Plan} (above : List Key),
    d.draft t = .ok plan → plan.entries above = d.family.map Description.entry
  | ⟨form, result?, redirect?, forks, admin, children, default?⟩, drawn, above, h => by
    unfold Description.draft at h
    cases hplan : form.draft default? with
    | error e => simp [hplan, bind, Except.bind] at h
    | ok plan =>
      obtain ⟨hentry, hchildren⟩ := Form.draft_eq_ok hplan
      obtain ⟨hentry', hchildren'⟩ := equipped_eq plan admin result?
      rw [hplan] at h
      dsimp only [bind, Except.bind] at h hentry' hchildren'
      generalize Option.elim result? _ _ = equipped at h hentry' hchildren'
      have hself : equipped.entry =
          Description.entry ⟨form, result?, redirect?, forks, admin, children, default?⟩ :=
        hentry'.trans hentry
      cases redirect? with
      | some path =>
        dsimp only at h
        split at h
        · cases h
        · next hnone =>
          have hempty : children = [] := by simpa using hnone
          cases hredirect : redirectTo t path forks with
          | error e => simp [hredirect] at h
          | ok r =>
            simp only [hredirect] at h
            obtain ⟨-, rfl⟩ := redirects_eq_ok_iff.1 h
            show equipped.entry :: Draft.entriesAll _ equipped.children = _
            rw [hself, hchildren', hchildren, hempty]
            rfl
      | none =>
        dsimp only at h
        split at h
        · cases h
        · obtain ⟨hsame, hrest⟩ := entries_of_addTo children h
          rw [Draft.entries_eq, hsame, hself, hrest, hchildren', hchildren]
          rfl

theorem entries_of_addTo : ∀ (ds : List Description) {plan drawn : Plan},
    Description.addTo t plan ds = .ok drawn → drawn.entry = plan.entry ∧
      ∀ above, Draft.entriesAll above drawn.children =
        Draft.entriesAll above plan.children ++ (Description.families ds).map Description.entry
  | [], plan, drawn, h => by
    cases h
    exact ⟨rfl, fun above => (List.append_nil _).symm⟩
  | d :: ds, plan, drawn, h => by
    unfold Description.addTo at h
    cases hchild : d.draft t with
    | error e => simp [hchild, bind, Except.bind] at h
    | ok child =>
      cases hgrown : step (plan.withChild child) with
      | error e => simp [hchild, hgrown, bind, Except.bind] at h
      | ok grown =>
        simp only [hchild, hgrown, bind, Except.bind] at h
        obtain ⟨-, rfl⟩ := withChild_eq_ok_iff.1 hgrown
        obtain ⟨hsame, hrest⟩ := entries_of_addTo ds h
        refine ⟨hsame, fun above => ?_⟩
        rw [hrest, Draft.entriesAll_append_singleton, entries_of_draft d above hchild,
          Description.families, List.map_append, List.append_assoc]

end

/-! ### Bounds -/

/-- Kinds of whole numbers have types of whole numbers. -/
theorem Kind.exists_bounds {kind : Kind} {w : WholeType}
    (h : kind.type.valueType = .number w.type) :
    ∃ minimum? maximum?, kind = .number w.type minimum? maximum? := by
  cases kind with
  | bool => cases h
  | text k => cases h
  | number type minimum? maximum? =>
    obtain rfl : type = w.type := ValueType.number.inj h
    exact ⟨minimum?, maximum?, rfl⟩

/-- The default of a described argument could have been typed just if it lies between the bounds
that are described. -/
theorem typable_iff_bounded (h : d.form.Takes d.default?) :
    (∀ v, d.value? = some v → d.form.label.Typable v) ↔ d.Bounded := by
  constructor
  · intro htypable name w minimum? maximum? i hform hdefault
    rw [hform, hdefault] at h
    -- the file's number is one of the width, since the default was taken
    obtain ⟨v, hv⟩ : ∃ v, (Kind.number w.type minimum? maximum?).value? (.ofInt i) = some v := by
      cases h with
      | argument name hfits => exact Option.isSome_iff_exists.1 (value?_isSome_iff.2 hfits)
    obtain ⟨x, rfl, hx⟩ := value?_whole_eq_some_iff.1 hv
    obtain rfl : i = w.toInt x := by simpa [Json.ofInt] using hx
    have hvalue : d.value? = some ⟨.number w.type, x⟩ := by
      simp [Description.value?, hform, hdefault, hv]
    have haccepts := htypable _ hvalue name _ none (by rw [hform]; rfl) w rfl
    exact ArgumentType.accepts_whole_iff.1 haccepts
  · intro hbounded v hv name type provider? hlabel w hwhole
    cases hform : d.form with
    | literal word => simp [hform, Form.label] at hlabel
    | argument name' kind =>
      rw [hform] at hlabel
      cases hlabel
      obtain ⟨minimum?, maximum?, rfl⟩ := Kind.exists_bounds hwhole
      simp only [Description.value?, hform] at hv
      obtain ⟨j, hj, hv⟩ := Option.bind_eq_some_iff.1 hv
      obtain ⟨x, rfl, rfl⟩ := value?_whole_eq_some_iff.1 hv
      exact ArgumentType.accepts_whole_iff.2 (hbounded name w minimum? maximum? _ hform hj)

theorem entry_of_draft (h : d.draft t = .ok plan) : plan.entry = d.entry := by
  have hentries := entries_of_draft d [] h
  rw [Draft.entries_eq, Description.family_eq, List.map_cons] at hentries
  exact (List.cons.inj hentries).1

/-- All defaults in a draft could have been typed just if all that are described lie between their
bounds. -/
theorem typable_draft_iff (h : d.draft t = .ok plan) :
    plan.Typable ↔ ∀ e ∈ d.family, e.Bounded := by
  have hentries : plan.Typable ↔
      ∀ entry ∈ plan.entries [], ∀ v, entry.2 = some v → entry.1.Typable v := by
    simp [Draft.Typable, Draft.entries, Draft.entry]
  rw [hentries, entries_of_draft d [] h, List.forall_mem_map]
  have hwell := wellFormed_of_draft h
  exact forall₂_congr fun e he => typable_iff_bounded (hwell e he).default

/--
**A default can be typed just if the file keeps it between the bounds.**

Take a description that comes to a draft.  If it is one of an argument for whole numbers, its
default is an integer that the width holds, the draft has that number as it stands, and some
text is read as it just if it lies between the bounds.  All defaults in the draft could have
been typed just if all that are described, however deep, lie between the bounds of theirs.

Then, and if the same goes for the tree before, commands of the tree in which the draft is
registered see only such numbers: whatever the line, every hop stores what its matches were
given, every whole number among it could have been typed for its argument, and that is what a
context of the hop answers with.
-/
theorem typable_default_iff (h : d.draft t = .ok plan) :
    (∀ name (w : WholeType) minimum? maximum? j,
      d.form = .argument name (.number w.type minimum? maximum?) → d.default? = some j →
      let minimum := minimum?.getD w.type.lowest
      let maximum := maximum?.getD w.type.highest
      ∃ x, j = .ofInt (w.toInt x) ∧ plan.default? = some ⟨.number w.type, x⟩ ∧
        ((ArgumentType.number w.type minimum maximum).Accepts ⟨.number w.type, x⟩ ↔
          w.toInt minimum ≤ w.toInt x ∧ w.toInt x ≤ w.toInt maximum)) ∧
    (plan.Typable ↔ ∀ e ∈ d.family, e.Bounded) ∧
    ∀ grown id, t.Typable → (∀ e ∈ d.family, e.Bounded) → t.register plan = .ok (grown, id) →
      ∀ c source, ∀ hop ∈ (grown.readAt c source).route.hops,
        ∃ entries, grown.Gives grown.CouldRead hop.nodes entries ∧ hop.Stores entries ∧
          ∀ context : Scene, context.hop.arguments = hop.arguments → context.Answers entries := by
  refine ⟨?_, typable_draft_iff h, ?_⟩
  · intro name w minimum? maximum? j hform hdefault minimum maximum
    have hentry : plan.default? = d.value? := congrArg Prod.snd (entry_of_draft h)
    have hvalue : d.value? = (Kind.number w.type minimum? maximum?).value? j := by
      simp [Description.value?, hform, hdefault]
    have htakes := (wellFormed_of_draft h d d.mem_family).default
    rw [hform, hdefault] at htakes
    cases htakes with
    | argument name hfits =>
      obtain ⟨v, hv⟩ := Option.isSome_iff_exists.1 (value?_isSome_iff.2 hfits)
      obtain ⟨x, rfl, rfl⟩ := value?_whole_eq_some_iff.1 hv
      exact ⟨x, rfl, hentry.trans (hvalue.trans hv), ArgumentType.accepts_whole_iff⟩
  · intro grown id ht hbounded hregister c source hop hhop
    have hgrown := ht.register ((typable_draft_iff h).2 hbounded) hregister
    obtain ⟨entries, hgives, hstores⟩ := hgrown.gives hhop
    exact ⟨entries, hgives, hstores, fun context hcontext =>
      Context.answers_of_stores (hstores.congr hcontext)⟩

/-- The default of `level` can be typed, and so after `set` a command sees only what could have been
typed. -/
theorem typable_default_iff_settings :
    (∃ plan, level.draft .empty = .ok plan ∧ plan.default? = some (.int 5) ∧
      (ArgumentType.number .int 0 10).Accepts (.int 5)) ∧
    ∃ plan grown id, settings.draft .empty = .ok plan ∧ plan.Typable ∧
      Tree.empty.register plan = .ok (grown, id) ∧
      ∀ hop ∈ (grown.readAt (.ofLine "set") ⟨"alice", false⟩).route.hops,
        ∃ entries, grown.Gives grown.CouldRead hop.nodes entries ∧ hop.Stores entries := by
  constructor
  · obtain ⟨plan, hplan⟩ : ∃ plan, level.draft .empty = .ok plan := ⟨_, rfl⟩
    obtain ⟨hdefault, -, -⟩ := typable_default_iff hplan
    obtain ⟨x, hx, hstored, haccepts⟩ :=
      hdefault "level" .int (some 0) (some 10) (.ofInt 5) rfl rfl
    have hfive : (5 : Int) = WholeType.int.toInt x := by simpa [Json.ofInt] using hx
    have hsame : WholeType.int.toInt 5 = WholeType.int.toInt x := hfive
    obtain rfl := WholeType.toInt_inj.1 hsame
    exact ⟨plan, hplan, hstored, haccepts.2 (by decide)⟩
  · obtain ⟨plan, hplan⟩ : ∃ plan, settings.draft .empty = .ok plan := ⟨_, rfl⟩
    obtain ⟨-, htypable, hread⟩ := typable_default_iff hplan
    have hbounded : ∀ e ∈ settings.family, e.Bounded := by
      intro e he name w minimum? maximum? i hform hdefault
      rcases List.mem_cons.1 he with rfl | he
      · cases hform
      · rcases List.mem_cons.1 he with rfl | he
        · cases w <;> cases hform
          cases hdefault
          decide
        · obtain rfl := List.mem_singleton.1 he
          cases hform
    obtain ⟨grown, id, hgrown⟩ := (leadsInto_of_draft hplan).exists_register
    refine ⟨plan, grown, id, hplan, htypable.2 hbounded, hgrown, fun hop hhop => ?_⟩
    obtain ⟨entries, hgives, hstores, -⟩ :=
      hread grown id Tree.typable_empty hbounded hgrown _ _ hop hhop
    exact ⟨entries, hgives, hstores⟩

/-- A literal with an argument between 0 and 3 whose default is 99. -/
def overstepping : Description where
  form := .literal "set"
  children := [
    { form := .argument "n" (.number .int (some 0) (some 3)), result? := some 1
      default? := some (.ofInt 99) }]

/-- It is accepted.  After `set` the command runs with 99, which cannot be typed. -/
theorem overstepping_default : ∃ plan grown id, overstepping.draft .empty = .ok plan ∧
    Tree.empty.register plan = .ok (grown, id) ∧
    (grown.read "set" ⟨"alice", false⟩).isComplete = true ∧
    (grown.read "set" ⟨"alice", false⟩).route.last.argument? "n" = some ⟨.point 3, .int 99⟩ ∧
    (grown.node ⟨2⟩).label? = some (.argument "n" (.number .int 0 3) none) ∧
    (grown.node ⟨2⟩).default? = some (.int 99) ∧
    ¬(ArgumentType.number .int 0 3).Accepts (.int 99) := by
  refine ⟨_, _, _, rfl, rfl, rfl, rfl, rfl, rfl, ?_⟩
  intro haccepts
  have hwithin := (ArgumentType.accepts_whole_iff (w := .int) (x := 99)).1 haccepts
  exact absurd hwithin.2 (by decide)

/-! ### Whole files -/

/-- What is described between bounds keeps all defaults of a tree such that they could have been
typed. -/
theorem typable_of_extend {ds : List Description} {grown : Grammar} (h : extend t ds = .ok grown)
    (ht : t.Typable) (hbounded : ∀ e ∈ Description.families ds, e.Bounded) : grown.Typable := by
  induction ds generalizing t with
  | nil =>
    cases h
    exact ht
  | cons d ds ih =>
    unfold extend at h
    cases hdraft : d.draft t with
    | error e => simp [hdraft, bind, Except.bind] at h
    | ok plan =>
      have hplan := (typable_draft_iff hdraft).2 fun e he =>
        hbounded e (List.mem_append_left _ he)
      obtain ⟨larger, id, hlarger⟩ := (leadsInto_of_draft hdraft).exists_register
      refine ih ?_ (ht.register hplan hlarger) fun e he => hbounded e (List.mem_append_right _ he)
      simpa [hdraft, hlarger, bind, Except.bind, Except.mapError] using h

/-- Among the program's own drafts there is one default, and it could have been typed. -/
theorem typable_builtinPlans : ∀ d ∈ builtinPlans, d.Typable := by
  intro d hd m hm v hv
  have hdefaults : (builtinPlans.flatMap fun d => d.mentions []).filterMap
      (fun m => m.draft.default?.map fun v => (m.draft.label, v)) =
        [(.argument "count" (.number .int 1 64) none, .int 1)] := rfl
  have hmem : (m.draft.label, v) ∈ [(Label.argument "count" (.number .int 1 64) none, .int 1)] := by
    rw [← hdefaults]
    exact List.mem_filterMap.2 ⟨m, List.mem_flatMap.2 ⟨d, hd, hm⟩, by rw [hv]; rfl⟩
  obtain ⟨hlabel, rfl⟩ := Prod.mk.inj (List.mem_singleton.1 hmem)
  intro name type provider? hargument w hwhole
  rw [hlabel] at hargument
  cases hargument
  exact (ArgumentType.accepts_whole_iff (w := .int) (x := 1)).2 (by decide)

theorem typable_builtin : builtin.Typable := by
  unfold builtin
  split
  · next t h => exact Tree.typable_empty.addAll typable_builtinPlans h
  · exact Tree.typable_empty

/-- Commands that a file adds to those of the program see no whole number that could not have been
typed, if all that the file describes lie between their bounds. -/
theorem typable_of_load {path text : String} {ds : List Description} {grown : Grammar}
    (h : load builtin path (some text) = .ok grown) (hds : descriptions? text = some ds)
    (hbounded : ∀ e ∈ Description.families ds, e.Bounded) {c : Cursor} {user : User}
    {hop : Hop User Verb Passing} (hhop : hop ∈ (grown.readAt c user).route.hops) :
    ∃ entries, grown.Gives grown.CouldRead hop.nodes entries ∧ hop.Stores entries := by
  simp only [load, hds] at h
  exact (typable_of_extend h typable_builtin hbounded).gives hhop

end Console

end CommandLines
