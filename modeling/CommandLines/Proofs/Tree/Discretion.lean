/-
What usage gives away.

A source is told only of what it may use, but that alone does not keep the rest a secret.  How the
condensed usage puts brackets and bars depends on how many children there are and whether their
texts differ, and it goes through the children more than once on its way, each time sorting out for
itself what the source may use.  If one of these passes counted a child that another leaves out, a
lone way on would be told as a choice, and the hidden child would show.

So usage is told of `Arena.visible`, where nobody has a child that the source may not use, and
compared.  For the condensed usage everything comes down to `usableBelow_visible`: the children that
are counted are the same.  For the full one what is cut off adds no lines, and where nothing is left
to be cut off, telling it without a source is the same again.
-/
import CommandLines.Proofs.Reading.Permission
import CommandLines.Tree.Usage

namespace CommandLines

variable {Source Command Modifier : Type}

namespace Arena

/-! ### What is told of what is visible -/

variable {a : Arena Source Command Modifier} {source : Source} {source? : Option Source}
  {id : NodeId}

@[simp]
theorem children_visible : ((a.visible source).node id).children = a.usableBelow source id := by
  rw [node_visible]
  rfl

@[simp]
theorem allows_visible : ((a.visible source).node id).allows = (a.node id).allows := by
  rw [node_visible]
  rfl

@[simp]
theorem text_visible : ((a.visible source).node id).usage = (a.node id).usage := by
  rw [node_visible]
  rfl

@[simp]
theorem command_visible : ((a.visible source).node id).command? = (a.node id).command? := by
  rw [node_visible]
  rfl

@[simp]
theorem redirect_visible : ((a.visible source).node id).redirect? = (a.node id).redirect? := by
  rw [node_visible]
  rfl

/-- A redirect is told by the text of its target, which is kept. -/
@[simp]
theorem redirectUsage_visible (target : NodeId) :
    (a.visible source).redirectUsage target = a.redirectUsage target := by
  rw [redirectUsage, text_visible, redirectUsage]

theorem mem_usableBelow {child : NodeId} : child ∈ a.usableBelow source id ↔
    child ∈ (a.node id).children ∧ (a.node child).allows source = true := by
  rw [usableBelow, List.mem_filter]

/-- The children that are counted are those that are left. -/
@[simp]
theorem usableBelow_visible :
    (a.visible source).usableBelow source id = a.usableBelow source id := by
  unfold usableBelow
  rw [children_visible, usableBelow, List.filter_filter]
  simp only [allows_visible, Bool.and_self]

/-! ### The full usage -/

theorem pathsBelow_of_not_allows (h : (a.node id).allows source = false) (steps : Nat)
    (before : String) : a.pathsBelow (some source) steps id before = [] := by
  cases steps with
  | zero => rfl
  | succ steps => simp [pathsBelow, h]

/-- What the source may not use adds no lines. -/
theorem flatMap_usableBelow {f : NodeId → List String}
    (h : ∀ child, (a.node child).allows source = false → f child = []) :
    (a.usableBelow source id).flatMap f = (a.node id).children.flatMap f := by
  rw [usableBelow]
  induction (a.node id).children with
  | nil => rfl
  | cons child children ih =>
    cases hallows : (a.node child).allows source with
    | true => simp [hallows, ih]
    | false => simp [hallows, h child hallows, ih]

/-- From a node on that the source may use, the lines are the same in what is visible, whether what
the source may not use is left out there or not. -/
theorem pathsBelow_visible (hsource : ∀ s ∈ source?, s = source)
    (hid : (a.node id).allows source = true) (steps : Nat) (before : String) :
    (a.visible source).pathsBelow source? steps id before =
      a.pathsBelow (some source) steps id before := by
  induction steps generalizing id before with
  | zero => rfl
  | succ steps ih =>
    have hopen : source?.all (a.node id).allows = true := by
      rw [Option.all_eq_true]
      intro s hs
      rwa [hsource s hs]
    have hskips : ∀ child, (a.node child).allows source = false →
        a.pathsBelow (some source) steps child
          (joinUsage before (a.node child).usage) = [] :=
      fun child hchild => pathsBelow_of_not_allows hchild steps _
    have hbelow : ((a.usableBelow source id).flatMap fun child =>
          (a.visible source).pathsBelow source? steps child
            (joinUsage before (a.node child).usage)) =
        (a.node id).children.flatMap fun child =>
          a.pathsBelow (some source) steps child (joinUsage before (a.node child).usage) := by
      rw [← flatMap_usableBelow hskips]
      refine List.flatMap_congr ?_
      intro child hchild
      exact ih (mem_usableBelow.1 hchild).2 _
    simp only [pathsBelow, allows_visible, command_visible, redirect_visible, text_visible,
      redirectUsage_visible, children_visible, Option.all_some, hopen, hid, hbelow]

/-! ### The condensed usage -/

theorem usageFrom_of_not_allows (h : (a.node id).allows source = false) (steps : Nat)
    (optional only : Bool) : a.usageFrom source steps optional only id = none := by
  cases steps with
  | zero => rfl
  | succ steps => simp [usageFrom, h]

/-- The same children are counted at every node, so the same is told. -/
theorem usageFrom_visible (a : Arena Source Command Modifier) (source : Source) (steps : Nat) :
    (a.visible source).usageFrom source steps = a.usageFrom source steps := by
  induction steps with
  | zero => rfl
  | succ steps ih =>
    funext optional only id
    simp only [usageFrom, ih, allows_visible, text_visible, redirect_visible, command_visible,
      redirectUsage_visible, usableBelow_visible]

/-- There is a line for each child that is counted, and for no other. -/
theorem usage_eq_usableBelow (a : Arena Source Command Modifier) (id : NodeId) (source : Source) :
    a.usage id source = (a.usableBelow source id).filterMap fun child =>
      (a.usageFrom source a.size (a.node id).command?.isSome false child).map (child, ·) := by
  rw [usage, usableBelow, List.filterMap_filter]
  refine List.filterMap_congr ?_
  intro child _
  cases hallows : (a.node child).allows source with
  | true => rw [if_pos rfl]
  | false => rw [usageFrom_of_not_allows hallows]; rfl

theorem usage_visible (a : Arena Source Command Modifier) (source : Source) (id : NodeId) :
    (a.visible source).usage id source = a.usage id source := by
  rw [usage_eq_usableBelow, usage_eq_usableBelow, usableBelow_visible, usageFrom_visible,
    size_visible, command_visible]

end Arena

/--
**Usage tells of what a source may use as if there were nothing else.**

For a node that the source may use, both descriptions are the same in the tree and in what is
left of it when no node has a child that the source may not use.  And the full one, with such
subtrees left out, is there the one with nothing left out.
-/
theorem Tree.usages_visible (t : Tree Source Command Modifier) (source : Source) (id : NodeId)
    (hid : (t.node id).allows source = true) :
    (t.toArena.visible source).allUsage id (some source) = t.allUsage id (some source) ∧
      (t.toArena.visible source).allUsage id none = t.allUsage id (some source) ∧
      (t.toArena.visible source).usage id source = t.usage id source := by
  have hall (source? : Option Source) (hsource : ∀ s ∈ source?, s = source) :
      (t.toArena.visible source).allUsage id source? = t.allUsage id (some source) := by
    rw [Arena.allUsage, Arena.size_visible, Arena.pathsBelow_visible hsource hid]
    rfl
  refine ⟨hall (some source) ?_, hall none ?_, ?_⟩
  · intro s hs
    exact (Option.some.inj hs).symm
  · intro s hs
    cases hs
  · exact Arena.usage_visible t.toArena source id

/-- The tree that comes of adding a literal `set` with a command and the literals `all` and `one`
below it, both with commands, of which `all` is for the source `true` only, and a literal `go` that
leads to `all`. -/
def discreetTree : Except Tree.MissingNode (Tree Bool Unit Unit) := do
  let all := ((Draft.literal "all").runs ()).onlyFor id
  let one := (Draft.literal "one").runs ()
  let (t, _) ← Tree.empty.register
    { (Draft.literal "set").runs () with children := [all, one] }
  let (t, _) ← t.register
    { Draft.literal "go" with redirect? := some { target := ⟨2⟩ } }
  return t

/-- To the source `false` there is no choice below `set`, as if `all` were not there, but `go` is
told to lead to it. -/
theorem usages_visible_discreet : ∃ t, discreetTree = .ok t ∧
    (t.node .root).allows false = true ∧
    (t.toArena.visible false).usage .root false = t.usage .root false ∧
    t.usage .root false = [(⟨1⟩, "set [one]"), (⟨4⟩, "go -> all")] ∧
    t.usage .root true = [(⟨1⟩, "set [all|one]"), (⟨4⟩, "go -> all")] ∧
    (t.toArena.visible false).allUsage .root none = t.allUsage .root (some false) ∧
    t.allUsage .root (some false) = ["set", "set one", "go -> all"] := by
  obtain ⟨t, h⟩ : ∃ t, discreetTree = .ok t := ⟨_, rfl⟩
  have hroot : (t.node .root).allows false = true := by
    obtain rfl := Except.ok.inj h
    rfl
  obtain ⟨-, hall, hcondensed⟩ := t.usages_visible false .root hroot
  refine ⟨t, h, hroot, hcondensed, ?_, ?_, hall, ?_⟩
  all_goals
    obtain rfl := Except.ok.inj h
    rfl

end CommandLines
