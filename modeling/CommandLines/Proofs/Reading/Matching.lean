/-
Where a line may go on.

`Node.takeWhole` hands a hop along, but where it leads does not depend on the hop.  So this
file says it without one: `Node.whole?` is the place after a node, `Arena.usable` is which
children are tried at a place, and `Tree.goesOn?` is where the line goes on after one of
them.
-/
import CommandLines.Proofs.Tree.Arena
import CommandLines.Reading.Basic

namespace CommandLines

variable {Source Command Modifier : Type}

/-! ### Places after a node -/

namespace Cursor

variable {c after : Cursor}

theorem offset_skip {rest : List Char} (h : c.ahead = separator :: rest) :
    c.skip.offset = c.offset + 1 := by
  have hs : separator.utf8Size = 1 := by decide
  simp [skip, h, offset, hs, Nat.add_comm]

theorem ahead_skip {d : Char} {rest : List Char} (h : c.ahead = d :: rest) :
    c.skip.ahead = rest := by
  simp [skip, h]

/-- Where something follows a place that a space or the end must follow, a space does. -/
theorem ahead_of_atSeparator (h : c.atSeparator = true) (hend : c.atEnd = false) :
    ∃ rest, c.ahead = separator :: rest := by
  cases hc : c.ahead with
  | nil => simp [atEnd, hc] at hend
  | cons d rest => exact ⟨rest, by simpa [atSeparator, peek, hc] using h⟩

theorem atEnd_of_has {n : Nat} (h : c.has (n + 1) = true) : c.atEnd = false := by
  cases hc : c.ahead with
  | nil => simp [has, bytesAhead, hc] at h
  | cons d rest => simp [atEnd, hc]

/-- Two bytes, of which the first is a space, are more than the space. -/
theorem skip_not_atEnd (h : c.atSeparator = true) (hlen : c.has 2 = true) :
    c.skip.atEnd = false := by
  obtain ⟨rest, hc⟩ := ahead_of_atSeparator h (atEnd_of_has hlen)
  have hs : separator.utf8Size = 1 := by decide
  cases rest with
  | nil => simp [has, bytesAhead, hc, hs] at hlen
  | cons d rest => simp [atEnd, ahead_skip hc]

theorem Reaches.atEnd (h : c.Reaches after) (hend : c.atEnd = true) : after.atEnd = true := by
  obtain ⟨cs, hc, -⟩ := h
  have hnil : c.ahead = [] := by simpa [Cursor.atEnd] using hend
  rw [hnil] at hc
  simp [Cursor.atEnd, (List.append_eq_nil_iff.1 hc.symm).2]

/-- The word stands ahead, and what is after it is a space or the end. -/
theorem afterWord?_eq_some_iff {word : String} :
    c.afterWord? word = some after ↔
      c.ahead = word.toList ++ after.ahead ∧ after.behind = word.toList.reverse ++ c.behind ∧
        after.atSeparator = true := by
  unfold afterWord?
  constructor
  · intro h
    split at h
    · next hword =>
      simp only at h
      split at h
      · next hsep =>
        obtain rfl := Option.some.inj h
        refine ⟨?_, rfl, hsep⟩
        obtain ⟨rest, hrest⟩ := List.isPrefixOf_iff_prefix.1 hword
        simp [advance, ← hrest]
      · simp at h
    · simp at h
  · intro hword
    obtain ⟨hahead, hbehind, hsep⟩ := hword
    have hword : word.toList.isPrefixOf c.ahead = true :=
      List.isPrefixOf_iff_prefix.2 ⟨after.ahead, hahead.symm⟩
    have hafter : c.advance word.toList (c.ahead.drop word.toList.length) = after := by
      rw [advance, hahead, List.drop_left, ← hbehind]
    rw [if_pos hword]
    simp only [hafter]
    exact if_pos hsep

end Cursor

namespace Node

/-- The place after the node, where the node matches at a cursor. -/
def after? (n : Node Source Command Modifier) (c : Cursor) : Option Cursor :=
  match n.label? with
  | none => some c
  | some (.literal word) => c.afterWord? word
  | some (.argument _ type _) =>
    match type.readValue c with
    | (.ok _, after) => some after
    | (.error _, _) => none

/-- The place after the node, where the node matches at a cursor and a space or the end follows. -/
def whole? (n : Node Source Command Modifier) (c : Cursor) : Option Cursor :=
  (n.after? c).filter Cursor.atSeparator

variable {n : Node Source Command Modifier} {c after : Cursor}

theorem whole?_eq_some_iff :
    n.whole? c = some after ↔ n.after? c = some after ∧ after.atSeparator = true :=
  Option.filter_eq_some_iff

theorem reaches_of_after? (h : n.after? c = some after) : c.Reaches after := by
  unfold after? at h
  split at h
  · obtain rfl := Option.some.inj h
    exact .refl c
  · next word _ =>
    obtain ⟨hahead, hbehind, -⟩ := Cursor.afterWord?_eq_some_iff.1 h
    exact ⟨word.toList, hahead, hbehind⟩
  · split at h
    · next hread =>
      obtain rfl := Option.some.inj h
      exact ArgumentType.reaches_readValue hread
    · simp at h

theorem reaches_of_whole? (h : n.whole? c = some after) : c.Reaches after :=
  reaches_of_after? (whole?_eq_some_iff.1 h).1

variable {id : NodeId} {hop grown : Hop Source Command Modifier}

/-- Where a node goes to does not depend on the hop that it is matched for. -/
theorem takeWhole_after (n : Node Source Command Modifier) (id : NodeId) (c : Cursor)
    (hop : Hop Source Command Modifier) :
    (n.takeWhole id c hop).toOption.map Prod.fst = n.whole? c := by
  unfold takeWhole take whole? after?
  cases n.label? with
  | none => by_cases hsep : c.atSeparator <;> simp [hsep, Option.filter, Except.toOption]
  | some label =>
    cases label with
    | literal word =>
      cases hword : c.afterWord? word with
      | none => simp [hword, Except.toOption]
      | some after =>
        by_cases hsep : after.atSeparator <;> simp [hword, hsep, Option.filter, Except.toOption]
    | argument name type provider? =>
      cases hread : type.readValue c with
      | mk outcome after =>
        cases outcome with
        | error f => simp [hread, Except.toOption]
        | ok value =>
          by_cases hsep : after.atSeparator <;> simp [hread, hsep, Option.filter, Except.toOption]

theorem whole?_of_takeWhole (h : n.takeWhole id c hop = .ok (after, grown)) :
    n.whole? c = some after := by
  rw [← takeWhole_after n id c hop, h]
  rfl

/-- What a node that matches whole has read and what has become of the hop. -/
theorem takeWhole_cases (h : n.takeWhole id c hop = .ok (after, grown)) :
    (n.label? = none ∧ grown = { hop with command? := n.command? }) ∨
      (∃ word, n.label? = some (.literal word) ∧ c.afterWord? word = some after ∧
        grown = { hop.withNode id n ⟨c.offset, after.offset⟩ with command? := n.command? }) ∨
      ∃ name type provider? value, n.label? = some (.argument name type provider?) ∧
        type.readValue c = (.ok value, after) ∧
        grown = { (hop.withArgument name ⟨⟨c.offset, after.offset⟩, value⟩).withNode id n
          ⟨c.offset, after.offset⟩ with command? := n.command? } := by
  unfold takeWhole at h
  split at h
  · simp at h
  · next place taken htake =>
    split at h
    · simp only [Except.ok.injEq, Prod.mk.injEq] at h
      obtain ⟨rfl, rfl⟩ := h
      unfold take at htake
      split at htake
      · next hlabel =>
        simp only [Except.ok.injEq, Prod.mk.injEq] at htake
        obtain ⟨rfl, rfl⟩ := htake
        exact .inl ⟨hlabel, rfl⟩
      · next word hlabel =>
        split at htake
        · next hword =>
          simp only [Except.ok.injEq, Prod.mk.injEq] at htake
          obtain ⟨rfl, rfl⟩ := htake
          exact .inr (.inl ⟨word, hlabel, hword, rfl⟩)
        · simp at htake
      · next name type provider? hlabel =>
        split at htake
        · simp at htake
        · next value _ hread =>
          simp only [Except.ok.injEq, Prod.mk.injEq] at htake
          obtain ⟨rfl, rfl⟩ := htake
          exact .inr (.inr ⟨name, type, provider?, value, hlabel, hread, rfl⟩)
    · simp at h

/-- A match does not change who the line is read for. -/
theorem source_of_takeWhole (h : n.takeWhole id c hop = .ok (after, grown)) :
    grown.source = hop.source := by
  rcases takeWhole_cases h with ⟨-, rfl⟩ | ⟨_, -, -, rfl⟩ | ⟨_, _, _, _, -, -, rfl⟩
  · rfl
  · rfl
  · rfl

end Node

/-! ### The children tried at a place -/

namespace Arena

variable {a : Arena Source Command Modifier} {source : Source} {id child : NodeId} {c : Cursor}

/-- The literal whose word is ahead is the only child worth a try. -/
theorem relevant_of_some {literal : NodeId}
    (h : (a.node id).literals.get? c.wordAhead = some literal) : a.relevant id c = [literal] := by
  have hsome : (a.node id).literals.isEmpty = false := by
    cases hempty : (a.node id).literals.isEmpty with
    | false => rfl
    | true => simp [Index.get?_of_isEmpty hempty] at h
  simp [relevant, hsome, h]

theorem relevant_of_none (h : (a.node id).literals.get? c.wordAhead = none) :
    a.relevant id c = (a.node id).arguments := by
  simp only [relevant, h, ite_self]

theorem mem_usable :
    child ∈ a.usable source id c ↔
      child ∈ a.relevant id c ∧ (a.node child).allows source = true := by
  rw [usable, List.mem_filter]

end Arena

namespace Tree

/-- Where the line goes on after a child that matches: one space further on, in the target of the
child's redirect, or else, when more than the space is left, below the child. -/
def goesOn? (t : Tree Source Command Modifier) (child : NodeId) (after : Cursor) :
    Option (NodeId × Cursor) :=
  match (t.node child).redirect? with
  | some redirect => if after.has 1 then some (redirect.target, after.skip) else none
  | none => if after.has 2 then some (child, after.skip) else none

variable {t : Tree Source Command Modifier} {source : Source} {id child : NodeId} {c after : Cursor}

theorem mem_children_of_relevant (h : child ∈ t.relevant id c) : child ∈ (t.node id).children := by
  cases hword : (t.node id).literals.get? c.wordAhead with
  | some literal =>
    rw [Arena.relevant_of_some hword] at h
    obtain rfl := List.mem_singleton.1 h
    exact ((t.built.sound.literals id _ _).1 hword).1
  | none =>
    rw [Arena.relevant_of_none hword, t.built.sound.arguments] at h
    exact (List.mem_filter.1 h).1

/-- The root matches nothing and is never tried. -/
theorem label_of_relevant (h : child ∈ t.relevant id c) : (t.node child).label?.isSome = true :=
  (t.built.sound.child id child (mem_children_of_relevant h)).2.2.2

/-- No child is tried twice. -/
theorem nodup_relevant (t : Tree Source Command Modifier) (id : NodeId) (c : Cursor) :
    (t.relevant id c).Nodup := by
  cases hword : (t.node id).literals.get? c.wordAhead with
  | some literal =>
    rw [Arena.relevant_of_some hword]
    exact List.nodup_singleton literal
  | none =>
    rw [Arena.relevant_of_none hword, t.built.sound.arguments]
    exact (t.built.sound.nodup_children id).filter _

/-- Something follows a child after which the line goes on. -/
theorem goesOn?_open {place : NodeId × Cursor} (h : t.goesOn? child after = some place) :
    after.atEnd = false := by
  unfold goesOn? at h
  split at h <;>
  · split at h
    · next hlen => exact Cursor.atEnd_of_has hlen
    · simp at h

end Tree

end CommandLines
