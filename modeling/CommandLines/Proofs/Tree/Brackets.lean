/-
How the condensed usage is bracketed.

A line of the condensed usage is a row of parts, and brackets are put around a part in three places:
around a node that may be left off, around a choice, and around the one text that is left of a
choice between children that are told alike.  The third puts brackets around a text that has been
through the first.  `Doubles` says when this happens, and everywhere else a part has one pair at
most.

The parts are found by going along `stretch`, the nodes that a line goes through: from a node to the
lone child after it, as long as the line cannot end there.  Each node adds one part at most, so that
the only induction on the tree is the one that takes a line apart (`usageFrom_eq`), and what holds
of the parts carries over to the line by what is known of brackets in a text.
-/
import CommandLines.Proofs.Text.Brackets
import CommandLines.Proofs.Tree.Discretion
import CommandLines.Proofs.Tree.Lineage

namespace CommandLines

variable {Source Command Modifier : Type}

/-! ### Texts that are alike -/

/-- Whether there is a text, and no other. -/
def alike : List String → Bool
  | [] => false
  | text :: texts => texts.all (· == text)

theorem alike_iff {texts : List String} : alike texts = true ↔
    texts ≠ [] ∧ ∀ a ∈ texts, ∀ b ∈ texts, a = b := by
  cases texts with
  | nil => simp [alike]
  | cons text texts =>
    rw [alike, List.all_eq_true]
    constructor
    · intro h
      have hfirst : ∀ a ∈ text :: texts, a = text := by simpa using h
      refine ⟨List.cons_ne_nil _ _, ?_⟩
      intro a ha b hb
      rw [hfirst a ha, hfirst b hb]
    · intro h a ha
      exact beq_iff_eq.2 (h.2 a (List.mem_cons_of_mem _ ha) text List.mem_cons_self)

theorem eraseDups_map_of_alike {text : String} {texts : List String}
    (h : alike (text :: texts) = true) (f : String → String) :
    ((text :: texts).map f).eraseDups = [f text] := by
  have hnone : (texts.map f).filter (fun other => !other == f text) = [] := by
    rw [alike, List.all_eq_true] at h
    simp only [List.filter_eq_nil_iff, List.forall_mem_map]
    intro other hother
    simp [beq_iff_eq.1 (h other hother)]
  rw [List.map_cons, List.eraseDups_cons, hnone, List.eraseDups_nil]

theorem eraseDups_map_of_not_alike {text : String} {texts : List String}
    (h : alike (text :: texts) = false) {f : String → String} (hf : f.Injective) :
    ∃ first second others, ((text :: texts).map f).eraseDups = first :: second :: others := by
  rw [List.map_cons, List.eraseDups_cons]
  cases hothers : ((texts.map f).filter fun other => !other == f text).eraseDups with
  | cons second others => exact ⟨_, _, _, rfl⟩
  | nil =>
    -- a text that differs from the first is left
    obtain ⟨other, hother, hne⟩ : ∃ other ∈ texts, other ≠ text := by simpa [alike] using h
    have hleft : f other ∈ ((texts.map f).filter fun other => !other == f text).eraseDups := by
      rw [List.mem_eraseDups, List.mem_filter]
      exact ⟨List.mem_map_of_mem hother, by simpa using hf.ne hne⟩
    rw [hothers] at hleft
    cases hleft

/-! ### Keys that are told alike -/

/-- The text of a node that has the key. -/
def Key.usage : Key → String
  | .literal word => word
  | .argument name => "<" ++ name ++ ">"

theorem Node.usage_eq (n : Node Source Command Modifier) :
    n.usage = (n.key?.map Key.usage).getD "" := by
  rw [usage, key?, Option.map_map]
  cases n.label? with
  | none => rfl
  | some label => cases label <;> rfl

theorem Key.usage_eq_iff {key : Key} {name : String} : key.usage = "<" ++ name ++ ">" ↔
    key = .literal ("<" ++ name ++ ">") ∨ key = .argument name := by
  cases key with
  | literal word => simp [usage]
  | argument other =>
    rw [usage, ← String.toList_inj]
    simp [String.toList_inj]

/-- Of two keys that are told alike, one is of an argument, and the other of the literal that is the
text of the argument. -/
theorem Key.exists_argument {k l : Key} (hne : k ≠ l) (h : k.usage = l.usage) :
    ∃ name, .literal ("<" ++ name ++ ">") ∈ [k, l] ∧ .argument name ∈ [k, l] := by
  cases k with
  | argument name =>
    refine ⟨name, ?_, List.mem_cons_self⟩
    cases Key.usage_eq_iff.1 h.symm with
    | inl hliteral => simp [hliteral]
    | inr hargument => exact absurd hargument.symm hne
  | literal word =>
    cases l with
    | literal other => exact absurd (congrArg Key.literal h) hne
    | argument name =>
      obtain rfl : word = "<" ++ name ++ ">" := h
      exact ⟨name, by simp, by simp⟩

/-- Several different keys are told alike just if they are those two. -/
theorem alike_keys_iff {keys : List Key} (hnodup : keys.Nodup) :
    2 ≤ keys.length ∧ alike (keys.map Key.usage) = true ↔
      ∃ name, keys.Perm [.literal ("<" ++ name ++ ">"), .argument name] := by
  constructor
  · intro h
    obtain ⟨hlen, halike⟩ := h
    have hsame : ∀ k ∈ keys, ∀ l ∈ keys, k.usage = l.usage := by
      intro k hk l hl
      exact (alike_iff.1 halike).2 _ (List.mem_map_of_mem hk) _ (List.mem_map_of_mem hl)
    obtain ⟨k, l, hne, hmem⟩ : ∃ k l, k ≠ l ∧ [k, l] ⊆ keys := by
      match keys with
      | k :: l :: others =>
        refine ⟨k, l, ?_, by simp⟩
        intro heq
        simp [heq] at hnodup
    obtain ⟨name, hliteral, hargument⟩ :=
      Key.exists_argument hne (hsame k (hmem (by simp)) l (hmem (by simp)))
    refine ⟨name, (List.perm_ext_iff_of_nodup hnodup (by simp)).2 ?_⟩
    intro key
    rw [List.mem_pair, ← Key.usage_eq_iff]
    constructor
    · intro hkey
      exact hsame key hkey _ (hmem hargument)
    · intro husage
      cases Key.usage_eq_iff.1 husage with
      | inl hkey => exact hkey ▸ hmem hliteral
      | inr hkey => exact hkey ▸ hmem hargument
  · intro h
    obtain ⟨name, hperm⟩ := h
    have husage : ∀ usage ∈ keys.map Key.usage, usage = "<" ++ name ++ ">" := by
      rw [List.forall_mem_map]
      intro key hkey
      rw [hperm.mem_iff, List.mem_pair] at hkey
      exact Key.usage_eq_iff.2 hkey
    refine ⟨hperm.length_eq.ge, alike_iff.2 ⟨?_, ?_⟩⟩
    · have hlen := hperm.length_eq
      intro hnil
      rw [List.map_eq_nil_iff.1 hnil] at hlen
      cases hlen
    · intro a ha b hb
      rw [husage a ha, husage b hb]

/-! ### Parts of a line -/

/-- A part of a line of usage. -/
structure UsagePart where
  /-- The texts that there is a choice between. -/
  choice : List String
  /-- Whether the part may be left off. -/
  optional : Bool

/-- The part in a line: in square brackets if it may be left off, and in round ones if there is a
choice that must be made. -/
def UsagePart.text (p : UsagePart) : String :=
  let choice := "|".intercalate p.choice
  if p.optional then "[" ++ choice ++ "]"
  else if p.choice.length = 1 then choice
  else "(" ++ choice ++ ")"

/-- A part of which no text has brackets has one pair at most. -/
theorem UsagePart.closed_text {p : UsagePart} (h : ∀ text ∈ p.choice, Text.Closed 0 text.toList) :
    Text.Closed 1 p.text.toList := by
  have hbar : Text.Closed 0 "|".toList := Text.Closed.of_bracketless (by simp)
  have hchoice := Text.closed_joined hbar h
  rw [text]
  split
  · rw [String.toList_append, String.toList_append]
    exact hchoice.wrap rfl ⟨rfl, rfl⟩
  · split
    · exact hchoice.mono (Nat.zero_le 1)
    · rw [String.toList_append, String.toList_append]
      exact hchoice.wrap rfl ⟨rfl, rfl⟩

namespace Tree

theorem bracketed_injective (optional : Bool) : (bracketed optional).Injective := by
  intro a b h
  cases optional with
  | false => exact h
  | true =>
    have hchars := congrArg String.toList h
    simpa [bracketed, String.toList_inj] using hchars

theorem closed_bracketed {depth : Nat} {s : String} (h : Text.Closed depth s.toList)
    (optional : Bool) : Text.Closed (depth + 1) (bracketed optional s).toList := by
  cases optional with
  | false => exact h.mono (Nat.le_succ depth)
  | true =>
    rw [bracketed, if_pos rfl, String.toList_append, String.toList_append]
    exact h.wrap rfl ⟨rfl, rfl⟩

variable {t : Tree Source Command Modifier} {source : Source} {id child : NodeId} {steps : Nat}

/-- What is told after a node: where it redirects, or the choice between the children that the
source may use, which is none if they are told alike. -/
def partAfter? (t : Tree Source Command Modifier) (source : Source) (id : NodeId) :
    Option UsagePart :=
  match (t.node id).redirect? with
  | some r => some ⟨[t.redirectUsage r.target], false⟩
  | none =>
    let texts := (t.usableBelow source id).map fun c => (t.node c).usage
    if texts.isEmpty then none
    else some ⟨if alike texts then texts.take 1 else texts, (t.node id).command?.isSome⟩

/-- Whether what is told after a node is put in brackets once more: the line can end at the node,
and the children that the source may use are several, all told alike. -/
def bracketsTwice (t : Tree Source Command Modifier) (source : Source) (id : NodeId) : Bool :=
  (t.node id).redirect?.isNone && (t.node id).command?.isSome &&
    decide (2 ≤ (t.usableBelow source id).length) &&
    alike ((t.usableBelow source id).map fun c => (t.node c).usage)

/-- What is told after a node, in the words of the line. -/
def textAfter? (t : Tree Source Command Modifier) (source : Source) (id : NodeId) :
    Option String :=
  (t.partAfter? source id).map fun p => bracketed (t.bracketsTwice source id) p.text

/-- The line can end at the node, and the children that the source may use are an argument and the
literal that is the text of the argument. -/
def Doubles (t : Tree Source Command Modifier) (source : Source) (id : NodeId) : Prop :=
  (t.node id).redirect? = none ∧ (t.node id).command?.isSome = true ∧
    ∃ name, ((t.usableBelow source id).filterMap fun c => (t.node c).key?).Perm
      [.literal ("<" ++ name ++ ">"), .argument name]

/-- The children that the source may use have different keys, by which they are told. -/
theorem keys_usableBelow (t : Tree Source Command Modifier) (source : Source) (id : NodeId) :
    let keys := (t.usableBelow source id).filterMap fun c => (t.node c).key?
    keys.Nodup ∧ keys.length = (t.usableBelow source id).length ∧
      keys.map Key.usage = (t.usableBelow source id).map fun c => (t.node c).usage := by
  intro keys
  have hkeys : keys.map some = (t.usableBelow source id).map fun c => (t.node c).key? := by
    rw [List.map_filterMap_some_eq_filter_map_isSome, List.filter_eq_self, List.forall_mem_map]
    intro c hc
    obtain ⟨key, hkey⟩ := t.built.sound.exists_key (Arena.mem_usableBelow.1 hc).1
    rw [hkey]
    rfl
  refine ⟨?_, ?_, ?_⟩
  · refine List.Nodup.of_map some ?_
    rw [hkeys]
    exact (t.built.sound.keys id).sublist (List.filter_sublist.map _)
  · simpa using congrArg List.length hkeys
  · have husage := congrArg (List.map fun key? => (key?.map Key.usage).getD "") hkeys
    rw [List.map_map, List.map_map] at husage
    refine husage.trans (List.map_congr_left ?_)
    intro c _
    exact ((t.node c).usage_eq).symm

theorem bracketsTwice_iff : t.bracketsTwice source id = true ↔ t.Doubles source id := by
  obtain ⟨hnodup, hlength, husage⟩ := t.keys_usableBelow source id
  rw [Doubles, ← alike_keys_iff hnodup, bracketsTwice, ← husage, ← hlength]
  simp only [Bool.and_eq_true, decide_eq_true_eq, Option.isNone_iff_eq_none, and_assoc]

/-! ### The nodes that a line goes through -/

/-- The lone child that a line goes on with after a node, if it cannot end there. -/
def lone? (t : Tree Source Command Modifier) (source : Source) (id : NodeId) : Option NodeId :=
  if (t.node id).redirect?.isSome || (t.node id).command?.isSome then none
  else
    match t.usableBelow source id with
    | [child] => some child
    | _ => none

theorem lone?_eq_some_iff : t.lone? source id = some child ↔
    (t.node id).redirect? = none ∧ (t.node id).command? = none ∧
      t.usableBelow source id = [child] := by
  rw [lone?]
  cases (t.node id).redirect? with
  | some r => simp
  | none =>
    cases (t.node id).command? with
    | some command => simp
    | none =>
      match t.usableBelow source id with
      | [] => simp
      | [only] => simp
      | first :: second :: others => simp

theorem mem_usableBelow_of_lone? (h : t.lone? source id = some child) :
    child ∈ t.usableBelow source id := by
  rw [(lone?_eq_some_iff.1 h).2.2]
  exact List.mem_singleton_self child

/-- A child that the source may use is in the tree, and comes after its parent. -/
theorem lt_of_mem_usableBelow (h : child ∈ t.usableBelow source id) :
    t.contains child = true ∧ id.index < child.index := by
  obtain ⟨hin, hlt, -⟩ := t.built.sound.child id child (Arena.mem_usableBelow.1 h).1
  exact ⟨hin, hlt⟩

/-- The nodes that a line goes through from a node on. -/
def stretch (t : Tree Source Command Modifier) (source : Source) (id : NodeId) : List NodeId :=
  match _h : t.lone? source id with
  | some child => id :: stretch t source child
  | none => [id]
termination_by t.size - id.index
decreasing_by
  obtain ⟨hin, hlt⟩ := lt_of_mem_usableBelow (mem_usableBelow_of_lone? _h)
  rw [Arena.contains_iff] at hin
  omega

theorem stretch_of_lone (h : t.lone? source id = some child) :
    t.stretch source id = id :: t.stretch source child := by
  rw [stretch]
  split
  · next c hc =>
    obtain rfl : c = child := by simpa [h] using hc.symm
    rfl
  · next hnone => simp [h] at hnone

theorem stretch_of_none (h : t.lone? source id = none) : t.stretch source id = [id] := by
  rw [stretch]
  split
  · next hsome => simp [h] at hsome
  · rfl

/-- What is told from a node on, part by part. -/
def texts (t : Tree Source Command Modifier) (source : Source) (optional : Bool) (id : NodeId) :
    List String :=
  bracketed optional (t.node id).usage :: (t.stretch source id).filterMap (t.textAfter? source)

/-! ### Taking a line apart -/

theorem usageFrom_of_usable (h : child ∈ t.usableBelow source id)
    (hsteps : t.size ≤ steps + 1 + id.index) (optional : Bool) :
    t.usageFrom source steps optional true child =
      some (bracketed optional (t.node child).usage) := by
  obtain ⟨hin, hlt⟩ := lt_of_mem_usableBelow h
  have hallows := (Arena.mem_usableBelow.1 h).2
  cases steps with
  | zero =>
    rw [Arena.contains_iff] at hin
    omega
  | succ steps => simp [Arena.usageFrom, hallows]

theorem filterMap_usageFrom (hsteps : t.size ≤ steps + 1 + id.index) (optional : Bool) :
    (t.usableBelow source id).filterMap (t.usageFrom source steps optional true) =
      ((t.usableBelow source id).map fun c => (t.node c).usage).map (bracketed optional) := by
  rw [List.map_map, ← List.filterMap_eq_map]
  refine List.filterMap_congr ?_
  intro c hc
  exact usageFrom_of_usable hc hsteps optional

theorem textAfter?_of_lone (h : t.lone? source id = some child) :
    t.textAfter? source id = some (t.node child).usage := by
  obtain ⟨hredirect, hcommand, husable⟩ := lone?_eq_some_iff.1 h
  simp [textAfter?, partAfter?, bracketsTwice, hredirect, hcommand, husable, alike, UsagePart.text,
    bracketed]

/-- A line that does not go on with a lone child ends with what is told after the node. -/
theorem usageFrom_of_not_lone (hallows : (t.node id).allows source = true)
    (hlone : t.lone? source id = none) (hsteps : t.size ≤ steps + 1 + id.index)
    (optional : Bool) :
    t.usageFrom source (steps + 1) optional false id =
      some (" ".intercalate
        (bracketed optional (t.node id).usage :: (t.textAfter? source id).toList)) := by
  have hmany : (t.usableBelow source id).filterMap
      (t.usageFrom source steps (t.node id).command?.isSome true) = _ :=
    filterMap_usageFrom hsteps (t.node id).command?.isSome
  unfold Arena.usageFrom textAfter? partAfter? bracketsTwice
  simp only [hallows, Bool.not_true, Bool.false_eq_true, if_false]
  cases hredirect : (t.node id).redirect? with
  | some r => simp [UsagePart.text, bracketed]
  | none =>
    cases hchildren : t.usableBelow source id with
    | nil => simp
    | cons first others =>
      cases others with
      | nil =>
        -- otherwise the line would go on with it
        have hends : (t.node id).command?.isSome = true := by
          by_contra hcommand
          have hnone := Option.not_isSome_iff_eq_none.1 hcommand
          simp [lone?_eq_some_iff.2 ⟨hredirect, hnone, hchildren⟩] at hlone
        have honly : first ∈ t.usableBelow source id := by simp [hchildren]
        simp [hends, usageFrom_of_usable honly hsteps, alike, UsagePart.text, bracketed]
      | cons second others =>
        -- what has been bracketed is alike just if it was before
        rw [hchildren] at hmany
        simp only [hmany]
        rw [List.map_cons]
        cases halike : alike ((t.node first).usage ::
            (second :: others).map fun c => (t.node c).usage) with
        | true =>
          rw [eraseDups_map_of_alike halike]
          cases (t.node id).command? <;> simp [UsagePart.text, bracketed]
        | false =>
          obtain ⟨_, _, _, hdistinct⟩ := eraseDups_map_of_not_alike halike
            (bracketed_injective (t.node id).command?.isSome)
          rw [hdistinct]
          cases (t.node id).command? <;> simp [UsagePart.text, bracketed]

/-- A line is told of the nodes that it goes through, each with what is told after it. -/
theorem usageFrom_eq (hsteps : t.size ≤ steps + id.index)
    (hid : t.contains id = true) (hallows : (t.node id).allows source = true) (optional : Bool) :
    t.usageFrom source steps optional false id =
      some (" ".intercalate (t.texts source optional id)) := by
  induction steps generalizing id optional with
  | zero =>
    rw [Arena.contains_iff] at hid
    omega
  | succ steps ih =>
    cases hlone : t.lone? source id with
    | none =>
      rw [usageFrom_of_not_lone hallows hlone hsteps, texts, stretch_of_none hlone]
      cases htext : t.textAfter? source id <;> simp [htext]
    | some child =>
      obtain ⟨hredirect, hcommand, husable⟩ := lone?_eq_some_iff.1 hlone
      have hchild := mem_usableBelow_of_lone? hlone
      obtain ⟨hin, hlt⟩ := lt_of_mem_usableBelow hchild
      have hbelow := ih (by omega) hin (Arena.mem_usableBelow.1 hchild).2 false
      -- the line cannot end before the child, so the child is told without brackets
      rw [texts, bracketed, if_neg Bool.false_ne_true] at hbelow
      have hstep : t.usageFrom source (steps + 1) optional false id =
          (t.usageFrom source steps false false child).map
            (bracketed optional (t.node id).usage ++ " " ++ ·) := by
        simp [Arena.usageFrom, hallows, hredirect, hcommand, husable, hbelow]
      rw [hstep, hbelow, texts, stretch_of_lone hlone, List.filterMap_cons,
        textAfter?_of_lone hlone]
      simp only [Option.map_some]
      rw [String.intercalate_cons_cons]

/-- The condensed usage has a line for each child that the source may use. -/
theorem usage_eq (t : Tree Source Command Modifier) (id : NodeId) (source : Source) :
    t.usage id source = (t.usableBelow source id).map fun child =>
      (child, " ".intercalate (t.texts source (t.node id).command?.isSome child)) := by
  rw [Arena.usage_eq_usableBelow, ← List.filterMap_eq_map]
  refine List.filterMap_congr ?_
  intro child hchild
  have hin := (lt_of_mem_usableBelow hchild).1
  have hallows := (Arena.mem_usableBelow.1 hchild).2
  rw [usageFrom_eq (Nat.le_add_right t.size child.index) hin hallows]
  rfl

/-! ### Brackets in the condensed usage -/

/-- No name has brackets in it. -/
def Bracketless (t : Tree Source Command Modifier) : Prop :=
  ∀ id, t.contains id = true → ∀ c ∈ (t.node id).name.toList, c ∉ ['[', ']', '(', ')']

theorem closed_usage (ht : t.Bracketless) (id : NodeId) :
    Text.Closed 0 (t.node id).usage.toList := by
  by_cases hid : t.contains id = true
  · have hname := ht id hid
    unfold Node.usage
    unfold Node.name at hname
    cases hlabel : (t.node id).label? with
    | none => exact Text.Closed.of_bracketless (List.forall_mem_nil _)
    | some label =>
      rw [hlabel] at hname
      refine Text.Closed.of_bracketless ?_
      cases label with
      | literal word => exact hname
      | argument name type provider? =>
        simpa [Label.usage, Label.name, or_imp, forall_and] using hname
  · rw [Arena.node_of_not_contains hid]
    exact Text.Closed.of_bracketless (List.forall_mem_nil _)

theorem closed_redirectUsage (ht : t.Bracketless) (target : NodeId) :
    Text.Closed 0 (t.redirectUsage target).toList := by
  unfold Arena.redirectUsage
  split
  · exact Text.Closed.of_bracketless (by simp)
  · rw [String.toList_append]
    exact (Text.Closed.of_bracketless (by simp)).append (closed_usage ht target)

theorem closed_partAfter (ht : t.Bracketless) {p : UsagePart}
    (h : t.partAfter? source id = some p) : Text.Closed 1 p.text.toList := by
  refine UsagePart.closed_text ?_
  unfold partAfter? at h
  cases hredirect : (t.node id).redirect? with
  | some r =>
    obtain rfl : ⟨[t.redirectUsage r.target], false⟩ = p := by simpa [hredirect] using h
    simpa using closed_redirectUsage ht r.target
  | none =>
    simp only [hredirect] at h
    split at h
    · cases h
    · obtain rfl := Option.some.inj h
      intro text htext
      have hmem : text ∈ (t.usableBelow source id).map fun c => (t.node c).usage := by
        dsimp only at htext
        split at htext
        · exact List.mem_of_mem_take htext
        · exact htext
      obtain ⟨c, -, rfl⟩ := List.mem_map.1 hmem
      exact closed_usage ht c

theorem closed_textAfter (ht : t.Bracketless) {text : String}
    (h : t.textAfter? source id = some text) : Text.Closed 2 text.toList := by
  rw [textAfter?, Option.map_eq_some_iff] at h
  obtain ⟨p, hp, rfl⟩ := h
  exact closed_bracketed (closed_partAfter ht hp) _

/-- Where a node does not double brackets, its part is told as it is. -/
theorem textAfter?_of_not_doubles (h : ¬t.Doubles source id) :
    t.textAfter? source id = (t.partAfter? source id).map UsagePart.text := by
  rw [← bracketsTwice_iff, Bool.not_eq_true] at h
  simp only [textAfter?, h]
  rfl

/-- Where a node doubles brackets, they are around an optional part. -/
theorem textAfter?_of_doubles (h : t.Doubles source id) :
    ∃ text, t.textAfter? source id = some text ∧ ['[', '['] <+: text.toList := by
  have htwice := bracketsTwice_iff.2 h
  obtain ⟨hredirect, hends, -⟩ := h
  obtain ⟨choice, hchoice⟩ : ∃ choice, t.partAfter? source id = some ⟨choice, true⟩ := by
    rw [bracketsTwice, Bool.and_eq_true, alike_iff, ← List.isEmpty_eq_false_iff] at htwice
    simp only [partAfter?, hredirect, htwice.2.1, hends]
    exact ⟨_, rfl⟩
  refine ⟨_, congrArg (Option.map _) hchoice, ?_⟩
  simp [htwice, bracketed, UsagePart.text]

/-! ### Brackets in a line -/

/-- The parts of the line of a child. -/
def outline (t : Tree Source Command Modifier) (source : Source) (ends : Bool) (child : NodeId) :
    List UsagePart :=
  ⟨[(t.node child).usage], ends⟩ :: (t.stretch source child).filterMap (t.partAfter? source)

/-- The brackets of a line match, with no more than two open at once. -/
theorem fits_texts (ht : t.Bracketless) (ends : Bool) :
    Text.fits 2 (" ".intercalate (t.texts source ends child)) = true := by
  have hfirst := closed_bracketed (closed_usage ht child) ends
  refine (Text.closed_joined (Text.closed_space.mono (Nat.zero_le 2)) ?_).fits (Nat.le_refl 2)
  rw [texts, List.forall_mem_cons]
  refine ⟨hfirst.mono (Nat.le_succ 1), ?_⟩
  intro text htext
  obtain ⟨n, -, hn⟩ := List.mem_filterMap.1 htext
  exact closed_textAfter ht hn

theorem fits_texts_iff (ht : t.Bracketless) (ends : Bool) :
    Text.fits 1 (" ".intercalate (t.texts source ends child)) = true ↔
      ∀ n ∈ t.stretch source child, ¬t.Doubles source n := by
  have hfirst := closed_bracketed (closed_usage ht child) ends
  have hclosed {n : NodeId} {text : String} (hn : ¬t.Doubles source n)
      (htext : t.textAfter? source n = some text) : Text.Closed 1 text.toList := by
    rw [textAfter?_of_not_doubles hn, Option.map_eq_some_iff] at htext
    obtain ⟨p, hp, rfl⟩ := htext
    exact closed_partAfter ht hp
  have htwice {n : NodeId} {text : String} (hn : t.Doubles source n)
      (htext : t.textAfter? source n = some text) : ['[', '['] <+: text.toList := by
    obtain ⟨twice, htold, hstart⟩ := textAfter?_of_doubles hn
    obtain rfl : twice = text := Option.some.inj (htold.symm.trans htext)
    exact hstart
  -- that each part is of one of the two kinds comes last
  rw [texts, Text.fits_joined_iff, List.forall_mem_cons]
  · constructor
    · intro h n hn hdoubles
      obtain ⟨text, htext, hstart⟩ := textAfter?_of_doubles hdoubles
      exact h.2 text (List.mem_filterMap.2 ⟨n, hn, htext⟩) hstart
    · intro h
      refine ⟨hfirst.not_twice, ?_⟩
      intro text htext
      obtain ⟨n, hn, htold⟩ := List.mem_filterMap.1 htext
      exact (hclosed (h n hn) htold).not_twice
  · refine List.forall_mem_cons.2 ⟨.inl hfirst, ?_⟩
    intro text htext
    obtain ⟨n, -, htold⟩ := List.mem_filterMap.1 htext
    by_cases hn : t.Doubles source n
    · exact .inr (htwice hn htold)
    · exact .inl (hclosed hn htold)

/-- Where no node of a line doubles brackets, the line is that of its parts. -/
theorem texts_eq_outline (h : ∀ n ∈ t.stretch source child, ¬t.Doubles source n) (ends : Bool) :
    t.texts source ends child = (t.outline source ends child).map UsagePart.text := by
  rw [texts, outline, List.map_cons, List.map_filterMap]
  refine congrArg₂ List.cons ?_ (List.filterMap_congr ?_)
  · simp [UsagePart.text, bracketed]
  · intro n hn
    exact textAfter?_of_not_doubles (h n hn)

theorem fits_outline (ht : t.Bracketless) (ends : Bool) :
    Text.fits 1 (" ".intercalate ((t.outline source ends child).map UsagePart.text)) = true := by
  refine (Text.closed_joined (Text.closed_space.mono (Nat.zero_le 1)) ?_).fits (Nat.le_refl 1)
  rw [List.forall_mem_map, outline, List.forall_mem_cons]
  refine ⟨UsagePart.closed_text (by simpa using closed_usage ht child), ?_⟩
  intro p hp
  obtain ⟨n, -, hn⟩ := List.mem_filterMap.1 hp
  exact closed_partAfter ht hn

/--
**When the condensed usage is well bracketed.**

Let no name have brackets in it.  Then below any node a source is told one line for each child
that it may use, in the order of the children, and in each line the brackets match.  They are
not put into each other just if no node that the line goes through can end it before an argument
and the literal that is the text of the argument, and nothing else.  And in just these lines each
part is as it should be: in one pair of square brackets if it may be left off, in one pair of round
ones if there is a choice, and in none otherwise.
-/
theorem usage_bracketed_iff (t : Tree Source Command Modifier) (ht : t.Bracketless)
    (source : Source) (id : NodeId) :
    (t.usage id source).map Prod.fst = t.usableBelow source id ∧
      ∀ child line, (child, line) ∈ t.usage id source →
        let ends := (t.node id).command?.isSome
        let parts := (t.outline source ends child).map UsagePart.text
        Text.fits 2 line = true ∧
          (Text.fits 1 line = true ↔ ∀ n ∈ t.stretch source child, ¬t.Doubles source n) ∧
          (line = " ".intercalate parts ↔ ∀ n ∈ t.stretch source child, ¬t.Doubles source n) := by
  rw [usage_eq]
  refine ⟨?_, ?_⟩
  · rw [List.map_map]
    exact List.map_id _
  · intro child line hline ends parts
    obtain ⟨c, -, hc⟩ := List.mem_map.1 hline
    obtain ⟨rfl, rfl⟩ := Prod.mk.inj hc
    have hfits : Text.fits 1 (" ".intercalate (t.texts source ends c)) = true ↔ _ :=
      fits_texts_iff ht ends
    refine ⟨fits_texts ht ends, hfits, ?_, ?_⟩
    · intro hparts
      rw [← hfits, hparts]
      exact fits_outline ht ends
    · intro h
      exact congrArg (" ".intercalate ·) (texts_eq_outline h ends)

end Tree

/-- The tree that comes of adding a literal `set` with a command and a literal `<x>` and a word `x`
below it, and a literal `get` with the literals `all` and `one` below it. -/
def doublingTree : Except Tree.MissingNode (Tree Unit Unit Unit) := do
  let word := (Draft.argument "x" (.text .word)).runs ()
  let (t, _) ← Tree.empty.register
    { (Draft.literal "set").runs () with children := [(Draft.literal "<x>").runs (), word] }
  let (t, _) ← t.register
    { Draft.literal "get" with children := [(Draft.literal "all").runs (),
      (Draft.literal "one").runs ()] }
  return t

/-- No name of the tree has brackets or bars in it, and yet `set` is told with two pairs of brackets
around one part. -/
theorem told_doublingTree : ∃ t, doublingTree = .ok t ∧
    (∀ id, t.contains id = true → ∀ c ∈ (t.node id).name.toList,
      c ∉ ['[', ']', '(', ')', '|']) ∧
    t.usage .root () = [(⟨1⟩, "set [[<x>]]"), (⟨4⟩, "get (all|one)")] := by
  obtain ⟨t, h⟩ : ∃ t, doublingTree = .ok t := ⟨_, rfl⟩
  have hnames : ∀ i < t.size,
      (t.node ⟨i⟩).name.toList.all (fun c => c ∉ ['[', ']', '(', ')', '|']) = true := by
    obtain rfl := Except.ok.inj h
    decide
  refine ⟨t, h, ?_, ?_⟩
  · intro id hid c hc
    have hname := hnames id.index (Arena.contains_iff.1 hid)
    exact of_decide_eq_true (List.all_eq_true.1 hname c hc)
  · obtain rfl := Except.ok.inj h
    rfl

/-- The line of `get` goes through no node that doubles brackets, and that of `set` does. -/
theorem usage_bracketed_iff_doubling : ∃ t, doublingTree = .ok t ∧ t.Bracketless ∧
    (t.usage .root ()).map Prod.fst = t.usableBelow () .root ∧
    (∀ n ∈ t.stretch () ⟨4⟩, ¬t.Doubles () n) ∧ ∃ n ∈ t.stretch () ⟨1⟩, t.Doubles () n := by
  obtain ⟨t, h, hnames, husage⟩ := told_doublingTree
  have hplain : t.Bracketless := by
    intro id hid c hc hbracket
    exact hnames id hid c hc (List.mem_append_left ['|'] hbracket)
  obtain ⟨hchildren, hlines⟩ := t.usage_bracketed_iff hplain () .root
  obtain ⟨-, hget, -⟩ := hlines ⟨4⟩ "get (all|one)" (by simp [husage])
  obtain ⟨-, hset, -⟩ := hlines ⟨1⟩ "set [[<x>]]" (by simp [husage])
  refine ⟨t, h, hplain, hchildren, hget.1 (by decide), ?_⟩
  by_contra hnone
  simp only [not_exists, not_and] at hnone
  cases hset.2 hnone

/-- Without a bracket in any name, a line may have brackets that stand inside of each other. -/
theorem usage_nested : ∃ t, doublingTree = .ok t ∧
    (∀ id, t.contains id = true → ∀ c ∈ (t.node id).name.toList,
      c ∉ ['[', ']', '(', ')', '|']) ∧
    ∃ line, (⟨1⟩, line) ∈ t.usage .root () ∧ Text.fits 1 line = false := by
  obtain ⟨t, h, hnames, husage⟩ := told_doublingTree
  exact ⟨t, h, hnames, "set [[<x>]]", by simp [husage], by decide⟩

end CommandLines
