/-
Readings that end at a space.

The types of arguments that come with the language look no further than the space that
follows what they read.  So what such a type reads stays the same when the line is changed
behind that space or is cut off there (`Delimited`), and so do the match of a node
(`takeWhole_again`) and which children are tried (`wordAhead_again`, `usable_congr`).

The exception is a text that takes the rest of the line.  It is never followed by a space,
and adding to the line adds to it.

A tree of such nodes is `Ordinary` if besides no node has two arguments below it.  Then at
most one child is tried at a place.
-/
import CommandLines.Proofs.Reading.Matching

namespace CommandLines

variable {Source Command Modifier : Type}

namespace Cursor

variable {α β : Type} {c after : Cursor} {rest : List Char}

/-- A reading is delimited when what it reads before a space or the end does not depend on which of
them it is, nor on what follows. -/
def Delimited (read : Cursor → Read α) : Prop :=
  ∀ (c after : Cursor) (x : α), read c = (.ok x, after) → after.atSeparator = true →
    ∃ w, c.ahead = w ++ after.ahead ∧ after.behind = w.reverse ++ c.behind ∧
      ∀ rest, (mk after.behind rest).atSeparator = true →
        read ⟨c.behind, w ++ rest⟩ = (.ok x, ⟨after.behind, rest⟩)

/-- A reading is delimited if it only looks at what a delimited one has read. -/
theorem Delimited.of_iff {read : Cursor → Read α} {other : Cursor → Read β} {p : α → β → Prop}
    (h : Delimited read) (hiff : ∀ (c after : Cursor) (y : β),
      other c = (.ok y, after) ↔ ∃ x, read c = (.ok x, after) ∧ p x y) : Delimited other := by
  intro c after y hread hsep
  obtain ⟨x, hx, hp⟩ := (hiff c after y).1 hread
  obtain ⟨w, hahead, hbehind, hagain⟩ := h c after x hx hsep
  exact ⟨w, hahead, hbehind, fun rest hrest => (hiff _ _ _).2 ⟨x, hagain rest hrest, hp⟩⟩

/-! ### Runs and words -/

theorem atSeparator_cons (behind rest : List Char) :
    (mk behind (separator :: rest)).atSeparator = true := rfl

theorem atSeparator_nil (behind : List Char) : (mk behind []).atSeparator = true := rfl

theorem atSeparator_iff {behind : List Char} :
    (mk behind rest).atSeparator = true ↔ rest = [] ∨ ∃ more, rest = separator :: more := by
  cases rest with
  | nil => simp [atSeparator, peek]
  | cons d more => simp [atSeparator, peek]

/-- A run of characters ends before the first character that is not one of them. -/
theorem takeRun_of_head? {p : Char → Bool} {run behind : List Char} (hrun : ∀ d ∈ run, p d = true)
    (hstop : ∀ d ∈ rest.head?, p d = false) :
    (mk behind (run ++ rest)).takeRun p = (run, ⟨run.reverse ++ behind, rest⟩) := by
  have hrest : rest.takeWhile p = [] ∧ rest.dropWhile p = rest := by
    cases rest with
    | nil => exact ⟨rfl, rfl⟩
    | cons d more => simp [hstop d rfl]
  rw [takeRun, List.takeWhile_append_of_pos hrun, List.dropWhile_append_of_pos hrun, hrest.1,
    hrest.2, List.append_nil, advance]

/-- A run of characters ends where a space or the end follows it, if a space is not one of them. -/
theorem takeRun_of_separator {p : Char → Bool} (hp : p separator = false) {run behind : List Char}
    (hrun : ∀ d ∈ run, p d = true)
    (hsep : (mk (run.reverse ++ behind) rest).atSeparator = true) :
    (mk behind (run ++ rest)).takeRun p = (run, ⟨run.reverse ++ behind, rest⟩) := by
  refine takeRun_of_head? hrun fun d hd => ?_
  rcases atSeparator_iff.1 hsep with rfl | ⟨more, rfl⟩
  · simp at hd
  · rwa [← Option.some.inj hd]

/-- The run of characters ahead, as a reading. -/
def readRun (p : Char → Bool) (c : Cursor) : Read (List Char) :=
  (.ok (c.takeRun p).1, (c.takeRun p).2)

theorem readRun_eq_ok_iff {p : Char → Bool} {run : List Char} :
    readRun p c = (.ok run, after) ↔ c.takeRun p = (run, after) := by
  simp [readRun, Prod.ext_iff]

theorem delimited_readRun {p : Char → Bool} (hp : p separator = false) :
    Delimited (readRun p) := by
  intro c after run hread _
  obtain ⟨rfl, rfl⟩ : c.ahead.takeWhile p = run ∧
      c.advance (c.ahead.takeWhile p) (c.ahead.dropWhile p) = after := by
    simpa [readRun_eq_ok_iff, takeRun] using hread
  refine ⟨c.ahead.takeWhile p, ?_, rfl, ?_⟩
  · exact (List.takeWhile_append_dropWhile).symm
  · intro rest hrest
    have hall : ∀ d ∈ c.ahead.takeWhile p, p d = true := List.all_eq_true.1 List.all_takeWhile
    exact readRun_eq_ok_iff.2 (takeRun_of_separator hp hall hrest)

theorem delimited_readWord : Delimited fun c => (.ok c.readWord.1, c.readWord.2) := by
  refine (delimited_readRun (p := isWordChar) (by decide)).of_iff
    (p := fun run word => word = String.ofList run) ?_
  intro c after word
  simp [readRun, readWord, eq_comm, and_comm]

theorem readNumber_eq_ok_iff {t : NumberType} {x : t.Carrier} :
    c.readNumber t = (.ok x, after) ↔
      ∃ run, readRun isNumberChar c = (.ok run, after) ∧ run ≠ [] ∧ t.read? run = some x := by
  simp only [readRun_eq_ok_iff]
  unfold readNumber
  obtain ⟨run, place⟩ := c.takeRun isNumberChar
  simp only
  constructor
  · intro h
    split at h
    · simp at h
    · next hne =>
      split at h
      · next found hfound =>
        obtain ⟨rfl, rfl⟩ : found = x ∧ place = after := by simpa using h
        exact ⟨run, rfl, by simpa using hne, hfound⟩
      · simp at h
  · intro h
    obtain ⟨_, heq, hne, hx⟩ := h
    obtain ⟨rfl, rfl⟩ := Prod.mk.inj heq
    simp [hne, hx]

theorem delimited_readNumber (t : NumberType) : Delimited (readNumber t) :=
  (delimited_readRun (p := isNumberChar) (by decide)).of_iff fun _ _ _ => readNumber_eq_ok_iff

/-! ### Quoted texts -/

/-- A quoted text ends with its closing mark, whatever follows. -/
theorem readClosing_again {closing : Char} {escaped : Bool} {text behind ahead : List Char}
    {found : String} (h : readClosing closing escaped text behind ahead = (.ok found, after)) :
    ∃ w, ahead = w ++ after.ahead ∧ after.behind = w.reverse ++ behind ∧
      ∀ rest, readClosing closing escaped text behind (w ++ rest) =
        (.ok found, ⟨after.behind, rest⟩) := by
  induction ahead generalizing escaped text behind with
  | nil => simp [readClosing] at h
  | cons d ds ih =>
    -- one more character in front of what the rest of the text takes
    have hcons : ∀ {escaped' : Bool} {text' : List Char},
        readClosing closing escaped' text' (d :: behind) ds = (.ok found, after) →
        (∀ rest, readClosing closing escaped text behind (d :: rest) =
          readClosing closing escaped' text' (d :: behind) rest) →
        ∃ w, d :: ds = w ++ after.ahead ∧ after.behind = w.reverse ++ behind ∧
          ∀ rest, readClosing closing escaped text behind (w ++ rest) =
            (.ok found, ⟨after.behind, rest⟩) := by
      intro escaped' text' hrest hstep
      obtain ⟨w, hahead, hbehind, hagain⟩ := ih hrest
      refine ⟨d :: w, by rw [hahead, List.cons_append], by simp [hbehind], ?_⟩
      intro rest
      rw [List.cons_append, hstep, hagain]
    cases escaped with
    | true =>
      by_cases hmark : d == closing || d == escapeMark
      · have hstep (rest : List Char) : readClosing closing true text behind (d :: rest) =
            readClosing closing false (d :: text) (d :: behind) rest := by
          rw [readClosing, if_pos hmark]
        exact hcons (hstep ds ▸ h) hstep
      · rw [readClosing, if_neg hmark] at h
        simp at h
    | false =>
      by_cases hescape : d == escapeMark
      · have hstep (rest : List Char) : readClosing closing false text behind (d :: rest) =
            readClosing closing true text (d :: behind) rest := by
          rw [readClosing, if_pos hescape]
        exact hcons (hstep ds ▸ h) hstep
      · by_cases hclosing : d == closing
        · have hstep (rest : List Char) : readClosing closing false text behind (d :: rest) =
              (.ok (String.ofList text.reverse), ⟨d :: behind, rest⟩) := by
            rw [readClosing, if_neg hescape, if_pos hclosing]
          rw [hstep] at h
          obtain ⟨rfl, rfl⟩ : String.ofList text.reverse = found ∧ ⟨d :: behind, ds⟩ = after := by
            simpa using h
          exact ⟨[d], rfl, rfl, hstep⟩
        · have hstep (rest : List Char) : readClosing closing false text behind (d :: rest) =
              readClosing closing false (d :: text) (d :: behind) rest := by
            rw [readClosing, if_neg hescape, if_neg hclosing]
          exact hcons (hstep ds ▸ h) hstep

theorem delimited_readString : Delimited readString := by
  intro c after found hread hsep
  by_cases hquote : c.peek = some quoteMark
  · obtain ⟨ds, hds⟩ : ∃ ds, c.ahead = quoteMark :: ds := List.head?_eq_some_iff.1 hquote
    have hquoted (rest : List Char) : readString ⟨c.behind, quoteMark :: rest⟩ =
        readClosing quoteMark false [] (quoteMark :: c.behind) rest := by
      simp [readString, peek, readUntil, skip]
    have hc : c = ⟨c.behind, quoteMark :: ds⟩ := by rw [← hds]
    rw [hc, hquoted] at hread
    obtain ⟨w, hahead, hbehind, hagain⟩ := readClosing_again hread
    refine ⟨quoteMark :: w, by rw [hds, hahead, List.cons_append], by simp [hbehind], ?_⟩
    intro rest _
    rw [List.cons_append, hquoted, hagain]
  · have hword : readString c = (.ok c.readWord.1, c.readWord.2) := by
      simp [readString, hquote]
    rw [hword] at hread
    obtain ⟨w, hahead, hbehind, hagain⟩ := delimited_readWord c after found hread hsep
    refine ⟨w, hahead, hbehind, ?_⟩
    intro rest hrest
    have hnot : (mk c.behind (w ++ rest)).peek ≠ some quoteMark := by
      cases w with
      | nil =>
        rcases atSeparator_iff.1 hrest with rfl | ⟨more, rfl⟩
        · simp [peek]
        · simp [peek, separator, quoteMark]
      | cons d w => simpa [peek, hahead] using hquote
    have hword' : readString ⟨c.behind, w ++ rest⟩ =
        (.ok (mk c.behind (w ++ rest)).readWord.1, (mk c.behind (w ++ rest)).readWord.2) := by
      simp [readString, hnot]
    exact hword'.trans (hagain rest hrest)

theorem readBool_eq_ok_iff {b : Bool} : c.readBool = (.ok b, after) ↔
    ∃ word, c.readString = (.ok word, after) ∧ word = if b then "true" else "false" := by
  unfold readBool
  obtain ⟨outcome, place⟩ := c.readString
  cases outcome with
  | error f => simp
  | ok word =>
    by_cases htrue : word = "true"
    · subst htrue
      cases b <;> simp
    · by_cases hfalse : word = "false"
      · subst hfalse
        cases b <;> simp
      · by_cases hempty : word = ""
        · subst hempty
          cases b <;> simp
        · cases b <;> simp [htrue, hfalse, hempty]

theorem delimited_readBool : Delimited readBool :=
  delimited_readString.of_iff fun _ _ _ => readBool_eq_ok_iff

end Cursor

/-! ### Arguments -/

namespace ArgumentType

variable {type : ArgumentType} {c after : Cursor}

/-- The types of arguments that come with the language. -/
inductive BuiltIn : ArgumentType → Prop where
  | number (t : NumberType) (minimum maximum : t.Carrier) : BuiltIn (number t minimum maximum)
  | bool : BuiltIn bool
  | text (kind : TextKind) : BuiltIn (text kind)

theorem readBounded_eq_ok_iff {t : NumberType} {minimum maximum x : t.Carrier} :
    readBounded t minimum maximum c = (.ok x, after) ↔
      ∃ found, c.readNumber t = (.ok found, after) ∧
        (t.less found minimum = false ∧ t.less maximum found = false ∧ x = found) := by
  unfold readBounded
  obtain ⟨outcome, place⟩ := c.readNumber t
  cases outcome with
  | error f => simp
  | ok found =>
    simp only
    constructor
    · intro h
      split at h
      · simp at h
      · next hlow =>
        split at h
        · simp at h
        · next hhigh =>
          obtain ⟨rfl, rfl⟩ : found = x ∧ place = after := by simpa using h
          exact ⟨found, rfl, by simpa using hlow, by simpa using hhigh, rfl⟩
    · intro h
      obtain ⟨_, heq, hlow, hhigh, rfl⟩ := h
      obtain ⟨hfound, rfl⟩ := Prod.mk.inj heq
      obtain rfl := Except.ok.inj hfound
      simp [hlow, hhigh]

theorem readValue_eq_ok_iff {value : Value} : type.readValue c = (.ok value, after) ↔
    ∃ x, type.read c = (.ok x, after) ∧ value = ⟨type.valueType, x⟩ := by
  unfold readValue
  obtain ⟨outcome, place⟩ := type.read c
  cases outcome with
  | error f => simp
  | ok x => simp [eq_comm, and_comm]

/-- Every type that comes with the language is delimited, save for the rest of the line. -/
theorem BuiltIn.delimited (h : BuiltIn type) (hrest : type ≠ .text .rest) :
    Cursor.Delimited type.readValue := by
  have hread : Cursor.Delimited type.read := by
    cases h with
    | number t minimum maximum =>
      exact (Cursor.delimited_readNumber t).of_iff fun _ _ _ => readBounded_eq_ok_iff
    | bool => exact Cursor.delimited_readBool
    | text kind =>
      cases kind with
      | word => exact Cursor.delimited_readWord
      | phrase => exact Cursor.delimited_readString
      | rest => exact absurd rfl hrest
  exact hread.of_iff fun _ _ _ => readValue_eq_ok_iff

/-- Nothing follows the rest of the line. -/
theorem atEnd_of_rest {value : Value} (h : (text .rest).readValue c = (.ok value, after)) :
    after.atEnd = true := by
  obtain ⟨x, hx, -⟩ := readValue_eq_ok_iff.1 h
  have hafter : c.finish = after := (Prod.mk.inj hx).2
  simp [← hafter, Cursor.finish, Cursor.atEnd]

end ArgumentType

/-! ### Nodes -/

namespace Node

variable {n : Node Source Command Modifier} {id : NodeId} {c after : Cursor}
  {hop grown : Hop Source Command Modifier}

/-- The node takes a word without a space, or an argument of a type that comes with the language. -/
inductive Ordinary (n : Node Source Command Modifier) : Prop where
  | literal (word : String) (hlabel : n.label? = some (.literal word))
      (hne : word ≠ "") (hspace : Cursor.separator ∉ word.toList)
  | argument (name : String) (type : ArgumentType)
      (provider? : Option (Provider Source Command Modifier))
      (hlabel : n.label? = some (.argument name type provider?)) (hbuilt : type.BuiltIn)

theorem Ordinary.of_literal {word : String} (hn : n.Ordinary)
    (hlabel : n.label? = some (.literal word)) :
    word ≠ "" ∧ Cursor.separator ∉ word.toList := by
  cases hn with
  | literal word' hlabel' hne hspace =>
    obtain rfl : word = word' := by simpa [hlabel] using hlabel'
    exact ⟨hne, hspace⟩
  | argument name type provider? hlabel' => simp [hlabel] at hlabel'

theorem Ordinary.of_argument {name : String} {type : ArgumentType}
    {provider? : Option (Provider Source Command Modifier)} (hn : n.Ordinary)
    (hlabel : n.label? = some (.argument name type provider?)) : type.BuiltIn := by
  cases hn with
  | literal word hlabel' => simp [hlabel] at hlabel'
  | argument name' type' provider?' hlabel' hbuilt =>
    obtain ⟨-, rfl, -⟩ : name = name' ∧ type = type' ∧ provider? = provider?' := by
      simpa [hlabel] using hlabel'
    exact hbuilt

/-- The node takes the rest of the line. -/
def TakesRest (n : Node Source Command Modifier) : Prop :=
  ∃ name provider?, n.label? = some (.argument name (.text .rest) provider?)

theorem takeWhole_of_word {word : String} (hlabel : n.label? = some (.literal word))
    (hword : c.afterWord? word = some after) : n.takeWhole id c hop =
      .ok (after, { hop.withNode id n ⟨c.offset, after.offset⟩ with command? := n.command? }) := by
  have hsep := (Cursor.afterWord?_eq_some_iff.1 hword).2.2
  simp [takeWhole, take, hlabel, hword, hsep]

theorem takeWhole_of_value {name : String} {type : ArgumentType} {value : Value}
    {provider? : Option (Provider Source Command Modifier)}
    (hlabel : n.label? = some (.argument name type provider?))
    (hread : type.readValue c = (.ok value, after)) (hsep : after.atSeparator = true) :
    n.takeWhole id c hop =
      .ok (after, { (hop.withArgument name ⟨⟨c.offset, after.offset⟩, value⟩).withNode id n
        ⟨c.offset, after.offset⟩ with command? := n.command? }) := by
  simp [takeWhole, take, hlabel, hread, hsep]

/-- What an ordinary node matches whole it matches again, and the hop grows in the same way, if
another text follows and a space is still what comes first. -/
theorem takeWhole_again (hn : n.Ordinary) (h : n.takeWhole id c hop = .ok (after, grown))
    (hrest : n.TakesRest → after.atEnd = false) :
    ∃ w, c.ahead = w ++ after.ahead ∧ after.behind = w.reverse ++ c.behind ∧
      ∀ rest, (Cursor.mk after.behind rest).atSeparator = true →
        n.takeWhole id ⟨c.behind, w ++ rest⟩ hop = .ok (⟨after.behind, rest⟩, grown) := by
  have hsep := (whole?_eq_some_iff.1 (whole?_of_takeWhole h)).2
  rcases takeWhole_cases h with ⟨hnone, -⟩ | ⟨word, hlabel, hword, rfl⟩ |
    ⟨name, type, provider?, value, hlabel, hread, rfl⟩
  · cases hn with
    | literal word hlabel => simp [hnone] at hlabel
    | argument name type provider? hlabel => simp [hnone] at hlabel
  · obtain ⟨hahead, hbehind, -⟩ := Cursor.afterWord?_eq_some_iff.1 hword
    refine ⟨word.toList, hahead, hbehind, ?_⟩
    intro rest hrest
    exact takeWhole_of_word hlabel (Cursor.afterWord?_eq_some_iff.2 ⟨rfl, hbehind, hrest⟩)
  · have hdelimited : Cursor.Delimited type.readValue := by
      refine (hn.of_argument hlabel).delimited ?_
      rintro rfl
      have hend := ArgumentType.atEnd_of_rest hread
      simp [hrest ⟨name, provider?, hlabel⟩] at hend
    obtain ⟨w, hahead, hbehind, hagain⟩ := hdelimited c after value hread hsep
    refine ⟨w, hahead, hbehind, ?_⟩
    intro rest hrest
    exact takeWhole_of_value hlabel (hagain rest hrest) hrest

end Node

/-! ### Children -/

theorem Cursor.wordAhead_again {behind w rest rest' : List Char}
    (h : (Cursor.mk behind rest).atSeparator = true)
    (h' : (Cursor.mk behind rest').atSeparator = true) (start : List Char) :
    (Cursor.mk start (w ++ rest)).wordAhead = (Cursor.mk start (w ++ rest')).wordAhead := by
  have hstop : ∀ rest, (Cursor.mk behind rest).atSeparator = true →
      (w ++ rest).takeWhile (· != separator) = w.takeWhile (· != separator) := by
    intro rest hrest
    induction w with
    | nil =>
      rcases atSeparator_iff.1 hrest with rfl | ⟨more, rfl⟩
      · rfl
      · simp
    | cons d w ih =>
      rw [List.cons_append, List.takeWhile_cons, List.takeWhile_cons, ih]
  rw [wordAhead, wordAhead, hstop rest h, hstop rest' h']

theorem Cursor.wordAhead_of_separator {w rest behind : List Char} (hspace : separator ∉ w)
    (h : (Cursor.mk behind rest).atSeparator = true) (start : List Char) :
    (Cursor.mk start (w ++ rest)).wordAhead = String.ofList w := by
  have hall : ∀ d ∈ w, (d != separator) = true := by
    intro d hd
    rw [bne_iff_ne]
    rintro rfl
    exact hspace hd
  have hsep : (mk (w.reverse ++ start) rest).atSeparator = true := h
  have hword := takeRun_of_separator (p := (· != separator)) (by simp) hall hsep
  exact congrArg (fun taken : List Char × Cursor => String.ofList taken.1) hword

namespace Tree

variable {t : Tree Source Command Modifier} {source : Source} {id child : NodeId} {c c' : Cursor}

/-- Which children are tried depends on the next word only. -/
theorem usable_congr (h : c.wordAhead = c'.wordAhead) :
    t.usable source id c = t.usable source id c' := by
  rw [Arena.usable, Arena.usable, Arena.relevant, Arena.relevant, h]

/-- Where the word of a literal is ahead, and a space or the end after it, the literal is the one
child that is tried, whatever else lies beside it, and it takes the word. -/
theorem takes_word {parent : NodeId} {word : String}
    (hchild : child ∈ (t.node parent).children) (hallows : (t.node child).allows source = true)
    (hlabel : (t.node child).label? = some (.literal word))
    (hspace : Cursor.separator ∉ word.toList) {behind rest : List Char}
    (hsep : (Cursor.mk (word.toList.reverse ++ behind) rest).atSeparator = true) :
    t.usable source parent ⟨behind, word.toList ++ rest⟩ = [child] ∧
      (Cursor.mk behind (word.toList ++ rest)).afterWord? word =
        some ⟨word.toList.reverse ++ behind, rest⟩ := by
  have hahead := Cursor.wordAhead_of_separator hspace hsep behind
  rw [String.ofList_toList] at hahead
  have hget : (t.node parent).literals.get? word = some child :=
    (t.built.sound.literals parent word child).2 ⟨hchild, hlabel⟩
  refine ⟨?_, Cursor.afterWord?_eq_some_iff.2 ⟨rfl, rfl, hsep⟩⟩
  rw [Arena.usable, Arena.relevant_of_some (by rw [hahead, hget])]
  simp [hallows]

/-- The literals are words without a space, the arguments are of types that come with the language,
and no node has more than one argument below it. -/
structure Ordinary (t : Tree Source Command Modifier) : Prop where
  nodes : ∀ id, (t.node id).label?.isSome = true → (t.node id).Ordinary
  arguments : ∀ id, (t.node id).arguments.length ≤ 1

/-- At most one child is tried at a place. -/
theorem Ordinary.usable_le_one (ht : t.Ordinary) (source : Source) (id : NodeId) (c : Cursor) :
    (t.usable source id c).length ≤ 1 := by
  refine Nat.le_trans (List.length_filter_le ..) ?_
  cases hword : (t.node id).literals.get? c.wordAhead with
  | some literal => exact Nat.le_of_eq (congrArg List.length (Arena.relevant_of_some hword))
  | none =>
    rw [Arena.relevant_of_none hword]
    exact ht.arguments id

theorem Ordinary.usable_eq (ht : t.Ordinary) (h : child ∈ t.usable source id c) :
    t.usable source id c = [child] := by
  obtain ⟨other, hother⟩ := List.length_eq_one_iff.1
    (Nat.le_antisymm (ht.usable_le_one source id c) (List.length_pos_of_mem h))
  rw [hother] at h ⊢
  rw [List.mem_singleton.1 h]

theorem Ordinary.of_usable (ht : t.Ordinary) (h : child ∈ t.usable source id c) :
    (t.node child).Ordinary :=
  ht.nodes child (label_of_relevant (Arena.mem_usable.1 h).1)

end Tree

end CommandLines
