/-
What stands before the start does not matter.

A line may be read from a place further in, as a host does that has dealt with what stands
before it.  Then the reading is the same as that of the rest of the line by itself, moved to
where the rest stands: `prepend` moves a place, and `shift` moves spans by a number of bytes.

Both are maps, and every function on the way from a line to its reading commutes with them,
so that nothing is said here of how readings come about or compare.  What has to be seen is
that no function reads an offset in another way than by adding to it or by comparing it with
another one: spans grow by `hull`, whether a hop covers anything is a question about its two
ends, and defaults stand at the end of the line, which moves with the rest.

Types of arguments are the host's, so it is asked of them that they look only ahead.  Those
that come with the language do (`BuiltIn.looksAhead`).
-/
import CommandLines.Proofs.Reading.Separators
import CommandLines.Proofs.Reading.Divergence

namespace CommandLines

variable {Source Command Modifier : Type}

/-! ### Moving what a reading says -/

namespace Cursor

/-- The same place in the line with more text in front. -/
def prepend (p : List Char) (c : Cursor) : Cursor := ⟨c.behind ++ p.reverse, c.ahead⟩

variable (p : List Char) (c : Cursor)

@[simp] theorem ahead_prepend : (c.prepend p).ahead = c.ahead := rfl

@[simp] theorem offset_prepend : (c.prepend p).offset = c.offset + Text.bytes p := by
  simp [prepend, offset]

@[simp] theorem length_prepend : (c.prepend p).length = c.length + Text.bytes p := by
  rw [length, length, offset_prepend, bytesAhead, ahead_prepend, ← bytesAhead, Nat.add_right_comm]

@[simp] theorem line_prepend : (c.prepend p).line = String.ofList p ++ c.line := by
  simp [prepend, line, chars]

@[simp] theorem skip_prepend : (c.prepend p).skip = c.skip.prepend p := by
  obtain ⟨behind, ahead⟩ := c
  cases ahead <;> rfl

@[simp] theorem advance_prepend (cs rest : List Char) :
    (c.prepend p).advance cs rest = (c.advance cs rest).prepend p := by
  simp [prepend, advance]

@[simp] theorem finish_prepend : (c.prepend p).finish = c.finish.prepend p := by
  simp [prepend, finish]

end Cursor

/-- The same bytes of a line that has `n` bytes more in front. -/
def Span.shift (n : Nat) (s : Span) : Span := ⟨s.start + n, s.stop + n⟩

namespace Span

variable (n : Nat) (s : Span)

theorem hull_shift (other : Span) : (s.shift n).hull (other.shift n) = (s.hull other).shift n := by
  simp only [hull, shift, Nat.add_min_add_right, Nat.add_max_add_right]

@[simp] theorem isEmpty_shift : (s.shift n).isEmpty = s.isEmpty := by
  simp [isEmpty, shift]

end Span

/-- The same place in the line with more text in front. -/
def Place.prepend (p : List Char) (place : Place) : Place :=
  ⟨String.ofList p ++ place.line, place.offset + Text.bytes p⟩

/-- The same fault in the line with more text in front. -/
def Fault.prepend (p : List Char) (f : Fault) : Fault :=
  { f with place? := f.place?.map (Place.prepend p) }

theorem Cursor.fault_prepend (p : List Char) (c : Cursor) (cause : Cause) :
    (c.prepend p).fault cause = (c.fault cause).prepend p := by
  simp [fault, place, Fault.prepend, Place.prepend]

/-- The same argument, `n` bytes further on. -/
def Argument.shift (n : Nat) (a : Argument) : Argument := { a with span := a.span.shift n }

/-- The same match, `n` bytes further on. -/
def Match.shift (n : Nat) (m : Match) : Match := { m with span := m.span.shift n }

namespace Hop

/-- The same hop, `n` bytes further on. -/
def shift (n : Nat) (h : Hop Source Command Modifier) : Hop Source Command Modifier :=
  { h with
    arguments := h.arguments.map fun entry => (entry.1, entry.2.shift n)
    nodes := h.nodes.map (Match.shift n)
    span := h.span.shift n }

variable (n : Nat) (h : Hop Source Command Modifier)

theorem start_shift (source : Source) (root : NodeId) (offset : Nat) :
    (start source root offset : Hop Source Command Modifier).shift n =
      start source root (offset + n) := rfl

theorem putArgument_shift (name : String) (a : Argument) (entries : List (String × Argument)) :
    putArgument name (a.shift n) (entries.map fun entry => (entry.1, entry.2.shift n)) =
      (putArgument name a entries).map fun entry => (entry.1, entry.2.shift n) := by
  induction entries with
  | nil => rfl
  | cons entry entries ih =>
    by_cases hname : entry.1 = name
    · simp only [List.map_cons, putArgument, if_pos hname]
    · simp only [List.map_cons, putArgument, if_neg hname, ih]

theorem withArgument_shift (name : String) (a : Argument) :
    (h.shift n).withArgument name (a.shift n) = (h.withArgument name a).shift n := by
  simp only [withArgument, shift, putArgument_shift]

theorem withNode_shift (id : NodeId) (node : Node Source Command Modifier) (s : Span) :
    (h.shift n).withNode id node (s.shift n) = (h.withNode id node s).shift n := by
  simp [withNode, shift, Span.hull_shift, Match.shift]

end Hop

namespace Route

/-- The same route, `n` bytes further on. -/
def shift (n : Nat) (r : Route Source Command Modifier) : Route Source Command Modifier :=
  ⟨r.first.shift n, r.later.map (Hop.shift n)⟩

theorem last_shift (n : Nat) (r : Route Source Command Modifier) :
    (r.shift n).last = r.last.shift n := by
  obtain ⟨first, later⟩ := r
  rcases List.eq_nil_or_concat later with rfl | ⟨init, last, rfl⟩
  · rfl
  · simp [Route.last, shift]

theorem mapLast_shift {n : Nat} {f g : Hop Source Command Modifier → Hop Source Command Modifier}
    (h : ∀ hop, g (hop.shift n) = (f hop).shift n) (r : Route Source Command Modifier) :
    (r.shift n).mapLast g = (r.mapLast f).shift n := by
  obtain ⟨first, later⟩ := r
  rcases List.eq_nil_or_concat later with rfl | ⟨init, last, rfl⟩
  · simp [mapLast, shift, h]
  · simp [mapLast, shift, h]

end Route

namespace Reading

/-- The same reading in the line with more text in front. -/
def prepend (p : List Char) (r : Reading Source Command Modifier) :
    Reading Source Command Modifier where
  route := r.route.shift (Text.bytes p)
  cursor := r.cursor.prepend p
  faults := r.faults.map fun entry => (entry.1, entry.2.prepend p)

variable (p : List Char) (r : Reading Source Command Modifier)

theorem badness_prepend : (r.prepend p).badness = r.badness := by
  simp [badness, prepend, Cursor.atEnd]

theorem best_prepend (others : List (Reading Source Command Modifier)) :
    best (r.prepend p) (others.map (prepend p)) = (best r others).prepend p := by
  unfold best
  induction others generalizing r with
  | nil => rfl
  | cons other others ih =>
    simp only [List.map_cons, List.foldl_cons, badness_prepend]
    split
    · exact ih other
    · exact ih r

theorem isComplete_prepend : (r.prepend p).isComplete = r.isComplete := by
  simp only [isComplete, prepend, Route.last_shift]
  rfl

theorem syntaxFault?_prepend :
    (r.prepend p).syntaxFault? = r.syntaxFault?.map (Fault.prepend p) := by
  have hend : (r.prepend p).cursor.atEnd = r.cursor.atEnd := rfl
  have hfirst : (r.prepend p).route.first.span.isEmpty = r.route.first.span.isEmpty :=
    Span.isEmpty_shift _ _
  unfold syntaxFault?
  rw [hend, hfirst]
  cases r.cursor.atEnd with
  | true => rfl
  | false =>
    obtain ⟨route, cursor, faults⟩ := r
    match faults with
    | [] => simp [prepend, Cursor.fault_prepend]
    | [(child, f)] => rfl
    | _ :: _ :: _ => simp [prepend, Cursor.fault_prepend]

end Reading

/-! ### Readings of single values -/

/-- What is read in the line with more text in front. -/
def Read.prepend {α : Type} (p : List Char) (r : Read α) : Read α :=
  (r.1.mapError (Fault.prepend p), r.2.prepend p)

@[simp] theorem Read.prepend_ok {α : Type} (p : List Char) (x : α) (after : Cursor) :
    Read.prepend p (.ok x, after) = (.ok x, after.prepend p) := rfl

@[simp] theorem Read.prepend_error {α : Type} (p : List Char) (f : Fault) (after : Cursor) :
    Read.prepend p ((.error f, after) : Read α) = (.error (f.prepend p), after.prepend p) := rfl

namespace Cursor

variable (p : List Char) (c : Cursor)

theorem takeRun_prepend (q : Char → Bool) :
    (c.prepend p).takeRun q = ((c.takeRun q).1, (c.takeRun q).2.prepend p) := by
  simp only [takeRun, ahead_prepend, advance_prepend]

theorem readNumber_prepend (t : NumberType) :
    (c.prepend p).readNumber t = .prepend p (c.readNumber t) := by
  unfold readNumber
  rw [takeRun_prepend]
  obtain ⟨run, after⟩ := c.takeRun isNumberChar
  by_cases hrun : run.isEmpty
  · simp only [if_pos hrun, Read.prepend_error, fault_prepend]
  · simp only [if_neg hrun]
    cases t.read? run with
    | none => simp only [Read.prepend_error, fault_prepend]
    | some x => rfl

theorem readWord_prepend :
    (c.prepend p).readWord = (c.readWord.1, c.readWord.2.prepend p) := by
  rw [readWord, takeRun_prepend]
  rfl

theorem readClosing_prepend (closing : Char) (escaped : Bool) (text behind ahead : List Char) :
    readClosing closing escaped text (behind ++ p.reverse) ahead =
      .prepend p (readClosing closing escaped text behind ahead) := by
  have hfault (behind ahead : List Char) (cause : Cause) :
      (Cursor.mk (behind ++ p.reverse) ahead).fault cause =
        ((Cursor.mk behind ahead).fault cause).prepend p := fault_prepend p ⟨behind, ahead⟩ cause
  induction ahead generalizing escaped text behind with
  | nil =>
    cases escaped <;> simp only [readClosing, hfault] <;> rfl
  | cons d ds ih =>
    have hnext (escaped : Bool) (text : List Char) :
        readClosing closing escaped text (d :: (behind ++ p.reverse)) ds =
          .prepend p (readClosing closing escaped text (d :: behind) ds) :=
      ih escaped text (d :: behind)
    cases escaped with
    | true =>
      rw [readClosing, readClosing]
      split
      · exact hnext _ _
      · simp only [hfault]
        rfl
    | false =>
      rw [readClosing, readClosing]
      split
      · exact hnext _ _
      · split
        · rfl
        · exact hnext _ _

theorem readString_prepend : (c.prepend p).readString = .prepend p c.readString := by
  have hpeek : (c.prepend p).peek = c.peek := rfl
  unfold readString
  rw [hpeek]
  split
  · rw [skip_prepend]
    exact readClosing_prepend p quoteMark false [] c.skip.behind c.skip.ahead
  · rw [readWord_prepend]
    rfl

theorem readBool_prepend : (c.prepend p).readBool = .prepend p c.readBool := by
  simp only [readBool, readString_prepend]
  obtain ⟨outcome, after⟩ := c.readString
  cases outcome with
  | error f => rfl
  | ok word =>
    simp only [Read.prepend_ok, fault_prepend]
    split
    · rfl
    · split
      · rfl
      · split <;> rfl

end Cursor

namespace ArgumentType

variable {type : ArgumentType}

/-- The type looks only at the text ahead: whatever stands before the start, it reads the same
values and finds the same faults. -/
structure LooksAhead (type : ArgumentType) : Prop where
  value : ∀ (p : List Char) (c after : Cursor) (v : Value), type.readValue c = (.ok v, after) →
    type.readValue (c.prepend p) = (.ok v, after.prepend p)
  /-- Where the cursor is left after a fault is of no account. -/
  fault : ∀ (p : List Char) (c after : Cursor) (f : Fault), type.readValue c = (.error f, after) →
    ∃ place, type.readValue (c.prepend p) = (.error (f.prepend p), place)

theorem looksAhead_of_read (h : ∀ p c, type.read (c.prepend p) = .prepend p (type.read c)) :
    type.LooksAhead := by
  have hvalue (p : List Char) (c : Cursor) :
      type.readValue (c.prepend p) = .prepend p (type.readValue c) := by
    simp only [readValue, h]
    obtain ⟨outcome, after⟩ := type.read c
    cases outcome <;> rfl
  constructor
  · intro p c after v hread
    rw [hvalue, hread]
    rfl
  · intro p c after f hread
    rw [hvalue, hread]
    exact ⟨_, rfl⟩

theorem readBounded_prepend (t : NumberType) (minimum maximum : t.Carrier) (p : List Char)
    (c : Cursor) :
    readBounded t minimum maximum (c.prepend p) = .prepend p (readBounded t minimum maximum c) := by
  simp only [readBounded, Cursor.readNumber_prepend]
  obtain ⟨outcome, after⟩ := c.readNumber t
  cases outcome with
  | error f => rfl
  | ok found =>
    simp only [Read.prepend_ok, Cursor.fault_prepend]
    split
    · rfl
    · split <;> rfl

theorem readText_prepend (kind : TextKind) (p : List Char) (c : Cursor) :
    readText kind (c.prepend p) = .prepend p (readText kind c) := by
  cases kind with
  | word =>
    simp only [readText, Cursor.readWord_prepend]
    rfl
  | phrase => exact c.readString_prepend p
  | rest =>
    simp only [readText, Cursor.finish_prepend]
    rfl

/-- The types that come with the language look only ahead. -/
theorem BuiltIn.looksAhead (h : BuiltIn type) : type.LooksAhead := by
  cases h with
  | number t minimum maximum => exact looksAhead_of_read (readBounded_prepend t minimum maximum)
  | bool => exact looksAhead_of_read Cursor.readBool_prepend
  | text kind => exact looksAhead_of_read (readText_prepend kind)

end ArgumentType

/-! ### Single nodes -/

theorem Cursor.afterWord?_prepend (p : List Char) (c : Cursor) (word : String) :
    (c.prepend p).afterWord? word = (c.afterWord? word).map (prepend p) := by
  unfold afterWord?
  rw [ahead_prepend, advance_prepend]
  split
  · simp only
    split
    · next hsep => exact (if_pos hsep).symm ▸ rfl
    · next hsep => exact (if_neg hsep).symm ▸ rfl
  · rfl

namespace Node

/-- The type of the node, if the node is an argument, looks only at the text ahead. -/
def LooksAhead (n : Node Source Command Modifier) : Prop :=
  ∀ name type provider?, n.label? = some (.argument name type provider?) → type.LooksAhead

variable {n : Node Source Command Modifier}

theorem take_prepend (hlook : n.LooksAhead) (p : List Char) (id : NodeId) (c : Cursor)
    (hop : Hop Source Command Modifier) :
    n.take id (c.prepend p) (hop.shift (Text.bytes p)) =
      match n.take id c hop with
      | .error f => .error (f.prepend p)
      | .ok (after, grown) => .ok (after.prepend p, grown.shift (Text.bytes p)) := by
  have hspan (after : Cursor) : (Span.mk (c.prepend p).offset (after.prepend p).offset) =
      (Span.mk c.offset after.offset).shift (Text.bytes p) := by
    simp [Span.shift]
  unfold take
  cases hlabel : n.label? with
  | none => rfl
  | some label =>
    cases label with
    | literal word =>
      simp only [Cursor.afterWord?_prepend]
      cases c.afterWord? word with
      | none => simp only [Option.map_none, Cursor.fault_prepend]
      | some after => simp only [Option.map_some, hspan, Hop.withNode_shift]
    | argument name type provider? =>
      have hahead := hlook name type provider? hlabel
      cases hread : type.readValue c with
      | mk outcome after =>
        cases outcome with
        | error f =>
          obtain ⟨place, hmoved⟩ := hahead.fault p c after f hread
          simp only [hmoved, hread]
        | ok value =>
          have hargument (s : Span) : Argument.mk (s.shift (Text.bytes p)) value =
              (Argument.mk s value).shift (Text.bytes p) := rfl
          simp only [hahead.value p c after value hread, hread, hspan, hargument,
            Hop.withArgument_shift, Hop.withNode_shift]

/-- A node matches in the same way wherever the text ahead stands. -/
theorem takeWhole_prepend (hlook : n.LooksAhead) (p : List Char) (id : NodeId) (c : Cursor)
    (hop : Hop Source Command Modifier) :
    n.takeWhole id (c.prepend p) (hop.shift (Text.bytes p)) =
      match n.takeWhole id c hop with
      | .error f => .error (f.prepend p)
      | .ok (after, grown) => .ok (after.prepend p, grown.shift (Text.bytes p)) := by
  unfold takeWhole
  rw [take_prepend hlook]
  cases n.take id c hop with
  | error f => rfl
  | ok result =>
    obtain ⟨after, grown⟩ := result
    have hsep : (after.prepend p).atSeparator = after.atSeparator := rfl
    simp only [hsep, Cursor.fault_prepend]
    split
    · rfl
    · rfl

end Node

/-! ### Levels of reading -/

/-- The same outcome in the line with more text in front. -/
def Trial.prepend (p : List Char) : Trial Source Command Modifier → Trial Source Command Modifier
  | .refused f => .refused (f.prepend p)
  | .fits r => .fits (r.prepend p)
  | .settles r => .settles (r.prepend p)

namespace Tree

variable {t : Tree Source Command Modifier} {p : List Char}

theorem tryChild_prepend {further other :
      NodeId → Cursor → Hop Source Command Modifier → Reading Source Command Modifier}
    (hlook : ∀ id, (t.node id).LooksAhead)
    (hfurther : ∀ id c hop,
      other id (c.prepend p) (hop.shift (Text.bytes p)) = (further id c hop).prepend p)
    (c : Cursor) (hop : Hop Source Command Modifier) (child : NodeId) :
    t.tryChild other (c.prepend p) (hop.shift (Text.bytes p)) child =
      (t.tryChild further c hop child).prepend p := by
  unfold Arena.tryChild
  simp only [Node.takeWhole_prepend (hlook child)]
  cases (t.node child).takeWhole child c hop with
  | error f => rfl
  | ok result =>
    obtain ⟨after, grown⟩ := result
    have hhas (n : Nat) : (after.prepend p).has n = after.has n := rfl
    simp only [hhas, Cursor.skip_prepend]
    cases (t.node child).redirect? with
    | none =>
      simp only [hfurther]
      split <;> rfl
    | some redirect =>
      have hstart := hfurther redirect.target after.skip
        (.start grown.source redirect.target after.skip.offset)
      rw [Hop.start_shift, ← Cursor.offset_prepend] at hstart
      have hsource : (grown.shift (Text.bytes p)).source = grown.source := rfl
      simp only [hsource, hstart]
      split <;> rfl

theorem tryEach_prepend {attempt other : NodeId → Trial Source Command Modifier}
    (h : ∀ id, other id = (attempt id).prepend p) (ids : List NodeId) :
    tryEach other ids =
      match tryEach attempt ids with
      | .error r => .error (r.prepend p)
      | .ok (rs, faults) =>
        .ok (rs.map (Reading.prepend p), faults.map fun entry => (entry.1, entry.2.prepend p)) := by
  induction ids with
  | nil => rfl
  | cons id ids ih =>
    rw [tryEach, tryEach, h id, ih]
    cases attempt id with
    | settles r => rfl
    | refused f => cases tryEach attempt ids <;> rfl
    | fits r => cases tryEach attempt ids <;> rfl

theorem level_prepend {further other :
      NodeId → Cursor → Hop Source Command Modifier → Reading Source Command Modifier}
    (hlook : ∀ id, (t.node id).LooksAhead)
    (hfurther : ∀ id c hop,
      other id (c.prepend p) (hop.shift (Text.bytes p)) = (further id c hop).prepend p)
    (id : NodeId) (c : Cursor) (hop : Hop Source Command Modifier) :
    t.level other id (c.prepend p) (hop.shift (Text.bytes p)) =
      (t.level further id c hop).prepend p := by
  have husable : t.usable (hop.shift (Text.bytes p)).source id (c.prepend p) =
      t.usable hop.source id c := rfl
  unfold Arena.level
  rw [husable, tryEach_prepend (tryChild_prepend hlook hfurther c hop)]
  cases tryEach (t.tryChild further c hop) (t.usable hop.source id c) with
  | error r => rfl
  | ok result =>
    obtain ⟨rs, faults⟩ := result
    cases rs with
    | nil => rfl
    | cons r rs => exact r.best_prepend p rs

theorem readFrom_prepend (hlook : ∀ id, (t.node id).LooksAhead)
    (steps : Nat) (id : NodeId) (c : Cursor) (hop : Hop Source Command Modifier) :
    t.readFrom steps id (c.prepend p) (hop.shift (Text.bytes p)) =
      (t.readFrom steps id c hop).prepend p := by
  induction steps generalizing id c hop with
  | zero => rfl
  | succ steps ih =>
    rw [Arena.readFrom, Arena.readFrom]
    exact level_prepend hlook ih id c hop

/-! ### Defaults -/

variable (t) (n : Nat)

theorem takeDefault_shift (id : NodeId) (stop : Nat) (hop : Hop Source Command Modifier) :
    t.takeDefault id (stop + n) (hop.shift n) = (t.takeDefault id stop hop).shift n := by
  have hpoint : Span.point (stop + n) = (Span.point stop).shift n := rfl
  have hcommand (hop : Hop Source Command Modifier) (command? : Option Command) :
      { hop.shift n with command? } = ({ hop with command? } : Hop _ _ _).shift n := rfl
  unfold Arena.takeDefault
  simp only [hpoint]
  split
  · next name type provider? value hlabel hdefault =>
    have hargument : Argument.mk ((Span.point stop).shift n) value =
        (Argument.mk (Span.point stop) value).shift n := rfl
    rw [hargument, Hop.withArgument_shift, Hop.withNode_shift, hcommand]
  · rw [Hop.withNode_shift, hcommand]

theorem takeDefaults_shift (stop steps : Nat) (id : NodeId) (hop : Hop Source Command Modifier) :
    t.takeDefaults (stop + n) steps id (hop.shift n) =
      (t.takeDefaults stop steps id hop).shift n := by
  induction steps generalizing id hop with
  | zero => rfl
  | succ steps ih =>
    have hsource : (hop.shift n).source = hop.source := rfl
    rw [Arena.takeDefaults, Arena.takeDefaults, hsource]
    cases t.defaultChild? id hop.source with
    | none => rfl
    | some child =>
      have hcommand : ((t.takeDefault child stop hop).shift n).command? =
        (t.takeDefault child stop hop).command? := rfl
      simp only [takeDefault_shift, hcommand]
      split
      · rfl
      · exact ih child _

/-- The end of the line moves with the rest, and so do the defaults that stand there. -/
theorem fillDefaults_shift (stop : Nat) (hop : Hop Source Command Modifier) :
    t.fillDefaults (stop + n) (hop.shift n) = (t.fillDefaults stop hop).shift n := by
  have hcommand : (hop.shift n).command? = hop.command? := rfl
  have hlast : (hop.shift n).nodes.getLast? = hop.nodes.getLast?.map (Match.shift n) :=
    List.getLast?_map
  unfold Arena.fillDefaults
  rw [hcommand, hlast]
  split
  · rfl
  · cases hop.nodes.getLast? with
    | none => rfl
    | some m => exact t.takeDefaults_shift n stop t.size m.node hop

/-! ### Whole lines -/

variable {t}

/-- Reading from a cursor comes to the same wherever the text ahead stands. -/
theorem readAt_prepend (hlook : ∀ id, (t.node id).LooksAhead)
    (p : List Char) (c : Cursor) (source : Source) :
    t.readAt (c.prepend p) source = (t.readAt c source).prepend p := by
  let typed := t.readFrom (c.ahead.length + 1) .root c (.start source .root c.offset)
  have htyped : t.readFrom ((c.prepend p).ahead.length + 1) .root (c.prepend p)
      (.start source .root (c.prepend p).offset) = typed.prepend p := by
    have hmoved := readFrom_prepend (p := p) hlook (c.ahead.length + 1) .root c
      (.start source .root c.offset)
    rwa [Hop.start_shift, ← Cursor.offset_prepend] at hmoved
  have hfilled : t.filled (typed.prepend p) = (t.filled typed).prepend p := by
    have hend : (typed.prepend p).cursor.atEnd = typed.cursor.atEnd := rfl
    have hlength : (typed.prepend p).cursor.length = typed.cursor.length + Text.bytes p :=
      typed.cursor.length_prepend p
    unfold filled
    rw [hend, hlength]
    split
    · exact congrArg (Reading.mk · _ _)
        (Route.mapLast_shift (t.fillDefaults_shift _ typed.cursor.length) typed.route)
    · rfl
  show t.filled _ = (t.filled typed).prepend p
  rw [htyped, hfilled]

/--
**What stands before the start of a line does not matter.**

If the types of arguments look only at the text ahead, reading from after a text `p` in the
line that is `p` with `r` after it comes to the reading of `r` by itself, moved by the bytes
of `p`: to the same hops with the same nodes, arguments, commands and redirects, to the same
cursor, and to the same faults of the same children, where all spans and offsets are greater
by the bytes of `p`, and nothing else differs but the line that faults and the cursor tell.

So the one is complete where the other is, and what is wrong with a line of which a part is
left has the same cause, at the place that is moved.
-/
theorem reading_translates (t : Tree Source Command Modifier)
    (hlook : ∀ id, (t.node id).LooksAhead)
    (p r : String) (source : Source) :
    let alone := t.read r source
    let within := t.readAt ((Cursor.ofLine (p ++ r)).seek (Text.bytes p.toList)) source
    within = alone.prepend p.toList ∧
      within.isComplete = alone.isComplete ∧
      within.syntaxFault? = alone.syntaxFault?.map (Fault.prepend p.toList) := by
  intro alone within
  have hseek : (Cursor.ofLine (p ++ r)).seek (Text.bytes p.toList) =
      (Cursor.ofLine r).prepend p.toList := by
    have hcut : Text.cut? (Cursor.ofLine (p ++ r)).chars (Text.bytes p.toList) =
        some (p.toList, r.toList) :=
      Text.cut?_eq_some_iff.2 ⟨by simp [Cursor.ofLine, Cursor.chars], rfl⟩
    rw [Cursor.seek, Text.cutAtMost_of_cut? hcut]
    simp [Cursor.prepend, Cursor.ofLine]
  have hwithin : within = alone.prepend p.toList := by
    show t.readAt _ source = _
    rw [hseek]
    exact readAt_prepend hlook p.toList (.ofLine r) source
  refine ⟨hwithin, ?_, ?_⟩
  · rw [hwithin]
    exact Reading.isComplete_prepend _ _
  · rw [hwithin]
    exact Reading.syntaxFault?_prepend _ _

end Tree

/-- After `é `, which are three bytes, what is wrong with `set x` is the same, three bytes further
on. -/
theorem reading_translates_doubtful : ∃ t, doubtfulTree = .ok t ∧
    (∀ id, (t.node id).LooksAhead) ∧
    (t.readAt ((Cursor.ofLine ("é " ++ "set x")).seek (Text.bytes "é ".toList)) ()).syntaxFault? =
      some ⟨.unknownArgument, some ⟨"é set x", 7⟩⟩ := by
  cases h : doubtfulTree with
  | error e => cases h
  | ok t =>
    have hlook (id : NodeId) : (t.node id).LooksAhead := fun name type provider? hlabel =>
      (builtIn_doubtfulTree h id name type provider? hlabel).looksAhead
    obtain ⟨-, -, hfault⟩ := t.reading_translates hlook "é " "set x" ()
    obtain rfl := Except.ok.inj h
    refine ⟨_, rfl, hlook, hfault.trans ?_⟩
    rfl

end CommandLines
