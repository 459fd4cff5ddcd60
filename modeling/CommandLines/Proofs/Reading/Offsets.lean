/-
Reading by byte offsets.

A cursor holds what it has passed and what is ahead, so it cannot stand inside a character, and
nothing can be cut out of a line that is not there.  Where the line stays as it is and only an
offset is kept, both can happen.  Then a character is passed by adding its width to the offset, a
reading that fails goes back by putting an earlier offset in its place, and what was read is cut
out between two offsets.  One offset that is off and the next cut fails.

The readers here are those readers.  Each one may slip (`none`) where it cuts the line elsewhere
than between two characters.  Set out from the place of a cursor, none of them does: it answers what
the reader of the cursor answers and leaves the place where that one leaves the cursor
(`Operation.run?_place`).  So one induction over the operations is enough, and that an offset never
goes back is what is known of cursors (`Cursor.Reaches`).
-/
import CommandLines.Cursor.Place
import CommandLines.Cursor.Reading
import CommandLines.Proofs.Span

namespace CommandLines

/-! ### Cutting a line -/

namespace Place

/-- The line before the place. -/
def before? (p : Place) : Option String :=
  (Text.cut? p.line.toList p.offset).map fun q => String.ofList q.1

/-- The line from the place on. -/
def after? (p : Place) : Option String :=
  (Text.cut? p.line.toList p.offset).map fun q => String.ofList q.2

/-- The line from an earlier offset up to the place. -/
def since? (p : Place) (start : Nat) : Option (List Char) :=
  Text.between? p.line.toList start p.offset

/-- The character at the place, if the line is not over. -/
def peek? (p : Place) : Option (Option Char) := p.after?.map fun rest => rest.toList.head?

/-- The place as far on as a character is wide. -/
def past (p : Place) (c : Char) : Place := { p with offset := p.offset + c.utf8Size }

/-- Where a character is found, less of the line is left past it. -/
theorem bytesAhead_past {p : Place} {c : Char} (h : p.peek? = some (some c)) :
    (p.past c).bytesAhead < p.bytesAhead := by
  simp only [peek?, after?, Option.map_map, Option.map_eq_some_iff, Function.comp_apply,
    String.toList_ofList, List.head?_eq_some_iff] at h
  obtain ⟨⟨a, b⟩, hcut, rest, hb⟩ := h
  obtain rfl : b = c :: rest := hb
  obtain ⟨hline, hbytes⟩ := Text.cut?_eq_some_iff.1 hcut
  have hlength : p.length = p.offset + (c.utf8Size + Text.bytes rest) := by
    rw [length, hline, Text.bytes_append, hbytes, Text.bytes_cons]
  have hwidth := c.utf8Size_pos
  show p.length - (p.offset + c.utf8Size) < p.length - p.offset
  omega

/-! ### Readers -/

/-- Read the character at the place. -/
def readChar? (p : Place) : Option (Option Char × Place) := do
  match ← p.peek? with
  | none => return (none, p)
  | some c => return (some c, p.past c)

/-- Step over a character. -/
def skip? (p : Place) : Option Place := p.readChar?.map Prod.snd

/-- Step over characters as long as they satisfy `q`. -/
def skipWhile? (q : Char → Bool) (p : Place) : Option Place :=
  match _ : p.peek? with
  | none => none
  | some none => some p
  | some (some c) => if q c then skipWhile? q (p.past c) else some p
termination_by p.bytesAhead
decreasing_by exact bytesAhead_past ‹_›

theorem skipWhile?_of_end {q : Char → Bool} {p : Place} (h : p.peek? = some none) :
    p.skipWhile? q = some p := by
  rw [skipWhile?]
  split <;> simp_all

theorem skipWhile?_of_char {q : Char → Bool} {p : Place} {c : Char}
    (h : p.peek? = some (some c)) :
    p.skipWhile? q = if q c then (p.past c).skipWhile? q else some p := by
  rw [skipWhile?]
  split <;> simp_all

/-- Read a number; if there is none, or the run is no number, the place is where it was. -/
def readNumber? (t : NumberType) (p : Place) : Option (Except Fault t.Carrier × Place) := do
  let stop ← p.skipWhile? Cursor.isNumberChar
  let run ← stop.since? p.offset
  if run.isEmpty then return (.error ⟨.expectedNumber t, some stop⟩, stop)
  else
    match t.read? run with
    | some x => return (.ok x, stop)
    | none =>
      let start : Place := { stop with offset := p.offset }
      return (.error ⟨.badNumber t (String.ofList run), some start⟩, start)

/-- Read a word. -/
def readWord? (p : Place) : Option (String × Place) := do
  let stop ← p.skipWhile? Cursor.isWordChar
  let run ← stop.since? p.offset
  return (String.ofList run, stop)

/-- Read on to the closing mark and past it; `text` is what has been read, in reverse, and `escaped`
says that the last character was a backslash that takes away the meaning of the next one. -/
def readClosing? (closing : Char) (escaped : Bool) (text : List Char) (p : Place) :
    Option (Except Fault String × Place) :=
  match _ : p.peek? with
  | none => none
  | some none => some (.error ⟨.unclosedQuote, some p⟩, p)
  | some (some c) =>
    if escaped then
      if c == closing || c == Cursor.escapeMark then
        readClosing? closing false (c :: text) (p.past c)
      else
        let back : Place := { p.past c with offset := p.offset }
        some (.error ⟨.badEscape c, some back⟩, back)
    else if c == Cursor.escapeMark then readClosing? closing true text (p.past c)
    else if c == closing then some (.ok (String.ofList text.reverse), p.past c)
    else readClosing? closing false (c :: text) (p.past c)
termination_by p.bytesAhead
decreasing_by all_goals exact bytesAhead_past ‹_›

theorem readClosing?_of_end {closing : Char} {escaped : Bool} {text : List Char} {p : Place}
    (h : p.peek? = some none) :
    p.readClosing? closing escaped text = some (.error ⟨.unclosedQuote, some p⟩, p) := by
  rw [readClosing?]
  split <;> simp_all

/-- After a backslash only a closing mark or a backslash is read on. -/
theorem readClosing?_of_escaped {closing c : Char} {text : List Char} {p : Place}
    (h : p.peek? = some (some c)) :
    p.readClosing? closing true text =
      if c == closing || c == Cursor.escapeMark then
        (p.past c).readClosing? closing false (c :: text)
      else some (.error ⟨.badEscape c, some p⟩, p) := by
  rw [readClosing?]
  split <;> simp_all [past]

theorem readClosing?_of_char {closing c : Char} {text : List Char} {p : Place}
    (h : p.peek? = some (some c)) :
    p.readClosing? closing false text =
      if c == Cursor.escapeMark then (p.past c).readClosing? closing true text
      else if c == closing then some (.ok (String.ofList text.reverse), p.past c)
      else (p.past c).readClosing? closing false (c :: text) := by
  rw [readClosing?]
  split <;> simp_all

/-- Read on to the closing mark and past it. -/
def readUntil? (closing : Char) (p : Place) : Option (Except Fault String × Place) :=
  p.readClosing? closing false []

/-- Read a quoted text. -/
def readQuoted? (p : Place) : Option (Except Fault String × Place) := do
  match ← p.peek? with
  | none => return (.ok "", p)
  | some c =>
    if c == Cursor.quoteMark then (← p.skip?).readUntil? c
    else return (.error ⟨.expectedQuote, some p⟩, p)

/-- Read a quoted text if a quote stands at the place, and a word otherwise. -/
def readString? (p : Place) : Option (Except Fault String × Place) := do
  match ← p.peek? with
  | none => return (.ok "", p)
  | some c =>
    if c == Cursor.quoteMark then (← p.skip?).readUntil? c
    else
      let (word, stop) ← p.readWord?
      return (.ok word, stop)

/-- Read `true` or `false`. -/
def readBool? (p : Place) : Option (Except Fault Bool × Place) := do
  match ← p.readString? with
  | (.error f, stop) => return (.error f, stop)
  | (.ok word, stop) =>
    if word == "" then return (.error ⟨.expectedBool, some stop⟩, stop)
    else if word == "true" then return (.ok true, stop)
    else if word == "false" then return (.ok false, stop)
    else
      let start : Place := { stop with offset := p.offset }
      return (.error ⟨.badBool word, some start⟩, start)

/-- Read one certain character. -/
def readSymbol? (symbol : Char) (p : Place) : Option (Except Fault Unit × Place) := do
  if (← p.peek?) != some symbol then return (.error ⟨.expectedSymbol symbol, some p⟩, p)
  else return (.ok (), ← p.skip?)

end Place

/-! ### At the place of a cursor -/

namespace Cursor

variable {c : Cursor} {d : Char} {ds : List Char}

theorem cut?_place (c : Cursor) :
    Text.cut? c.place.line.toList c.place.offset = some (c.behind.reverse, c.ahead) :=
  Text.cut?_eq_some_iff.2 ⟨by simp [place, line, chars], by simp [place, offset]⟩

@[simp] theorem before?_place (c : Cursor) : c.place.before? = some c.passed := by
  rw [Place.before?, cut?_place]
  rfl

@[simp] theorem after?_place (c : Cursor) : c.place.after? = some c.rest := by
  rw [Place.after?, cut?_place]
  rfl

@[simp] theorem peek?_place (c : Cursor) : c.place.peek? = some c.peek := by
  simp [Place.peek?, rest, peek]

theorem peek?_cons (behind ds : List Char) (d : Char) :
    (mk behind (d :: ds)).place.peek? = some (some d) := peek?_place _

theorem past_place (behind ds : List Char) (d : Char) :
    (mk behind (d :: ds)).place.past d = (mk (d :: behind) ds).place := by
  simp [Place.past, place, line, chars, offset, Nat.add_comm]

/-- What lies between the places of two cursors of one line is what the first has ahead and the
second has behind. -/
theorem since?_place {b : Cursor} {run : List Char} (hahead : c.ahead = run ++ b.ahead)
    (hbehind : b.behind = run.reverse ++ c.behind) :
    b.place.since? c.place.offset = some run := by
  have hcut : Text.cut? b.place.line.toList c.place.offset = some (c.behind.reverse, c.ahead) :=
    Text.cut?_eq_some_iff.2 ⟨by simp [place, line, chars, hahead, hbehind], by simp [place, offset]⟩
  have hlater : b.place.offset = c.place.offset + Text.bytes run := by
    simp [place, offset, hbehind, Nat.add_comm]
  have hrun : Text.cut? c.ahead (Text.bytes run) = some (run, b.ahead) :=
    Text.cut?_eq_some_iff.2 ⟨hahead, rfl⟩
  simp [Place.since?, Text.between?, hcut, hlater, hrun]

@[simp] theorem readChar?_place (c : Cursor) :
    c.place.readChar? = some (c.peek, c.skip.place) := by
  obtain ⟨behind, ahead⟩ := c
  cases ahead with
  | nil => simp [Place.readChar?, peek, skip]
  | cons d ds => simp [Place.readChar?, peek, skip, past_place]

@[simp] theorem skip?_place (c : Cursor) : c.place.skip? = some c.skip.place := by
  rw [Place.skip?, readChar?_place]
  rfl

@[simp] theorem skipWhile?_place (q : Char → Bool) (c : Cursor) :
    c.place.skipWhile? q = some (c.takeRun q).2.place := by
  obtain ⟨behind, ahead⟩ := c
  induction ahead generalizing behind with
  | nil =>
    rw [Place.skipWhile?_of_end (peek?_place _)]
    simp [takeRun, advance]
  | cons d ds ih =>
    rw [Place.skipWhile?_of_char (peek?_cons behind ds d), past_place, ih]
    by_cases hd : q d = true
    · simp [hd, takeRun, advance]
    · simp [hd, takeRun, advance]

/-- The run that is passed is cut out again. -/
@[simp] theorem since?_takeRun (q : Char → Bool) (c : Cursor) :
    (c.takeRun q).2.place.since? c.place.offset = some (c.takeRun q).1 :=
  since?_place (by simp [takeRun, advance]) rfl

/-- Going back to an earlier cursor of the line. -/
theorem place_back {a b : Cursor} (h : a.Reaches b) :
    { b.place with offset := a.place.offset } = a.place := by
  simp [place, line, h.chars_eq]

theorem readNumber?_place (t : NumberType) (c : Cursor) :
    c.place.readNumber? t = some ((c.readNumber t).1, (c.readNumber t).2.place) := by
  have hback := place_back (reaches_takeRun c isNumberChar)
  simp only [Place.readNumber?, skipWhile?_place, since?_takeRun, Option.bind_eq_bind,
    Option.bind_some, hback, readNumber]
  by_cases hrun : (c.takeRun isNumberChar).1.isEmpty = true
  · have hstays : (c.takeRun isNumberChar).2 = c := takeRun_of_nil (List.isEmpty_iff.1 hrun)
    simp [hrun, hstays, fault]
  · cases t.read? (c.takeRun isNumberChar).1 with
    | some x => simp [hrun]
    | none => simp [hrun, fault]

theorem readWord?_place (c : Cursor) :
    c.place.readWord? = some (c.readWord.1, c.readWord.2.place) := by
  simp [Place.readWord?, readWord]

theorem readClosing?_place (closing : Char) (escaped : Bool) (text behind ahead : List Char) :
    (mk behind ahead).place.readClosing? closing escaped text =
      some ((readClosing closing escaped text behind ahead).1,
        (readClosing closing escaped text behind ahead).2.place) := by
  induction ahead generalizing escaped text behind with
  | nil =>
    rw [Place.readClosing?_of_end (peek?_place _)]
    cases escaped <;> rfl
  | cons d ds ih =>
    cases escaped with
    | true =>
      rw [Place.readClosing?_of_escaped (peek?_cons behind ds d), past_place, ih, readClosing]
      split <;> rfl
    | false =>
      rw [Place.readClosing?_of_char (peek?_cons behind ds d), past_place, ih, ih, readClosing]
      split
      · rfl
      · split <;> rfl

theorem readUntil?_place (closing : Char) (c : Cursor) :
    c.place.readUntil? closing =
      some ((c.readUntil closing).1, (c.readUntil closing).2.place) :=
  readClosing?_place closing false [] c.behind c.ahead

theorem readQuoted?_place (c : Cursor) :
    c.place.readQuoted? = some (c.readQuoted.1, c.readQuoted.2.place) := by
  unfold Place.readQuoted? readQuoted
  rw [peek?_place]
  cases c.peek with
  | none => rfl
  | some d =>
    by_cases hd : d = quoteMark
    · subst hd
      simp [readUntil?_place]
    · simp [hd, fault]

theorem readString?_place (c : Cursor) :
    c.place.readString? = some (c.readString.1, c.readString.2.place) := by
  unfold Place.readString? readString
  rw [peek?_place]
  cases hpeek : c.peek with
  | none =>
    have hahead : c.ahead = [] := List.head?_eq_none_iff.1 hpeek
    have hrun : (c.takeRun isWordChar).1 = [] := by simp [takeRun, hahead]
    simp [readWord, hrun, takeRun_of_nil hrun]
  | some d =>
    by_cases hd : d = quoteMark
    · subst hd
      simp [readUntil?_place]
    · simp [hd, readWord?_place]

theorem readBool?_place (c : Cursor) :
    c.place.readBool? = some (c.readBool.1, c.readBool.2.place) := by
  have hback := place_back (reaches_readString c)
  unfold Place.readBool? readBool
  rw [readString?_place]
  cases hread : c.readString with
  | mk outcome stop =>
    rw [hread] at hback
    cases outcome with
    | error f => rfl
    | ok word =>
      simp only [Option.bind_eq_bind, Option.bind_some, hback]
      split_ifs <;> rfl

theorem readSymbol?_place (symbol : Char) (c : Cursor) :
    c.place.readSymbol? symbol =
      some ((c.readSymbol symbol).1, (c.readSymbol symbol).2.place) := by
  by_cases hpeek : c.peek = some symbol
  · simp [Place.readSymbol?, readSymbol, hpeek]
  · simp [Place.readSymbol?, readSymbol, hpeek, fault]

end Cursor

/-! ### Operations -/

/-- What can be asked of a line and a place in it. -/
inductive Operation where
  /-- Go to a byte offset, or to the end if the line is shorter. -/
  | seek (offset : Nat)
  | line
  | offset
  | length
  | bytesAhead
  | has (n : Nat)
  | passed
  | rest
  | peek
  | peekAt (n : Nat)
  | readChar
  | skip
  | skipBlanks
  | number (t : NumberType)
  | word
  | quoted
  | upTo (closing : Char)
  | string
  | bool
  | symbol (c : Char)

namespace Operation

/-- What an operation answers. -/
abbrev Answer : Operation → Type
  | seek _ | skip | skipBlanks => Unit
  | line | passed | rest | word => String
  | offset | length | bytesAhead => Nat
  | has _ => Bool
  | peek | peekAt _ | readChar => Option Char
  | number t => Except Fault t.Carrier
  | quoted | upTo _ | string => Except Fault String
  | bool => Except Fault Bool
  | symbol _ => Except Fault Unit

/-- The operation by a byte offset, if it cuts the line at boundaries only. -/
def run? : (op : Operation) → Place → Option (op.Answer × Place)
  | seek n, p => some ((), .within p.line n)
  | line, p => some (p.line, p)
  | offset, p => some (p.offset, p)
  | length, p => some (p.length, p)
  | bytesAhead, p => some (p.bytesAhead, p)
  | has n, p => some (p.has n, p)
  | passed, p => p.before?.map (·, p)
  | rest, p => p.after?.map (·, p)
  | peek, p => p.peek?.map (·, p)
  | peekAt n, p => some (p.peekAt n, p)
  | readChar, p => p.readChar?
  | skip, p => p.skip?.map ((), ·)
  | skipBlanks, p => (p.skipWhile? Text.isBlank).map ((), ·)
  | number t, p => p.readNumber? t
  | word, p => p.readWord?
  | quoted, p => p.readQuoted?
  | upTo closing, p => p.readUntil? closing
  | string, p => p.readString?
  | bool, p => p.readBool?
  | symbol c, p => p.readSymbol? c

/-- The operation on a cursor. -/
def perform : (op : Operation) → Cursor → op.Answer × Cursor
  | seek n, c => ((), c.seek n)
  | line, c => (c.line, c)
  | offset, c => (c.offset, c)
  | length, c => (c.length, c)
  | bytesAhead, c => (c.bytesAhead, c)
  | has n, c => (c.has n, c)
  | passed, c => (c.passed, c)
  | rest, c => (c.rest, c)
  | peek, c => (c.peek, c)
  | peekAt n, c => (c.peekAt n, c)
  | readChar, c => (c.peek, c.skip)
  | skip, c => ((), c.skip)
  | skipBlanks, c => ((), c.skipBlanks)
  | number t, c => c.readNumber t
  | word, c => c.readWord
  | quoted, c => c.readQuoted
  | upTo closing, c => c.readUntil closing
  | string, c => c.readString
  | bool, c => c.readBool
  | symbol c, d => d.readSymbol c

/-- An offset that the operation goes to is a boundary of the line, or not inside it. -/
def Fits (line : String) : Operation → Prop
  | seek n => Text.Boundary line n ∨ Text.bytes line.toList ≤ n
  | _ => True

instance {line : String} : DecidablePred (Fits line)
  | seek _ => inferInstanceAs (Decidable (_ ∨ _))
  | .line | offset | length | bytesAhead | has _ | passed | rest | peek | peekAt _ | readChar | skip
  | skipBlanks | number _ | word | quoted | upTo _ | string | bool | symbol _ =>
    inferInstanceAs (Decidable True)

/-- Whether the operation goes to an offset of its own. -/
def isSeek : Operation → Bool
  | seek _ => true
  | _ => false

/-- Every operation that does not go to an offset of its own moves a cursor forward only. -/
theorem reaches_perform {op : Operation} (h : op.isSeek = false) (c : Cursor) :
    c.Reaches (op.perform c).2 := by
  cases op with
  | seek => cases h
  | line | offset | length | bytesAhead | has | passed | rest | peek | peekAt => exact .refl c
  | readChar | skip => exact Cursor.reaches_skip c
  | skipBlanks => exact Cursor.reaches_takeRun c _
  | number t => exact Cursor.reaches_readNumber t c
  | word => exact Cursor.reaches_readWord c
  | quoted => exact Cursor.reaches_readQuoted c
  | upTo closing => exact Cursor.reaches_readUntil closing c
  | string => exact Cursor.reaches_readString c
  | bool => exact Cursor.reaches_readBool c
  | symbol d => exact Cursor.reaches_readSymbol d c

end Operation

namespace Cursor

theorem line_ofLine (line : String) : (ofLine line).line = line := by
  simp [Cursor.line, chars, ofLine]

theorem place_ofLine (line : String) : (ofLine line).place = .within line 0 := by
  rw [place, line_ofLine, Place.within, Nat.zero_min]
  rfl

theorem chars_seek (c : Cursor) (n : Nat) : (c.seek n).chars = c.chars := by
  simp [seek, chars, Text.cutAtMost_append]

/-- A cursor that is sent to a boundary gets there, and past the end to the end. -/
theorem place_seek {c : Cursor} {n : Nat} (h : (Operation.seek n).Fits c.line) :
    (c.seek n).place = .within c.line n := by
  have hline : (c.seek n).line = c.line := congrArg String.ofList (chars_seek c n)
  have hboundary : Text.Boundary c.line (min n (Text.bytes c.line.toList)) := by
    rcases h with h | h
    · rwa [Nat.min_eq_left h.le_end]
    · rw [Nat.min_eq_right h]
      exact Text.boundary_end c.line
  have hgreatest := Text.isGreatest_cutAtMost c.line n
  have hoffset : (c.seek n).offset = min n (Text.bytes c.line.toList) := by
    rw [offset, seek, Text.bytes_reverse, ← String.toList_ofList (l := c.chars)]
    exact hgreatest.unique
      ⟨⟨hboundary, Nat.min_le_left ..⟩, fun k hk => le_min hk.2 hk.1.le_end⟩
  rw [place, hline, hoffset, Place.within]

end Cursor

namespace Operation

theorem line_perform (op : Operation) (c : Cursor) : (op.perform c).2.line = c.line := by
  by_cases h : op.isSeek = true
  · cases op with
    | seek n => exact congrArg String.ofList (c.chars_seek n)
    | _ => cases h
  · exact congrArg String.ofList (reaches_perform (by simpa using h) c).chars_eq

/-- **By byte offsets an operation does what it does to a cursor.**  It cuts the line at boundaries
only, and the place afterwards is that of the cursor afterwards. -/
theorem run?_place {op : Operation} {c : Cursor} (h : op.Fits c.line) :
    op.run? c.place = some ((op.perform c).1, (op.perform c).2.place) := by
  cases op with
  | seek n => exact congrArg (fun p => some ((), p)) (Cursor.place_seek h).symm
  | line | offset => rfl
  | length => simp [run?, perform]
  | bytesAhead => simp [run?, perform]
  | has n => simp [run?, perform]
  | passed => simp [run?, perform]
  | rest => simp [run?, perform]
  | peek => simp [run?, perform]
  | peekAt n => simp [run?, perform]
  | readChar => exact Cursor.readChar?_place c
  | skip => simp [run?, perform]
  | skipBlanks => simp [run?, perform, Cursor.skipBlanks]
  | number t => exact Cursor.readNumber?_place t c
  | word => exact Cursor.readWord?_place c
  | quoted => exact Cursor.readQuoted?_place c
  | upTo closing => exact Cursor.readUntil?_place closing c
  | string => exact Cursor.readString?_place c
  | bool => exact Cursor.readBool?_place c
  | symbol d => exact Cursor.readSymbol?_place d c

/-- An operation in a run: where it set out from, what it answered, and where it left the place. -/
structure Step where
  start : Place
  operation : Operation
  answer : operation.Answer
  stop : Place

/-- The steps of operations one after the other, if they all cut the line at boundaries only. -/
def runAll? : List Operation → Place → Option (List Step)
  | [], _ => some []
  | op :: ops, p => do
    let (answer, stop) ← op.run? p
    let later ← runAll? ops stop
    return { start := p, operation := op, answer, stop } :: later

/-- The steps of operations on a cursor. -/
def steps : List Operation → Cursor → List Step
  | [], _ => []
  | op :: ops, c =>
    { start := c.place
      operation := op
      answer := (op.perform c).1
      stop := (op.perform c).2.place } :: steps ops (op.perform c).2

theorem runAll?_place {line : String} {ops : List Operation} (h : ∀ op ∈ ops, op.Fits line)
    {c : Cursor} (hline : c.line = line) : runAll? ops c.place = some (steps ops c) := by
  induction ops generalizing c with
  | nil => rfl
  | cons op ops ih =>
    obtain ⟨hop, hops⟩ := List.forall_mem_cons.1 h
    rw [runAll?, run?_place (hline ▸ hop)]
    simp [ih hops ((line_perform op c).trans hline), steps]

/-- From the start of a line. -/
theorem runAll?_within {line : String} {ops : List Operation} (h : ∀ op ∈ ops, op.Fits line) :
    runAll? ops (.within line 0) = some (steps ops (.ofLine line)) := by
  rw [← Cursor.place_ofLine]
  exact runAll?_place h (Cursor.line_ofLine line)

theorem operation_steps (ops : List Operation) (c : Cursor) :
    (steps ops c).map Step.operation = ops := by
  induction ops generalizing c with
  | nil => rfl
  | cons op ops ih => rw [steps, List.map_cons, ih]

/-- A step on a cursor of the line. -/
theorem exists_cursor_of_mem_steps {ops : List Operation} {c : Cursor} {step : Step}
    (h : step ∈ steps ops c) : ∃ b : Cursor, b.line = c.line ∧ step.start = b.place ∧
      step.answer = (step.operation.perform b).1 ∧
      step.stop = (step.operation.perform b).2.place := by
  induction ops generalizing c with
  | nil => cases h
  | cons op ops ih =>
    rcases List.mem_cons.1 h with rfl | h
    · exact ⟨c, rfl, rfl, rfl, rfl⟩
    · obtain ⟨b, hb, hstep⟩ := ih h
      exact ⟨b, hb.trans (line_perform op c), hstep⟩

/--
**A place that is moved by reading stays between two characters.**

From the start of a line, whatever the line and the operations are, as long as the offsets
that are gone to are boundaries of the line or not inside it, the readers by byte offsets
never cut the line elsewhere than at a boundary.  After each step the place is at a boundary
and within the line, what is before it and what is after it make up the line, and it is not
before the place where the step set out, unless the step went to an offset of its own.  Each
step answers what the operation answers for the cursor at the place, and leaves the place
where it leaves the cursor.
-/
theorem places_at_boundaries (line : String) (ops : List Operation)
    (fits : ∀ op ∈ ops, op.Fits line) :
    ∃ steps, runAll? ops (.within line 0) = some steps ∧ steps.map Step.operation = ops ∧
      ∀ step ∈ steps,
        (step.stop.line = line ∧ Text.Boundary line step.stop.offset ∧
          step.stop.offset ≤ Text.bytes line.toList) ∧
        (∃ before after, step.stop.before? = some before ∧ step.stop.after? = some after ∧
          before ++ after = line) ∧
        (step.operation.isSeek = false → step.start.offset ≤ step.stop.offset) ∧
        (step.answer = (step.operation.perform step.start.cursor).1 ∧
          step.stop = (step.operation.perform step.start.cursor).2.place) := by
  refine ⟨steps ops (.ofLine line), runAll?_within fits, operation_steps _ _, ?_⟩
  intro step hstep
  obtain ⟨b, hb, hfrom, hanswer, hto⟩ := exists_cursor_of_mem_steps hstep
  have hstays : (step.operation.perform b).2.line = line :=
    (line_perform _ b).trans (hb.trans (Cursor.line_ofLine line))
  have hboundary := (step.operation.perform b).2.boundary_offset
  rw [hstays] at hboundary
  rw [hto, hfrom, Cursor.cursor_place]
  refine ⟨⟨hstays, hboundary, hboundary.le_end⟩, ?_, ?_, hanswer, rfl⟩
  · refine ⟨_, _, Cursor.before?_place _, Cursor.after?_place _, ?_⟩
    rw [← hstays, Cursor.passed, Cursor.rest, ← String.ofList_append]
    rfl
  · intro hseek
    exact (reaches_perform hseek b).offset_le

/-- A line with characters of two bytes and a quoted text that slips on a backslash. -/
def slippingLine : String := "größe \"a\\n"

/-- Reading goes on after each failure, and comes to the end from behind it. -/
def slippingOperations : List Operation :=
  [.skip, .word, .string, .skip, .seek 8, .string, .number .int, .bool, .seek 99, .bool]

/-- After the slip the place is at the character after the backslash, and stays there when a number
and a boolean fail. -/
theorem places_at_boundaries_slipping :
    (∀ op ∈ slippingOperations, op.Fits slippingLine) ∧
    ∃ steps, runAll? slippingOperations (.within slippingLine 0) = some steps ∧
      steps.map (fun step => step.stop.offset) = [1, 2, 2, 4, 8, 11, 11, 11, 12, 12] ∧
      ∀ step ∈ steps, Text.Boundary slippingLine step.stop.offset := by
  have fits : ∀ op ∈ slippingOperations, op.Fits slippingLine := by decide
  obtain ⟨found, hrun, -, hfound⟩ := places_at_boundaries slippingLine slippingOperations fits
  have hsteps : found = steps slippingOperations (.ofLine slippingLine) :=
    Option.some.inj (hrun.symm.trans (runAll?_within fits))
  refine ⟨fits, found, hrun, ?_, fun step hstep => (hfound step hstep).1.2.1⟩
  rw [hsteps]
  decide

end Operation

end CommandLines
