/-
Cursors: places between the characters of a line.

A cursor holds the characters it has passed and the characters ahead, so it always
stands on a character boundary, inside the line, and what is behind it followed by what
is ahead is the line.  Its byte offset is the size of what is behind.  Reading never
changes the line: `Reaches` says that one cursor is another one moved forward.
-/
import CommandLines.Fault.Basic

namespace CommandLines

/-- A place in a line. -/
structure Cursor where
  /-- The characters already passed, the latest first. -/
  behind : List Char
  /-- The characters still to come. -/
  ahead : List Char
deriving DecidableEq, Repr

namespace Cursor

/-- The start of a line. -/
def ofLine (line : String) : Cursor := ⟨[], line.toList⟩

/-- The characters of the line. -/
def chars (c : Cursor) : List Char := c.behind.reverse ++ c.ahead

/-- The whole line. -/
def line (c : Cursor) : String := String.ofList c.chars

/-- The part of the line before the cursor. -/
def passed (c : Cursor) : String := String.ofList c.behind.reverse

/-- The part of the line after the cursor. -/
def rest (c : Cursor) : String := String.ofList c.ahead

/-- The byte offset. -/
def offset (c : Cursor) : Nat := Text.bytes c.behind

/-- How many bytes are ahead. -/
def bytesAhead (c : Cursor) : Nat := Text.bytes c.ahead

/-- How many bytes the line has. -/
def length (c : Cursor) : Nat := c.offset + c.bytesAhead

/-- Whether at least `n` bytes are ahead. -/
def has (c : Cursor) (n : Nat) : Bool := decide (n ≤ c.bytesAhead)

/-- Whether nothing is ahead. -/
def atEnd (c : Cursor) : Bool := c.ahead.isEmpty

/-- The character ahead. -/
def peek (c : Cursor) : Option Char := c.ahead.head?

/-- The character that starts `n` bytes ahead. -/
def peekAt (c : Cursor) (n : Nat) : Option Char :=
  (Text.cut? c.ahead n).bind fun p => p.2.head?

/-- The place `cs` further on, where `cs` is what comes next and `rest` what follows it. -/
def advance (c : Cursor) (cs rest : List Char) : Cursor := ⟨cs.reverse ++ c.behind, rest⟩

/-- One character further on; at the end of the line the same place. -/
def skip (c : Cursor) : Cursor :=
  match c.ahead with
  | [] => c
  | d :: ds => ⟨d :: c.behind, ds⟩

/-- The run of characters ahead that satisfy `p`, and the place after it. -/
def takeRun (c : Cursor) (p : Char → Bool) : List Char × Cursor :=
  (c.ahead.takeWhile p, c.advance (c.ahead.takeWhile p) (c.ahead.dropWhile p))

/-- The place after any white space. -/
def skipBlanks (c : Cursor) : Cursor := (c.takeRun Text.isBlank).2

/-- The last place in the line that is not after byte `offset`. -/
def seek (c : Cursor) (offset : Nat) : Cursor :=
  let (before, after) := Text.cutAtMost c.chars offset
  ⟨before.reverse, after⟩

/-- The end of the line. -/
def finish (c : Cursor) : Cursor := ⟨c.ahead.reverse ++ c.behind, []⟩

/-- The cursor as a place that a fault points at. -/
def place (c : Cursor) : Place := ⟨c.line, c.offset⟩

/-- A fault at the cursor. -/
def fault (c : Cursor) (cause : Cause) : Fault := ⟨cause, some c.place⟩

/-! ### Moving forward -/

/-- The second cursor is the first one moved forward over some characters, or the same. -/
def Reaches (a b : Cursor) : Prop :=
  ∃ cs, a.ahead = cs ++ b.ahead ∧ b.behind = cs.reverse ++ a.behind

theorem Reaches.refl (a : Cursor) : a.Reaches a := ⟨[], by simp⟩

theorem Reaches.trans {a b c : Cursor} (h : a.Reaches b) (k : b.Reaches c) : a.Reaches c := by
  obtain ⟨xs, ha, hb⟩ := h
  obtain ⟨ys, hc, hd⟩ := k
  exact ⟨xs ++ ys, by simp [ha, hc], by simp [hd, hb]⟩

theorem Reaches.chars_eq {a b : Cursor} (h : a.Reaches b) : b.chars = a.chars := by
  obtain ⟨cs, ha, hb⟩ := h
  simp [chars, ha, hb]

theorem Reaches.offset_le {a b : Cursor} (h : a.Reaches b) : a.offset ≤ b.offset := by
  obtain ⟨cs, _, hb⟩ := h
  simp [offset, hb]

theorem Reaches.ahead_length_le {a b : Cursor} (h : a.Reaches b) :
    b.ahead.length ≤ a.ahead.length := by
  obtain ⟨cs, ha, _⟩ := h
  simp [ha]

theorem reaches_skip (c : Cursor) : c.Reaches c.skip := by
  unfold skip
  split
  · exact .refl c
  · next d ds h => exact ⟨[d], by simp [h], by simp⟩

theorem reaches_takeRun (c : Cursor) (p : Char → Bool) : c.Reaches (c.takeRun p).2 :=
  ⟨c.ahead.takeWhile p, by simp [takeRun, advance], by simp [takeRun, advance]⟩

/-- Where the run is empty nothing is passed. -/
theorem takeRun_of_nil {c : Cursor} {p : Char → Bool} (h : (c.takeRun p).1 = []) :
    (c.takeRun p).2 = c := by
  have hrun : c.ahead.takeWhile p = [] := h
  have hahead := List.takeWhile_append_dropWhile (p := p) (l := c.ahead)
  rw [hrun, List.nil_append] at hahead
  simp [takeRun, advance, hrun, hahead]

theorem reaches_finish (c : Cursor) : c.Reaches c.finish := ⟨c.ahead, by simp [finish], rfl⟩

theorem ahead_length_skip {c : Cursor} (h : c.atEnd = false) :
    c.skip.ahead.length < c.ahead.length := by
  unfold skip
  split
  · next h' => simp [atEnd, h'] at h
  · next d ds h' => simp [h']

end Cursor

end CommandLines
