/-
Places that may lie inside a character.

A place is a byte offset in a line, and not every offset stands between two characters.
How much is ahead, and which character starts some bytes further on, can be asked at any
offset; reading needs a cursor.  At the place of a cursor both give the same answers.
-/
import CommandLines.Cursor.Basic

namespace CommandLines.Place

/-- The place at a byte offset of a line, or at the end of a line that is shorter. -/
def within (line : String) (offset : Nat) : Place :=
  ⟨line, min offset (Text.bytes line.toList)⟩

/-- How many bytes the line has. -/
def length (p : Place) : Nat := Text.bytes p.line.toList

/-- How many bytes are ahead. -/
def bytesAhead (p : Place) : Nat := p.length - p.offset

/-- Whether at least `n` bytes are ahead. -/
def has (p : Place) (n : Nat) : Bool := decide (p.offset + n ≤ p.length)

/-- The character that starts `n` bytes ahead. -/
def peekAt (p : Place) (n : Nat) : Option Char :=
  (Text.cut? p.line.toList (p.offset + n)).bind fun q => q.2.head?

/-- The cursor at the place, or before the character that the place lies in. -/
def cursor (p : Place) : Cursor := (Cursor.ofLine p.line).seek p.offset

end CommandLines.Place

namespace CommandLines.Cursor

@[simp] theorem length_place (c : Cursor) : c.place.length = c.length := by
  simp [Place.length, place, line, length, chars, offset, bytesAhead]

@[simp] theorem bytesAhead_place (c : Cursor) : c.place.bytesAhead = c.bytesAhead := by
  rw [Place.bytesAhead, length_place, length]
  exact Nat.add_sub_cancel_left ..

@[simp] theorem has_place (c : Cursor) (n : Nat) : c.place.has n = c.has n := by
  rw [Place.has, length_place, length, has]
  exact decide_eq_decide.2 (Nat.add_le_add_iff_left (n := c.offset))

/-- What starts some bytes ahead of a cursor is what its place says. -/
@[simp] theorem peekAt_place (c : Cursor) (n : Nat) : c.place.peekAt n = c.peekAt n := by
  have h := Text.cut?_append c.behind.reverse c.ahead n
  rw [Text.bytes_reverse] at h
  simp only [Place.peekAt, peekAt, place, line, chars, offset, String.toList_ofList, h]
  cases Text.cut? c.ahead n <;> rfl

/-- The cursor at the place of a cursor is that cursor. -/
@[simp] theorem cursor_place (c : Cursor) : c.place.cursor = c := by
  have h : Text.cut? c.chars c.offset = some (c.behind.reverse, c.ahead) :=
    Text.cut?_eq_some_iff.2 ⟨rfl, Text.bytes_reverse _⟩
  have hline : (ofLine c.line).chars = c.chars := by simp [ofLine, line, chars]
  simp only [Place.cursor, place, seek, hline, Text.cutAtMost_of_cut? h, List.reverse_reverse]

end CommandLines.Cursor
