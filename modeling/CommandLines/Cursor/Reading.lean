/-
Reading from a cursor: words, quoted texts, numbers, booleans and single symbols.

Each reading returns what it read, or a fault, together with the cursor afterwards.  A
reading that fails leaves the cursor where it was or at the start of what offended, save
for a quoted text: there it stays at the character after a bad backslash, or at the end
of a line that never closes the quote.
-/
import CommandLines.Cursor.Basic

namespace CommandLines

/-- What a reading yields, and where it leaves the cursor. -/
abbrev Read (α : Type) : Type := Except Fault α × Cursor

namespace Cursor

/-- The character that stands between arguments. -/
def separator : Char := ' '

/-- The character that opens and closes a quoted text. -/
def quoteMark : Char := '"'

/-- The character that takes away the meaning of the next one inside quotes. -/
def escapeMark : Char := '\\'

/-- Whether a number may hold the character. -/
def isNumberChar (c : Char) : Bool := c.isDigit || c == '.' || c == '-'

/-- Whether a word that is not quoted may hold the character. -/
def isWordChar (c : Char) : Bool :=
  c.isAlphanum || c == '_' || c == '-' || c == '.' || c == '+'

/-- Read the run of number characters ahead as a number of the width. -/
def readNumber (t : NumberType) (c : Cursor) : Read t.Carrier :=
  let (run, after) := c.takeRun isNumberChar
  if run.isEmpty then (.error (c.fault (.expectedNumber t)), c)
  else
    match t.read? run with
    | some x => (.ok x, after)
    | none => (.error (c.fault (.badNumber t (String.ofList run))), c)

/-- Read the run of word characters ahead, which may be empty. -/
def readWord (c : Cursor) : String × Cursor :=
  let (run, after) := c.takeRun isWordChar
  (String.ofList run, after)

/-- Read on to the closing mark and past it.  A backslash stands before a closing mark or another
backslash that belongs to the text, and before nothing else; `text` is what has been read, in
reverse, and `escaped` says that the last character was such a backslash. -/
def readClosing (closing : Char) : (escaped : Bool) → (text behind ahead : List Char) → Read String
  | _, _, behind, [] =>
    let c : Cursor := ⟨behind, []⟩
    (.error (c.fault .unclosedQuote), c)
  | true, text, behind, d :: ds =>
    if d == closing || d == escapeMark then
      readClosing closing false (d :: text) (d :: behind) ds
    else
      let c : Cursor := ⟨behind, d :: ds⟩
      (.error (c.fault (.badEscape d)), c)
  | false, text, behind, d :: ds =>
    if d == escapeMark then readClosing closing true text (d :: behind) ds
    else if d == closing then (.ok (String.ofList text.reverse), ⟨d :: behind, ds⟩)
    else readClosing closing false (d :: text) (d :: behind) ds

/-- Read on to the closing mark and past it. -/
def readUntil (closing : Char) (c : Cursor) : Read String :=
  readClosing closing false [] c.behind c.ahead

/-- Read a quoted text.  At the end of the line there is an empty one. -/
def readQuoted (c : Cursor) : Read String :=
  match c.peek with
  | none => (.ok "", c)
  | some d =>
    if d == quoteMark then readUntil quoteMark c.skip
    else (.error (c.fault .expectedQuote), c)

/-- Read a quoted text if a quote stands ahead, and a word otherwise. -/
def readString (c : Cursor) : Read String :=
  if c.peek == some quoteMark then readUntil quoteMark c.skip
  else
    let (word, after) := c.readWord
    (.ok word, after)

/-- Read `true` or `false`, quoted or not. -/
def readBool (c : Cursor) : Read Bool :=
  match c.readString with
  | (.error f, after) => (.error f, after)
  | (.ok word, after) =>
    if word == "" then (.error (after.fault .expectedBool), after)
    else if word == "true" then (.ok true, after)
    else if word == "false" then (.ok false, after)
    else (.error (c.fault (.badBool word)), c)

/-- Read one certain character. -/
def readSymbol (symbol : Char) (c : Cursor) : Read Unit :=
  if c.peek == some symbol then (.ok (), c.skip)
  else (.error (c.fault (.expectedSymbol symbol)), c)

/-! ### Reading only moves forward -/

theorem reaches_readNumber (t : NumberType) (c : Cursor) : c.Reaches (c.readNumber t).2 := by
  unfold readNumber
  split
  · next run after h =>
    have hr : c.Reaches after := by
      have := reaches_takeRun c isNumberChar
      rwa [h] at this
    split
    · exact .refl c
    · split
      · exact hr
      · exact .refl c

theorem reaches_readWord (c : Cursor) : c.Reaches c.readWord.2 := reaches_takeRun c isWordChar

theorem reaches_readClosing (closing : Char) (escaped : Bool) (text behind ahead : List Char) :
    Reaches ⟨behind, ahead⟩ (readClosing closing escaped text behind ahead).2 := by
  induction ahead generalizing escaped text behind with
  | nil => cases escaped <;> exact .refl _
  | cons d ds ih =>
    have step : Reaches ⟨behind, d :: ds⟩ ⟨d :: behind, ds⟩ := ⟨[d], by simp, by simp⟩
    cases escaped with
    | true =>
      rw [readClosing]
      split
      · exact step.trans (ih _ _ _)
      · exact .refl _
    | false =>
      rw [readClosing]
      split
      · exact step.trans (ih _ _ _)
      · split
        · exact step
        · exact step.trans (ih _ _ _)

theorem reaches_readUntil (closing : Char) (c : Cursor) : c.Reaches (c.readUntil closing).2 :=
  reaches_readClosing closing false [] c.behind c.ahead

theorem reaches_readQuoted (c : Cursor) : c.Reaches c.readQuoted.2 := by
  unfold readQuoted
  split
  · exact .refl c
  · split
    · exact (reaches_skip c).trans (reaches_readUntil _ _)
    · exact .refl c

theorem reaches_readString (c : Cursor) : c.Reaches c.readString.2 := by
  unfold readString
  split
  · exact (reaches_skip c).trans (reaches_readUntil _ _)
  · exact reaches_readWord c

theorem reaches_readBool (c : Cursor) : c.Reaches c.readBool.2 := by
  have h := reaches_readString c
  unfold readBool
  split
  · next heq => rwa [heq] at h
  · next heq =>
    rw [heq] at h
    split
    · exact h
    · split
      · exact h
      · split
        · exact h
        · exact .refl c

theorem reaches_readSymbol (symbol : Char) (c : Cursor) : c.Reaches (c.readSymbol symbol).2 := by
  unfold readSymbol
  split
  · exact reaches_skip c
  · exact .refl c

end Cursor

end CommandLines
