/-
Writing text so that it reads back.

Inside quotes a backslash stands before every closing mark and every backslash of the
text, so each text has one quoted form.
-/
import CommandLines.Cursor.Reading

namespace CommandLines.Cursor

/-- The text as it is written between marks. -/
def escapeFor (closing : Char) (text : List Char) : List Char :=
  text.flatMap fun c => if c == closing || c == escapeMark then [escapeMark, c] else [c]

/-- The text in quotes, or as it is when only word characters occur in it. -/
def quoteIfNeeded (text : String) : String :=
  if text.toList.all isWordChar then text
  else String.ofList (quoteMark :: escapeFor quoteMark text.toList ++ [quoteMark])

end CommandLines.Cursor
