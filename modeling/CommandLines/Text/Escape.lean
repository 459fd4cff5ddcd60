/-
Text in quotes with every character visible.

A character that does not show as itself is written by its code point, and a few
controls have short forms.
-/
import CommandLines.Text.EscapeTable
import CommandLines.Text.LowerCase

namespace CommandLines.Text

/-- The code point of a character in lower case hexadecimal digits. -/
def codePoint (c : Char) : List Char := Nat.toDigits 16 c.toNat

/-- Whether the character shows as itself. -/
def isVisible (c : Char) : Bool :=
  !inRanges unprintableRanges c && !inRanges attachingRanges c

/-- A character inside visible quotes. -/
def visibleChar (c : Char) : List Char :=
  if c == '\x00' then ['\\', '0']
  else if c == '\t' then ['\\', 't']
  else if c == '\r' then ['\\', 'r']
  else if c == '\n' then ['\\', 'n']
  else if c == '"' then ['\\', '"']
  else if c == '\\' then ['\\', '\\']
  else if isVisible c then [c]
  else ['\\', 'u', '\x7b'] ++ codePoint c ++ ['\x7d']

/-- A text in quotes with every character visible. -/
def visible (s : String) : String :=
  "\"" ++ String.ofList (s.toList.flatMap visibleChar) ++ "\""

end CommandLines.Text
