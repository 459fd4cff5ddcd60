/-
Replacing one text by another wherever it occurs.
-/
namespace CommandLines.Text

/-- The characters with every occurrence of a pattern replaced, from left to right and without
overlap; the first argument counts the characters that belong to the occurrence just replaced. -/
def replaceFrom (pattern new : List Char) : Nat → List Char → List Char
  | _, [] => []
  | skipped + 1, _ :: cs => replaceFrom pattern new skipped cs
  | 0, c :: cs =>
    if pattern.isPrefixOf (c :: cs) then
      new ++ replaceFrom pattern new (pattern.length - 1) cs
    else c :: replaceFrom pattern new 0 cs

/-- The text with every occurrence of a pattern, which is not empty, replaced. -/
def replace (pattern new text : String) : String :=
  String.ofList (replaceFrom pattern.toList new.toList 0 text.toList)

end CommandLines.Text
