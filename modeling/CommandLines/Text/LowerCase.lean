/-
Lower case of a whole text.

Every character but two has a lower case form of its own, found in the table.  The
dotted capital I becomes two characters.  A capital sigma becomes the final form of the
letter at the end of a word, that is after a cased letter and not before one, where
case-ignorable characters in between do not count; anywhere else it takes the common form.
-/
import CommandLines.Text.CaseTable

namespace CommandLines.Text

/-- Whether one of the ranges holds the character. -/
def inRanges (ranges : List (Nat × Nat)) (c : Char) : Bool :=
  ranges.any fun r => r.1 ≤ c.toNat && c.toNat ≤ r.2

/-- The lower case of one character, when its neighbours do not matter. -/
def lowerChar (c : Char) : List Char :=
  let n := c.toNat
  if n < 0x80 then [c.toLower]
  else if n == 0x130 then ['i', Char.ofNat 0x307]
  else
    match lowerRanges.find? fun r => r.first ≤ n && n ≤ r.last && (n - r.first) % r.step == 0 with
    | some r => [Char.ofNat (Int.toNat (n + r.shift))]
    | none => [c]

/-- Whether the first character that is not case-ignorable is cased. -/
def leadsToCased (cs : List Char) : Bool :=
  match cs.dropWhile (inRanges caseIgnorableRanges) with
  | [] => false
  | c :: _ => inRanges casedRanges c

/-- The lower case of a text, given in reverse what stands before it. -/
def lowerAfter : List Char → List Char → List Char
  | _, [] => []
  | before, c :: cs =>
    let here :=
      if c == 'Σ' then
        [if leadsToCased before && !leadsToCased cs then 'ς' else 'σ']
      else lowerChar c
    here ++ lowerAfter (c :: before) cs

/-- The lower case of a text. -/
def lower (s : String) : String := String.ofList (lowerAfter [] s.toList)

/-- Whether `start` begins the text `s`. -/
def startsWith (s start : String) : Bool := start.toList.isPrefixOf s.toList

end CommandLines.Text
