/-
Spans: stretches of a line, by the byte offsets of their ends.
-/
import CommandLines.Json.Value
import CommandLines.Text.Bytes

namespace CommandLines

/-- The bytes of a line from `start` up to, and not including, `stop`. -/
structure Span where
  start : Nat
  stop : Nat
deriving DecidableEq, Repr, Inhabited

namespace Span

/-- The empty span at an offset. -/
def point (offset : Nat) : Span := ⟨offset, offset⟩

/-- The smallest span that holds both. -/
def hull (a b : Span) : Span := ⟨min a.start b.start, max a.stop b.stop⟩

/-- Whether the span covers nothing. -/
def isEmpty (s : Span) : Bool := s.start == s.stop

/-- How many bytes the span covers; a span whose ends are the wrong way round covers no number of
bytes. -/
def length? (s : Span) : Option Nat := if s.start ≤ s.stop then some (s.stop - s.start) else none

/-- The part of a line that the span covers, when its ends are character boundaries of the line. -/
def text? (s : Span) (line : String) : Option String :=
  (Text.between? line.toList s.start s.stop).map String.ofList

/-- The part of a line that the span covers, and nothing where the span does not fit the line. -/
def text (s : Span) (line : String) : String := (s.text? line).getD ""

/-- Spans in order of their starts, then of their ends. -/
def order (a b : Span) : Ordering := (compare a.start b.start).then (compare a.stop b.stop)

/-- A span with the ends given, unless they are the wrong way round. -/
def ofEnds (start stop : Nat) : Except String Span :=
  if start ≤ stop then .ok ⟨start, stop⟩
  else .error ("Span end (" ++ toString stop ++ ") < start (" ++ toString start ++ ")")

/-- A span in JSON. -/
def toJson (s : Span) : Json :=
  .object [("start", .ofNat s.start), ("end", .ofNat s.stop)]

end Span

end CommandLines
