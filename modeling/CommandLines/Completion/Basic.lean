/-
Completions: texts to put in the place of a part of the line.

A set of completions has one span for all of them.  To get there each completion is
widened to the span that holds them all, by copying the text of the line around it, so
that accepting it still gives the same line.  Then the set is sorted, and what occurs
twice is dropped.
-/
import CommandLines.Span

namespace CommandLines

/-- A text that may replace a span of the line. -/
structure Completion where
  span : Span
  text : String
  /-- An explanation to show beside the text. -/
  tooltip? : Option String := none
  /-- The number that the text stands for, if the completion was made from one. -/
  number? : Option Int32 := none
deriving DecidableEq, Repr

namespace Completion

/-- The line with the completion accepted.  A span that does not fit the line is taken to start at
its end, and nothing follows a span that does not end inside. -/
def apply (c : Completion) (line : String) : String :=
  let cs := line.toList
  if c.span.start == 0 && c.span.stop == Text.bytes cs then c.text
  else
    let before := match Text.cut? cs c.span.start with
      | some (before, _) => before
      | none => cs
    let after := match Text.cut? cs c.span.stop with
      | some (_, after) => after
      | none => []
    String.ofList (before ++ c.text.toList ++ after)

/-- The completion for a wider span: the text of the line on both sides comes along, and the text
no longer stands for a number. -/
def widen (c : Completion) (line : String) (span : Span) : Completion :=
  if span = c.span then c
  else
    let before : Span := ⟨span.start, c.span.start⟩
    let after : Span := ⟨c.span.stop, span.stop⟩
    let before := if before.start < before.stop then before.text line else ""
    let after := if after.start < after.stop then after.text line else ""
    { span, text := before ++ c.text ++ after, tooltip? := c.tooltip? }

/-- Whether two completions look the same and do the same. -/
def same (a b : Completion) : Bool :=
  a.text == b.text && a.span == b.span && a.tooltip? == b.tooltip?

/-- A completion in JSON; a tooltip that it lacks is left out. -/
def toJson (c : Completion) : Json :=
  let tooltip := match c.tooltip? with
    | none => []
    | some tip => [("tooltip", Json.string tip)]
  .object ([("range", c.span.toJson), ("text", .string c.text)] ++ tooltip)

/-- Whether a tooltip comes before another: none before any. -/
def tooltipOrder : Option String → Option String → Ordering
  | none, none => .eq
  | none, some _ => .lt
  | some _, none => .gt
  | some a, some b => compare a b

end Completion

/-- Completions for one span, in order and without repetition. -/
structure Completions where
  span : Span
  list : List Completion
deriving DecidableEq, Repr

namespace Completions

/-- No completions. -/
def none : Completions := ⟨.point 0, []⟩

/-- Whether there is no completion. -/
def isEmpty (cs : Completions) : Bool := cs.list.isEmpty

/-- The list without the completions that are the same as the one before them. -/
def squeezeAfter (last : Completion) : List Completion → List Completion
  | [] => []
  | c :: cs => if c.same last then squeezeAfter last cs else c :: squeezeAfter c cs

/-- The list with only the first of each run of completions that are the same. -/
def squeeze : List Completion → List Completion
  | [] => []
  | c :: cs => c :: squeezeAfter c cs

/-- The smallest span that holds the spans of all the completions. -/
def hull (first : Completion) (others : List Completion) : Span :=
  others.foldl (fun s c => s.hull c.span) first.span

/-- Completions in JSON. -/
def toJson (cs : Completions) : Json :=
  .object [("range", cs.span.toJson), ("suggestions", .array (cs.list.map Completion.toJson))]

end Completions

end CommandLines
