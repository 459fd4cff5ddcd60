/-
Sets of completions for one line.

Numbers come first, by value.  Texts follow in the order of their lower case forms, and
of the texts themselves where those agree.
-/
import CommandLines.Completion.Basic
import CommandLines.Text.LowerCase

namespace CommandLines

/-- The order in which completions are offered. -/
def Completion.order (a b : Completion) : Ordering :=
  match a.number?, b.number? with
  | some x, some y => (compare x y).then (a.span.order b.span)
  | some _, none => .lt
  | none, some _ => .gt
  | none, none =>
    (compare (Text.lower a.text) (Text.lower b.text)).then
      ((compare a.text b.text).then
        ((a.span.order b.span).then (Completion.tooltipOrder a.tooltip? b.tooltip?)))

namespace Completions

/-- The set of these completions of a line. -/
def ofList (line : String) : List Completion → Completions
  | [] => none
  | c :: cs =>
    let span := hull c cs
    let widened := (c :: cs).map (·.widen line span)
    ⟨span, squeeze (widened.mergeSort fun a b => a.order b != .gt)⟩

/-- The completions of several sets of the same line; a single set stays as it is. -/
def merge (line : String) : List Completions → Completions
  | [] => none
  | [cs] => cs
  | sets => ofList line (sets.flatMap (·.list))

end Completions

end CommandLines
