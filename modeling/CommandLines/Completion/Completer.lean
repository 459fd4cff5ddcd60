/-
Completers: they collect completions for the end of a line.

A completer knows the line up to where it is being completed and the offset from which
the text is to be replaced.  What is already typed there is not proposed again.
-/
import CommandLines.Completion.Order

namespace CommandLines

/-- Completions being collected for the text of `line` from byte `start` on. -/
structure Completer where
  line : String
  start : Nat
  collected : List Completion := []
deriving DecidableEq, Repr

namespace Completer

/-- A completer of the text from an offset on; an offset past the end counts as the end. -/
def ofLine (line : String) (start : Nat) : Completer :=
  { line, start := min start (Text.bytes line.toList) }

/-- What is typed already; nothing when the completer starts inside a character. -/
def typed (b : Completer) : String :=
  match Text.cut? b.line.toList b.start with
  | some (_, after) => String.ofList after
  | none => ""

/-- What is typed already, in lower case. -/
def typedLower (b : Completer) : String := Text.lower b.typed

/-- The span that completions replace. -/
def span (b : Completer) : Span := ⟨b.start, Text.bytes b.line.toList⟩

/-- Collect a completion. -/
def push (b : Completer) (c : Completion) : Completer := { b with collected := b.collected ++ [c] }

/-- Propose a text, unless it is what is typed already. -/
def suggest (b : Completer) (text : String) (tooltip? : Option String := none) : Completer :=
  if text == b.typed then b else b.push { span := b.span, text, tooltip? }

/-- Propose a number. -/
def suggestNumber (b : Completer) (n : Int32) : Completer :=
  b.push { span := b.span, text := toString n.toInt, number? := some n }

/-- Take over what another completer has collected. -/
def add (b other : Completer) : Completer := { b with collected := b.collected ++ other.collected }

/-- A completer without completions for the same line from another offset on. -/
def movedTo (b : Completer) (start : Nat) : Completer := ofLine b.line start

/-- A completer without completions for the same line and offset. -/
def restart (b : Completer) : Completer := ofLine b.line b.start

/-- The set of what has been collected. -/
def finish (b : Completer) : Completions := .ofList b.line b.collected

/-- Propose those candidates that in lower case start with what is typed. -/
def suggestMatching (b : Completer) (candidates : List String) : Completer :=
  candidates.foldl
    (fun b text => if Text.startsWith (Text.lower text) b.typedLower then b.suggest text else b) b

end Completer

end CommandLines
