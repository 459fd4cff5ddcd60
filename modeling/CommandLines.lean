import CommandLines.ArgumentType
import CommandLines.Completion.Basic
import CommandLines.Completion.Completer
import CommandLines.Completion.Order
import CommandLines.Console.Builtin
import CommandLines.Console.GrammarFile
import CommandLines.Console.Options
import CommandLines.Console.Report
import CommandLines.Context
import CommandLines.Cursor.Basic
import CommandLines.Cursor.Place
import CommandLines.Cursor.Quoting
import CommandLines.Cursor.Reading
import CommandLines.Dictionary
import CommandLines.Execution.Chain
import CommandLines.Execution.Host
import CommandLines.Execution.Machine
import CommandLines.Fault.Basic
import CommandLines.Fault.Catalogue
import CommandLines.Fault.Cause
import CommandLines.Fault.Diagnostic
import CommandLines.Inspection
import CommandLines.Json.Reader
import CommandLines.Json.Selection
import CommandLines.Json.Value
import CommandLines.Json.Writer
import CommandLines.Main
import CommandLines.Number.Binary
import CommandLines.Number.Layout
import CommandLines.Number.Numeral
import CommandLines.Number.Shortest
import CommandLines.Proofs.Completion.Acceptance
import CommandLines.Proofs.Completion.Effect
import CommandLines.Proofs.Completion.Grouping
import CommandLines.Proofs.Completion.Order
import CommandLines.Proofs.Completion.Point
import CommandLines.Proofs.Completion.Proposals
import CommandLines.Proofs.Completion.Ranges
import CommandLines.Proofs.Completion.Repetition
import CommandLines.Proofs.Console.Defaults
import CommandLines.Proofs.Console.Descriptions
import CommandLines.Proofs.Execution.Direct
import CommandLines.Proofs.Execution.Discipline
import CommandLines.Proofs.Execution.Evaluation
import CommandLines.Proofs.Execution.Isolation
import CommandLines.Proofs.Execution.Iterations
import CommandLines.Proofs.Execution.Preview
import CommandLines.Proofs.Execution.Queueing
import CommandLines.Proofs.Execution.Quota
import CommandLines.Proofs.Execution.Refinement
import CommandLines.Proofs.Execution.Reports
import CommandLines.Proofs.Execution.Rounds
import CommandLines.Proofs.Execution.Strands
import CommandLines.Proofs.Execution.Turns
import CommandLines.Proofs.Execution.Work
import CommandLines.Proofs.Fault.Excerpt
import CommandLines.Proofs.Fault.Messages
import CommandLines.Proofs.List
import CommandLines.Proofs.Reading.Arguments
import CommandLines.Proofs.Reading.Booleans
import CommandLines.Proofs.Reading.Completeness
import CommandLines.Proofs.Reading.Defaults
import CommandLines.Proofs.Reading.Delimited
import CommandLines.Proofs.Reading.Divergence
import CommandLines.Proofs.Reading.Escapes
import CommandLines.Proofs.Reading.Literals
import CommandLines.Proofs.Reading.Matching
import CommandLines.Proofs.Reading.Numerals
import CommandLines.Proofs.Reading.Offsets
import CommandLines.Proofs.Reading.Permission
import CommandLines.Proofs.Reading.Priority
import CommandLines.Proofs.Reading.Quoting
import CommandLines.Proofs.Reading.Rendering
import CommandLines.Proofs.Reading.Separators
import CommandLines.Proofs.Reading.Soundness
import CommandLines.Proofs.Reading.Stages
import CommandLines.Proofs.Reading.Steps
import CommandLines.Proofs.Reading.Trail
import CommandLines.Proofs.Reading.Translation
import CommandLines.Proofs.Reading.Words
import CommandLines.Proofs.Span
import CommandLines.Proofs.Text.Brackets
import CommandLines.Proofs.Tree.Ambiguity
import CommandLines.Proofs.Tree.Arena
import CommandLines.Proofs.Tree.Brackets
import CommandLines.Proofs.Tree.Discretion
import CommandLines.Proofs.Tree.Lineage
import CommandLines.Proofs.Tree.Lookup
import CommandLines.Proofs.Tree.Merging
import CommandLines.Proofs.Tree.Redirects
import CommandLines.Proofs.Tree.Registration
import CommandLines.Proofs.Tree.Usage
import CommandLines.Reading.Basic
import CommandLines.Reading.Completion
import CommandLines.Reading.Trace
import CommandLines.Script.Basic
import CommandLines.Script.Blueprint
import CommandLines.Script.Host
import CommandLines.Script.Proposal
import CommandLines.Span
import CommandLines.Text.Blank
import CommandLines.Text.Bytes
import CommandLines.Text.CaseTable
import CommandLines.Text.Escape
import CommandLines.Text.EscapeTable
import CommandLines.Text.LowerCase
import CommandLines.Text.Replace
import CommandLines.Tree.Ambiguity
import CommandLines.Tree.Arena
import CommandLines.Tree.Basic
import CommandLines.Tree.Draft
import CommandLines.Tree.Index
import CommandLines.Tree.Matching
import CommandLines.Tree.Node
import CommandLines.Tree.Register
import CommandLines.Tree.Usage
import CommandLines.Value
