/-
What can go wrong.

A cause is one of the ways in which reading or running a command line fails, together
with the details that its message names.  Its code leads to the catalogue, which words
the message; `Cause.details` holds a value for every name in that wording.
-/
import CommandLines.Fault.Catalogue
import CommandLines.Value

namespace CommandLines

/-- The families of causes. -/
inductive Category where
  /-- A malformed quote, escape, number or boolean. -/
  | lexical
  /-- A well-formed value outside the bounds of its argument. -/
  | semantic
  /-- A line that the tree has no place for. -/
  | grammar
  /-- Work abandoned for lack of quota. -/
  | execution
  /-- A command that asked for an argument it does not have. -/
  | usage
  /-- A failure of the host's own. -/
  | custom
deriving DecidableEq, Repr

/-- The word for a category. -/
def Category.name : Category → String
  | .lexical => "lexical"
  | .semantic => "semantic"
  | .grammar => "grammar"
  | .execution => "execution"
  | .usage => "usage"
  | .custom => "custom"

/-- The reasons why reading or running a line fails. -/
inductive Cause where
  /-- A quoted text was required and something else stands there. -/
  | expectedQuote
  /-- A quoted text runs to the end of the line. -/
  | unclosedQuote
  /-- A backslash inside quotes before a character that needs none. -/
  | badEscape (character : Char)
  /-- A word that is neither `true` nor `false`. -/
  | badBool (word : String)
  /-- Nothing where a boolean was required. -/
  | expectedBool
  /-- A run of number characters that is no number of the width. -/
  | badNumber (type : NumberType) (run : String)
  /-- No number character where a number was required. -/
  | expectedNumber (type : NumberType)
  /-- A certain character was required. -/
  | expectedSymbol (symbol : Char)
  /-- A number below the bound of its argument. -/
  | tooLow (type : NumberType) (found minimum : type.Carrier)
  /-- A number above the bound of its argument. -/
  | tooHigh (type : NumberType) (found maximum : type.Carrier)
  /-- A literal word that does not stand where it was tried. -/
  | expectedLiteral (word : String)
  /-- Nothing known starts here, or the line ends where nothing can be run. -/
  | unknownCommand
  /-- A command is known but not what follows it. -/
  | unknownArgument
  /-- An argument goes straight on into other characters. -/
  | expectedSeparator
  /-- A parser of the host's own refused the text. -/
  | parseFailure (message : String)
  /-- Running a line took more entries than the quota. -/
  | limitReached (limit : Nat)
  /-- No argument has this name. -/
  | noSuchArgument (name : String)
  /-- The argument of this name has another type. -/
  | argumentType (name : String) (expected found : ValueType)
  /-- A failure of the host's own. -/
  | custom (message : String)

namespace Cause

/-- The code under which the catalogue has the cause. -/
def code : Cause → String
  | .expectedQuote => "CMD1001"
  | .unclosedQuote => "CMD1002"
  | .badEscape _ => "CMD1003"
  | .badBool _ => "CMD1004"
  | .expectedBool => "CMD1005"
  | .badNumber .int _ => "CMD1006"
  | .expectedNumber .int => "CMD1007"
  | .badNumber .long _ => "CMD1008"
  | .expectedNumber .long => "CMD1009"
  | .badNumber .double _ => "CMD1010"
  | .expectedNumber .double => "CMD1011"
  | .badNumber .float _ => "CMD1012"
  | .expectedNumber .float => "CMD1013"
  | .expectedSymbol _ => "CMD1014"
  | .tooLow .int _ _ => "CMD2001"
  | .tooHigh .int _ _ => "CMD2002"
  | .tooLow .long _ _ => "CMD2003"
  | .tooHigh .long _ _ => "CMD2004"
  | .tooLow .float _ _ => "CMD2005"
  | .tooHigh .float _ _ => "CMD2006"
  | .tooLow .double _ _ => "CMD2007"
  | .tooHigh .double _ _ => "CMD2008"
  | .expectedLiteral _ => "CMD3001"
  | .unknownCommand => "CMD3002"
  | .unknownArgument => "CMD3003"
  | .expectedSeparator => "CMD3004"
  | .parseFailure _ => "CMD3005"
  | .limitReached _ => "CMD3006"
  | .noSuchArgument _ => "CMD4001"
  | .argumentType _ _ _ => "CMD4002"
  | .custom _ => "CMD9000"

/-- The family of the cause. -/
def category : Cause → Category
  | .expectedQuote | .unclosedQuote | .badEscape _ | .badBool _ | .expectedBool
  | .badNumber _ _ | .expectedNumber _ | .expectedSymbol _ => .lexical
  | .tooLow _ _ _ | .tooHigh _ _ _ => .semantic
  | .expectedLiteral _ | .unknownCommand | .unknownArgument | .expectedSeparator
  | .parseFailure _ => .grammar
  | .limitReached _ => .execution
  | .noSuchArgument _ | .argumentType _ _ _ => .usage
  | .custom _ => .custom

/-- The details by name, in the order of the names. -/
def details : Cause → List (String × String)
  | .badEscape c => [("character", String.singleton c)]
  | .badBool word => [("value", word)]
  | .badNumber _ run => [("value", run)]
  | .expectedSymbol c => [("symbol", String.singleton c)]
  | .tooLow t found minimum => [("found", t.render found), ("minimum", t.render minimum)]
  | .tooHigh t found maximum => [("found", t.render found), ("maximum", t.render maximum)]
  | .expectedLiteral word => [("expected", word)]
  | .parseFailure message => [("message", message)]
  | .limitReached limit => [("limit", toString limit)]
  | .noSuchArgument name => [("name", name)]
  | .argumentType name expected found =>
    [("expected", expected.name), ("found", found.name), ("name", name)]
  | .custom message => [("message", message)]
  | .expectedQuote | .unclosedQuote | .expectedBool | .expectedNumber _ | .unknownCommand
  | .unknownArgument | .expectedSeparator => []

/-- The message of the cause; a cause outside the catalogue would be told by its code. -/
def message (c : Cause) : String := (Catalogue.message? c.code c.details).getD c.code

end Cause

end CommandLines
