/-
Numerals: numbers as they are written with digits.

An integer numeral is an optional minus sign and at least one digit.  A decimal numeral
may also hold one point, with digits before it, after it, or on both sides.  Nothing else
is a numeral: no plus sign, no second point, no exponent.
-/

namespace CommandLines.Number

/-- Whether the text is one digit or more, and nothing else. -/
def isDigits (cs : List Char) : Bool := !cs.isEmpty && cs.all Char.isDigit

/-- The number that a run of digits stands for. -/
def ofDigits (cs : List Char) : Nat := cs.foldl (fun n c => 10 * n + (c.toNat - '0'.toNat)) 0

/-- Whether the text starts with a minus sign, and what follows the sign. -/
def splitSign : List Char → Bool × List Char
  | '-' :: cs => (true, cs)
  | cs => (false, cs)

/-- The value of an integer numeral. -/
def integer? (cs : List Char) : Option Int :=
  let (negative, ds) := splitSign cs
  if isDigits ds then
    some (if negative then -(ofDigits ds : Int) else ofDigits ds)
  else none

/-- A decimal fraction: `coefficient / 10 ^ places`, with the sign apart so that zero may carry one.
-/
structure Decimal where
  negative : Bool
  coefficient : Nat
  places : Nat
deriving DecidableEq, Repr

/-- The value of a decimal numeral. -/
def decimal? (cs : List Char) : Option Decimal :=
  let (negative, ds) := splitSign cs
  let whole := ds.takeWhile (· != '.')
  let fraction := (ds.dropWhile (· != '.')).drop 1
  if isDigits (whole ++ fraction) then
    some ⟨negative, ofDigits (whole ++ fraction), fraction.length⟩
  else none

end CommandLines.Number
