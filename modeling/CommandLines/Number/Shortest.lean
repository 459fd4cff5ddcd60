/-
The shortest decimal that reads back.

A decimal reads back as a binary value when it lies among the reals that round to that
value: up to half a unit away on either side, or a quarter of a unit below where the
value is a power of two and the values underneath lie closer together.  The ends belong
to it when the value is even.  The decimals with a given last place form a grid; the
coarsest grid with a point in the interval gives the fewest digits, and if any of its
points lies in the interval, then one of the value's two neighbours on that grid does.
-/
import CommandLines.Number.Binary

namespace CommandLines.Number

/-- Where a value goes that lies exactly between two decimals of the shortest length. -/
inductive Tie where
  | up
  | even
deriving DecidableEq, Repr

/-- The decimal on the grid of multiples of `10 ^ p` that is nearest to the value and reads back as
it. -/
def BinaryFormat.onGrid? (f : BinaryFormat) (tie : Tie) (bits : Nat) (p : Int) : Option Nat :=
  let (m, q) := f.split bits
  -- Everything is measured in quarters of the unit, so that the ends are whole numbers too.
  let closed := m % 2 == 0
  let powerOfTwo := m == Nat.pow 2 f.fractionBits && f.leastUnit < q
  let value := 4 * m
  let low := if powerOfTwo then value - 1 else value - 2
  let high := value + 2
  -- A quarter unit is `a / b` grid steps.
  let u := q - 2
  let a := Nat.pow 2 u.toNat * Nat.pow 10 (-p).toNat
  let b := Nat.pow 10 p.toNat * Nat.pow 2 (-u).toNat
  let d := value * a / b
  let r := value * a % b
  let below := low * a < d * b || (closed && low * a == d * b)
  let above := (d + 1) * b < high * a || (closed && (d + 1) * b == high * a)
  match below, above with
  | true, true =>
    if 2 * r < b then some d
    else if b < 2 * r then some (d + 1)
    else
      match tie with
      | .up => some (d + 1)
      | .even => some (if d % 2 == 0 then d else d + 1)
  | true, false => some d
  | false, true => some (d + 1)
  | false, false => none

/-- The shortest decimal, `coefficient * 10 ^ exponent`, that reads back as a positive finite value.
-/
def BinaryFormat.shortest (f : BinaryFormat) (tie : Tie) (bits : Nat) : Nat × Int :=
  let (m, q) := f.split bits
  -- No grid from here on up has a point in the interval: its step exceeds twice the value.
  let top := (Nat.log2 m + q) * 30103 / 100000 + 2
  let grids := (List.range 30).map fun k : Nat => top - (k : Int)
  (grids.findSome? fun p => (f.onGrid? tie bits p).map fun d => (d, p)).getD (0, 0)

end CommandLines.Number
