/-
Binary interchange formats, and the nearest value to a fraction.

A format is given by the widths of its fraction and exponent fields.  Its values without
sign are the bit patterns up to infinity, and the patterns are in the order of the
values: counting up by one goes to the next value, also across powers of two and from
the subnormal values to the normal ones.  So rounding needs one division only, in units
of the last place, and the carry takes care of itself.
-/
import CommandLines.Number.Numeral

namespace CommandLines.Number

/-- The widths of the two fields of a binary interchange format. -/
structure BinaryFormat where
  fractionBits : Nat
  exponentBits : Nat

namespace BinaryFormat

/-- The format of 32 bits. -/
def single : BinaryFormat := ⟨23, 8⟩

/-- The format of 64 bits. -/
def double : BinaryFormat := ⟨52, 11⟩

/-- The power of two that is the distance between the smallest values. -/
def leastUnit (f : BinaryFormat) : Int :=
  2 - (Nat.pow 2 (f.exponentBits - 1) : Int) - (f.fractionBits : Int)

/-- The bit pattern of infinity. -/
def infinity (f : BinaryFormat) : Nat := (Nat.pow 2 f.exponentBits - 1) * Nat.pow 2 f.fractionBits

/-- The bit that holds the sign. -/
def signBit (f : BinaryFormat) : Nat := Nat.pow 2 (f.fractionBits + f.exponentBits)

end BinaryFormat

/-- `num / den` rounded to a whole number, a half going to the even neighbour. -/
def nearestEven (num den : Nat) : Nat :=
  let q := num / den
  let r := num % den
  if den < 2 * r || (2 * r == den && q % 2 == 1) then q + 1 else q

/-- The largest power of two that is at most `num / den`, for positive `num` and `den`. -/
def floorLog2 (num den : Nat) : Int :=
  let g : Int := (Nat.log2 num : Int) - Nat.log2 den
  if den * Nat.pow 2 g.toNat ≤ num * Nat.pow 2 (-g).toNat then g else g - 1

/-- The bit pattern of the value nearest to `num / den`; what is too large becomes infinity. -/
def BinaryFormat.nearest (f : BinaryFormat) (num den : Nat) : Nat :=
  if num == 0 then 0
  else
    let unit := max (floorLog2 num den - f.fractionBits) f.leastUnit
    let steps := nearestEven (num * Nat.pow 2 (-unit).toNat) (den * Nat.pow 2 unit.toNat)
    min ((unit - f.leastUnit).toNat * Nat.pow 2 f.fractionBits + steps) f.infinity

/-- The bit pattern, with its sign, of the value nearest to a decimal fraction. -/
def BinaryFormat.ofDecimal (f : BinaryFormat) (d : Decimal) : Nat :=
  (if d.negative then f.signBit else 0) + f.nearest d.coefficient (Nat.pow 10 d.places)

/-- A bit pattern below infinity as a whole number of units, and the power of two that is the unit.
-/
def BinaryFormat.split (f : BinaryFormat) (bits : Nat) : Nat × Int :=
  let exponent := bits / Nat.pow 2 f.fractionBits
  let fraction := bits % Nat.pow 2 f.fractionBits
  if exponent == 0 then (fraction, f.leastUnit)
  else (Nat.pow 2 f.fractionBits + fraction, f.leastUnit + exponent - 1)

/-- The nearest value of 32 bits. -/
def Decimal.toSingle (d : Decimal) : Float32 :=
  Float32.ofBits (UInt32.ofNat (BinaryFormat.single.ofDecimal d))

/-- The nearest value of 64 bits. -/
def Decimal.toDouble (d : Decimal) : Float :=
  Float.ofBits (UInt64.ofNat (BinaryFormat.double.ofDecimal d))

/-- The nearest value of 32 bits to an integer. -/
def singleOfInt (i : Int) : Float32 := Decimal.toSingle ⟨i < 0, i.natAbs, 0⟩

/-- The nearest value of 64 bits to an integer. -/
def doubleOfInt (i : Int) : Float := Decimal.toDouble ⟨i < 0, i.natAbs, 0⟩

end CommandLines.Number
