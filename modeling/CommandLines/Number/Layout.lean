/-
How a binary value is written out.

The digits are the shortest that read back; a layout settles the rest: where a tie goes,
what a whole number ends in, and for which places of the point the digits are written in
positional notation rather than with an exponent.
-/
import CommandLines.Number.Shortest

namespace CommandLines.Number

/-- The decisions of one way to write numbers. -/
structure Layout where
  /-- Where an exact tie between two shortest decimals goes. -/
  tie : Tie
  /-- What is written after a whole number. -/
  wholeEnd : String
  /-- The least and the greatest place of the point, counted from the first digit, that is written
  positionally; without bounds every number is. -/
  positional : Option (Int × Int)
  /-- What an exponent starts with that is not negative. -/
  plus : String

/-- Numbers as they are shown to a person: plain digits, never an exponent. -/
def Layout.plain : Layout := ⟨.up, "", none, ""⟩

/-- A run of zeros. -/
def zeros (n : Nat) : String := String.ofList (List.replicate n '0')

/-- The decimal `coefficient * 10 ^ exponent` in this layout. -/
def Layout.write (l : Layout) (coefficient : Nat) (exponent : Int) : String :=
  let digits := toString coefficient
  let point : Int := digits.length + exponent
  let positional := match l.positional with
    | none => true
    | some (least, greatest) => least ≤ point && point ≤ greatest
  if positional then
    if point ≤ 0 then "0." ++ zeros (-point).toNat ++ digits
    else if 0 ≤ exponent then digits ++ zeros exponent.toNat ++ l.wholeEnd
    else
      String.ofList (digits.toList.take point.toNat) ++ "." ++
        String.ofList (digits.toList.drop point.toNat)
  else
    let fraction := String.ofList (digits.toList.drop 1)
    String.ofList (digits.toList.take 1) ++ (if fraction.isEmpty then "" else "." ++ fraction) ++
      "e" ++ (if 1 ≤ point then l.plus else "") ++ toString (point - 1)

/-- The value with a bit pattern of the format in this layout. -/
def Layout.ofBits (l : Layout) (f : BinaryFormat) (bits : Nat) : String :=
  let sign := if bits < f.signBit then "" else "-"
  let magnitude := bits % f.signBit
  if f.infinity < magnitude then "NaN"
  else if magnitude == f.infinity then sign ++ "inf"
  else if magnitude == 0 then sign ++ "0" ++ l.wholeEnd
  else
    let (d, p) := f.shortest l.tie magnitude
    sign ++ l.write d p

/-- A value of 32 bits in this layout. -/
def Layout.single (l : Layout) (x : Float32) : String :=
  l.ofBits .single x.toBits.toNat

/-- A value of 64 bits in this layout. -/
def Layout.double (l : Layout) (x : Float) : String :=
  l.ofBits .double x.toBits.toNat

end CommandLines.Number
