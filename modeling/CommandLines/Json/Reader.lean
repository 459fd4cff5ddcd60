/-
Reading JSON text.

Each reader takes the characters that are left and returns a value with the characters
after it, or fails.  A value may be nested at most 127 deep.  Readers that call each
other are bounded by a number of steps; every step takes a character, so the length of
the text is enough of them.
-/
import CommandLines.Json.Value

namespace CommandLines.Json

/-- The text after any blanks. -/
def skipBlanks (cs : List Char) : List Char :=
  cs.dropWhile fun c => c == ' ' || c == '\n' || c == '\t' || c == '\r'

/-! ### Numbers -/

/-- The largest integer that a number keeps exactly. -/
def maxExact : Nat := 0xFFFFFFFFFFFFFFFF

/-- The digits of a number taken in so far: a whole number, and the power of ten it is to be
multiplied with. -/
structure Scaled where
  coefficient : Nat
  exponent : Int
  /-- Set once a digit did not fit; from then on digits only count. -/
  full : Bool

/-- Take in one more digit before the point. -/
def Scaled.whole (s : Scaled) (c : Char) : Scaled :=
  let next := 10 * s.coefficient + (c.toNat - '0'.toNat)
  if s.full || maxExact < next then { s with exponent := s.exponent + 1, full := true }
  else { s with coefficient := next }

/-- Take in one more digit after the point. -/
def Scaled.fraction (s : Scaled) (c : Char) : Scaled :=
  let next := 10 * s.coefficient + (c.toNat - '0'.toNat)
  if s.full || maxExact < next then { s with full := true }
  else { s with coefficient := next, exponent := s.exponent - 1 }

/-- The power of ten as a double. -/
def powerOfTen (n : Nat) : Float :=
  Float.ofBits (UInt64.ofNat (CommandLines.Number.BinaryFormat.double.nearest (Nat.pow 10 n) 1))

/-- A double multiplied with a power of ten in double arithmetic, with one rounding for each 308
places of the exponent; nothing when the result is too large. -/
def scale : Nat → Float → Int → Option Float
  | 0, x, _ => some x
  | steps + 1, x, e =>
    if e.natAbs ≤ 308 then
      if 0 ≤ e then
        let y := x * powerOfTen e.natAbs
        if y.isInf then none else some y
      else some (x / powerOfTen e.natAbs)
    else if x == 0 then some x
    else if 0 ≤ e then none
    else scale steps (x / powerOfTen 308) (e + 308)

/-- The double that a coefficient and an exponent stand for, with a sign. -/
def signedDouble (negative : Bool) (coefficient : Nat) (exponent : Int) : Option Float := do
  -- Three divisions by 10^308 take every coefficient to zero.
  let x ← scale 4 (CommandLines.Number.doubleOfInt coefficient) exponent
  return if negative then -x else x

/-- How a number is spelled: its sign, and the digits of its whole part, of its fraction and of its
exponent. -/
structure Spelling where
  negative : Bool
  whole : List Char
  fraction? : Option (List Char)
  /-- Whether the exponent is negative, and its digits. -/
  exponent? : Option (Bool × List Char)

/-- The digits in front, of which there must be some, and the text after them. -/
def digits? (cs : List Char) : Option (List Char × List Char) :=
  let digits := cs.takeWhile Char.isDigit
  if digits.isEmpty then none else some (digits, cs.dropWhile Char.isDigit)

/-- A point with digits, or nothing at all. -/
def fraction? : List Char → Option (Option (List Char) × List Char)
  | '.' :: rest => do
    let (digits, rest) ← digits? rest
    return (some digits, rest)
  | cs => some (none, cs)

/-- An exponent with its letter, or nothing at all. -/
def exponent? : List Char → Option (Option (Bool × List Char) × List Char)
  | [] => some (none, [])
  | c :: rest =>
    if c == 'e' || c == 'E' then do
      let (negative, rest) := match rest with
        | '-' :: rest => (true, rest)
        | '+' :: rest => (false, rest)
        | rest => (false, rest)
      let (digits, rest) ← digits? rest
      return (some (negative, digits), rest)
    else some (none, c :: rest)

/-- The spelling of a number, and the text after it. -/
def spelling? (cs : List Char) : Option (Spelling × List Char) := do
  let (negative, cs) := CommandLines.Number.splitSign cs
  let (whole, cs) ← digits? cs
  -- No number starts with a zero that another digit follows.
  if whole.head? == some '0' && whole.length != 1 then none
  else
    let (fraction?, cs) ← fraction? cs
    let (exponent?, cs) ← exponent? cs
    return (⟨negative, whole, fraction?, exponent?⟩, cs)

/-- The power of ten that the exponent asks for. -/
def Spelling.power (s : Spelling) : Int :=
  match s.exponent? with
  | none => 0
  | some (negative, digits) =>
    let n : Int := CommandLines.Number.ofDigits digits
    if negative then -n else n

/-- The digits before the point, taken in. -/
def Spelling.integer (s : Spelling) : Scaled := s.whole.foldl Scaled.whole ⟨0, 0, false⟩

/-- The double that is spelled, if it is not too large for one. -/
def Spelling.double? (s : Spelling) : Option Float :=
  let all := (s.fraction?.getD []).foldl Scaled.fraction { s.integer with full := false }
  signedDouble s.negative all.coefficient (all.exponent + s.power)

/-- The number that is spelled: an integer where it fits one, and otherwise a double. -/
def Spelling.number? (s : Spelling) : Option Number :=
  let n := s.integer.coefficient
  if s.fraction?.isSome || s.exponent?.isSome || s.integer.full then s.double?.map .double
  else if !s.negative then some (.int n)
  else if 0 < n && n ≤ 0x8000000000000000 then some (.int (-(n : Int)))
  else s.double?.map .double

/-- A number. -/
def number? (cs : List Char) : Option (Number × List Char) := do
  let (s, rest) ← spelling? cs
  return (← s.number?, rest)

/-! ### Strings -/

/-- The value of a hexadecimal digit. -/
def hexValue? (c : Char) : Option Nat :=
  if c.isDigit then some (c.toNat - 48)
  else if 'a' ≤ c && c ≤ 'f' then some (c.toNat - 87)
  else if 'A' ≤ c && c ≤ 'F' then some (c.toNat - 55)
  else none

/-- A number of four hexadecimal digits. -/
def hex4? : List Char → Option (Nat × List Char)
  | a :: b :: c :: d :: rest => do
    let n := (← hexValue? a) * 4096 + (← hexValue? b) * 256 + (← hexValue? c) * 16 + (← hexValue? d)
    return (n, rest)
  | _ => none

/-- The character after the letter `u` of an escape: one number, or two that are a surrogate pair.
-/
def unicodeEscape? (cs : List Char) : Option (Char × List Char) := do
  let (n, rest) ← hex4? cs
  if 0xD800 ≤ n && n ≤ 0xDBFF then
    match rest with
    | '\\' :: 'u' :: more =>
      let (m, rest) ← hex4? more
      if 0xDC00 ≤ m && m ≤ 0xDFFF then
        some (Char.ofNat (0x10000 + (n - 0xD800) * 1024 + (m - 0xDC00)), rest)
      else none
    | _ => none
  else if 0xDC00 ≤ n && n ≤ 0xDFFF then none
  else some (Char.ofNat n, rest)

/-- The character that a letter after a backslash stands for. -/
def escape? : Char → Option Char
  | '"' => some '"'
  | '\\' => some '\\'
  | '/' => some '/'
  | 'b' => some '\x08'
  | 'f' => some '\x0c'
  | 'n' => some '\n'
  | 'r' => some '\r'
  | 't' => some '\t'
  | _ => none

/-- The rest of a string whose opening quote has been read; `done` is the text so far, in reverse.
-/
def stringRest? : Nat → List Char → List Char → Option (String × List Char)
  | 0, _, _ => none
  | steps + 1, done, cs =>
    match cs with
    | [] => none
    | '"' :: rest => some (String.ofList done.reverse, rest)
    | '\\' :: 'u' :: rest => do
      let (c, rest) ← unicodeEscape? rest
      stringRest? steps (c :: done) rest
    | '\\' :: c :: rest => do
      let d ← escape? c
      stringRest? steps (d :: done) rest
    | c :: rest => if c.toNat < 0x20 || c == '\\' then none else stringRest? steps (c :: done) rest

/-! ### Values -/

/-- The text after a word, when it starts with it. -/
def afterWord? (word : String) (cs : List Char) : Option (List Char) :=
  if word.toList.isPrefixOf cs then some (cs.drop word.length) else none

mutual

/-- A value, after any blanks; `depth` brackets may still be opened. -/
def value? : (steps depth : Nat) → List Char → Option (Json × List Char)
  | 0, _, _ => none
  | steps + 1, depth, cs =>
    match skipBlanks cs with
    | [] => none
    | '"' :: rest => do
      let (s, rest) ← stringRest? (rest.length + 1) [] rest
      return (.string s, rest)
    | '[' :: rest =>
      match depth with
      | 0 => none
      | depth + 1 =>
        match skipBlanks rest with
        | ']' :: rest => some (.array [], rest)
        | rest => items? steps depth [] rest
    | '\x7b' :: rest =>
      match depth with
      | 0 => none
      | depth + 1 =>
        match skipBlanks rest with
        | '\x7d' :: rest => some (.object [], rest)
        | rest => members? steps depth [] rest
    | c :: rest =>
      if c == 'n' then (afterWord? "null" (c :: rest)).map (.null, ·)
      else if c == 't' then (afterWord? "true" (c :: rest)).map (.bool true, ·)
      else if c == 'f' then (afterWord? "false" (c :: rest)).map (.bool false, ·)
      else (number? (c :: rest)).map fun (n, rest) => (.number n, rest)

/-- The items of an array up to its closing bracket; `done` are those read so far, in reverse. -/
def items? : (steps depth : Nat) → List Json → List Char → Option (Json × List Char)
  | 0, _, _, _ => none
  | steps + 1, depth, done, cs => do
    let (j, rest) ← value? steps depth cs
    match skipBlanks rest with
    | ',' :: rest => items? steps depth (j :: done) rest
    | ']' :: rest => some (.array (j :: done).reverse, rest)
    | _ => none

/-- The members of an object up to its closing bracket; `done` are those read so far, in reverse. -/
def members? : (steps depth : Nat) → List (String × Json) → List Char → Option (Json × List Char)
  | 0, _, _, _ => none
  | steps + 1, depth, done, cs =>
    match skipBlanks cs with
    | '"' :: rest => do
      let (name, rest) ← stringRest? (rest.length + 1) [] rest
      match skipBlanks rest with
      | ':' :: rest =>
        let (j, rest) ← value? steps depth rest
        match skipBlanks rest with
        | ',' :: rest => members? steps depth ((name, j) :: done) rest
        | '\x7d' :: rest => some (.object ((name, j) :: done).reverse, rest)
        | _ => none
      | _ => none
    | _ => none

end

/-- How many brackets may be open at once. -/
def maxDepth : Nat := 127

/-- A value in which `depth` brackets may be open at once. -/
def nested? (depth : Nat) (cs : List Char) : Option (Json × List Char) :=
  value? (2 * cs.length + 2) depth cs

/-- The value that a whole text stands for. -/
def read? (text : String) : Option Json :=
  match nested? maxDepth text.toList with
  | some (j, rest) => if (skipBlanks rest).isEmpty then some j else none
  | none => none

end CommandLines.Json
