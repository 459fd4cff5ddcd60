/-
Values of arguments, and their types.

Numbers come in four widths.  A value carries its type, so reading it back at another
type fails rather than converting.
-/
import CommandLines.Number.Layout

namespace CommandLines

/-- The widths of numbers. -/
inductive NumberType where
  | int
  | long
  | float
  | double
deriving DecidableEq, Repr

/-- The numbers of a width. -/
abbrev NumberType.Carrier : NumberType → Type
  | .int => Int32
  | .long => Int64
  | .float => Float32
  | .double => Float

/-- The text of a number. -/
def NumberType.render : (t : NumberType) → t.Carrier → String
  | .int, x => toString x.toInt
  | .long, x => toString x.toInt
  | .float, x => Number.Layout.plain.single x
  | .double, x => Number.Layout.plain.double x

/-- Whether one number is less than another; nothing is less or greater than what is not a number.
-/
def NumberType.less : (t : NumberType) → t.Carrier → t.Carrier → Bool
  | .int, x, y => decide (x < y)
  | .long, x, y => decide (x < y)
  | .float, x, y => decide (x < y)
  | .double, x, y => decide (x < y)

/-- The least finite number. -/
def NumberType.lowest : (t : NumberType) → t.Carrier
  | .int => Int32.minValue
  | .long => Int64.minValue
  | .float => Float32.ofBits 0xFF7FFFFF
  | .double => Float.ofBits 0xFFEFFFFFFFFFFFFF

/-- The greatest finite number. -/
def NumberType.highest : (t : NumberType) → t.Carrier
  | .int => Int32.maxValue
  | .long => Int64.maxValue
  | .float => Float32.ofBits 0x7F7FFFFF
  | .double => Float.ofBits 0x7FEFFFFFFFFFFFFF

/-- The number that a numeral stands for, if it is one and the width holds it. -/
def NumberType.read? : (t : NumberType) → List Char → Option t.Carrier
  | .int, cs => do
    let i ← Number.integer? cs
    if Int32.minValue.toInt ≤ i && i ≤ Int32.maxValue.toInt then some (Int32.ofInt i) else none
  | .long, cs => do
    let i ← Number.integer? cs
    if Int64.minValue.toInt ≤ i && i ≤ Int64.maxValue.toInt then some (Int64.ofInt i) else none
  | .float, cs => (Number.decimal? cs).map Number.Decimal.toSingle
  | .double, cs => (Number.decimal? cs).map Number.Decimal.toDouble

/-- The types of argument values. -/
inductive ValueType where
  | number (t : NumberType)
  | bool
  | text
deriving DecidableEq, Repr

/-- The values of a type. -/
abbrev ValueType.Carrier : ValueType → Type
  | .number t => t.Carrier
  | .bool => Bool
  | .text => String

/-- The name a type goes by in messages. -/
def ValueType.name : ValueType → String
  | .number .int => "i32"
  | .number .long => "i64"
  | .number .float => "f32"
  | .number .double => "f64"
  | .bool => "bool"
  | .text => "alloc::string::String"

/-- An argument value with its type. -/
structure Value where
  type : ValueType
  data : type.Carrier

namespace Value

/-- A 32-bit integer. -/
def int (x : Int32) : Value := ⟨.number .int, x⟩

/-- A truth value. -/
def bool (b : Bool) : Value := ⟨.bool, b⟩

/-- A text. -/
def text (s : String) : Value := ⟨.text, s⟩

/-- The value itself, when it has the type asked for. -/
def as? (v : Value) (t : ValueType) : Option t.Carrier :=
  if h : v.type = t then some (h ▸ v.data) else none

theorem as?_self (t : ValueType) (x : t.Carrier) : (Value.mk t x).as? t = some x := by
  simp [as?]

theorem as?_eq_none_iff {v : Value} {t : ValueType} : v.as? t = none ↔ v.type ≠ t := by
  simp [as?]

/-- The text of a value: a text itself, a number in digits, `true` or `false`. -/
def render : Value → String
  | ⟨.number t, x⟩ => t.render x
  | ⟨.bool, b⟩ => if b then "true" else "false"
  | ⟨.text, s⟩ => s

end Value

end CommandLines
