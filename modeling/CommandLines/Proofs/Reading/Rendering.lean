/-
Values that read back.

Whole numbers are written in digits, and truth values as words.  A type of arguments that
takes such a value reads what is written for it, and reads no further, if a space or the end
follows.
-/
import CommandLines.Proofs.Reading.Delimited

namespace CommandLines

/-! ### Numerals -/

namespace Number

theorem isDigit_of_mem_toDigits {n : Nat} {d : Char} (h : d ∈ Nat.toDigits 10 n) :
    d.isDigit = true :=
  Nat.isDigit_of_mem_toDigits (by decide) (by decide) h

theorem isDigits_toDigits (n : Nat) : isDigits (Nat.toDigits 10 n) = true := by
  have hall : (Nat.toDigits 10 n).all Char.isDigit = true :=
    List.all_eq_true.2 fun d hd => isDigit_of_mem_toDigits hd
  simp [isDigits, hall, Nat.toDigits_ne_nil]

theorem ofDigits_toDigits (n : Nat) : ofDigits (Nat.toDigits 10 n) = n :=
  Nat.ofDigitChars_toDigits (by decide) (by decide)

theorem splitSign_toDigits (n : Nat) :
    splitSign (Nat.toDigits 10 n) = (false, Nat.toDigits 10 n) := by
  unfold splitSign
  split
  · next cs heq =>
    have hdigit : '-'.isDigit = true := isDigit_of_mem_toDigits (n := n) (by simp [heq])
    exact absurd hdigit (by decide)
  · rfl

/-- An integer is a minus sign, if it is negative, and the digits of its size. -/
theorem toList_toString (i : Int) : (toString i).toList =
    if i < 0 then '-' :: Nat.toDigits 10 i.natAbs else Nat.toDigits 10 i.natAbs := by
  rw [Int.toString_eq_repr]
  cases i with
  | ofNat n => simp [Int.repr, Nat.repr_eq_ofList_toDigits]
  | negSucc n =>
    have hneg : Int.negSucc n < 0 := Int.negSucc_lt_zero n
    simp [Int.repr, Nat.repr_eq_ofList_toDigits, hneg]

/-- A written integer is a numeral for it. -/
theorem integer?_toString (i : Int) : integer? (toString i).toList = some i := by
  rw [toList_toString]
  by_cases hneg : i < 0
  · have hsign : splitSign ('-' :: Nat.toDigits 10 i.natAbs) =
        (true, Nat.toDigits 10 i.natAbs) := rfl
    simp only [hneg, if_true, integer?, hsign, isDigits_toDigits, ofDigits_toDigits]
    congr 1
    omega
  · simp only [hneg, if_false, integer?, splitSign_toDigits, isDigits_toDigits, if_true,
      ofDigits_toDigits]
    simp
    omega

theorem isNumberChar_of_mem_toString {i : Int} {d : Char} (h : d ∈ (toString i).toList) :
    Cursor.isNumberChar d = true := by
  have hdigit : d ∈ Nat.toDigits 10 i.natAbs → Cursor.isNumberChar d = true := by
    intro hd
    simp [Cursor.isNumberChar, isDigit_of_mem_toDigits hd]
  rw [toList_toString] at h
  split at h
  · rcases List.mem_cons.1 h with rfl | hd
    · decide
    · exact hdigit hd
  · exact hdigit h

theorem toString_ne_nil (i : Int) : (toString i).toList ≠ [] := by
  rw [toList_toString]
  split
  · simp
  · exact Nat.toDigits_ne_nil

end Number

namespace NumberType

theorem read?_int (x : Int32) : int.read? (toString x.toInt).toList = some x := by
  have hheld : (Int32.minValue.toInt ≤ x.toInt && x.toInt ≤ Int32.maxValue.toInt) = true := by
    rw [Bool.and_eq_true, decide_eq_true_eq, decide_eq_true_eq]
    exact ⟨x.minValue_le_toInt, x.toInt_le⟩
  rw [read?, Number.integer?_toString]
  show (if _ then some (Int32.ofInt x.toInt) else none) = _
  rw [if_pos hheld, Int32.ofInt_toInt]

theorem read?_long (x : Int64) : long.read? (toString x.toInt).toList = some x := by
  have hheld : (Int64.minValue.toInt ≤ x.toInt && x.toInt ≤ Int64.maxValue.toInt) = true := by
    rw [Bool.and_eq_true, decide_eq_true_eq, decide_eq_true_eq]
    exact ⟨x.minValue_le_toInt, x.toInt_le⟩
  rw [read?, Number.integer?_toString]
  show (if _ then some (Int64.ofInt x.toInt) else none) = _
  rw [if_pos hheld, Int64.ofInt_toInt]

end NumberType

/-! ### Values -/

namespace ArgumentType

variable {type : ArgumentType} {value : Value}

/-- The value is a whole number or a truth value of the type, and within its bounds. -/
inductive Takes : ArgumentType → Value → Prop where
  | int {minimum maximum x : Int32} (hlow : minimum ≤ x) (hhigh : x ≤ maximum) :
      Takes (number .int minimum maximum) ⟨.number .int, x⟩
  | long {minimum maximum x : Int64} (hlow : minimum ≤ x) (hhigh : x ≤ maximum) :
      Takes (number .long minimum maximum) ⟨.number .long, x⟩
  | bool (b : Bool) : Takes bool ⟨.bool, b⟩

/-- A number within the bounds is read back from its digits. -/
theorem readValue_number {t : NumberType} {minimum maximum x : t.Carrier} {run : List Char}
    (hread : t.read? run = some x) (hne : run ≠ [])
    (hrun : ∀ d ∈ run, Cursor.isNumberChar d = true) (hlow : t.less x minimum = false)
    (hhigh : t.less maximum x = false) {behind rest : List Char}
    (hsep : (Cursor.mk (run.reverse ++ behind) rest).atSeparator = true) :
    (number t minimum maximum).readValue ⟨behind, run ++ rest⟩ =
      (.ok ⟨.number t, x⟩, ⟨run.reverse ++ behind, rest⟩) := by
  refine readValue_eq_ok_iff.2 ⟨x, ?_, rfl⟩
  refine readBounded_eq_ok_iff.2 ⟨x, ?_, hlow, hhigh, rfl⟩
  refine Cursor.readNumber_eq_ok_iff.2 ⟨run, ?_, hne, hread⟩
  exact Cursor.readRun_eq_ok_iff.2 (Cursor.takeRun_of_separator (by decide) hrun hsep)

/-- A truth value is read back from its word. -/
theorem readValue_bool (b : Bool) {word behind rest : List Char}
    (hword : String.ofList word = if b then "true" else "false")
    (hrun : word.all Cursor.isWordChar = true) (hne : word ≠ [])
    (hsep : (Cursor.mk (word.reverse ++ behind) rest).atSeparator = true) :
    bool.readValue ⟨behind, word ++ rest⟩ =
      (.ok ⟨.bool, b⟩, ⟨word.reverse ++ behind, rest⟩) := by
  refine readValue_eq_ok_iff.2 ⟨b, ?_, rfl⟩
  refine Cursor.readBool_eq_ok_iff.2 ⟨String.ofList word, ?_, hword⟩
  have hchars := List.all_eq_true.1 hrun
  have hpeek : (Cursor.mk behind (word ++ rest)).peek ≠ some Cursor.quoteMark := by
    cases word with
    | nil => exact absurd rfl hne
    | cons d word =>
      have hd := hchars d List.mem_cons_self
      simp only [Cursor.peek, List.cons_append, List.head?_cons, ne_eq, Option.some.injEq]
      rintro rfl
      exact absurd hd (by decide)
  simp [Cursor.readString, hpeek, Cursor.readWord,
    Cursor.takeRun_of_separator (p := Cursor.isWordChar) (by decide) hchars hsep]

/-- What a type takes it reads back from how it is written. -/
theorem Takes.readValue (h : type.Takes value) {behind rest : List Char}
    (hsep : (Cursor.mk (value.render.toList.reverse ++ behind) rest).atSeparator = true) :
    type.readValue ⟨behind, value.render.toList ++ rest⟩ =
      (.ok value, ⟨value.render.toList.reverse ++ behind, rest⟩) := by
  cases h with
  | @int minimum maximum x hlow hhigh =>
    refine readValue_number (NumberType.read?_int x) (Number.toString_ne_nil _)
      (fun d => Number.isNumberChar_of_mem_toString) ?_ ?_ hsep
    · exact decide_eq_false (Int32.not_lt.2 hlow)
    · exact decide_eq_false (Int32.not_lt.2 hhigh)
  | @long minimum maximum x hlow hhigh =>
    refine readValue_number (NumberType.read?_long x) (Number.toString_ne_nil _)
      (fun d => Number.isNumberChar_of_mem_toString) ?_ ?_ hsep
    · exact decide_eq_false (Int64.not_lt.2 hlow)
    · exact decide_eq_false (Int64.not_lt.2 hhigh)
  | bool b =>
    cases b with
    | true => exact readValue_bool true rfl rfl (by decide) hsep
    | false => exact readValue_bool false rfl rfl (by decide) hsep

/-- What a type takes is written as a word without a space. -/
theorem Takes.word (h : type.Takes value) :
    value.render ≠ "" ∧ Cursor.separator ∉ value.render.toList := by
  have hnumber (i : Int) : toString i ≠ "" ∧ Cursor.separator ∉ (toString i).toList := by
    refine ⟨?_, ?_⟩
    · intro hempty
      exact Number.toString_ne_nil i (by rw [hempty]; rfl)
    · intro hmem
      exact absurd (Number.isNumberChar_of_mem_toString hmem) (by decide)
  cases h with
  | @int minimum maximum x hlow hhigh => exact hnumber x.toInt
  | @long minimum maximum x hlow hhigh => exact hnumber x.toInt
  | bool b => cases b <;> decide

end ArgumentType

end CommandLines
