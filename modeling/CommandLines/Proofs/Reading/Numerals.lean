/-
Whole numbers between bounds.

A whole number is read in three steps: the run of number characters ahead is cut off, the run
is taken for a numeral, and the number is held against the bounds of its argument.  Each step
has its own way to fail, and every failure leaves the cursor where the run starts, although
the run has been passed by then.

The run is more than a numeral may hold: `1-2`, `--5`, `1.0` and `-` are runs, and they are
refused whole rather than read as far as they go.  So the question is not how much of the line
is a numeral but whether all of the run is one, and `Numeral` answers it without the reader,
with Mathlib's positional value of the digits (`Nat.ofDigits`).  The two widths differ only in
which integers they hold (`WholeType.Holds`), and everything below is said of both at once.
-/
import CommandLines.Proofs.Reading.Rendering
import Mathlib.Data.List.Induction
import Mathlib.Data.Nat.Digits.Defs

namespace CommandLines

/-! ### Numerals -/

namespace Number

/-- The number that digits stand for in the decimal system. -/
def positional (ds : List Char) : Nat :=
  Nat.ofDigits 10 (ds.reverse.map fun d => d.toNat - '0'.toNat)

/-- How integers are written: at least one digit, with a minus sign before them or without. -/
inductive Numeral : List Char → Int → Prop where
  | plain {ds : List Char} (hne : ds ≠ []) (hdigits : ∀ d ∈ ds, d.isDigit = true) :
      Numeral ds (positional ds)
  | minus {ds : List Char} (hne : ds ≠ []) (hdigits : ∀ d ∈ ds, d.isDigit = true) :
      Numeral ('-' :: ds) (-(positional ds : Int))

variable {ds run : List Char} {i j : Int}

/-- Reading digits from the left gives each of them the weight of its place. -/
theorem ofDigits_eq_positional (ds : List Char) : ofDigits ds = positional ds := by
  have hstep : ∀ ds d, positional (ds ++ [d]) = 10 * positional ds + (d.toNat - '0'.toNat) := by
    intro ds d
    simp only [positional, List.reverse_append, List.reverse_singleton, List.singleton_append,
      List.map_cons, Nat.ofDigits_cons]
    omega
  induction ds using List.reverseRecOn with
  | nil => rfl
  | append_singleton ds d ih =>
    rw [hstep, ← ih]
    simp [ofDigits]

theorem isDigits_iff : isDigits ds = true ↔ ds ≠ [] ∧ ∀ d ∈ ds, d.isDigit = true := by
  simp [isDigits]

/-- What is made of a text as an integer is what it is a numeral for. -/
theorem integer?_eq_some_iff : integer? run = some i ↔ Numeral run i := by
  constructor
  · intro h
    unfold integer? at h
    simp only at h
    by_cases hsign : ∃ ds, run = '-' :: ds
    · obtain ⟨ds, rfl⟩ := hsign
      simp only [splitSign] at h
      by_cases hdigits : isDigits ds = true
      · obtain rfl : -(ofDigits ds : Int) = i := by simpa [hdigits] using h
        rw [ofDigits_eq_positional]
        exact .minus (isDigits_iff.1 hdigits).1 (isDigits_iff.1 hdigits).2
      · simp [hdigits] at h
    · have hsplit : splitSign run = (false, run) := by
        unfold splitSign
        split
        · next ds => exact absurd ⟨ds, rfl⟩ hsign
        · rfl
      rw [hsplit] at h
      by_cases hdigits : isDigits run = true
      · obtain rfl : (ofDigits run : Int) = i := by simpa [hdigits] using h
        rw [ofDigits_eq_positional]
        exact .plain (isDigits_iff.1 hdigits).1 (isDigits_iff.1 hdigits).2
      · simp [hdigits] at h
  · intro h
    cases h with
    | plain hne hdigits =>
      have hsplit : splitSign run = (false, run) := by
        unfold splitSign
        split
        · exact absurd (hdigits '-' List.mem_cons_self) (by decide)
        · rfl
      simp [integer?, hsplit, isDigits_iff.2 ⟨hne, hdigits⟩, ofDigits_eq_positional]
    | minus hne hdigits =>
      simp [integer?, splitSign, isDigits_iff.2 ⟨hne, hdigits⟩, ofDigits_eq_positional]

/-- A text is a numeral for one integer only. -/
theorem Numeral.unique (h : Numeral run i) (h' : Numeral run j) : i = j :=
  Option.some.inj ((integer?_eq_some_iff.2 h).symm.trans (integer?_eq_some_iff.2 h'))

theorem Numeral.ne_nil (h : Numeral run i) : run ≠ [] := by
  cases h with
  | plain hne hdigits => exact hne
  | minus hne hdigits => exact List.cons_ne_nil _ _

end Number

/-! ### Widths -/

/-- The widths of whole numbers. -/
inductive WholeType where
  | int
  | long

namespace WholeType

/-- The width among those of all numbers. -/
abbrev type : WholeType → NumberType
  | .int => .int
  | .long => .long

/-- How many bits a number of the width has. -/
def bits : WholeType → Nat
  | .int => 32
  | .long => 64

/-- The width holds an integer: it lies between the two powers of two. -/
def Holds (w : WholeType) (i : Int) : Prop := -2 ^ (w.bits - 1) ≤ i ∧ i < 2 ^ (w.bits - 1)

/-- The integer that a number of the width is. -/
def toInt : (w : WholeType) → w.type.Carrier → Int
  | .int, x => Int32.toInt x
  | .long, x => Int64.toInt x

/-- The number of the width that an integer is, if the width holds it. -/
def ofInt? : (w : WholeType) → Int → Option w.type.Carrier
  | .int, i =>
    if Int32.minValue.toInt ≤ i && i ≤ Int32.maxValue.toInt then some (Int32.ofInt i) else none
  | .long, i =>
    if Int64.minValue.toInt ≤ i && i ≤ Int64.maxValue.toInt then some (Int64.ofInt i) else none

variable {w : WholeType} {x y : w.type.Carrier} {i : Int} {run : List Char}

theorem holds_toInt (x : w.type.Carrier) : w.Holds (w.toInt x) := by
  cases w with
  | int => exact ⟨Int32.le_toInt x, Int32.toInt_lt x⟩
  | long => exact ⟨Int64.le_toInt x, Int64.toInt_lt x⟩

theorem toInt_inj : w.toInt x = w.toInt y ↔ x = y := by
  cases w with
  | int => exact Int32.toInt_inj
  | long => exact Int64.toInt_inj

theorem exists_toInt_eq (h : w.Holds i) : ∃ x, w.toInt x = i := by
  cases w with
  | int => exact ⟨Int32.ofInt i, Int32.toInt_ofInt_of_le h.1 h.2⟩
  | long => exact ⟨Int64.ofInt i, Int64.toInt_ofInt_of_le h.1 h.2⟩

theorem less_iff : w.type.less x y = true ↔ w.toInt x < w.toInt y := by
  cases w with
  | int => exact decide_eq_true_iff.trans Int32.lt_iff_toInt_lt
  | long => exact decide_eq_true_iff.trans Int64.lt_iff_toInt_lt

theorem less_eq_false_iff : w.type.less x y = false ↔ w.toInt y ≤ w.toInt x := by
  rw [← Bool.not_eq_true, less_iff, Int.not_lt]

theorem render_eq (x : w.type.Carrier) : w.type.render x = toString (w.toInt x) := by
  cases w <;> rfl

/-- An integer is made a number of the width just if it is the integer of that number. -/
theorem ofInt?_eq_some_iff : w.ofInt? i = some x ↔ w.toInt x = i := by
  cases w with
  | int =>
    simp only [ofInt?, toInt, Bool.and_eq_true, decide_eq_true_eq, Option.ite_none_right_eq_some,
      Option.some.injEq]
    constructor
    · rintro ⟨⟨hlow, hhigh⟩, rfl⟩
      rw [Int32.toInt_minValue] at hlow
      rw [Int32.toInt_maxValue] at hhigh
      exact Int32.toInt_ofInt_of_le hlow (by omega)
    · rintro rfl
      exact ⟨⟨x.minValue_le_toInt, x.toInt_le⟩, Int32.ofInt_toInt x⟩
  | long =>
    simp only [ofInt?, toInt, Bool.and_eq_true, decide_eq_true_eq, Option.ite_none_right_eq_some,
      Option.some.injEq]
    constructor
    · rintro ⟨⟨hlow, hhigh⟩, rfl⟩
      rw [Int64.toInt_minValue] at hlow
      rw [Int64.toInt_maxValue] at hhigh
      exact Int64.toInt_ofInt_of_le hlow (by omega)
    · rintro rfl
      exact ⟨⟨x.minValue_le_toInt, x.toInt_le⟩, Int64.ofInt_toInt x⟩

/-- A run is read as the number that it is a numeral for. -/
theorem read?_eq_some_iff : w.type.read? run = some x ↔ Number.Numeral run (w.toInt x) := by
  have hread : w.type.read? run = (Number.integer? run).bind w.ofInt? := by cases w <;> rfl
  rw [hread, Option.bind_eq_some_iff]
  constructor
  · rintro ⟨i, hi, hx⟩
    rw [ofInt?_eq_some_iff.1 hx]
    exact Number.integer?_eq_some_iff.1 hi
  · intro h
    exact ⟨w.toInt x, Number.integer?_eq_some_iff.2 h, ofInt?_eq_some_iff.2 rfl⟩

/-- A run is not read if it is a numeral for no integer that the width holds. -/
theorem read?_eq_none_iff :
    w.type.read? run = none ↔ ¬∃ i, Number.Numeral run i ∧ w.Holds i := by
  rw [Option.eq_none_iff_forall_ne_some]
  constructor
  · rintro h ⟨i, hnumeral, hheld⟩
    obtain ⟨x, rfl⟩ := exists_toInt_eq hheld
    exact h x (read?_eq_some_iff.2 hnumeral)
  · intro h x hx
    exact h ⟨_, read?_eq_some_iff.1 hx, holds_toInt x⟩

end WholeType

/-! ### Reading between bounds -/

namespace ArgumentType

/-- What is wrong with a run of number characters as a whole number between two bounds. -/
inductive Flaw (w : WholeType) (minimum maximum : w.type.Carrier) : List Char → Cause → Prop where
  | nothing : Flaw w minimum maximum [] (.expectedNumber w.type)
  /-- Something is there, and it is a numeral for no integer of the width. -/
  | malformed {run : List Char} (hne : run ≠ [])
      (hnone : ¬∃ i, Number.Numeral run i ∧ w.Holds i) :
      Flaw w minimum maximum run (.badNumber w.type (String.ofList run))
  | low {run : List Char} {v : w.type.Carrier} (hv : Number.Numeral run (w.toInt v))
      (hlow : w.toInt v < w.toInt minimum) :
      Flaw w minimum maximum run (.tooLow w.type v minimum)
  /-- Only what is not too low can be too high, if the bounds are the wrong way round. -/
  | high {run : List Char} {v : w.type.Carrier} (hv : Number.Numeral run (w.toInt v))
      (hlow : w.toInt minimum ≤ w.toInt v) (hhigh : w.toInt maximum < w.toInt v) :
      Flaw w minimum maximum run (.tooHigh w.type v maximum)

variable {w : WholeType} {minimum maximum v : w.type.Carrier} {run : List Char} {c after : Cursor}

theorem flaw_expectedNumber_iff :
    Flaw w minimum maximum run (.expectedNumber w.type) ↔ run = [] := by
  constructor
  · intro h
    cases h
    rfl
  · rintro rfl
    exact .nothing

theorem flaw_badNumber_iff {text : String} :
    Flaw w minimum maximum run (.badNumber w.type text) ↔
      text = String.ofList run ∧ run ≠ [] ∧ ¬∃ i, Number.Numeral run i ∧ w.Holds i := by
  constructor
  · intro h
    cases h with
    | malformed hne hnone => exact ⟨rfl, hne, hnone⟩
  · rintro ⟨rfl, hne, hnone⟩
    exact .malformed hne hnone

theorem flaw_tooLow_iff {bound : w.type.Carrier} :
    Flaw w minimum maximum run (.tooLow w.type v bound) ↔
      bound = minimum ∧ Number.Numeral run (w.toInt v) ∧ w.toInt v < w.toInt minimum := by
  constructor
  · intro h
    cases h with
    | low hv hlow => exact ⟨rfl, hv, hlow⟩
  · rintro ⟨rfl, hv, hlow⟩
    exact .low hv hlow

theorem flaw_tooHigh_iff {bound : w.type.Carrier} :
    Flaw w minimum maximum run (.tooHigh w.type v bound) ↔
      bound = maximum ∧ Number.Numeral run (w.toInt v) ∧ w.toInt minimum ≤ w.toInt v ∧
        w.toInt maximum < w.toInt v := by
  constructor
  · intro h
    cases h with
    | high hv hlow hhigh => exact ⟨rfl, hv, hlow, hhigh⟩
  · rintro ⟨rfl, hv, hlow, hhigh⟩
    exact .high hv hlow hhigh

/-- There is always something wrong, or the run is a numeral between the bounds. -/
theorem flaw_or_within (w : WholeType) (minimum maximum : w.type.Carrier) (run : List Char) :
    (∃ cause, Flaw w minimum maximum run cause) ∨
      ∃ v, Number.Numeral run (w.toInt v) ∧ w.toInt minimum ≤ w.toInt v ∧
        w.toInt v ≤ w.toInt maximum := by
  by_cases hrun : run = []
  · subst hrun
    exact .inl ⟨_, .nothing⟩
  · cases hread : w.type.read? run with
    | none => exact .inl ⟨_, .malformed hrun (WholeType.read?_eq_none_iff.1 hread)⟩
    | some v =>
      have hv := WholeType.read?_eq_some_iff.1 hread
      by_cases hlow : w.toInt v < w.toInt minimum
      · exact .inl ⟨_, .low hv hlow⟩
      · by_cases hhigh : w.toInt maximum < w.toInt v
        · exact .inl ⟨_, .high hv (Int.not_lt.1 hlow) hhigh⟩
        · exact .inr ⟨v, hv, Int.not_lt.1 hlow, Int.not_lt.1 hhigh⟩

/-- What is wrong with the run ahead is what is said, at the place where the run starts. -/
theorem Flaw.readBounded {cause : Cause}
    (h : Flaw w minimum maximum (c.ahead.takeWhile Cursor.isNumberChar) cause) :
    readBounded w.type minimum maximum c = (.error (c.fault cause), c) := by
  have htake : c.takeRun Cursor.isNumberChar = (c.ahead.takeWhile Cursor.isNumberChar, _) := rfl
  generalize c.ahead.takeWhile Cursor.isNumberChar = run at h htake
  cases h with
  | nothing => simp [ArgumentType.readBounded, Cursor.readNumber, htake]
  | malformed hne hnone =>
    simp [ArgumentType.readBounded, Cursor.readNumber, htake, hne,
      WholeType.read?_eq_none_iff.2 hnone]
  | low hv hlow =>
    simp [ArgumentType.readBounded, Cursor.readNumber, htake, hv.ne_nil,
      WholeType.read?_eq_some_iff.2 hv, WholeType.less_iff.2 hlow]
  | high hv hlow hhigh =>
    simp [ArgumentType.readBounded, Cursor.readNumber, htake, hv.ne_nil,
      WholeType.read?_eq_some_iff.2 hv, WholeType.less_eq_false_iff.2 hlow,
      WholeType.less_iff.2 hhigh]

theorem readBounded_eq_ok_iff_numeral : readBounded w.type minimum maximum c = (.ok v, after) ↔
    Number.Numeral (c.ahead.takeWhile Cursor.isNumberChar) (w.toInt v) ∧
      w.toInt minimum ≤ w.toInt v ∧ w.toInt v ≤ w.toInt maximum ∧
      after = c.advance (c.ahead.takeWhile Cursor.isNumberChar)
        (c.ahead.dropWhile Cursor.isNumberChar) := by
  rw [readBounded_eq_ok_iff]
  constructor
  · rintro ⟨found, hread, hlow, hhigh, rfl⟩
    obtain ⟨run, hrun, -, hv⟩ := Cursor.readNumber_eq_ok_iff.1 hread
    obtain ⟨rfl, rfl⟩ := Prod.mk.inj (Cursor.readRun_eq_ok_iff.1 hrun)
    exact ⟨WholeType.read?_eq_some_iff.1 hv, WholeType.less_eq_false_iff.1 hlow,
      WholeType.less_eq_false_iff.1 hhigh, rfl⟩
  · rintro ⟨hv, hlow, hhigh, rfl⟩
    refine ⟨v, Cursor.readNumber_eq_ok_iff.2 ⟨_, Cursor.readRun_eq_ok_iff.2 rfl, hv.ne_nil,
      WholeType.read?_eq_some_iff.2 hv⟩, WholeType.less_eq_false_iff.2 hlow,
      WholeType.less_eq_false_iff.2 hhigh, rfl⟩

theorem readBounded_eq_error_iff {f : Fault} :
    readBounded w.type minimum maximum c = (.error f, after) ↔ after = c ∧ ∃ cause,
      f = c.fault cause ∧
        Flaw w minimum maximum (c.ahead.takeWhile Cursor.isNumberChar) cause := by
  constructor
  · intro h
    rcases flaw_or_within w minimum maximum (c.ahead.takeWhile Cursor.isNumberChar) with
      ⟨cause, hflaw⟩ | ⟨v, hv, hlow, hhigh⟩
    · obtain ⟨rfl, rfl⟩ : c.fault cause = f ∧ c = after := by simpa [hflaw.readBounded] using h
      exact ⟨rfl, cause, rfl, hflaw⟩
    · rw [readBounded_eq_ok_iff_numeral.2 ⟨hv, hlow, hhigh, rfl⟩] at h
      simp at h
  · rintro ⟨rfl, cause, rfl, hflaw⟩
    exact hflaw.readBounded

theorem fst_readBounded_eq_error_iff {cause : Cause} :
    (readBounded w.type minimum maximum c).1 = .error (c.fault cause) ↔
      Flaw w minimum maximum (c.ahead.takeWhile Cursor.isNumberChar) cause := by
  constructor
  · intro h
    obtain ⟨-, other, hfault, hflaw⟩ :=
      readBounded_eq_error_iff.1 (Prod.ext h rfl : readBounded w.type minimum maximum c = (_, _))
    obtain rfl : cause = other := congrArg Fault.cause hfault
    exact hflaw
  · intro h
    rw [h.readBounded]

/-- A number between the bounds is read from its digits, if nothing that a number may hold follows
them. -/
theorem readBounded_render (hlow : w.toInt minimum ≤ w.toInt v)
    (hhigh : w.toInt v ≤ w.toInt maximum) {behind rest : List Char}
    (hrest : ∀ d ∈ rest.head?, Cursor.isNumberChar d = false) :
    readBounded w.type minimum maximum ⟨behind, (w.type.render v).toList ++ rest⟩ =
      (.ok v, ⟨(w.type.render v).toList.reverse ++ behind, rest⟩) := by
  rw [WholeType.render_eq]
  have hrun : ∀ d ∈ (toString (w.toInt v)).toList, Cursor.isNumberChar d = true :=
    fun d => Number.isNumberChar_of_mem_toString
  have htake : (Cursor.mk behind (_ ++ rest)).takeRun Cursor.isNumberChar = _ :=
    Cursor.takeRun_of_head? hrun hrest
  obtain ⟨htaken, hplace⟩ := Prod.mk.inj htake
  refine readBounded_eq_ok_iff_numeral.2 ⟨?_, hlow, hhigh, hplace.symm⟩
  rw [htaken]
  exact Number.integer?_eq_some_iff.1 (Number.integer?_toString _)

/--
**Whole numbers between bounds are read exactly.**

Take the longest run of digits, points and minus signs ahead.  A number is read just if the
run is an optional minus sign and digits whose value is that number and lies between the
bounds, and then the cursor passes the run.  Any failure leaves the cursor where it was and
points there: a number is expected if the run is empty, the run is bad if it is anything else
than a numeral for an integer that the width holds, and otherwise the number is too low or,
if it is not, too high.

In particular every number between the bounds is read back from its digits, whatever follows
that cannot belong to a number.
-/
theorem readBounded_whole_iff (w : WholeType) (minimum maximum : w.type.Carrier) (c : Cursor) :
    let run := c.ahead.takeWhile Cursor.isNumberChar
    let read : Read w.type.Carrier := (number w.type minimum maximum).read c
    (∀ v after, read = (.ok v, after) ↔
      Number.Numeral run (w.toInt v) ∧ w.toInt minimum ≤ w.toInt v ∧
        w.toInt v ≤ w.toInt maximum ∧
        after = c.advance run (c.ahead.dropWhile Cursor.isNumberChar)) ∧
    (∀ f after, read = (.error f, after) → after = c ∧ f.place? = some c.place) ∧
    (read.1 = .error (c.fault (.expectedNumber w.type)) ↔ run = []) ∧
    (∀ text, read.1 = .error (c.fault (.badNumber w.type text)) ↔
      text = String.ofList run ∧ run ≠ [] ∧ ¬∃ i, Number.Numeral run i ∧ w.Holds i) ∧
    (∀ v bound, read.1 = .error (c.fault (.tooLow w.type v bound)) ↔
      bound = minimum ∧ Number.Numeral run (w.toInt v) ∧ w.toInt v < w.toInt minimum) ∧
    (∀ v bound, read.1 = .error (c.fault (.tooHigh w.type v bound)) ↔
      bound = maximum ∧ Number.Numeral run (w.toInt v) ∧ w.toInt minimum ≤ w.toInt v ∧
        w.toInt maximum < w.toInt v) ∧
    ∀ v, w.toInt minimum ≤ w.toInt v → w.toInt v ≤ w.toInt maximum →
      ∀ behind rest : List Char, (∀ d ∈ rest.head?, Cursor.isNumberChar d = false) →
        (number w.type minimum maximum).read ⟨behind, (w.type.render v).toList ++ rest⟩ =
          (.ok v, ⟨(w.type.render v).toList.reverse ++ behind, rest⟩) := by
  intro run read
  refine ⟨fun v after => readBounded_eq_ok_iff_numeral, ?_,
    fst_readBounded_eq_error_iff.trans flaw_expectedNumber_iff,
    fun text => fst_readBounded_eq_error_iff.trans flaw_badNumber_iff,
    fun v bound => fst_readBounded_eq_error_iff.trans flaw_tooLow_iff,
    fun v bound => fst_readBounded_eq_error_iff.trans flaw_tooHigh_iff,
    fun v hlow hhigh behind rest hrest => readBounded_render hlow hhigh hrest⟩
  intro f after h
  obtain ⟨hafter, cause, rfl, -⟩ := readBounded_eq_error_iff.1 h
  exact ⟨hafter, rfl⟩

/-- Between 0 and 20, `15` is read before a space, and `-5` is too low. -/
theorem readBounded_whole_iff_counts :
    (number .int 0 20).read (Cursor.mk [] ("15".toList ++ [' '])) =
      (.ok (15 : Int32), ⟨"15".toList.reverse, [' ']⟩) ∧
    ((number .int 0 20).read (Cursor.ofLine "-5")).1 =
      .error ((Cursor.ofLine "-5").fault (.tooLow .int (-5) 0)) := by
  constructor
  · have h := (readBounded_whole_iff .int 0 20 (.ofLine "")).2.2.2.2.2.2
    exact h 15 (by decide) (by decide) [] [' '] (by simp [Cursor.isNumberChar])
  · have h := (readBounded_whole_iff .int 0 20 (.ofLine "-5")).2.2.2.2.1
    have hfive : Number.Numeral ['-', '5'] (-5) := .minus (List.cons_ne_nil '5' []) (by simp)
    exact (h (-5) 0).2 ⟨rfl, hfive, by decide⟩

end ArgumentType

end CommandLines
