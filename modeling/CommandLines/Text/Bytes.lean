/-
Text measured in bytes.

Positions in a command line are byte offsets in UTF-8, while the text itself is a
list of characters.  The functions here pass from one to the other:

  * `cut?` cuts a text at a byte offset, and fails exactly when the offset lies
    inside a character or past the end;
  * `cutAtMost` never fails: it cuts at the last character boundary that is not
    after the offset.

Both return the two parts, and the parts always make up the text again.
-/

namespace CommandLines.Text

/-- How many bytes the characters take in UTF-8. -/
def bytes : List Char → Nat
  | [] => 0
  | c :: cs => c.utf8Size + bytes cs

@[simp] theorem bytes_nil : bytes [] = 0 := rfl

@[simp] theorem bytes_cons (c : Char) (cs : List Char) :
    bytes (c :: cs) = c.utf8Size + bytes cs := rfl

@[simp] theorem bytes_append (a b : List Char) : bytes (a ++ b) = bytes a + bytes b := by
  induction a with
  | nil => simp
  | cons c a ih => simp [ih, Nat.add_assoc]

@[simp] theorem bytes_reverse (a : List Char) : bytes a.reverse = bytes a := by
  induction a with
  | nil => rfl
  | cons c a ih => simp [ih, Nat.add_comm]

theorem bytes_eq_zero {cs : List Char} : bytes cs = 0 ↔ cs = [] := by
  cases cs with
  | nil => simp
  | cons c cs => have := c.utf8Size_pos; simp; omega

/-- The bytes of a list of characters are those of the string that it makes. -/
theorem bytes_toList (s : String) : bytes s.toList = s.utf8ByteSize := by
  have h (cs : List Char) : bytes cs = (String.ofList cs).utf8ByteSize := by
    induction cs with
    | nil => rfl
    | cons c cs ih =>
      have hs : String.ofList (c :: cs) = String.singleton c ++ String.ofList cs := by
        rw [← String.toList_inj]; simp
      rw [bytes_cons, ih, hs, String.utf8ByteSize_append, String.utf8ByteSize_singleton]
  rw [h, String.ofList_toList]

/-- The text before and after byte offset `n`, when `n` is a character boundary. -/
def cut? : List Char → Nat → Option (List Char × List Char)
  | cs, 0 => some ([], cs)
  | [], _ + 1 => none
  | c :: cs, n + 1 =>
    if c.utf8Size ≤ n + 1 then
      (cut? cs (n + 1 - c.utf8Size)).map fun p => (c :: p.1, p.2)
    else none

/-- A cut is a way to write the text as two parts of which the first has `n` bytes. -/
theorem cut?_eq_some_iff {cs a b : List Char} {n : Nat} :
    cut? cs n = some (a, b) ↔ cs = a ++ b ∧ bytes a = n := by
  induction cs generalizing n a with
  | nil =>
    cases n with
    | zero =>
      simp only [cut?, Option.some.injEq, Prod.mk.injEq, bytes_eq_zero]
      constructor
      · rintro ⟨rfl, rfl⟩; simp
      · rintro ⟨h, rfl⟩; simpa using h
    | succ n =>
      simp only [cut?, reduceCtorEq, false_iff]
      rintro ⟨h, hb⟩
      obtain ⟨rfl, rfl⟩ : a = [] ∧ b = [] := by simpa using h.symm
      simp at hb
  | cons c cs ih =>
    have hc := c.utf8Size_pos
    cases n with
    | zero =>
      simp only [cut?, Option.some.injEq, Prod.mk.injEq, bytes_eq_zero]
      constructor
      · rintro ⟨rfl, rfl⟩; simp
      · rintro ⟨h, rfl⟩; simpa using h
    | succ n =>
      rw [cut?]
      cases a with
      | nil =>
        simp only [List.nil_append, bytes_nil]
        constructor
        · intro h; split at h <;> simp at h
        · rintro ⟨_, h⟩; omega
      | cons d a =>
        simp only [List.cons_append, List.cons.injEq, bytes_cons]
        by_cases hle : c.utf8Size ≤ n + 1
        · simp only [hle, if_true, Option.map_eq_some_iff, Prod.mk.injEq, List.cons.injEq]
          constructor
          · rintro ⟨⟨p, q⟩, h, ⟨rfl, rfl⟩, rfl⟩
            obtain ⟨hcs, hp⟩ := ih.1 h
            exact ⟨⟨rfl, hcs⟩, by simp only; omega⟩
          · rintro ⟨⟨rfl, rfl⟩, h⟩
            exact ⟨(a, b), ih.2 ⟨rfl, by omega⟩, ⟨rfl, rfl⟩, rfl⟩
        · simp only [hle, if_false, reduceCtorEq, false_iff]
          rintro ⟨⟨rfl, rfl⟩, h⟩
          omega

/-- A cut `n` bytes after `a` is a cut of what follows `a`. -/
theorem cut?_append (a b : List Char) (n : Nat) :
    cut? (a ++ b) (bytes a + n) = (cut? b n).map fun p => (a ++ p.1, p.2) := by
  induction a with
  | nil => simp
  | cons c a ih =>
    have hc := c.utf8Size_pos
    obtain ⟨m, hm⟩ : ∃ m, bytes (c :: a) + n = m + 1 :=
      ⟨c.utf8Size + bytes a + n - 1, by rw [bytes_cons]; omega⟩
    rw [hm, List.cons_append, cut?, if_pos (by rw [bytes_cons] at hm; omega),
      show m + 1 - c.utf8Size = bytes a + n by rw [bytes_cons] at hm; omega, ih, Option.map_map]
    rfl

/-- The longest beginning of the text that has at most `n` bytes, and what follows it. -/
def cutAtMost : List Char → Nat → List Char × List Char
  | [], _ => ([], [])
  | c :: cs, n =>
    if c.utf8Size ≤ n then
      let p := cutAtMost cs (n - c.utf8Size)
      (c :: p.1, p.2)
    else ([], c :: cs)

theorem cutAtMost_append (cs : List Char) (n : Nat) :
    (cutAtMost cs n).1 ++ (cutAtMost cs n).2 = cs := by
  induction cs generalizing n with
  | nil => rfl
  | cons c cs ih =>
    rw [cutAtMost]
    split
    · simp [ih]
    · rfl

theorem bytes_cutAtMost_le (cs : List Char) (n : Nat) : bytes (cutAtMost cs n).1 ≤ n := by
  induction cs generalizing n with
  | nil => simp [cutAtMost]
  | cons c cs ih =>
    rw [cutAtMost]
    split
    · have := ih (n - c.utf8Size)
      simp; omega
    · simp

/-- Where a boundary falls on `n`, the cut is there. -/
theorem cutAtMost_of_cut? {cs a b : List Char} {n : Nat} (h : cut? cs n = some (a, b)) :
    cutAtMost cs n = (a, b) := by
  obtain ⟨rfl, rfl⟩ := cut?_eq_some_iff.1 h
  clear h
  induction a with
  | nil =>
    cases b with
    | nil => rfl
    | cons c b =>
      have := c.utf8Size_pos
      simp only [List.nil_append, bytes_nil, cutAtMost]
      rw [if_neg (by omega)]
  | cons c a ih => simp [cutAtMost, ih]

/-- The longest end of the text that has at most `n` bytes. -/
def lastBytes (cs : List Char) (n : Nat) : List Char :=
  (cutAtMost cs.reverse n).1.reverse

/-- The text from byte offset `start` up to `stop`, when both are character boundaries in order. -/
def between? (cs : List Char) (start stop : Nat) : Option (List Char) :=
  if start ≤ stop then do
    let (_, after) ← cut? cs start
    let (inside, _) ← cut? after (stop - start)
    return inside
  else none

end CommandLines.Text
