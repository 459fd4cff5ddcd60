/-
Where a boolean that is not read leaves the cursor.

A boolean is read as a text first, quoted or not, and then the text is held against the two
words.  A wrong text sends the cursor back to where it started.  The other failures do not:
they leave the cursor where reading the text has left it.  For a word that is no harm, since
the only other failure there is that no word is ahead, and then nothing has been passed.

Behind a quote it is different.  A quoted text that never closes, or that slips on a
backslash, takes the cursor along to where it breaks off, and an empty one takes it past both
quotes.  These are the failures that move the cursor, and `MisquoteAhead` says of a line that
one of them is coming.
-/
import CommandLines.Proofs.Reading.Escapes

namespace CommandLines

namespace Cursor

/-- A token, what follows it, and its text: a quoted text, or a word that ends where the characters
of words do. -/
inductive Token : List Char → List Char → String → Prop where
  | word {run rest : List Char} (hrun : ∀ d ∈ run, isWordChar d = true)
      (hstop : ∀ d ∈ rest.head?, isWordChar d = false)
      (hquote : (run ++ rest).head? ≠ some quoteMark) : Token run rest (String.ofList run)
  | quoted (text : String) (rest : List Char) :
      Token (quoteMark :: closed quoteMark text) rest text

/-- A quote is ahead, but not the one that opens a text that closes and is not empty. -/
def MisquoteAhead (c : Cursor) : Prop :=
  ∃ ds, c.ahead = quoteMark :: ds ∧
    ¬∃ text rest, text ≠ "" ∧ ds = closed quoteMark text ++ rest

variable {c after : Cursor} {text word : String} {ds rest : List Char}

/-! ### Texts -/

theorem readString_of_quote (h : c.ahead = quoteMark :: ds) :
    c.readString = c.skip.readUntil quoteMark := by
  have hpeek : (c.peek == some quoteMark) = true := by simp [peek, h]
  rw [readString, if_pos hpeek]

theorem readString_of_word (h : c.ahead.head? ≠ some quoteMark) :
    c.readString = (.ok c.readWord.1, c.readWord.2) := by
  have hpeek : ¬(c.peek == some quoteMark) = true := by simpa [peek] using h
  rw [readString, if_neg hpeek]

/-- A text is read just if a token for it is ahead, and the cursor passes the token. -/
theorem readString_eq_ok_iff : c.readString = (.ok text, after) ↔ ∃ token rest,
    c.ahead = token ++ rest ∧ Token token rest text ∧ after = c.advance token rest := by
  constructor
  · intro h
    by_cases hquote : c.ahead.head? = some quoteMark
    · obtain ⟨ds, hds⟩ := List.head?_eq_some_iff.1 hquote
      rw [readString_of_quote hds] at h
      obtain ⟨rest, hrest, rfl⟩ := (readUntil_eq_ok_iff (by decide)).1 h
      have hskip : c.skip.ahead = ds := by simp [skip, hds]
      refine ⟨quoteMark :: closed quoteMark text, rest, ?_, .quoted text rest, ?_⟩
      · rw [hds, ← hskip, hrest, List.cons_append]
      · simp [skip, hds, advance]
    · rw [readString_of_word hquote] at h
      obtain ⟨rfl, rfl⟩ : c.readWord.1 = text ∧ c.readWord.2 = after := by simpa using h
      refine ⟨c.ahead.takeWhile isWordChar, c.ahead.dropWhile isWordChar,
        List.takeWhile_append_dropWhile.symm, .word ?_ ?_ ?_, rfl⟩
      · exact List.all_eq_true.1 List.all_takeWhile
      · intro d hd
        have hnot := List.head?_dropWhile_not isWordChar c.ahead
        rw [Option.mem_def.1 hd] at hnot
        simpa using hnot
      · rwa [List.takeWhile_append_dropWhile]
  · rintro ⟨token, rest, hahead, htoken, rfl⟩
    cases htoken with
    | word hrun hstop hquote =>
      rw [readString_of_word (hahead ▸ hquote), readWord]
      have htake : (mk c.behind (token ++ rest)).takeRun isWordChar = _ :=
        takeRun_of_head? hrun hstop
      rw [← hahead] at htake
      rw [htake]
      rfl
    | quoted =>
      rw [readString_of_quote hahead]
      refine (readUntil_eq_ok_iff (by decide)).2 ⟨rest, ?_, ?_⟩
      · simp [skip, hahead]
      · simp [skip, hahead, advance]

/-- Where no word is ahead nothing is passed. -/
theorem readWord_empty (h : c.readWord.1 = "") : c.readWord.2 = c :=
  takeRun_of_nil (by simpa [readWord] using h)

/-- Reading a quoted text takes the cursor along, whatever comes of it. -/
theorem readString_ne_of_quote (h : c.ahead = quoteMark :: ds) : c.readString.2 ≠ c := by
  intro hsame
  have hreach := (reaches_readUntil quoteMark c.skip).ahead_length_le
  rw [← readString_of_quote h, hsame, ahead_skip h, h, List.length_cons] at hreach
  omega

/-! ### Booleans -/

/-- A failure is that of the text, or there is no text, or a wrong one that is given back. -/
theorem readBool_error_cases {f : Fault} (h : c.readBool = (.error f, after)) :
    c.readString = (.error f, after) ∨ c.readString = (.ok "", after) ∨ after = c := by
  unfold readBool at h
  split at h
  · next g place hread =>
    obtain ⟨rfl, rfl⟩ : g = f ∧ place = after := by simpa using h
    exact .inl hread
  · next word place hread =>
    by_cases hempty : word = ""
    · subst hempty
      obtain ⟨-, rfl⟩ : _ ∧ place = after := by simpa using h
      exact .inr (.inl hread)
    · by_cases htrue : word = "true"
      · simp [htrue] at h
      · by_cases hfalse : word = "false"
        · simp [hfalse] at h
        · obtain ⟨-, rfl⟩ : _ ∧ c = after := by simpa [hempty, htrue, hfalse] using h
          exact .inr (.inr rfl)

theorem readBool_of_error {f : Fault} (h : c.readString = (.error f, after)) :
    c.readBool = (.error f, after) := by
  rw [readBool, h]

theorem readBool_of_empty (h : c.readString = (.ok "", after)) :
    c.readBool = (.error (after.fault .expectedBool), after) := by
  rw [readBool, h]
  rfl

/-- What moves the cursor for nothing is a misquote ahead. -/
theorem misquote_of_moved {f : Fault} (h : c.readBool = (.error f, after)) (hmoved : after ≠ c) :
    c.MisquoteAhead := by
  have hread : c.readString = (.error f, after) ∨ c.readString = (.ok "", after) := by
    rcases readBool_error_cases h with hread | hread | hsame
    · exact .inl hread
    · exact .inr hread
    · exact absurd hsame hmoved
  by_cases hquote : c.ahead.head? = some quoteMark
  · obtain ⟨ds, hds⟩ := List.head?_eq_some_iff.1 hquote
    refine ⟨ds, hds, ?_⟩
    rintro ⟨text, rest, hne, hrest⟩
    have htoken : c.readString = (.ok text, c.advance (quoteMark :: closed quoteMark text) rest) :=
      readString_eq_ok_iff.2 ⟨_, rest, by rw [hds, hrest, List.cons_append], .quoted text rest, rfl⟩
    rcases hread with hread | hread
    · simp [hread] at htoken
    · obtain ⟨hempty, -⟩ : "" = text ∧ _ := by simpa [hread] using htoken
      exact hne hempty.symm
  · rw [readString_of_word hquote] at hread
    rcases hread with hread | hread
    · simp at hread
    · obtain ⟨hempty, rfl⟩ : c.readWord.1 = "" ∧ c.readWord.2 = after := by simpa using hread
      exact absurd (readWord_empty hempty) hmoved

theorem MisquoteAhead.readBool (h : c.MisquoteAhead) :
    ∃ f after, c.readBool = (.error f, after) ∧ after ≠ c := by
  obtain ⟨ds, hds, hnone⟩ := h
  have hmoved := readString_ne_of_quote hds
  cases hread : c.readString with
  | mk outcome after =>
    rw [hread] at hmoved
    cases outcome with
    | error f => exact ⟨f, after, readBool_of_error hread, hmoved⟩
    | ok text =>
      by_cases hempty : text = ""
      · subst hempty
        exact ⟨_, after, readBool_of_empty hread, hmoved⟩
      · rw [readString_of_quote hds] at hread
        obtain ⟨rest, hrest, -⟩ := (readUntil_eq_ok_iff (by decide)).1 hread
        rw [ahead_skip hds] at hrest
        exact absurd ⟨text, rest, hempty, hrest⟩ hnone

/--
**A boolean that is not read moves the cursor just behind a misquote.**

A boolean is read just if a token for its word is ahead, quoted or not, and then the cursor
passes that one token.  Reading fails and leaves the cursor elsewhere just if a quote is ahead
and what comes after it is no text that closes and has something in it.  All other failures
leave the cursor where it was.
-/
theorem readBool_moves_iff (c : Cursor) :
    (∀ b after, c.readBool = (.ok b, after) ↔ ∃ token rest, c.ahead = token ++ rest ∧
      Token token rest (if b then "true" else "false") ∧ after = c.advance token rest) ∧
    ((∃ f after, c.readBool = (.error f, after) ∧ after ≠ c) ↔ c.MisquoteAhead) := by
  refine ⟨fun b after => ?_, fun ⟨f, after, h, hmoved⟩ => misquote_of_moved h hmoved,
    MisquoteAhead.readBool⟩
  rw [readBool_eq_ok_iff]
  constructor
  · rintro ⟨word, hread, rfl⟩
    exact readString_eq_ok_iff.1 hread
  · intro h
    exact ⟨_, readString_eq_ok_iff.2 h, rfl⟩

/-- Two quotes with nothing between them are passed, and so is a text that never closes. -/
theorem readBool_moved :
    (∃ f after, (ofLine "\"\"").readBool = (.error f, after) ∧
      (ofLine "\"\"").offset = 0 ∧ after.offset = 2) ∧
    ∃ f after, (ofLine "\"true").readBool = (.error f, after) ∧
      (ofLine "\"true").offset = 0 ∧ after.offset = 5 :=
  ⟨⟨_, _, rfl, by decide, by decide⟩, _, _, rfl, by decide, by decide⟩

end Cursor

end CommandLines
