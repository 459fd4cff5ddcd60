/-
One spelling for each text.

A reader that unescapes takes what it can: `\a` might be read as a bare `a`, the reader
might stop at a mark that is escaped, or give back what it has at the end of the line, and
then several tokens would mean one text.

Each character is written in one or two characters, and no such piece is the beginning of
another one.  So what is ahead of a cursor is the pieces of some text and then something
that no piece begins, a `Stop`, in one way only, and what a reader does is decided by which
kind of stop it is.
-/
import Mathlib.Data.Set.Function
import CommandLines.Proofs.Reading.Quoting

namespace CommandLines

namespace Cursor

/-- A text as it is written up to and including the closing mark. -/
def closed (closing : Char) (text : String) : List Char :=
  escapeFor closing text.toList ++ [closing]

/-- What may come where a text as it is written for a closing mark goes no further. -/
inductive Stop (closing : Char) : List Char → Prop where
  | closes (rest : List Char) : Stop closing (closing :: rest)
  /-- A backslash stands before a character that needs none. -/
  | slips {d : Char} (rest : List Char) (hclosing : d ≠ closing) (hescape : d ≠ escapeMark) :
      Stop closing (escapeMark :: d :: rest)
  | ends : Stop closing []
  /-- The line ends between a backslash and the character that it stands before. -/
  | breaksOff : Stop closing [escapeMark]

variable {closing d e : Char} {text other tail tail' rest : List Char} {c : Cursor}

/-! ### Pieces -/

/-- No piece is the beginning of another one. -/
theorem escapeFor_cons_inj
    (h : escapeFor closing (d :: text) ++ tail = escapeFor closing (e :: other) ++ tail') :
    d = e ∧ escapeFor closing text ++ tail = escapeFor closing other ++ tail' := by
  by_cases hd : d = closing ∨ d = escapeMark
  · rw [escapeFor_cons_of_marked hd] at h
    by_cases he : e = closing ∨ e = escapeMark
    · rw [escapeFor_cons_of_marked he] at h
      simpa using h
    · obtain ⟨hne, hescape⟩ := not_or.1 he
      rw [escapeFor_cons_of_plain hne hescape] at h
      exact absurd (List.cons.inj h).1.symm hescape
  · obtain ⟨hne, hescape⟩ := not_or.1 hd
    rw [escapeFor_cons_of_plain hne hescape] at h
    by_cases he : e = closing ∨ e = escapeMark
    · rw [escapeFor_cons_of_marked he] at h
      exact absurd (List.cons.inj h).1 hescape
    · obtain ⟨hne', hescape'⟩ := not_or.1 he
      rw [escapeFor_cons_of_plain hne' hescape'] at h
      simpa using h

/-- No piece begins where a text stops. -/
theorem Stop.not_cons (h : Stop closing tail) (hmark : closing ≠ escapeMark) :
    tail ≠ escapeFor closing (d :: text) ++ rest := by
  intro heq
  by_cases hd : d = closing ∨ d = escapeMark
  · rw [escapeFor_cons_of_marked hd] at heq
    cases h with
    | closes => exact hmark (List.cons.inj heq).1
    | slips _ hclosing hescape =>
      have hd' := (List.cons.inj (List.cons.inj heq).2).1
      exact hd.elim (fun h => hclosing (hd'.trans h)) fun h => hescape (hd'.trans h)
    | ends | breaksOff => simp at heq
  · obtain ⟨hne, hescape⟩ := not_or.1 hd
    rw [escapeFor_cons_of_plain hne hescape] at heq
    cases h with
    | closes => exact hne (List.cons.inj heq).1.symm
    | slips | breaksOff => exact hescape (List.cons.inj heq).1.symm
    | ends => simp at heq

/-- What is ahead is the pieces of a text up to a stop. -/
theorem exists_stop (closing : Char) :
    ∀ ahead, ∃ text tail, Stop closing tail ∧ ahead = escapeFor closing text ++ tail
  | [] => ⟨[], [], .ends, rfl⟩
  | d :: ds => by
    -- a backslash is judged together with what comes after it, so the recursion takes two at once
    by_cases hescape : d = escapeMark
    · subst hescape
      cases ds with
      | nil => exact ⟨[], _, .breaksOff, rfl⟩
      | cons e rest =>
        by_cases he : e = closing ∨ e = escapeMark
        · obtain ⟨text, tail, hstop, hrest⟩ := exists_stop closing rest
          refine ⟨e :: text, tail, hstop, ?_⟩
          rw [escapeFor_cons_of_marked he, hrest]
          rfl
        · obtain ⟨hne, hescape⟩ := not_or.1 he
          exact ⟨[], _, .slips rest hne hescape, rfl⟩
    · by_cases hclosing : d = closing
      · subst hclosing
        exact ⟨[], _, .closes ds, rfl⟩
      · obtain ⟨text, tail, hstop, hrest⟩ := exists_stop closing ds
        refine ⟨d :: text, tail, hstop, ?_⟩
        rw [escapeFor_cons_of_plain hclosing hescape, hrest]
        rfl

/-- There is only one such text. -/
theorem stop_unique (hmark : closing ≠ escapeMark) (h : Stop closing tail)
    (h' : Stop closing tail')
    (heq : escapeFor closing text ++ tail = escapeFor closing other ++ tail') :
    text = other ∧ tail = tail' := by
  induction text generalizing other with
  | nil =>
    cases other with
    | nil => exact ⟨rfl, heq⟩
    | cons e other => exact absurd heq (h.not_cons hmark)
  | cons d text ih =>
    cases other with
    | nil => exact absurd heq.symm (h'.not_cons hmark)
    | cons e other =>
      obtain ⟨rfl, hrest⟩ := escapeFor_cons_inj heq
      obtain ⟨rfl, rfl⟩ := ih hrest
      exact ⟨rfl, rfl⟩

/-! ### What comes of each kind of stop -/

theorem readUntil_of_closes (hmark : closing ≠ escapeMark) {text : String}
    (h : c.ahead = closed closing text ++ rest) :
    c.readUntil closing = (.ok text, c.advance (closed closing text) rest) := by
  rw [closed, List.append_assoc, List.singleton_append] at h
  rw [readUntil, h, readClosing_escapeFor hmark]
  simp [advance, closed]

theorem readUntil_of_slips (hclosing : d ≠ closing) (hescape : d ≠ escapeMark)
    (h : c.ahead = escapeFor closing text ++ escapeMark :: d :: rest) :
    let place := c.advance (escapeFor closing text ++ [escapeMark]) (d :: rest)
    c.readUntil closing = (.error (place.fault (.badEscape d)), place) := by
  rw [readUntil, h, readClosing_append]
  simp [readClosing, hclosing, hescape, advance]

theorem readUntil_of_ends
    (h : c.ahead = escapeFor closing text ∨ c.ahead = escapeFor closing text ++ [escapeMark]) :
    c.readUntil closing = (.error (c.finish.fault .unclosedQuote), c.finish) := by
  rcases h with h | h
  · rw [← List.append_nil (escapeFor closing text)] at h
    rw [readUntil, finish, h, readClosing_append]
    simp [readClosing]
  · rw [readUntil, finish, h, readClosing_append]
    simp [readClosing]

/-- What a reader makes of what is ahead, and what it is. -/
theorem readUntil_cases (hmark : closing ≠ escapeMark) (c : Cursor) :
    (∃ text rest, c.ahead = closed closing text ++ rest ∧
      c.readUntil closing = (.ok text, c.advance (closed closing text) rest)) ∨
    (∃ text d rest, d ≠ closing ∧ d ≠ escapeMark ∧
      c.ahead = escapeFor closing text ++ escapeMark :: d :: rest ∧
      let place := c.advance (escapeFor closing text ++ [escapeMark]) (d :: rest)
      c.readUntil closing = (.error (place.fault (.badEscape d)), place)) ∨
    ∃ text, (c.ahead = escapeFor closing text ∨ c.ahead = escapeFor closing text ++ [escapeMark]) ∧
      c.readUntil closing = (.error (c.finish.fault .unclosedQuote), c.finish) := by
  obtain ⟨text, tail, hstop, hahead⟩ := exists_stop closing c.ahead
  cases hstop with
  | closes rest =>
    have hclosed : c.ahead = closed closing (String.ofList text) ++ rest := by
      rw [hahead, closed, String.toList_ofList, List.append_assoc, List.singleton_append]
    exact .inl ⟨_, rest, hclosed, readUntil_of_closes hmark hclosed⟩
  | slips rest hclosing hescape =>
    exact .inr (.inl ⟨text, _, rest, hclosing, hescape, hahead,
      readUntil_of_slips hclosing hescape hahead⟩)
  | ends =>
    rw [List.append_nil] at hahead
    exact .inr (.inr ⟨text, .inl hahead, readUntil_of_ends (.inl hahead)⟩)
  | breaksOff => exact .inr (.inr ⟨text, .inr hahead, readUntil_of_ends (.inr hahead)⟩)

theorem readUntil_eq_ok_iff (hmark : closing ≠ escapeMark) {text : String} {after : Cursor} :
    c.readUntil closing = (.ok text, after) ↔ ∃ rest,
      c.ahead = closed closing text ++ rest ∧ after = c.advance (closed closing text) rest := by
  constructor
  · intro h
    rcases readUntil_cases hmark c with ⟨text', rest, hahead, hread⟩ |
      ⟨_, _, _, -, -, -, hread⟩ | ⟨_, -, hread⟩
    · obtain ⟨rfl, rfl⟩ : text' = text ∧ _ = after := by simpa [hread] using h
      exact ⟨rest, hahead, rfl⟩
    · simp [hread] at h
    · simp [hread] at h
  · rintro ⟨rest, hahead, rfl⟩
    exact readUntil_of_closes hmark hahead

theorem readUntil_eq_badEscape_iff (hmark : closing ≠ escapeMark) {after : Cursor} :
    c.readUntil closing = (.error (after.fault (.badEscape d)), after) ↔
      d ≠ closing ∧ d ≠ escapeMark ∧ ∃ text rest,
        c.ahead = escapeFor closing text ++ escapeMark :: d :: rest ∧
          after = c.advance (escapeFor closing text ++ [escapeMark]) (d :: rest) := by
  constructor
  · intro h
    rcases readUntil_cases hmark c with ⟨_, _, -, hread⟩ |
      ⟨text, d', rest, hclosing, hescape, hahead, hread⟩ | ⟨_, -, hread⟩
    · simp [hread] at h
    · rw [hread] at h
      obtain ⟨hfault, rfl⟩ := Prod.mk.inj h
      obtain rfl : d' = d := by simpa [fault] using hfault
      exact ⟨hclosing, hescape, text, rest, hahead, rfl⟩
    · simp [hread, fault] at h
  · rintro ⟨hclosing, hescape, text, rest, hahead, rfl⟩
    exact readUntil_of_slips hclosing hescape hahead

theorem readUntil_eq_unclosedQuote_iff (hmark : closing ≠ escapeMark) :
    c.readUntil closing = (.error (c.finish.fault .unclosedQuote), c.finish) ↔ ∃ text,
      c.ahead = escapeFor closing text ∨ c.ahead = escapeFor closing text ++ [escapeMark] := by
  constructor
  · intro h
    rcases readUntil_cases hmark c with ⟨_, _, -, hread⟩ | ⟨_, _, _, -, -, -, hread⟩ |
      ⟨text, hahead, -⟩
    · simp [hread] at h
    · simp [hread, fault] at h
    · exact ⟨text, hahead⟩
  · rintro ⟨text, hahead⟩
    exact readUntil_of_ends hahead

/-- The tokens that are read whole are those that texts are written in, one for each text. -/
theorem bijOn_closed (hmark : closing ≠ escapeMark) : Set.BijOn (closed closing) Set.univ
    {w | ∃ text, (Cursor.mk [] w).readUntil closing = (.ok text, ⟨w.reverse, []⟩)} := by
  refine ⟨?_, ?_, ?_⟩
  · intro text _
    refine ⟨text, (readUntil_eq_ok_iff hmark).2 ⟨[], (List.append_nil _).symm, ?_⟩⟩
    rw [advance, List.append_nil]
  · intro text _ other _ heq
    obtain ⟨htext, -⟩ := stop_unique hmark (.closes []) (.closes []) heq
    exact String.toList_inj.1 htext
  · rintro w ⟨text, hread⟩
    obtain ⟨rest, hahead, hafter⟩ := (readUntil_eq_ok_iff hmark).1 hread
    obtain rfl : rest = [] := congrArg Cursor.ahead hafter.symm
    exact ⟨text, trivial, by simpa using hahead.symm⟩

/--
**Every text has one spelling.**

Reading up to a closing mark that is not a backslash gives a text just if what is passed is
that text, with a backslash before every closing mark and every backslash, and the closing
mark.  It stops at a character that it cannot unescape just if what is passed is a text
written like that and a backslash more.  And it misses the closing mark at the end of the
line just if nothing but such a text is ahead, or such a text and a backslash.

These are all the ways there are, and only one of them applies, with one text.  So the
tokens that are read are as many as the texts.
-/
theorem readUntil_iff (hmark : closing ≠ escapeMark) (c : Cursor) :
    (∀ text after, c.readUntil closing = (.ok text, after) ↔ ∃ rest,
      c.ahead = closed closing text ++ rest ∧ after = c.advance (closed closing text) rest) ∧
    (∀ d after, c.readUntil closing = (.error (after.fault (.badEscape d)), after) ↔
      d ≠ closing ∧ d ≠ escapeMark ∧ ∃ text rest,
        c.ahead = escapeFor closing text ++ escapeMark :: d :: rest ∧
          after = c.advance (escapeFor closing text ++ [escapeMark]) (d :: rest)) ∧
    (c.readUntil closing = (.error (c.finish.fault .unclosedQuote), c.finish) ↔ ∃ text,
      c.ahead = escapeFor closing text ∨ c.ahead = escapeFor closing text ++ [escapeMark]) ∧
    (∃! split : List Char × List Char,
      Stop closing split.2 ∧ c.ahead = escapeFor closing split.1 ++ split.2) ∧
    Set.BijOn (closed closing) Set.univ
      {w | ∃ text, (Cursor.mk [] w).readUntil closing = (.ok text, ⟨w.reverse, []⟩)} := by
  refine ⟨fun _ _ => readUntil_eq_ok_iff hmark, fun _ _ => readUntil_eq_badEscape_iff hmark,
    readUntil_eq_unclosedQuote_iff hmark, ?_, bijOn_closed hmark⟩
  obtain ⟨text, tail, hstop, hahead⟩ := exists_stop closing c.ahead
  refine ⟨(text, tail), ⟨hstop, hahead⟩, ?_⟩
  rintro ⟨other, tail'⟩ ⟨hstop', hahead'⟩
  obtain ⟨rfl, rfl⟩ := stop_unique hmark hstop' hstop (hahead'.symm.trans hahead)
  rfl

/-- After an opening mark, `a\"\\" b` closes, `a\b"` slips, and `a\"` misses its closing mark. -/
theorem readUntil_iff_quoteMark : quoteMark ≠ escapeMark ∧
    (∃ after, (Cursor.mk [quoteMark]
        ['a', escapeMark, quoteMark, escapeMark, escapeMark, quoteMark, ' ', 'b']).readUntil
          quoteMark = (.ok (String.ofList ['a', quoteMark, escapeMark]), after) ∧
      after.ahead = [' ', 'b']) ∧
    (∃ after, (Cursor.mk [quoteMark] ['a', escapeMark, 'b', quoteMark]).readUntil quoteMark =
        (.error (after.fault (.badEscape 'b')), after) ∧
      after.ahead = ['b', quoteMark]) ∧
    ∃ after, (Cursor.mk [quoteMark] ['a', escapeMark, quoteMark]).readUntil quoteMark =
        (.error (after.fault .unclosedQuote), after) ∧
      after.ahead = [] := by
  refine ⟨by decide, ?_, ?_, ?_⟩
  · exact ⟨_, ((readUntil_iff (by decide) _).1 _ _).2 ⟨[' ', 'b'], by decide, rfl⟩, rfl⟩
  · exact ⟨_, ((readUntil_iff (by decide) _).2.1 _ _).2
      ⟨by decide, by decide, ['a'], [quoteMark], by decide, rfl⟩, rfl⟩
  · exact ⟨_, (readUntil_iff (by decide) _).2.2.1.2 ⟨['a', quoteMark], .inl (by decide)⟩, rfl⟩

end Cursor

end CommandLines
