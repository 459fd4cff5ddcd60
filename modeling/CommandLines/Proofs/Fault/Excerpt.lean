/-
What an excerpt shows.

A fault may point anywhere: past the end of its line, or into a character.  By bytes, its excerpt is
come by in two walks.  One goes down from the place to a boundary, where the excerpt stops, and the
other goes up to a boundary from as many bytes before that as an excerpt may have, where it
starts.  Each walk could miss: the one by going below the line, the other by going past where the
excerpt stops, so that nothing could be cut out.  And dots are put in front for a reason that has
nothing to do with where the second walk ends, namely how many bytes there are before the stop.

None of this happens.  A walk down stops at the greatest boundary that is not after its start, a
walk up at the least that is not before (`seeks_pred_iff`, `seeks_succ_iff`), and the stop of the
first is itself a boundary that the second cannot pass.  What is between them is the longest end of
the text before the place that is short enough, so that there are dots just where it is not all.
-/
import CommandLines.Cursor.Place
import CommandLines.Proofs.Span

namespace CommandLines

namespace Text

variable {line : String} {m n : Nat} {cs : List Char}

/-! ### Walking to a boundary -/

/-- A walk through the offsets of a line that takes a step wherever it is not at a boundary: from
one offset it comes to an end at the other. -/
inductive Seeks (line : String) (step : Nat → Nat) : Nat → Nat → Prop where
  /-- At a boundary the walk ends. -/
  | here {n : Nat} (h : Boundary line n) : Seeks line step n n
  /-- Elsewhere it takes a step. -/
  | goesOn {n m : Nat} (h : ¬Boundary line n) (further : Seeks line step (step n) m) :
      Seeks line step n m

/-- A walk down ends at the last boundary that is not after its start. -/
theorem seeks_pred_iff :
    Seeks line Nat.pred n m ↔ IsGreatest {k | Boundary line k ∧ k ≤ n} m := by
  constructor
  · intro h
    induction h with
    | here h => exact ⟨⟨h, Nat.le_refl _⟩, fun k hk => hk.2⟩
    | @goesOn n m h _ ih =>
      obtain ⟨⟨hm, hle⟩, hgreatest⟩ := ih
      refine ⟨⟨hm, Nat.le_trans hle (Nat.pred_le n)⟩, ?_⟩
      intro k hk
      have hne : k ≠ n := fun heq => h (heq ▸ hk.1)
      exact hgreatest ⟨hk.1, Nat.le_pred_of_lt (Nat.lt_of_le_of_ne hk.2 hne)⟩
  · intro h
    induction n with
    | zero =>
      obtain rfl : m = 0 := Nat.le_zero.1 h.1.2
      exact .here h.1.1
    | succ n ih =>
      by_cases hn : Boundary line (n + 1)
      · obtain rfl : m = n + 1 := Nat.le_antisymm h.1.2 (h.2 ⟨hn, Nat.le_refl _⟩)
        exact .here hn
      · have hne : m ≠ n + 1 := fun heq => hn (heq ▸ h.1.1)
        have hle : m ≤ n := Nat.le_of_lt_succ (Nat.lt_of_le_of_ne h.1.2 hne)
        exact .goesOn hn (ih ⟨⟨h.1.1, hle⟩, fun k hk => h.2 ⟨hk.1, Nat.le_succ_of_le hk.2⟩⟩)

/-- A walk up ends at the first boundary that is not before its start. -/
theorem seeks_succ_iff :
    Seeks line Nat.succ n m ↔ IsLeast {k | Boundary line k ∧ n ≤ k} m := by
  constructor
  · intro h
    induction h with
    | here h => exact ⟨⟨h, Nat.le_refl _⟩, fun k hk => hk.2⟩
    | @goesOn n m h _ ih =>
      obtain ⟨⟨hm, hle⟩, hleast⟩ := ih
      refine ⟨⟨hm, Nat.le_of_succ_le hle⟩, ?_⟩
      intro k hk
      have hne : n ≠ k := fun heq => h (heq ▸ hk.1)
      exact hleast ⟨hk.1, Nat.lt_of_le_of_ne hk.2 hne⟩
  · intro h
    -- the boundary that is looked for bounds how far the walk can go
    induction hd : m - n generalizing n with
    | zero =>
      obtain rfl : m = n := Nat.le_antisymm (by omega) h.1.2
      exact .here h.1.1
    | succ d ih =>
      have hn : ¬Boundary line n := by
        intro hn
        have := h.2 ⟨hn, Nat.le_refl _⟩
        omega
      refine .goesOn hn (ih ⟨⟨h.1.1, by simp only [Nat.succ_eq_add_one]; omega⟩, ?_⟩ ?_)
      · exact fun k hk => h.2 ⟨hk.1, Nat.le_of_succ_le hk.2⟩
      · simp only [Nat.succ_eq_add_one]
        omega

/-! ### The end of a text -/

theorem lastBytes_suffix (cs : List Char) (n : Nat) : lastBytes cs n <:+ cs := by
  have hfront : (cutAtMost cs.reverse n).1 <+: cs.reverse :=
    ⟨_, cutAtMost_append cs.reverse n⟩
  rw [lastBytes, ← List.reverse_prefix, List.reverse_reverse]
  exact hfront

theorem bytes_lastBytes_le (cs : List Char) (n : Nat) : bytes (lastBytes cs n) ≤ n := by
  rw [lastBytes, bytes_reverse]
  exact bytes_cutAtMost_le _ n

/-- Whatever the text ends with and is not too long, is the end of what is kept. -/
theorem suffix_lastBytes {s : List Char} (h : s <:+ cs) (hle : bytes s ≤ n) :
    s <:+ lastBytes cs n := by
  have hfront : s.reverse <+: cs.reverse := List.reverse_prefix.2 h
  rw [lastBytes, ← List.reverse_prefix, List.reverse_reverse]
  exact prefix_cutAtMost hfront (by rwa [bytes_reverse])

/-- All is kept just where it is not too long. -/
theorem lastBytes_eq_self_iff : lastBytes cs n = cs ↔ bytes cs ≤ n := by
  constructor
  · intro h
    rw [← h]
    exact bytes_lastBytes_le cs n
  · intro h
    have hwhole := suffix_lastBytes (List.suffix_refl cs) h
    exact (lastBytes_suffix cs n).eq_of_length_le hwhole.length_le

/-- Where what is kept starts, a walk up comes to an end that sets out as many bytes before the end
of the text as may be kept. -/
theorem isLeast_lastBytes {before after : List Char} (hline : line.toList = before ++ after)
    (n : Nat) :
    IsLeast {k | Boundary line k ∧ bytes before - n ≤ k}
      (bytes before - bytes (lastBytes before n)) := by
  have hle := bytes_lastBytes_le before n
  obtain ⟨front, hfront⟩ := lastBytes_suffix before n
  have hbytes : bytes front + bytes (lastBytes before n) = bytes before := by
    rw [← bytes_append, hfront]
  refine ⟨⟨?_, by omega⟩, ?_⟩
  · refine boundary_iff.2 ⟨front, lastBytes before n ++ after, ?_, by omega⟩
    rw [hline, ← List.append_assoc, hfront]
  · rintro k ⟨hk, hfar⟩
    by_cases hpast : bytes before ≤ k
    · omega
    · -- from an earlier boundary on, an end of the text is left, and what is kept is no shorter
      have hstop : Boundary line (bytes before) := boundary_iff.2 ⟨before, after, hline, rfl⟩
      obtain ⟨a, b, c, hparts, rfl, hab⟩ := hk.exists_parts hstop (by omega)
      obtain ⟨rfl, -⟩ := append_inj_of_bytes (hparts.symm.trans hline) hab
      rw [bytes_append] at hfar
      have hend := suffix_lastBytes (List.suffix_append a b) (n := n) (by omega)
      obtain ⟨more, hmore⟩ := hend
      have hlen : bytes more + bytes b = bytes (lastBytes (a ++ b) n) := by
        rw [← bytes_append, hmore]
      rw [bytes_append]
      omega

end Text

namespace Place

open Text

/--
**An excerpt shows as much of the text before the place as fits.**

Let a line be cut at the last boundary that is not after the place, wherever the place is.
The excerpt is the longest end of the first part that has at most ten bytes, with dots in
front just where it is not all of that part, and the mark after it.

It is come by as follows.  A walk down from the place, or from the end of the line if that
is before it, ends at the cut, and a walk up from ten bytes before the cut ends no further
than there.  Between the two the line can be cut out, and that is what is shown.
-/
theorem excerpt_exact (p : Place) :
    ∃ before after shown : List Char, ∃ start : Nat,
      p.line.toList = before ++ after ∧
      IsGreatest {k | Boundary p.line k ∧ k ≤ p.offset} (bytes before) ∧
      (shown <:+ before ∧ bytes shown ≤ 10 ∧ ∀ s, s <:+ before → bytes s ≤ 10 → s <:+ shown) ∧
      p.excerpt =
        (if shown = before then "" else "...") ++ String.ofList shown ++ "<--[HERE]" ∧
      Seeks p.line Nat.pred (min p.offset p.length) (bytes before) ∧
      Seeks p.line Nat.succ (bytes before - 10) start ∧
      (Span.mk start (bytes before)).text? p.line = some (String.ofList shown) := by
  obtain ⟨before, after, hcut⟩ :
      ∃ before after, cutAtMost p.line.toList p.offset = (before, after) := ⟨_, _, rfl⟩
  have hline : p.line.toList = before ++ after := by
    rw [← cutAtMost_append p.line.toList p.offset, hcut]
  have hgreatest := isGreatest_cutAtMost p.line p.offset
  rw [hcut] at hgreatest
  refine ⟨before, after, lastBytes before 10, bytes before - bytes (lastBytes before 10), hline,
    hgreatest, ⟨lastBytes_suffix before 10, bytes_lastBytes_le before 10,
      fun s hs hle => suffix_lastBytes hs hle⟩, ?_, ?_, ?_, ?_⟩
  · unfold excerpt
    simp only [hcut, excerptBytes, lastBytes_eq_self_iff]
    by_cases hfits : bytes before ≤ 10
    · rw [if_pos hfits, if_neg (by omega)]
    · rw [if_neg hfits, if_pos (by omega)]
  · refine seeks_pred_iff.2 ⟨⟨hgreatest.1.1, le_min hgreatest.1.2 hgreatest.1.1.le_end⟩, ?_⟩
    intro k hk
    exact hgreatest.2 ⟨hk.1, hk.2.trans (Nat.min_le_left _ _)⟩
  · exact seeks_succ_iff.2 (isLeast_lastBytes hline 10)
  · obtain ⟨front, hfront⟩ := lastBytes_suffix before 10
    have hbytes : bytes before - bytes (lastBytes before 10) = bytes front := by
      rw [← hfront, bytes_append, hfront]
      omega
    have hparts : p.line.toList = front ++ lastBytes before 10 ++ after := by rw [hfront, hline]
    have htext := Span.text?_of_parts hparts
    rwa [hfront, ← hbytes] at htext

/-- The place is in the last character, and ten bytes before that is in the third, so nine bytes are
shown. -/
example : (Place.mk "größe klein…" 14).excerpt = "...ße klein<--[HERE]" := by decide

end Place

end CommandLines
