/-
Spans that fit a line, and spans that hold others.

What a span covers is asked for by two byte offsets, and the answer is empty where they do
not fit the line.  Where they do, the stretches between boundaries are all one needs to
know about them: two that meet make up a longer one (`text_append`), whatever characters
they are made of.  So texts that are put together from pieces of a line can be compared
without a look at bytes.

The smallest span that holds others is known by what holds it (`IsHull`), and not by how
it is computed, so that the hull of hulls is the hull of all without any computing.
-/
import CommandLines.Cursor.Basic
import CommandLines.Span
import Mathlib.Order.Bounds.Basic

namespace CommandLines

namespace Text

variable {cs a b a' b' : List Char} {m n : Nat}

/-- Of two ways to cut a text, the one with the longer first part cuts the second part of the
other. -/
theorem exists_of_append_eq (h : a ++ b = a' ++ b') (hle : bytes a ≤ bytes a') :
    ∃ t, a' = a ++ t ∧ b = t ++ b' := by
  rcases List.append_eq_append_iff.1 h with ⟨t, ha', hb⟩ | ⟨t, ha, hb'⟩
  · exact ⟨t, ha', hb⟩
  · have hempty : t = [] := by
      rw [ha, bytes_append] at hle
      exact bytes_eq_zero.1 (by omega)
    subst hempty
    exact ⟨[], by simpa using ha.symm, by simpa using hb'.symm⟩

/-- A text is cut in one way after so many bytes. -/
theorem append_inj_of_bytes (h : a ++ b = a' ++ b') (hbytes : bytes a = bytes a') :
    a = a' ∧ b = b' := by
  obtain ⟨t, rfl, rfl⟩ := exists_of_append_eq h (Nat.le_of_eq hbytes)
  have hempty : t = [] := by
    rw [bytes_append] at hbytes
    exact bytes_eq_zero.1 (by omega)
  simp [hempty]

/-- A character of the line, or its end, starts at the byte offset. -/
def Boundary (line : String) (n : Nat) : Prop := (cut? line.toList n).isSome = true

instance {line : String} {n : Nat} : Decidable (Boundary line n) :=
  inferInstanceAs (Decidable (_ = true))

variable {line : String}

theorem boundary_iff : Boundary line n ↔ ∃ a b, line.toList = a ++ b ∧ bytes a = n := by
  rw [Boundary, Option.isSome_iff_exists]
  constructor
  · rintro ⟨⟨a, b⟩, h⟩
    exact ⟨a, b, cut?_eq_some_iff.1 h⟩
  · rintro ⟨a, b, h⟩
    exact ⟨(a, b), cut?_eq_some_iff.2 h⟩

theorem boundary_zero (line : String) : Boundary line 0 :=
  boundary_iff.2 ⟨[], line.toList, rfl, rfl⟩

theorem boundary_end (line : String) : Boundary line (bytes line.toList) :=
  boundary_iff.2 ⟨line.toList, [], (List.append_nil _).symm, rfl⟩

theorem Boundary.le_end (h : Boundary line n) : n ≤ bytes line.toList := by
  obtain ⟨a, b, hline, rfl⟩ := boundary_iff.1 h
  rw [hline, bytes_append]
  omega

/-- Two boundaries cut the line into three parts. -/
theorem Boundary.exists_parts (hm : Boundary line m) (hn : Boundary line n) (hle : m ≤ n) :
    ∃ a b c, line.toList = a ++ b ++ c ∧ bytes a = m ∧ bytes (a ++ b) = n := by
  obtain ⟨a, r, ha, rfl⟩ := boundary_iff.1 hm
  obtain ⟨a', c, ha', rfl⟩ := boundary_iff.1 hn
  obtain ⟨b, rfl, rfl⟩ := exists_of_append_eq (ha.symm.trans ha') hle
  exact ⟨a, b, c, ha', rfl, rfl⟩

/-- Whatever the text begins with and is not too long, the cut leaves in front. -/
theorem prefix_cutAtMost (h : a <+: cs) (hle : bytes a ≤ n) : a <+: (cutAtMost cs n).1 := by
  induction a generalizing cs n with
  | nil => exact List.nil_prefix
  | cons c a ih =>
    obtain ⟨rest, rfl⟩ := h
    rw [bytes_cons] at hle
    have hrest := ih (List.prefix_append a rest) (n := n - c.utf8Size) (by omega)
    rw [List.cons_append, cutAtMost, if_pos (by omega)]
    exact (List.prefix_cons_inj c).2 hrest

/-- Cutting a line at an offset cuts it at the last boundary that is not after the offset. -/
theorem isGreatest_cutAtMost (line : String) (n : Nat) :
    IsGreatest {k | Boundary line k ∧ k ≤ n} (bytes (cutAtMost line.toList n).1) := by
  refine ⟨⟨?_, bytes_cutAtMost_le _ n⟩, ?_⟩
  · exact boundary_iff.2 ⟨_, _, (cutAtMost_append line.toList n).symm, rfl⟩
  · rintro k ⟨hk, hle⟩
    obtain ⟨a, b, hline, rfl⟩ := boundary_iff.1 hk
    obtain ⟨rest, hrest⟩ := prefix_cutAtMost (hline ▸ List.prefix_append a b) hle
    rw [← hrest, bytes_append]
    omega

end Text

/-- A cursor stands at a boundary. -/
theorem Cursor.boundary_offset (c : Cursor) : Text.Boundary c.line c.offset :=
  Text.boundary_iff.2 ⟨c.behind.reverse, c.ahead, by simp [line, chars], by simp [offset]⟩

namespace Span

open Text

variable {s t u : Span} {line : String} {m n k : Nat}

/-! ### What a span covers -/

theorem text?_of_parts {a b c : List Char} (h : line.toList = a ++ b ++ c) :
    (Span.mk (bytes a) (bytes (a ++ b))).text? line = some (String.ofList b) := by
  have hfirst : cut? line.toList (bytes a) = some (a, b ++ c) :=
    cut?_eq_some_iff.2 ⟨by rw [h, List.append_assoc], rfl⟩
  have hsecond : cut? (b ++ c) (bytes b) = some (b, c) := cut?_eq_some_iff.2 ⟨rfl, rfl⟩
  simp [text?, between?, hfirst, hsecond]

theorem text_of_parts {a b c : List Char} (h : line.toList = a ++ b ++ c) :
    (Span.mk (bytes a) (bytes (a ++ b))).text line = String.ofList b := by
  rw [text, text?_of_parts h, Option.getD_some]

/-- An empty span covers nothing, wherever it is. -/
@[simp]
theorem text_point (line : String) (n : Nat) : (Span.mk n n).text line = "" := by
  cases h : cut? line.toList n <;> simp [text, text?, between?, h, cut?]

/-- Two stretches of the line that meet make up a longer one. -/
theorem text_append (hm : Boundary line m) (hn : Boundary line n) (hk : Boundary line k)
    (hmn : m ≤ n) (hnk : n ≤ k) :
    (Span.mk m n).text line ++ (Span.mk n k).text line = (Span.mk m k).text line := by
  obtain ⟨a, b, c, hline, rfl, rfl⟩ := hm.exists_parts hn hmn
  obtain ⟨a', b', c', hline', ha', rfl⟩ := hn.exists_parts hk hnk
  have hcuts : a ++ b ++ c = a' ++ (b' ++ c') := by rw [← hline, hline', List.append_assoc]
  obtain ⟨rfl, rfl⟩ := append_inj_of_bytes hcuts ha'.symm
  have hlong : line.toList = a ++ (b ++ b') ++ c' := by simpa using hline'
  have hboth := text_of_parts hlong
  rw [← List.append_assoc] at hboth
  rw [text_of_parts hline, text_of_parts hline', hboth, String.ofList_append]

/-- The span covers a part of the line: its ends are character boundaries in order. -/
structure Fits (s : Span) (line : String) : Prop where
  start : Boundary line s.start
  stop : Boundary line s.stop
  le : s.start ≤ s.stop

theorem fits_iff : s.Fits line ↔
    Boundary line s.start ∧ Boundary line s.stop ∧ s.start ≤ s.stop :=
  ⟨fun h => ⟨h.start, h.stop, h.le⟩, fun h => ⟨h.1, h.2.1, h.2.2⟩⟩

instance {s : Span} {line : String} : Decidable (s.Fits line) := decidable_of_iff _ fits_iff.symm

/-- A span that covers some text fits the line. -/
theorem fits_of_text? {text : String} (h : s.text? line = some text) : s.Fits line := by
  obtain ⟨inside, hinside, -⟩ := Option.map_eq_some_iff.1 h
  unfold between? at hinside
  split at hinside
  · next hle =>
    obtain ⟨⟨a, rest⟩, hfirst, hsecond⟩ := Option.bind_eq_some_iff.1 hinside
    obtain ⟨⟨b, after⟩, hcut, -⟩ := Option.bind_eq_some_iff.1 hsecond
    obtain ⟨hline, ha⟩ := cut?_eq_some_iff.1 hfirst
    obtain ⟨rfl, hb⟩ := cut?_eq_some_iff.1 hcut
    refine ⟨boundary_iff.2 ⟨a, _, hline, ha⟩, boundary_iff.2 ⟨a ++ b, after, ?_, ?_⟩, hle⟩
    · rw [hline, List.append_assoc]
    · rw [bytes_append]
      omega
  · cases hinside

/-- The offset lies in the span, or at one of its ends. -/
def Holds (s : Span) (n : Nat) : Prop := s.start ≤ n ∧ n ≤ s.stop

instance {s : Span} {n : Nat} : Decidable (s.Holds n) := inferInstanceAs (Decidable (_ ∧ _))

/-! ### Spans that hold others -/

/-- The one span holds all of the other. -/
def Encloses (s t : Span) : Prop := s.start ≤ t.start ∧ t.stop ≤ s.stop

instance {s t : Span} : Decidable (s.Encloses t) := inferInstanceAs (Decidable (_ ∧ _))

theorem Encloses.refl (s : Span) : s.Encloses s := ⟨Nat.le_refl _, Nat.le_refl _⟩

theorem Encloses.trans (h : s.Encloses t) (h' : t.Encloses u) : s.Encloses u :=
  ⟨Nat.le_trans h.1 h'.1, Nat.le_trans h'.2 h.2⟩

theorem Encloses.antisymm (h : s.Encloses t) (h' : t.Encloses s) : s = t := by
  obtain ⟨sstart, sstop⟩ := s
  obtain ⟨tstart, tstop⟩ := t
  have hstart : sstart = tstart := Nat.le_antisymm h.1 h'.1
  have hstop : sstop = tstop := Nat.le_antisymm h'.2 h.2
  rw [hstart, hstop]

/-- A span holds a hull if it holds both of what the hull is of. -/
theorem encloses_hull_iff : u.Encloses (s.hull t) ↔ u.Encloses s ∧ u.Encloses t := by
  simp only [Encloses, hull]
  omega

/-- A hull has ends that were there before. -/
theorem Fits.hull (hs : s.Fits line) (ht : t.Fits line) : (s.hull t).Fits line := by
  refine ⟨?_, ?_, ?_⟩
  · rcases Nat.le_total s.start t.start with h | h
    · rw [Span.hull, Nat.min_eq_left h]
      exact hs.start
    · rw [Span.hull, Nat.min_eq_right h]
      exact ht.start
  · rcases Nat.le_total s.stop t.stop with h | h
    · rw [Span.hull, Nat.max_eq_right h]
      exact ht.stop
    · rw [Span.hull, Nat.max_eq_left h]
      exact hs.stop
  · have := hs.le
    have := ht.le
    simp only [Span.hull]
    omega

/-- The smallest span that holds those of a list. -/
structure IsHull (s : Span) (spans : List Span) : Prop where
  encloses : ∀ t ∈ spans, s.Encloses t
  least : ∀ u : Span, (∀ t ∈ spans, u.Encloses t) → u.Encloses s

/-- What holds the hull is what holds all spans. -/
theorem IsHull.encloses_iff {spans : List Span} (h : s.IsHull spans) :
    u.Encloses s ↔ ∀ t ∈ spans, u.Encloses t :=
  ⟨fun hu t ht => hu.trans (h.encloses t ht), h.least u⟩

/-- There is only one such span, and it is the same for lists that the same spans hold. -/
theorem IsHull.eq {spans spans' : List Span} (h : s.IsHull spans) (h' : t.IsHull spans')
    (hsame : ∀ u : Span, (∀ x ∈ spans, u.Encloses x) ↔ ∀ x ∈ spans', u.Encloses x) : s = t :=
  Encloses.antisymm (h'.least s ((hsame s).1 h.encloses)) (h.least t ((hsame t).2 h'.encloses))

theorem isHull_foldl (s : Span) (spans : List Span) :
    (spans.foldl Span.hull s).IsHull (s :: spans) := by
  induction spans generalizing s with
  | nil => exact ⟨by simp [Encloses.refl], fun u hu => hu s List.mem_cons_self⟩
  | cons t spans ih =>
    have hsame : ∀ u : Span, (∀ x ∈ s.hull t :: spans, u.Encloses x) ↔
        ∀ x ∈ s :: t :: spans, u.Encloses x := by
      intro u
      simp only [List.forall_mem_cons, encloses_hull_iff, and_assoc]
    refine ⟨(hsame _).1 (ih (s.hull t)).encloses, ?_⟩
    intro u hu
    exact (ih (s.hull t)).least u ((hsame u).2 hu)

theorem fits_foldl_hull {spans : List Span} (hs : s.Fits line)
    (hall : ∀ t ∈ spans, t.Fits line) : (spans.foldl Span.hull s).Fits line := by
  induction spans generalizing s with
  | nil => exact hs
  | cons t spans ih =>
    exact ih (hs.hull (hall t List.mem_cons_self)) fun x hx => hall x (List.mem_cons_of_mem _ hx)

end Span

end CommandLines
