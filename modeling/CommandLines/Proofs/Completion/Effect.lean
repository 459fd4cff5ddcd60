/-
What accepting a completion does, and that no set of completions changes it.

A set gives all its completions one span, by copying text of the line to both sides of each.
The line that a completion makes consists of three pieces: what stands before the span, the
text, and what stands after (`apply_eq`).  Widening moves the ends of the span outward and
adds to the text just the pieces in between (`text_widen`), so the line stays the same.
Dropping completions that are the same takes nothing away, either, and so what a set offers
is what it was made of: no line is lost, none is new.

Sets are merged by making one set of all their completions, but for a single set, which is
passed on as it is.  That makes no difference, since a set that is made again of its own
completions is the same set (`ofList_list`).
-/
import CommandLines.Proofs.Completion.Order
import CommandLines.Proofs.Span

namespace CommandLines

namespace Completion

variable {c d : Completion} {line : String} {s u : Span}

/-! ### Widening -/

theorem widen_self (c : Completion) (line : String) : c.widen line c.span = c := by
  rw [widen, if_pos rfl]

@[simp]
theorem span_widen (c : Completion) (line : String) (s : Span) : (c.widen line s).span = s := by
  rw [widen]
  split
  · next h => exact h.symm
  · rfl

@[simp]
theorem tooltip_widen (c : Completion) (line : String) (s : Span) :
    (c.widen line s).tooltip? = c.tooltip? := by
  rw [widen]
  split <;> rfl

theorem number_widen_of_text (h : c.number? = none) (line : String) (s : Span) :
    (c.widen line s).number? = none := by
  rw [widen]
  split
  · exact h
  · rfl

/-- The text of the line between the old ends and the new ones comes along. -/
theorem text_widen (h : s.Encloses c.span) : (c.widen line s).text =
    (Span.mk s.start c.span.start).text line ++ c.text ++
      (Span.mk c.span.stop s.stop).text line := by
  have hbefore : ∀ m n : Nat, m ≤ n →
      (if m < n then (Span.mk m n).text line else "") = (Span.mk m n).text line := by
    intro m n hle
    split
    · rfl
    · have heq : m = n := by omega
      rw [heq, Span.text_point]
  rw [widen]
  split
  · next heq => simp [heq]
  · show (if s.start < c.span.start then _ else "") ++ c.text ++
        (if c.span.stop < s.stop then _ else "") = _
    rw [hbefore _ _ h.1, hbefore _ _ h.2]

/-- Widening twice is widening once, to the span that is widest. -/
theorem widen_widen (hc : c.span.Fits line) (hs : s.Fits line) (hu : u.Fits line)
    (hsc : s.Encloses c.span) (hus : u.Encloses s) (htext : c.number? = none) :
    (c.widen line s).widen line u = c.widen line u := by
  have hsame : ((c.widen line s).widen line u).text = (c.widen line u).text := by
    have hus' : u.Encloses (c.widen line s).span := by simpa using hus
    rw [text_widen hus', text_widen hsc, text_widen (hus.trans hsc), span_widen,
      ← Span.text_append hu.start hs.start hc.start hus.1 hsc.1,
      ← Span.text_append hc.stop hs.stop hu.stop hsc.2 hus.2]
    simp only [String.append_assoc]
  refine eq_of_same_texts ?_ (number_widen_of_text htext line u) (same_iff.2 ⟨hsame, ?_, ?_⟩)
  · exact number_widen_of_text (number_widen_of_text htext line s) line u
  · simp
  · simp

/-! ### Accepting -/

/-- The line with the completion accepted is what stands before its span, its text, and what stands
after. -/
theorem apply_eq (h : c.span.Fits line) : c.apply line =
    (Span.mk 0 c.span.start).text line ++ c.text ++
      (Span.mk c.span.stop (Text.bytes line.toList)).text line := by
  obtain ⟨before, inside, after, hline, hstart, hstop⟩ := h.start.exists_parts h.stop h.le
  have hfirst : Text.cut? line.toList c.span.start = some (before, inside ++ after) :=
    Text.cut?_eq_some_iff.2 ⟨by rw [hline, List.append_assoc], hstart⟩
  have hsecond : Text.cut? line.toList c.span.stop = some (before ++ inside, after) :=
    Text.cut?_eq_some_iff.2 ⟨hline, hstop⟩
  have hbefore : (Span.mk 0 c.span.start).text line = String.ofList before := by
    rw [← hstart]
    exact Span.text_of_parts (a := []) (c := inside ++ after) (by simpa using hline)
  have hafter : (Span.mk c.span.stop (Text.bytes line.toList)).text line =
      String.ofList after := by
    rw [← hstop, hline]
    exact Span.text_of_parts (c := []) (by simpa using hline)
  rw [hbefore, hafter, apply]
  split
  · next hwhole =>
    -- The span is the whole line, so that nothing stands before it or after it.
    obtain ⟨hzero, hend⟩ : c.span.start = 0 ∧ c.span.stop = Text.bytes line.toList := by
      simpa using hwhole
    have hnone : before = [] := Text.bytes_eq_zero.1 (hstart.trans hzero)
    have hrest : after = [] := by
      rw [hline, Text.bytes_append] at hend
      exact Text.bytes_eq_zero.1 (by omega)
    simp [hnone, hrest]
  · simp only [hfirst, hsecond, String.ofList_append, String.ofList_toList]

/-- Accepting a widened completion makes the same line. -/
theorem apply_widen (hc : c.span.Fits line) (hs : s.Fits line) (h : s.Encloses c.span) :
    (c.widen line s).apply line = c.apply line := by
  have hwide : (c.widen line s).span.Fits line := by simpa using hs
  rw [apply_eq hwide, apply_eq hc, text_widen h, span_widen,
    ← Span.text_append (Text.boundary_zero line) hs.start hc.start (Nat.zero_le _) h.1,
    ← Span.text_append hc.stop hs.stop (Text.boundary_end line) h.2 hs.stop.le_end]
  simp only [String.append_assoc]

/-- The line that accepting the completion makes, and what is shown beside it. -/
def effect (line : String) (c : Completion) : String × Option String :=
  (c.apply line, c.tooltip?)

theorem effect_widen (hc : c.span.Fits line) (hs : s.Fits line) (h : s.Encloses c.span) :
    (c.widen line s).effect line = c.effect line := by
  rw [effect, apply_widen hc hs h, tooltip_widen, effect]

/-- What looks the same does the same. -/
theorem effect_of_same (h : c.same d = true) (line : String) :
    c.effect line = d.effect line := by
  obtain ⟨htext, hspan, htip⟩ := same_iff.1 h
  simp only [effect, apply, htext, hspan, htip]

end Completion

namespace Completions

open Completion

variable {c : Completion} {line : String} {l : List Completion} {sets : List Completions}

/-! ### The span of a set -/

theorem hull_eq_foldl (c : Completion) (l : List Completion) :
    hull c l = (l.map Completion.span).foldl Span.hull c.span := by
  rw [hull, List.foldl_map]

/-- The span of a set is the smallest that holds those of what it is made of. -/
theorem isHull_ofList (line : String) (h : l ≠ []) :
    (ofList line l).span.IsHull (l.map Completion.span) := by
  cases l with
  | nil => exact absurd rfl h
  | cons c l =>
    show (hull c l).IsHull (c.span :: l.map Completion.span)
    rw [hull_eq_foldl]
    exact Span.isHull_foldl _ _

theorem encloses_of_mem (line : String) (h : c ∈ l) : (ofList line l).span.Encloses c.span :=
  (isHull_ofList line (List.ne_nil_of_mem h)).encloses _ (List.mem_map_of_mem h)

theorem fits_ofList (h : l ≠ []) (hfits : ∀ c ∈ l, c.span.Fits line) :
    (ofList line l).span.Fits line := by
  cases l with
  | nil => exact absurd rfl h
  | cons c l =>
    show (hull c l).Fits line
    rw [hull_eq_foldl]
    refine Span.fits_foldl_hull (hfits c List.mem_cons_self) ?_
    intro s hs
    obtain ⟨d, hd, rfl⟩ := List.mem_map.1 hs
    exact hfits d (List.mem_cons_of_mem _ hd)

theorem span_of_mem_list (h : c ∈ (ofList line l).list) : c.span = (ofList line l).span := by
  obtain ⟨d, -, rfl⟩ := List.mem_map.1 (mem_widened_of_mem_list h)
  exact span_widen d line _

theorem list_eq_nil_iff : (ofList line l).list = [] ↔ l = [] := by
  constructor
  · intro h
    cases l with
    | nil => rfl
    | cons c l =>
      have hc : c.widen line (ofList line (c :: l)).span ∈ widened line (c :: l) :=
        List.mem_map_of_mem List.mem_cons_self
      obtain ⟨a, ha, -⟩ := exists_listed hc
      rw [h] at ha
      cases ha
  · rintro rfl
    rfl

/-- What holds the completions of a set is what holds those it is made of. -/
theorem encloses_list_iff (line : String) (l : List Completion) (u : Span) :
    (∀ t ∈ (ofList line l).list.map Completion.span, u.Encloses t) ↔
      ∀ t ∈ l.map Completion.span, u.Encloses t := by
  by_cases hl : l = []
  · subst hl
    rfl
  · rw [← (isHull_ofList line hl).encloses_iff, List.forall_mem_map]
    constructor
    · intro hu
      obtain ⟨a, ha⟩ := List.exists_mem_of_ne_nil _ fun h => hl (list_eq_nil_iff.1 h)
      rw [← span_of_mem_list ha]
      exact hu a ha
    · intro hu a ha
      rw [span_of_mem_list ha]
      exact hu

/-! ### Sets made of sets -/

/-- A set made again of its completions is the same set, whatever line it is for. -/
theorem ofList_list (line line' : String) (l : List Completion) :
    ofList line (ofList line' l).list = ofList line' l := by
  by_cases hl : l = []
  · subst hl
    rfl
  · have hne : (ofList line' l).list ≠ [] := fun h => hl (list_eq_nil_iff.1 h)
    have hspan : (ofList line (ofList line' l).list).span = (ofList line' l).span :=
      (isHull_ofList line hne).eq (isHull_ofList line' hl) (encloses_list_iff line' l)
    have hwidened : widened line (ofList line' l).list = (ofList line' l).list := by
      rw [widened, hspan]
      refine (List.map_congr_left fun a ha => ?_).trans (List.map_id _)
      rw [← span_of_mem_list ha]
      exact widen_self a line
    have hsort : ((ofList line' l).list.mergeSort fun a b => a.order b != .gt) =
        (ofList line' l).list := by
      refine List.mergeSort_of_pairwise ((sorted_list line' l).imp ?_)
      intro a b hle
      cases h : a.order b <;> simp_all
    have hlist : (ofList line (ofList line' l).list).list = (ofList line' l).list := by
      rw [list_ofList, hwidened, hsort, squeeze_of_isChain (isChain_list line' l)]
    cases h : ofList line (ofList line' l).list
    cases h' : ofList line' l
    simp_all

/-- A set as it comes of its completions. -/
def Made (s : Completions) : Prop := ∃ line l, s = ofList line l

theorem made_ofList (line : String) (l : List Completion) : (ofList line l).Made := ⟨line, l, rfl⟩

/-- Sets are merged by making one set of all their completions, also where there is only one. -/
theorem merge_eq_ofList (h : ∀ s ∈ sets, s.Made) :
    merge line sets = ofList line (sets.flatMap (·.list)) := by
  match sets with
  | [] => rfl
  | [s] =>
    obtain ⟨line', l, rfl⟩ := h s List.mem_cons_self
    rw [List.flatMap_singleton, ofList_list]
    rfl
  | _ :: _ :: _ => rfl

/-- The set comes of completions that fit the line. -/
def ComesOf (line : String) (s : Completions) : Prop :=
  ∃ l, (∀ c ∈ l, c.span.Fits line) ∧ s = ofList line l

theorem ComesOf.made {s : Completions} (h : s.ComesOf line) : s.Made := by
  obtain ⟨l, -, rfl⟩ := h
  exact made_ofList line l

/-- So its own completions fit the line, too, each with the span of the set. -/
theorem ComesOf.fits {s : Completions} (h : s.ComesOf line) (hc : c ∈ s.list) :
    c.span.Fits line := by
  obtain ⟨l, hfits, rfl⟩ := h
  rw [span_of_mem_list hc]
  refine fits_ofList ?_ hfits
  rintro rfl
  cases hc

theorem ComesOf.span_of_mem {s : Completions} (h : s.ComesOf line) (hc : c ∈ s.list) :
    c.span = s.span := by
  obtain ⟨l, -, rfl⟩ := h
  exact span_of_mem_list hc

/-- The completions of several sets fit the line that the sets are for. -/
theorem fits_of_mem_sets (h : ∀ s ∈ sets, s.ComesOf line) :
    ∀ c ∈ sets.flatMap (·.list), c.span.Fits line := by
  intro c hc
  obtain ⟨s, hs, hc⟩ := List.mem_flatMap.1 hc
  exact (h s hs).fits hc

/-! ### What a set offers -/

theorem effect_of_mem_widened (hfits : ∀ c ∈ l, c.span.Fits line) (hc : c ∈ l) :
    (c.widen line (ofList line l).span).effect line = c.effect line :=
  effect_widen (hfits c hc) (fits_ofList (List.ne_nil_of_mem hc) hfits) (encloses_of_mem line hc)

theorem mem_effects_ofList (hfits : ∀ c ∈ l, c.span.Fits line) (e : String × Option String) :
    e ∈ (ofList line l).list.map (effect line) ↔ e ∈ l.map (effect line) := by
  simp only [List.mem_map]
  constructor
  · rintro ⟨c, hc, rfl⟩
    obtain ⟨d, hd, rfl⟩ := List.mem_map.1 (mem_widened_of_mem_list hc)
    exact ⟨d, hd, (effect_of_mem_widened hfits hd).symm⟩
  · rintro ⟨c, hc, rfl⟩
    obtain ⟨a, ha, hsame, -⟩ :=
      exists_listed (List.mem_map_of_mem hc : c.widen line (ofList line l).span ∈ widened line l)
    exact ⟨a, ha, (effect_of_same hsame line).symm.trans (effect_of_mem_widened hfits hc)⟩

/-- What holds all completions of several sets is what holds the spans of those that have any. -/
theorem encloses_sets_iff (h : ∀ s ∈ sets, s.ComesOf line) (u : Span) :
    (∀ t ∈ (sets.flatMap (·.list)).map Completion.span, u.Encloses t) ↔
      ∀ t ∈ (sets.filter fun s => !s.isEmpty).map (·.span), u.Encloses t := by
  simp only [List.forall_mem_map, List.mem_flatMap, List.mem_filter]
  constructor
  · rintro hu s ⟨hs, hne⟩
    have hlist : s.list ≠ [] := by simpa [isEmpty] using hne
    obtain ⟨c, hc⟩ := List.exists_mem_of_ne_nil _ hlist
    rw [← (h s hs).span_of_mem hc]
    exact hu c ⟨s, hs, hc⟩
  · rintro hu c ⟨s, hs, hc⟩
    rw [(h s hs).span_of_mem hc]
    refine hu s ⟨hs, ?_⟩
    simpa [isEmpty] using List.ne_nil_of_mem hc

/--
**A set offers what it was made of.**

All completions of a set have its span, and that is the smallest span that holds those of
the completions it was made of.  The lines that accepting its completions makes, with what
is shown beside them, are the lines that these would have made.  The same holds of a set
that is merged of such sets: its span is the smallest that holds those of the sets with any
completions, and it offers what one of the sets does.
-/
theorem effects_kept (line : String) :
    (∀ l ≠ [], (∀ c ∈ l, c.span.Fits line) →
      (∀ c ∈ (ofList line l).list, c.span = (ofList line l).span) ∧
      (ofList line l).span.IsHull (l.map Completion.span) ∧
      ∀ e, e ∈ (ofList line l).list.map (effect line) ↔ e ∈ l.map (effect line)) ∧
    ∀ sets : List Completions, (∀ s ∈ sets, s.ComesOf line) →
      (merge line sets).ComesOf line ∧
      (∀ c ∈ (merge line sets).list, c.span = (merge line sets).span) ∧
      ((∃ s ∈ sets, s.list ≠ []) →
        (merge line sets).span.IsHull ((sets.filter fun s => !s.isEmpty).map (·.span))) ∧
      ∀ e, e ∈ (merge line sets).list.map (effect line) ↔
        ∃ s ∈ sets, e ∈ s.list.map (effect line) := by
  refine ⟨fun l hl hfits => ⟨fun c => span_of_mem_list, isHull_ofList line hl,
    mem_effects_ofList hfits⟩, fun sets hsets => ?_⟩
  have hfits := fits_of_mem_sets hsets
  rw [merge_eq_ofList fun s hs => (hsets s hs).made]
  refine ⟨⟨_, hfits, rfl⟩, fun c => span_of_mem_list, ?_, fun e => ?_⟩
  · rintro ⟨s, hs, hlist⟩
    obtain ⟨c, hc⟩ := List.exists_mem_of_ne_nil _ hlist
    have hall := isHull_ofList line
      (List.ne_nil_of_mem (List.mem_flatMap.2 ⟨s, hs, hc⟩ : c ∈ sets.flatMap (·.list)))
    have hsame := encloses_sets_iff hsets
    exact ⟨(hsame _).1 hall.encloses, fun u hu => hall.least u ((hsame u).2 hu)⟩
  · rw [mem_effects_ofList hfits, List.map_flatMap, List.mem_flatMap]

/-- Completions of the line `é b`: of its last word, of its first one, and of all of it. -/
def overlapping : List Completion :=
  [{ span := ⟨3, 4⟩, text := "bar" }, { span := ⟨0, 2⟩, text := "say", tooltip? := some "talk" },
    { span := ⟨0, 4⟩, text := "é bar" }]

/-- Two of these make the same line.  Merging their set with one that is empty changes nothing of
what it offers. -/
theorem effects_kept_overlapping :
    (overlapping ≠ [] ∧ ∀ c ∈ overlapping, c.span.Fits "é b") ∧
      (ofList "é b" overlapping).span = ⟨0, 4⟩ ∧
      (ofList "é b" overlapping).span.IsHull [⟨3, 4⟩, ⟨0, 2⟩, ⟨0, 4⟩] ∧
      (∀ e, e ∈ (ofList "é b" overlapping).list.map (effect "é b") ↔
        e ∈ [("é bar", .none), ("say b", some "talk"), ("é bar", .none)]) ∧
      ∀ e, e ∈ (merge "é b" [ofList "é b" overlapping, ofList "é b" []]).list.map (effect "é b") ↔
        e ∈ (ofList "é b" overlapping).list.map (effect "é b") := by
  have hne : overlapping ≠ [] := by decide
  have hfits : ∀ c ∈ overlapping, c.span.Fits "é b" := by decide
  obtain ⟨-, hhull, heffects⟩ := (effects_kept "é b").1 overlapping hne hfits
  obtain ⟨-, -, -, hmerged⟩ := (effects_kept "é b").2
    [ofList "é b" overlapping, ofList "é b" []]
    (by simpa [ComesOf] using ⟨⟨overlapping, hfits, rfl⟩, ⟨[], by simp, rfl⟩⟩)
  refine ⟨⟨hne, hfits⟩, rfl, hhull, heffects, ?_⟩
  · intro e
    rw [hmerged]
    simp [ofList, Completions.none]

end Completions

end CommandLines
