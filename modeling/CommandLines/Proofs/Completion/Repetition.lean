/-
When a set of completions has the same completion in it twice.

What is proposed as a number looks like the text of that number, yet a set sorts numbers
by their value and before all texts.  So the two need not come to stand together, and only
neighbours are compared when repetitions are dropped.

Nothing else is ever repeated: two numbers that look the same are equal, and so are two
texts, and what is equal does come together.  The one text that a number can stand next to
is the first one, and the one number that a text can is the greatest.  A repetition is
therefore dropped just if it is the greatest number that looks like the first text
(`distinct_ofList_iff`), and that is decided by what the set is made of.  The completions
of the set would not do for this, since the text is gone from it if it has been dropped.
-/
import CommandLines.Proofs.Completion.Effect
import CommandLines.Proofs.Reading.Rendering

namespace CommandLines

namespace Completion

variable {a b : Completion}

/-- Numbers that look the same are the same completion, since what is written for a number reads
back. -/
theorem eq_of_same_numbers (ha : a.Spelled) (hb : b.Spelled) (hna : a.number?.isSome)
    (hnb : b.number?.isSome) (h : a.same b = true) : a = b := by
  obtain ⟨m, hm⟩ := Option.isSome_iff_exists.1 hna
  obtain ⟨n, hn⟩ := Option.isSome_iff_exists.1 hnb
  obtain ⟨htext, hspan, htip⟩ := same_iff.1 h
  have hspelling : toString m.toInt = toString n.toInt := by
    rw [← (ha m hm).1, ← (hb n hn).1, htext]
  have hnumber : a.number? = b.number? := by
    rw [hm, hn, ← NumberType.read?_int m, hspelling, NumberType.read?_int]
  cases a
  cases b
  simp_all

end Completion

namespace Completer

/-- What a completer can come to be in any number of steps. -/
inductive Filled : Completer → Prop
  | fresh (line : String) (start : Nat) : Filled (ofLine line start)
  | suggest {b : Completer} (text : String) (tooltip? : Option String) :
      Filled b → Filled (b.suggest text tooltip?)
  | suggestNumber {b : Completer} (n : Int32) : Filled b → Filled (b.suggestNumber n)
  | add {b other : Completer} : Filled b → Filled other → Filled (b.add other)

theorem spelled_push {b : Completer} {c : Completion} (hb : ∀ d ∈ b.collected, d.Spelled)
    (hc : c.Spelled) : ∀ d ∈ (b.push c).collected, d.Spelled := by
  intro d hd
  rcases List.mem_append.1 hd with hd | hd
  · exact hb d hd
  · obtain rfl := List.mem_singleton.1 hd
    exact hc

/-- All that a completer collects is texts, and numbers with the text that they spell. -/
theorem Filled.spelled {b : Completer} (h : b.Filled) : ∀ c ∈ b.collected, c.Spelled := by
  induction h with
  | fresh line start => simp [ofLine]
  | suggest text tooltip? _ ih =>
    rw [Completer.suggest]
    split
    · exact ih
    · exact spelled_push ih (Completion.spelled_of_text rfl)
  | suggestNumber n _ ih =>
    refine spelled_push ih ?_
    rintro m ⟨⟩
    exact ⟨rfl, rfl⟩
  | add _ _ ih ih' =>
    intro c hc
    rcases List.mem_append.1 hc with hc | hc
    · exact ih c hc
    · exact ih' c hc

end Completer

namespace Completions

open Completion

variable {a b : Completion} {line : String} {l : List Completion} {sets : List Completions}

/-! ### Sets that are offered -/

/-- The sets that completers yield, and those that are merged from such sets. -/
inductive Offered : Completions → Prop
  | finished {b : Completer} : b.Filled → Offered b.finish
  | merged (line : String) {sets : List Completions} :
      (∀ s ∈ sets, Offered s) → Offered (merge line sets)

theorem Offered.made {s : Completions} (h : s.Offered) : s.Made := by
  induction h with
  | finished _ => exact made_ofList _ _
  | merged line _ ih =>
    rw [merge_eq_ofList ih]
    exact made_ofList line _

theorem spelled_sets (h : ∀ s ∈ sets, ∀ c ∈ s.list, c.Spelled) :
    ∀ c ∈ sets.flatMap (·.list), c.Spelled := by
  intro c hc
  obtain ⟨s, hs, hc⟩ := List.mem_flatMap.1 hc
  exact h s hs c hc

theorem Offered.spelled {s : Completions} (h : s.Offered) : ∀ c ∈ s.list, c.Spelled := by
  induction h with
  | finished hb => exact spelled_list _ hb.spelled
  | merged line hsets ih =>
    rw [merge_eq_ofList fun s hs => (hsets s hs).made]
    exact spelled_list line (spelled_sets ih)

theorem Offered.ascending {s : Completions} (h : s.Offered) : Ascending s.list := by
  have hspelled := h.spelled
  obtain ⟨line, l, rfl⟩ := h.made
  exact ascending_of_isChain (sorted_list line l) hspelled (isChain_list line l)

/-! ### What can be repeated -/

/-- No two completions of the set look the same. -/
def Distinct (s : Completions) : Prop := s.list.Pairwise fun a b => a.same b = false

instance {s : Completions} : Decidable s.Distinct :=
  inferInstanceAs (Decidable (List.Pairwise _ _))

theorem Distinct.eq_of_same {s : Completions} (h : s.Distinct) (ha : a ∈ s.list)
    (hb : b ∈ s.list) (hsame : a.same b = true) : a = b := by
  have : Std.Symm fun a b : Completion => a.same b = false := by
    refine ⟨fun a b hab => ?_⟩
    rw [Bool.eq_false_iff] at hab ⊢
    exact fun hba => hab (same_symm hba)
  by_contra hne
  have hdiffer : a.same b = false := h.forall ha hb hne
  rw [hsame] at hdiffer
  cases hdiffer

/-- Of two that look the same in a set the first is a number and the second a text. -/
theorem number_text_of_same (h : ∀ c ∈ l, c.Spelled) (hl : Ascending l) :
    l.Pairwise fun a b => a.same b = true → a.number?.isSome ∧ b.number? = .none := by
  refine List.Pairwise.imp_of_mem ?_ hl
  intro a b ha hb hlt hsame
  have hne : a ≠ b := by
    rintro rfl
    simp at hlt
  cases hna : a.number? with
  | none =>
    cases hnb : b.number? with
    | none => exact absurd (eq_of_same_texts hna hnb hsame) hne
    | some n =>
      have hba : b.order a = .lt := order_of_number_text (by simp [hnb]) hna
      exact absurd hlt (Std.OrientedCmp.not_lt_of_lt hba)
  | some m =>
    cases hnb : b.number? with
    | none => exact ⟨rfl, rfl⟩
    | some n =>
      exact absurd (eq_of_same_numbers (h a ha) (h b hb) (by simp [hna]) (by simp [hnb]) hsame) hne

/-! ### When nothing is repeated -/

/-- A number and a text that look the same are the greatest number and the first text. -/
def Clear (l : List Completion) : Prop :=
  ∀ x ∈ l, ∀ y ∈ l, x.number?.isSome → y.number? = .none → x.same y = true →
    (∀ z ∈ l, z.number?.isSome → (z.order x).isLE) ∧
      ∀ z ∈ l, z.number? = .none → (y.order z).isLE

instance {l : List Completion} : Decidable (Clear l) :=
  inferInstanceAs (Decidable (∀ x ∈ l, ∀ y ∈ l, _))

/-- In an ascending list whatever is not next to each other has something in between. -/
theorem between_or_chained {r : Completion → Completion → Prop} (h : Ascending l)
    (hchain : l.IsChain r) :
    l.Pairwise fun a b => r a b ∨ ∃ c ∈ l, a.order c = .lt ∧ c.order b = .lt := by
  induction l with
  | nil => exact .nil
  | cons a l ih =>
    obtain ⟨ha, hl⟩ := List.pairwise_cons.1 h
    have hrest := ih hl hchain.tail
    refine List.pairwise_cons.2 ⟨fun b hb => ?_, hrest.imp ?_⟩
    · cases l with
      | nil => cases hb
      | cons c l =>
        rcases List.mem_cons.1 hb with rfl | hb
        · exact .inl (List.isChain_cons_cons.1 hchain).1
        · exact .inr ⟨c, by simp, ha c List.mem_cons_self, (List.pairwise_cons.1 hl).1 b hb⟩
    · rintro b d (hr | ⟨c, hc, hbetween⟩)
      · exact .inl hr
      · exact .inr ⟨c, List.mem_cons_of_mem _ hc, hbetween⟩

/-- Every number that a set is made of is in the set. -/
theorem number_mem_list (h : ∀ c ∈ l, c.Spelled) (ha : a ∈ widened line l)
    (hna : a.number?.isSome) : a ∈ (ofList line l).list := by
  obtain ⟨b, hb, hsame, hle, -⟩ := exists_listed ha
  have hnb : b.number?.isSome := by
    by_contra hnb
    have hlt : a.order b = .lt := order_of_number_text hna (by simpa using hnb)
    exact Std.OrientedCmp.not_isLE_of_lt hlt hle
  have hspelled := spelled_widened line h
  rwa [eq_of_same_numbers (hspelled a ha) (hspelled b (mem_widened_of_mem_list hb)) hna hnb hsame]

theorem clear_of_distinct (h : ∀ c ∈ l, c.Spelled) (hdistinct : (ofList line l).Distinct) :
    Clear (widened line l) := by
  intro x hx y hy hnx hny hxy
  obtain ⟨a, ha, hya, -, hbetween⟩ := exists_listed hy
  -- The number is in the set, so the text has been dropped for it.
  obtain rfl : x = a :=
    hdistinct.eq_of_same (number_mem_list h hx hnx) ha (same_trans hxy hya)
  have hspelled := spelled_widened line h
  refine ⟨fun z hz hnz => ?_, fun z hz hnz => ?_⟩
  · by_contra hle
    have hlt : x.order z = .lt := Std.OrientedCmp.lt_of_not_isLE hle
    have hsame : z.same x = true := hbetween z hz hlt (order_of_number_text hnz hny)
    obtain rfl := eq_of_same_numbers (hspelled z hz) (hspelled x hx) hnz hnx hsame
    simp at hlt
  · by_contra hle
    have hlt : z.order y = .lt := Std.OrientedCmp.lt_of_not_isLE hle
    have hsame : z.same x = true := hbetween z hz (order_of_number_text hnx hnz) hlt
    obtain rfl := eq_of_same_texts hnz hny (same_trans hsame hxy)
    simp at hlt

theorem distinct_of_clear (h : ∀ c ∈ l, c.Spelled) (hclear : Clear (widened line l)) :
    (ofList line l).Distinct := by
  refine List.Pairwise.imp_of_mem ?_ ((between_or_chained (ascending_list h)
    (isChain_list line l)).and (number_text_of_same (spelled_list line h) (ascending_list h)))
  rintro a b ha hb ⟨hbetween, hkinds⟩
  by_contra hsame
  rw [Bool.not_eq_false] at hsame
  obtain ⟨hna, hnb⟩ := hkinds hsame
  obtain ⟨hgreatest, hfirst⟩ := hclear a (mem_widened_of_mem_list ha) b
    (mem_widened_of_mem_list hb) hna hnb hsame
  rcases hbetween with hdiffer | ⟨c, hc, hac, hcb⟩
  · rw [same_symm hsame] at hdiffer
    cases hdiffer
  · cases hnc : c.number? with
    | some n =>
      exact Std.OrientedCmp.not_lt_of_isLE
        (hgreatest c (mem_widened_of_mem_list hc) (by simp [hnc])) hac
    | none =>
      exact Std.OrientedCmp.not_lt_of_isLE (hfirst c (mem_widened_of_mem_list hc) hnc) hcb

/-- A set repeats nothing just if what it is made of is clear. -/
theorem distinct_ofList_iff (h : ∀ c ∈ l, c.Spelled) :
    (ofList line l).Distinct ↔ Clear (widened line l) :=
  ⟨clear_of_distinct h, distinct_of_clear h⟩

/--
**A set repeats nothing just if what it is made of is clear.**

That holds of what a completer yields, in whatever steps it has been filled, and of what
such sets are merged to.  A set is made of completions that have all been widened to its
span, and they are clear if a number and a text among them that look the same are the
greatest number and the first text.  No set repeats anything but a number as a text.
-/
theorem distinct_iff {b : Completer} (hb : b.Filled) (line : String)
    (hsets : ∀ s ∈ sets, s.Offered) :
    (b.finish.Distinct ↔ Clear (widened b.line b.collected)) ∧
    ((merge line sets).Distinct ↔ Clear (widened line (sets.flatMap (·.list)))) ∧
    ∀ s : Completions, s.Offered →
      s.list.Pairwise fun a b => a.same b = true → a.number?.isSome ∧ b.number? = .none := by
  refine ⟨distinct_ofList_iff hb.spelled, ?_, fun s hs => ?_⟩
  · rw [merge_eq_ofList fun s hs => (hsets s hs).made]
    exact distinct_ofList_iff (spelled_sets fun s hs => (hsets s hs).spelled)
  · exact number_text_of_same hs.spelled hs.ascending

/-- The number 5 and the text that looks like it, with nothing in between. -/
def numberThenText : Completer := ((Completer.ofLine "" 0).suggestNumber 5).suggest "5"

/-- The text is dropped, and it does not come back when the set is merged with itself. -/
theorem distinct_numberThenText :
    numberThenText.Filled ∧ numberThenText.finish.Offered ∧ numberThenText.finish.Distinct ∧
      (merge "" [numberThenText.finish, numberThenText.finish]).Distinct ∧
      numberThenText.finish.list.Pairwise fun a b =>
        a.same b = true → a.number?.isSome ∧ b.number? = .none := by
  have hfilled : numberThenText.Filled := .suggest "5" .none (.suggestNumber 5 (.fresh "" 0))
  have hoffered : numberThenText.finish.Offered := .finished hfilled
  have hlist : numberThenText.finish.list =
      [{ span := ⟨0, 0⟩, text := "5", number? := some 5 }] := by
    rw [Completer.finish, list_ofList, List.mergeSort_of_pairwise (by decide)]
    decide
  have hsets : ∀ s ∈ [numberThenText.finish, numberThenText.finish], s.Offered := by
    simpa using hoffered
  obtain ⟨hfinish, hmerge, hkinds⟩ := distinct_iff hfilled "" hsets
  refine ⟨hfilled, hoffered, hfinish.2 (by decide), hmerge.2 ?_, hkinds _ hoffered⟩
  simp only [List.flatMap_cons, List.flatMap_nil, hlist]
  decide

/-- The number 5 and the text that looks like it, with another number in between. -/
def numberBetween : Completer :=
  (((Completer.ofLine "" 0).suggestNumber 5).suggestNumber 6).suggest "5"

/-- The set has both in it. -/
theorem repeated_numberBetween :
    numberBetween.Filled ∧
      numberBetween.finish.list =
        [{ span := ⟨0, 0⟩, text := "5", number? := some 5 },
          { span := ⟨0, 0⟩, text := "6", number? := some 6 }, { span := ⟨0, 0⟩, text := "5" }] ∧
      ¬ numberBetween.finish.Distinct := by
  have hfilled : numberBetween.Filled :=
    .suggest "5" .none (.suggestNumber 6 (.suggestNumber 5 (.fresh "" 0)))
  have hlist : numberBetween.finish.list =
      [{ span := ⟨0, 0⟩, text := "5", number? := some 5 },
        { span := ⟨0, 0⟩, text := "6", number? := some 6 }, { span := ⟨0, 0⟩, text := "5" }] := by
    rw [Completer.finish, list_ofList, List.mergeSort_of_pairwise (by decide)]
    decide
  refine ⟨hfilled, hlist, ?_⟩
  rw [Distinct, hlist]
  decide

end Completions

end CommandLines
