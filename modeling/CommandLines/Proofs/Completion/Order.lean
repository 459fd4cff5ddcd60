/-
Completions in order, and what squeezing leaves of them.

A set of completions is sorted first, and then whatever is the same as the one before it is
dropped.  That drops all repetitions only if what is the same comes to stand together.
The order is a total one, since it compares by one thing after another (`order_eq_lex`), but
it looks at a number where there is one and at the text where there is none.  So two
completions that are equal in it are the same only if numbers have the texts that they
spell, without a tooltip (`Spelled`), and that holds of every number that is ever proposed.
A sorted and squeezed list of such completions ascends strictly (`ascending_list`), which is
all that the theorems about sets need to know of sorting.

Strict ascent does not make the completions different: a number and a text may look the
same and still stand apart.  What squeezing leaves out is therefore described exactly
(`exists_kept`): each dropped completion has one like it before, and nothing else comes
between the two.
-/
import CommandLines.Completion.Completer
import Mathlib.Data.List.Chain

namespace CommandLines

namespace Completion

variable {a b c : Completion}

/-! ### The order -/

/-- Comparing by one thing after another; of a number neither the text nor the tooltip counts. -/
def lexOrder : Completion → Completion → Ordering :=
  compareLex (compareOn fun c => c.number?.isNone) <|
  compareLex (compareOn fun c => c.number?) <|
  compareLex (compareOn fun c => if c.number?.isNone then Text.lower c.text else "") <|
  compareLex (compareOn fun c => if c.number?.isNone then c.text else "") <|
  compareLex (compareOn fun c => c.span.start) <|
  compareLex (compareOn fun c => c.span.stop) <|
  compareOn fun c => if c.number?.isNone then c.tooltip? else none

theorem tooltipOrder_eq_compare : tooltipOrder = compare := by
  funext a b
  cases a <;> cases b <;> rfl

theorem order_eq_lex : order = lexOrder := by
  funext a b
  cases ha : a.number? with
  | none =>
    cases hb : b.number? with
    | none =>
      simp [order, lexOrder, compareLex, compareOn, Span.order, tooltipOrder_eq_compare, ha, hb,
        Ordering.then_assoc]
    | some m =>
      simp only [order, lexOrder, compareLex, compareOn, ha, hb]
      rfl
  | some n =>
    cases hb : b.number? with
    | none =>
      simp only [order, lexOrder, compareLex, compareOn, ha, hb]
      rfl
    | some m =>
      have hnumbers : compare (some n) (some m) = compare n m := rfl
      simp [order, lexOrder, compareLex, compareOn, Span.order, ha, hb, hnumbers]

instance : Std.TransCmp order := by
  rw [order_eq_lex, lexOrder]
  infer_instance

@[simp]
theorem order_self (a : Completion) : a.order a = .eq := Std.ReflCmp.compare_self

/-- Numbers come before texts. -/
theorem order_of_number_text (ha : a.number?.isSome) (hb : b.number? = none) :
    a.order b = .lt := by
  obtain ⟨n, hn⟩ := Option.isSome_iff_exists.1 ha
  simp [order, hn, hb]

/-- The completion is a text, or a number with the text that it spells. -/
def Spelled (c : Completion) : Prop :=
  ∀ n, c.number? = some n → c.text = toString n.toInt ∧ c.tooltip? = none

theorem spelled_of_text (h : c.number? = none) : c.Spelled := by
  intro n hn
  rw [h] at hn
  cases hn

/-- The order tells completions apart that differ in anything. -/
theorem eq_of_order_eq (ha : a.Spelled) (hb : b.Spelled) (h : a.order b = .eq) : a = b := by
  rw [order_eq_lex] at h
  simp only [lexOrder, compareLex_eq_eq, compareOn, Std.LawfulEqCmp.compare_eq_iff_eq] at h
  obtain ⟨-, hnumber, -, htext, hstart, hstop, htip⟩ := h
  obtain ⟨⟨astart, astop⟩, atext, atip, anumber⟩ := a
  obtain ⟨⟨bstart, bstop⟩, btext, btip, bnumber⟩ := b
  obtain rfl : anumber = bnumber := hnumber
  obtain rfl : astart = bstart := hstart
  obtain rfl : astop = bstop := hstop
  cases anumber with
  | none =>
    obtain rfl : atext = btext := htext
    obtain rfl : atip = btip := htip
    rfl
  | some n =>
    obtain ⟨rfl, rfl⟩ := ha n rfl
    obtain ⟨rfl, rfl⟩ := hb n rfl
    rfl

/-! ### Looking the same -/

theorem same_iff :
    a.same b = true ↔ a.text = b.text ∧ a.span = b.span ∧ a.tooltip? = b.tooltip? := by
  simp [same, and_assoc]

theorem same_refl (a : Completion) : a.same a = true := same_iff.2 ⟨rfl, rfl, rfl⟩

theorem same_symm (h : a.same b = true) : b.same a = true := by
  obtain ⟨htext, hspan, htip⟩ := same_iff.1 h
  exact same_iff.2 ⟨htext.symm, hspan.symm, htip.symm⟩

theorem same_trans (h : a.same b = true) (h' : b.same c = true) : a.same c = true := by
  obtain ⟨htext, hspan, htip⟩ := same_iff.1 h
  obtain ⟨htext', hspan', htip'⟩ := same_iff.1 h'
  exact same_iff.2 ⟨htext.trans htext', hspan.trans hspan', htip.trans htip'⟩

/-- Texts that look the same are the same completion. -/
theorem eq_of_same_texts (ha : a.number? = none) (hb : b.number? = none)
    (h : a.same b = true) : a = b := by
  obtain ⟨htext, hspan, htip⟩ := same_iff.1 h
  cases a
  cases b
  simp_all

end Completion

namespace Completions

open Completion

variable {a c last : Completion} {l : List Completion}

/-! ### Squeezing -/

theorem squeezeAfter_sublist (last : Completion) (l : List Completion) :
    (squeezeAfter last l).Sublist l := by
  induction l generalizing last with
  | nil => exact .slnil
  | cons c l ih =>
    rw [squeezeAfter]
    split
    · exact (ih last).cons c
    · exact (ih c).cons_cons c

theorem squeeze_sublist (l : List Completion) : (squeeze l).Sublist l := by
  cases l with
  | nil => exact .slnil
  | cons c l => exact (squeezeAfter_sublist c l).cons_cons c

theorem isChain_squeezeAfter (last : Completion) (l : List Completion) :
    (last :: squeezeAfter last l).IsChain fun a b => b.same a = false := by
  induction l generalizing last with
  | nil => exact .singleton last
  | cons c l ih =>
    rw [squeezeAfter]
    split
    · exact ih last
    · next h => exact List.isChain_cons_cons.2 ⟨by simpa using h, ih c⟩

/-- No two neighbours are left that are the same. -/
theorem isChain_squeeze (l : List Completion) :
    (squeeze l).IsChain fun a b => b.same a = false := by
  cases l with
  | nil => exact .nil
  | cons c l => exact isChain_squeezeAfter c l

theorem squeezeAfter_of_isChain (h : (last :: l).IsChain fun a b => b.same a = false) :
    squeezeAfter last l = l := by
  induction l generalizing last with
  | nil => rfl
  | cons c l ih =>
    obtain ⟨hc, hrest⟩ := List.isChain_cons_cons.1 h
    rw [squeezeAfter, if_neg (by simp [hc]), ih hrest]

/-- Where no two neighbours are the same nothing is dropped. -/
theorem squeeze_of_isChain (h : l.IsChain fun a b => b.same a = false) : squeeze l = l := by
  cases l with
  | nil => rfl
  | cons c l => rw [squeeze, squeezeAfter_of_isChain h]

/-- Whether the list is sorted, which leaves room for completions that are equal in the order. -/
abbrev Sorted (l : List Completion) : Prop := l.Pairwise fun a b => (a.order b).isLE = true

theorem exists_kept_after (h : Sorted (last :: l)) (hc : c ∈ l) :
    ∃ a ∈ last :: squeezeAfter last l, c.same a = true ∧ (a.order c).isLE = true ∧
      ∀ z ∈ l, a.order z = .lt → z.order c = .lt → z.same a = true := by
  -- A completion of the list that is at least `d` cannot come before `d`.
  have hback : ∀ {d z : Completion}, (d.order z).isLE = true → z.order d ≠ .lt := by
    intro d z hle hlt
    exact Std.OrientedCmp.not_lt_of_isLE hle hlt
  induction l generalizing last with
  | nil => cases hc
  | cons d l ih =>
    obtain ⟨hlast, hd, hl⟩ : (∀ x ∈ d :: l, (last.order x).isLE = true) ∧
        (∀ x ∈ l, (d.order x).isLE = true) ∧ Sorted l := by
      simpa only [Sorted, List.pairwise_cons] using h
    rw [squeezeAfter]
    split
    · next hsame =>
      rcases List.mem_cons.1 hc with rfl | hc
      · refine ⟨last, List.mem_cons_self, hsame, hlast c List.mem_cons_self, ?_⟩
        intro z hz _ hzc
        rcases List.mem_cons.1 hz with rfl | hz
        · exact absurd hzc (hback (by simp))
        · exact absurd hzc (hback (hd z hz))
      · have hrest : Sorted (last :: l) :=
          List.pairwise_cons.2 ⟨fun x hx => hlast x (List.mem_cons_of_mem _ hx), hl⟩
        obtain ⟨a, ha, hca, hle, hbetween⟩ := ih hrest hc
        refine ⟨a, ha, hca, hle, ?_⟩
        intro z hz haz hzc
        rcases List.mem_cons.1 hz with rfl | hz
        · rcases List.mem_cons.1 ha with rfl | ha
          · exact hsame
          · exact absurd haz (hback (hd a ((squeezeAfter_sublist last l).subset ha)))
        · exact hbetween z hz haz hzc
    · rcases List.mem_cons.1 hc with rfl | hc
      · refine ⟨c, by simp, same_refl c, by simp, ?_⟩
        intro z _ hcz hzc
        exact absurd hzc (hback (Ordering.isLE_of_eq_lt hcz))
      · obtain ⟨a, ha, hca, hle, hbetween⟩ := ih (List.pairwise_cons.2 ⟨hd, hl⟩) hc
        refine ⟨a, List.mem_cons_of_mem _ ha, hca, hle, ?_⟩
        intro z hz haz hzc
        rcases List.mem_cons.1 hz with rfl | hz
        · rcases List.mem_cons.1 ha with rfl | ha
          · exact absurd haz (hback (by simp))
          · exact absurd haz (hback (hd a ((squeezeAfter_sublist z l).subset ha)))
        · exact hbetween z hz haz hzc

/-- Whatever is dropped from a sorted list has one that is the same before it, and between the two
there are only more of these. -/
theorem exists_kept (h : Sorted l) (hc : c ∈ l) :
    ∃ a ∈ squeeze l, c.same a = true ∧ (a.order c).isLE = true ∧
      ∀ z ∈ l, a.order z = .lt → z.order c = .lt → z.same a = true := by
  cases l with
  | nil => cases hc
  | cons d l =>
    -- The first completion is as good as one that stands before it.
    have hfirst : Sorted (d :: d :: l) := by
      refine List.pairwise_cons.2 ⟨?_, h⟩
      intro x hx
      rcases List.mem_cons.1 hx with rfl | hx
      · simp
      · exact (List.pairwise_cons.1 h).1 x hx
    have := exists_kept_after hfirst hc
    rwa [squeezeAfter, if_pos (same_refl d)] at this

/-! ### Sets as sorted and squeezed lists -/

theorem sorted_mergeSort (l : List Completion) :
    Sorted (l.mergeSort fun a b => a.order b != .gt) := by
  have hle : ∀ a b : Completion, (a.order b != .gt) = (a.order b).isLE := by
    intro a b
    cases a.order b <;> rfl
  simp only [hle]
  refine List.pairwise_mergeSort ?_ ?_ l
  · intro a b c hab hbc
    exact Std.TransCmp.isLE_trans hab hbc
  · intro a b
    cases h : a.order b with
    | lt => rfl
    | eq => rfl
    | gt =>
      have hba : b.order a = .lt := Std.OrientedCmp.lt_of_gt h
      rw [hba]
      rfl

/-- The completions that a set is made of, each widened to the span of the set. -/
def widened (line : String) (l : List Completion) : List Completion :=
  l.map fun c => c.widen line (ofList line l).span

theorem list_ofList (line : String) (l : List Completion) : (ofList line l).list =
    squeeze ((widened line l).mergeSort fun a b => a.order b != .gt) := by
  cases l with
  | nil => simp [ofList, none, widened, squeeze]
  | cons c l => rfl

theorem mem_widened_of_mem_list {line : String} (h : c ∈ (ofList line l).list) :
    c ∈ widened line l := by
  rw [list_ofList] at h
  exact List.mem_mergeSort.1 ((squeeze_sublist _).subset h)

/-- Of each completion that a set is made of there is one in the set that is the same, and what is
dropped between the two is the same, too. -/
theorem exists_listed {line : String} (h : c ∈ widened line l) :
    ∃ a ∈ (ofList line l).list, c.same a = true ∧ (a.order c).isLE = true ∧
      ∀ z ∈ widened line l, a.order z = .lt → z.order c = .lt → z.same a = true := by
  obtain ⟨a, ha, hca, hle, hbetween⟩ :=
    exists_kept (sorted_mergeSort (widened line l)) (List.mem_mergeSort.2 h)
  rw [← list_ofList] at ha
  exact ⟨a, ha, hca, hle, fun z hz => hbetween z (List.mem_mergeSort.2 hz)⟩

theorem spelled_widen (h : c.Spelled) (line : String) (s : Span) :
    (c.widen line s).Spelled := by
  rw [widen]
  split
  · exact h
  · exact spelled_of_text rfl

/-- Whether each completion is less than all after it. -/
abbrev Ascending (l : List Completion) : Prop := l.Pairwise fun a b => a.order b = .lt

/-- A sorted list ascends where no two neighbours are the same. -/
theorem ascending_of_isChain (h : Sorted l) (hspelled : ∀ c ∈ l, c.Spelled)
    (hchain : l.IsChain fun a b => b.same a = false) : Ascending l := by
  induction l with
  | nil => exact .nil
  | cons a l ih =>
    obtain ⟨ha, hl⟩ := List.pairwise_cons.1 h
    have hrest : Ascending l :=
      ih hl (fun c hc => hspelled c (List.mem_cons_of_mem _ hc)) hchain.tail
    refine List.pairwise_cons.2 ⟨?_, hrest⟩
    intro c hc
    cases l with
    | nil => cases hc
    | cons b l =>
      have hab : a.order b = .lt := by
        have hne : b.same a = false := (List.isChain_cons_cons.1 hchain).1
        rcases Ordering.isLE_iff_eq_lt_or_eq_eq.1 (ha b List.mem_cons_self) with hlt | heq
        · exact hlt
        · obtain rfl := eq_of_order_eq (hspelled a (by simp)) (hspelled b (by simp)) heq
          simp [same_refl] at hne
      rcases List.mem_cons.1 hc with rfl | hc
      · exact hab
      · exact Std.TransCmp.lt_trans hab ((List.pairwise_cons.1 hrest).1 c hc)

/-- No two neighbours in a set are the same. -/
theorem isChain_list (line : String) (l : List Completion) :
    (ofList line l).list.IsChain fun a b => b.same a = false := by
  rw [list_ofList]
  exact isChain_squeeze _

theorem sorted_list (line : String) (l : List Completion) : Sorted (ofList line l).list := by
  rw [list_ofList]
  exact (sorted_mergeSort _).sublist (squeeze_sublist _)

theorem spelled_widened (line : String) (h : ∀ c ∈ l, c.Spelled) :
    ∀ c ∈ widened line l, c.Spelled := by
  intro c hc
  obtain ⟨d, hd, rfl⟩ := List.mem_map.1 hc
  exact spelled_widen (h d hd) line _

theorem spelled_list (line : String) (h : ∀ c ∈ l, c.Spelled) :
    ∀ c ∈ (ofList line l).list, c.Spelled :=
  fun c hc => spelled_widened line h c (mem_widened_of_mem_list hc)

/-- A set ascends, whatever numbers and texts it is made of. -/
theorem ascending_list {line : String} (h : ∀ c ∈ l, c.Spelled) :
    Ascending (ofList line l).list :=
  ascending_of_isChain (sorted_list line l) (spelled_list line h) (isChain_list line l)

end Completions

end CommandLines
