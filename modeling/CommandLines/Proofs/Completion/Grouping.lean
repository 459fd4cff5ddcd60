/-
The order in which completions are contributed, and the sets in which they come together,
make no difference.

Among texts the order of completions is a strict one, so a set of texts is an ascending
list, and an ascending list is known by what is in it (`eq_of_ascending`).  What is in a
set is every contribution, widened to the smallest span that holds them all; and neither
the span nor that depends on order or repetition (`ofList_eq`).

Where sets are merged the contributions have been widened before, to the span of the set
that they came in.  The span of all is the same with and without that, and widening in two
steps is widening in one (`widen_widen`).  So merging sets is nothing but making one set of
all that they were made of, which is why it does not matter how they are grouped.

With numbers this fails: a number and a text that look the same are dropped or kept
depending on what stands between them, and a set may have dropped one already.
-/
import CommandLines.Proofs.Completion.Effect

namespace CommandLines

namespace Completions

open Completion

variable {c : Completion} {line : String} {l l' : List Completion}

/-- An ascending list is known by what is in it. -/
theorem eq_of_ascending (h : Ascending l) (h' : Ascending l') (hmem : ∀ c, c ∈ l ↔ c ∈ l') :
    l = l' := by
  have hnodup : ∀ {l : List Completion}, Ascending l → l.Nodup := by
    intro l hl
    refine hl.imp fun {a b} hlt heq => ?_
    subst heq
    simp at hlt
  have hperm : l.Perm l' := (List.perm_ext_iff_of_nodup (hnodup h) (hnodup h')).2 hmem
  refine hperm.eq_of_pairwise ?_ h h'
  intro a b _ _ hab hba
  have hgt : b.order a = .gt := Std.OrientedCmp.gt_of_lt hab
  rw [hba] at hgt
  cases hgt

theorem texts_widened (line : String) (htexts : ∀ c ∈ l, c.number? = .none) :
    ∀ c ∈ widened line l, c.number? = .none := by
  intro c hc
  obtain ⟨d, hd, rfl⟩ := List.mem_map.1 hc
  exact number_widen_of_text (htexts d hd) line _

/-- A set of texts has in it just what it is made of. -/
theorem mem_list_iff (htexts : ∀ c ∈ l, c.number? = .none) :
    c ∈ (ofList line l).list ↔ c ∈ widened line l := by
  have hwide := texts_widened line htexts
  constructor
  · exact mem_widened_of_mem_list
  · intro hc
    obtain ⟨a, ha, hsame, -⟩ := exists_listed hc
    have hca : c = a := eq_of_same_texts (hwide c hc) (hwide a (mem_widened_of_mem_list ha)) hsame
    rwa [hca]

/-- Sets of texts are equal if they have one span and are made of the same widened completions. -/
theorem ofList_eq (htexts : ∀ c ∈ l, c.number? = .none) (htexts' : ∀ c ∈ l', c.number? = .none)
    (hspan : (ofList line l).span = (ofList line l').span)
    (hmem : ∀ c, c ∈ widened line l ↔ c ∈ widened line l') : ofList line l = ofList line l' := by
  have hlist : (ofList line l).list = (ofList line l').list := by
    refine eq_of_ascending (ascending_list fun c hc => spelled_of_text (htexts c hc))
      (ascending_list fun c hc => spelled_of_text (htexts' c hc)) fun c => ?_
    rw [mem_list_iff htexts, mem_list_iff htexts', hmem]
  cases h : ofList line l
  cases h' : ofList line l'
  simp_all

/-- The span of a set is known by what it is made of. -/
theorem span_ofList_eq (line : String) (hempty : l = [] ↔ l' = [])
    (hsame : ∀ u : Span, (∀ t ∈ l.map Completion.span, u.Encloses t) ↔
      ∀ t ∈ l'.map Completion.span, u.Encloses t) :
    (ofList line l).span = (ofList line l').span := by
  by_cases hl : l = []
  · rw [hl, hempty.1 hl]
  · exact (isHull_ofList line hl).eq (isHull_ofList line fun h => hl (hempty.2 h)) hsame

/-- Neither the order of texts matters nor how often they come. -/
theorem ofList_congr (htexts : ∀ c ∈ l, c.number? = .none) (hmem : ∀ c, c ∈ l ↔ c ∈ l') :
    ofList line l = ofList line l' := by
  have hempty : l = [] ↔ l' = [] := by
    simp only [List.eq_nil_iff_forall_not_mem, hmem]
  have hspan : (ofList line l).span = (ofList line l').span := by
    refine span_ofList_eq line hempty fun u => ?_
    simp only [List.forall_mem_map, hmem]
  refine ofList_eq htexts (fun c hc => htexts c ((hmem c).2 hc)) hspan fun c => ?_
  simp only [widened, List.mem_map, hspan, hmem]

variable {ls : List (List Completion)}

/-- The span of all is the same whether they have been put in sets before or not. -/
theorem span_flatMap_list (line : String) (ls : List (List Completion)) :
    (ofList line (ls.flatMap fun l => (ofList line l).list)).span =
      (ofList line ls.flatten).span := by
  refine span_ofList_eq line ?_ fun u => ?_
  · simp only [List.flatMap_eq_nil_iff, List.flatten_eq_nil_iff, list_eq_nil_iff]
  · have heach := fun l => encloses_list_iff line l u
    simp only [List.forall_mem_map] at heach
    simp only [List.forall_mem_map, List.mem_flatMap, List.mem_flatten, forall_exists_index,
      and_imp]
    constructor
    · intro hu c l hl hc
      exact (heach l).1 (fun d hd => hu d l hl hd) c hc
    · intro hu c l hl hc
      exact (heach l).2 (fun d hd => hu d l hl hd) c hc

/-- A text comes to the same whether it is widened to the span of its set in between or not. -/
theorem widen_through_set (hfits : ∀ l ∈ ls, ∀ c ∈ l, c.span.Fits line) (hl : l ∈ ls)
    (hc : c ∈ l) (htext : c.number? = .none) :
    (c.widen line (ofList line l).span).widen line (ofList line ls.flatten).span =
      c.widen line (ofList line ls.flatten).span := by
  have hmem : ∀ d ∈ l, d ∈ ls.flatten := fun d hd => List.mem_flatten.2 ⟨l, hl, hd⟩
  have hall : ∀ d ∈ ls.flatten, d.span.Fits line := by
    intro d hd
    obtain ⟨l, hl, hd⟩ := List.mem_flatten.1 hd
    exact hfits l hl d hd
  have hne : l ≠ [] := List.ne_nil_of_mem hc
  have houter : (ofList line ls.flatten).span.Encloses (ofList line l).span := by
    refine (isHull_ofList line hne).least _ ?_
    intro t ht
    obtain ⟨d, hd, rfl⟩ := List.mem_map.1 ht
    exact encloses_of_mem line (hmem d hd)
  exact widen_widen (hfits l hl c hc) (fits_ofList hne (hfits l hl))
    (fits_ofList (List.ne_nil_of_mem (hmem c hc)) hall) (encloses_of_mem line hc) houter htext

/-- Texts that have been put in sets are as good as the texts themselves. -/
theorem ofList_flatMap_list (htexts : ∀ l ∈ ls, ∀ c ∈ l, c.number? = .none)
    (hfits : ∀ l ∈ ls, ∀ c ∈ l, c.span.Fits line) :
    ofList line (ls.flatMap fun l => (ofList line l).list) = ofList line ls.flatten := by
  refine ofList_eq ?_ ?_ (span_flatMap_list line ls) ?_
  · intro c hc
    obtain ⟨l, hl, hc⟩ := List.mem_flatMap.1 hc
    exact texts_widened line (htexts l hl) c (mem_widened_of_mem_list hc)
  · intro c hc
    obtain ⟨l, hl, hc⟩ := List.mem_flatten.1 hc
    exact htexts l hl c hc
  · intro c
    rw [widened, widened, span_flatMap_list]
    simp only [List.mem_map, List.mem_flatMap, List.mem_flatten]
    constructor
    · rintro ⟨d, ⟨l, hl, hd⟩, rfl⟩
      obtain ⟨e, he, rfl⟩ := List.mem_map.1 (mem_widened_of_mem_list hd)
      exact ⟨e, ⟨l, hl, he⟩, (widen_through_set hfits hl he (htexts l hl e he)).symm⟩
    · rintro ⟨e, ⟨l, hl, he⟩, rfl⟩
      exact ⟨_, ⟨l, hl, (mem_list_iff (htexts l hl)).2 (List.mem_map_of_mem he)⟩,
        widen_through_set hfits hl he (htexts l hl e he)⟩

theorem merge_ofList (htexts : ∀ l ∈ ls, ∀ c ∈ l, c.number? = .none)
    (hfits : ∀ l ∈ ls, ∀ c ∈ l, c.span.Fits line) :
    merge line (ls.map (ofList line)) = ofList line ls.flatten := by
  rw [merge_eq_ofList, List.flatMap_map, ofList_flatMap_list htexts hfits]
  intro s hs
  obtain ⟨l, -, rfl⟩ := List.mem_map.1 hs
  exact made_ofList line l

/-- The completions are texts that fit the line. -/
def TextsOf (line : String) (l : List Completion) : Prop :=
  ∀ c ∈ l, c.number? = .none ∧ c.span.Fits line

instance {line : String} {l : List Completion} : Decidable (TextsOf line l) :=
  inferInstanceAs (Decidable (∀ c ∈ l, _))

theorem TextsOf.append (h : TextsOf line l) (h' : TextsOf line l') : TextsOf line (l ++ l') := by
  intro c hc
  rcases List.mem_append.1 hc with hc | hc
  · exact h c hc
  · exact h' c hc

/-- Merging two sets of texts is making a set of both. -/
theorem merge_pair (h : TextsOf line l) (h' : TextsOf line l') :
    merge line [ofList line l, ofList line l'] = ofList line (l ++ l') := by
  have hmerge : merge line ([l, l'].map (ofList line)) = ofList line [l, l'].flatten :=
    merge_ofList (by simpa using ⟨fun c hc => (h c hc).1, fun c hc => (h' c hc).1⟩)
      (by simpa using ⟨fun c hc => (h c hc).2, fun c hc => (h' c hc).2⟩)
  simpa using hmerge

/--
**Order and grouping of texts do not matter.**

Texts that fit the line make the same set whether they come all at once or in sets that are
merged, and a set of texts depends only on which texts there are, in whatever order and
however often.  So merging sets of texts is commutative and associative, and a set merged
with itself is the same set.
-/
theorem grouping_irrelevant (line : String) :
    (∀ ls : List (List Completion), (∀ l ∈ ls, TextsOf line l) →
      merge line (ls.map (ofList line)) = ofList line ls.flatten) ∧
    (∀ l l' : List Completion, TextsOf line l → (∀ c, c ∈ l ↔ c ∈ l') →
      ofList line l = ofList line l') ∧
    ∀ a b c : List Completion, TextsOf line a → TextsOf line b → TextsOf line c →
      merge line [ofList line a, ofList line b] = merge line [ofList line b, ofList line a] ∧
      merge line [merge line [ofList line a, ofList line b], ofList line c] =
        merge line [ofList line a, merge line [ofList line b, ofList line c]] ∧
      merge line [ofList line a, ofList line a] = ofList line a := by
  have hset : ∀ l l' : List Completion, TextsOf line l → (∀ c, c ∈ l ↔ c ∈ l') →
      ofList line l = ofList line l' := fun l l' h => ofList_congr fun c hc => (h c hc).1
  refine ⟨fun ls h => merge_ofList (fun l hl c hc => (h l hl c hc).1)
    (fun l hl c hc => (h l hl c hc).2), hset, fun a b c ha hb hc => ⟨?_, ?_, ?_⟩⟩
  · rw [merge_pair ha hb, merge_pair hb ha]
    exact hset _ _ (ha.append hb) fun c => by rw [List.mem_append, List.mem_append, or_comm]
  · rw [merge_pair ha hb, merge_pair hb hc, merge_pair (ha.append hb) hc,
      merge_pair ha (hb.append hc), List.append_assoc]
  · rw [merge_pair ha ha]
    exact hset _ _ (ha.append ha) fun c => by rw [List.mem_append, or_self]

/-- Two words for one place and one for another make the same set in any order and however they are
put into sets first. -/
theorem grouping_irrelevant_overlapping :
    TextsOf "é b" overlapping ∧
      merge "é b" (overlapping.map fun c => ofList "é b" [c]) = ofList "é b" overlapping ∧
      ofList "é b" (overlapping.reverse ++ overlapping) = ofList "é b" overlapping ∧
      merge "é b" [ofList "é b" overlapping, ofList "é b" overlapping] =
        ofList "é b" overlapping := by
  have htexts : TextsOf "é b" overlapping := by decide
  obtain ⟨hmerge, hset, hsets⟩ := grouping_irrelevant "é b"
  refine ⟨htexts, ?_, ?_, ?_⟩
  · exact hmerge (overlapping.map fun c => [c]) (by decide)
  · exact (hset overlapping _ htexts (by simp)).symm
  · exact (hsets overlapping overlapping overlapping htexts htexts htexts).2.2

end Completions

end CommandLines
