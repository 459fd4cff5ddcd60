/-
Lists, whatever is in them.

What is collected along a line comes in the order in which it was met, and often more than once
under one name.  So what is said of such lists here is about the item that comes last and about
what has come before it.
-/
import Mathlib.Data.List.Induction
import Mathlib.Data.List.Nodup

namespace CommandLines

variable {α β : Type}

/-- A fold that forgets what came before is about the last item alone. -/
theorem foldl_last (f : α → β) (b : β) (l : List α) :
    l.foldl (fun _ x => f x) b = (l.getLast?.map f).getD b := by
  rcases List.eq_nil_or_concat l with rfl | ⟨init, x, rfl⟩
  · rfl
  · simp

variable [DecidableEq α]

/-- One more item at the end counts if it has not come before. -/
theorem eraseDups_concat (l : List α) (x : α) :
    (l ++ [x]).eraseDups = if x ∈ l.eraseDups then l.eraseDups else l.eraseDups ++ [x] := by
  by_cases hmem : x ∈ l
  · rw [if_pos (List.mem_eraseDups.2 hmem)]
    simp [List.eraseDups_append, List.removeAll, hmem]
  · rw [if_neg (mt List.mem_eraseDups.1 hmem)]
    simp [List.eraseDups_append, List.removeAll, hmem, List.eraseDups_cons]

/-- No item is left twice. -/
theorem nodup_eraseDups (l : List α) : l.eraseDups.Nodup := by
  induction l using List.reverseRecOn with
  | nil => exact List.nodup_nil
  | append_singleton l x ih =>
    rw [eraseDups_concat]
    split
    · exact ih
    · next hnew =>
      rw [← List.concat_eq_append]
      exact ih.concat hnew

/-- Leaving out entries by their names hides those names and no others. -/
theorem lookup_filter (p : α → Bool) (name : α) (entries : List (α × β)) :
    (entries.filter fun e => p e.1).lookup name =
      if p name then entries.lookup name else none := by
  induction entries with
  | nil => simp
  | cons e entries ih =>
    obtain ⟨other, x⟩ := e
    by_cases heq : name = other
    · subst heq
      cases hp : p name <;> simp [hp, ih]
    · have hne : (name == other) = false := beq_eq_false_iff_ne.2 heq
      cases hp : p other <;> simp [List.lookup_cons, hp, hne, ih]

end CommandLines
