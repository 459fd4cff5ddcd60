/-
Brackets in a text.

Brackets match if each that closes stands for the innermost that is open, and none is left open.
With a limit on how many are open at once the same definition says how far they stand inside of each
other; with a limit of one, not at all.

Texts are put together from smaller ones, and a text that is all right by itself may be wrong in the
middle of another, where brackets are open already.  So `Closed` speaks of all that may be open
before, and of how much more a text needs: none if it has no brackets, and one more with each pair
around it.
-/
import Mathlib.Data.List.Basic

namespace CommandLines

namespace Text

/-- What closes a bracket. -/
def closer? : Char → Option Char
  | '[' => some ']'
  | '(' => some ')'
  | _ => none

/-- Whether the character closes some bracket. -/
def isCloser (c : Char) : Bool := c == ']' || c == ')'

/-- What is left to be closed after a character, the innermost first.  A bracket may be opened if
fewer than `limit` are open, and what closes must close the innermost. -/
def pendingAfter? (limit : Nat) (pending : List Char) (c : Char) : Option (List Char) :=
  match closer? c with
  | some close => if pending.length < limit then some (close :: pending) else none
  | none =>
    if isCloser c then
      match pending with
      | [] => none
      | top :: pending => if top = c then some pending else none
    else some pending

/-- Whether the brackets of a text match, with no more than `limit` open at once. -/
def fits (limit : Nat) (s : String) : Bool := s.toList.foldlM (pendingAfter? limit) [] == some []

/-- Whether a text closes what it opens wherever `depth` more brackets may be opened, and nothing
else. -/
def Closed (depth : Nat) (cs : List Char) : Prop :=
  ∀ (limit : Nat) (pending : List Char), pending.length + depth ≤ limit →
    cs.foldlM (pendingAfter? limit) pending = some pending

variable {depth deeper limit : Nat} {cs ds : List Char}

namespace Closed

/-- What follows a closed text has brackets that match just if the whole has. -/
theorem fits_append {s : String} (h : Closed depth s.toList) (hlimit : depth ≤ limit)
    (after : String) : fits limit (s ++ after) = fits limit after := by
  rw [fits, String.toList_append, List.foldlM_append, h limit [] (by simpa using hlimit)]
  rfl

theorem fits {s : String} (h : Closed depth s.toList) (hlimit : depth ≤ limit) :
    fits limit s = true := by
  rw [← String.append_empty (s := s), h.fits_append hlimit]
  rfl

theorem mono (h : Closed depth cs) (hle : depth ≤ deeper) : Closed deeper cs := by
  intro limit pending hlimit
  exact h limit pending (by omega)

theorem append (hcs : Closed depth cs) (hds : Closed depth ds) : Closed depth (cs ++ ds) := by
  intro limit pending hlimit
  rw [List.foldlM_append, hcs limit pending hlimit]
  exact hds limit pending hlimit

theorem of_bracketless (h : ∀ c ∈ cs, c ∉ ['[', ']', '(', ')']) : Closed 0 cs := by
  intro limit pending _
  induction cs with
  | nil => rfl
  | cons c cs ih =>
    obtain ⟨hc, hcs⟩ := List.forall_mem_cons.1 h
    have hstay : pendingAfter? limit pending c = some pending := by
      have hcloser : closer? c = none := by
        unfold closer?
        split <;> simp_all
      have hclosing : isCloser c = false := by
        simp_all [isCloser]
      simp [pendingAfter?, hcloser, hclosing]
    rw [List.foldlM_cons, hstay]
    exact ih hcs

/-- A pair of brackets around a text needs room for one more. -/
theorem wrap (h : Closed depth cs) {start close : Char} (hstart : closer? start = some close)
    (hclose : closer? close = none ∧ isCloser close = true) :
    Closed (depth + 1) (start :: (cs ++ [close])) := by
  intro limit pending hlimit
  have hopens : pendingAfter? limit pending start = some (close :: pending) := by
    have hroom : pending.length < limit := by omega
    simp [pendingAfter?, hstart, hroom]
  have hcloses : pendingAfter? limit (close :: pending) close = some pending := by
    simp [pendingAfter?, hclose.1, hclose.2]
  have hinside := h limit (close :: pending) (by rw [List.length_cons]; omega)
  rw [List.foldlM_cons, hopens, Option.bind_eq_bind, Option.bind_some, List.foldlM_append, hinside,
    Option.bind_eq_bind, Option.bind_some, List.foldlM_cons, hcloses]
  rfl

/-- Of two brackets that start a text, the second stands inside of the first. -/
theorem not_twice (h : Closed 1 cs) : ¬['[', '['] <+: cs := by
  intro htwice
  obtain ⟨after, rfl⟩ := htwice
  cases h 1 [] (Nat.le_refl 1)

end Closed

/-- Between closed texts, what joins them being closed, too, there are no brackets left open. -/
theorem closed_joined {between : String} (hbetween : Closed depth between.toList)
    {parts : List String} (h : ∀ part ∈ parts, Closed depth part.toList) :
    Closed depth (between.intercalate parts).toList := by
  induction parts with
  | nil =>
    intro limit pending _
    rfl
  | cons part parts ih =>
    obtain ⟨hpart, hparts⟩ := List.forall_mem_cons.1 h
    cases parts with
    | nil => rwa [String.intercalate_singleton]
    | cons next parts =>
      rw [String.intercalate_cons_cons, String.toList_append, String.toList_append]
      exact (hpart.append hbetween).append (ih hparts)

theorem closed_space : Closed 0 " ".toList := Closed.of_bracketless (by simp)

/-- Of a row of texts that are either closed or start with two brackets, the brackets match without
standing inside of each other just if none is of the second kind. -/
theorem fits_joined_iff {parts : List String}
    (h : ∀ part ∈ parts, Closed 1 part.toList ∨ ['[', '['] <+: part.toList) :
    fits 1 (" ".intercalate parts) = true ↔ ∀ part ∈ parts, ¬['[', '['] <+: part.toList := by
  induction parts with
  | nil => exact iff_of_true rfl (List.forall_mem_nil _)
  | cons part parts ih =>
    obtain ⟨hpart, hparts⟩ := List.forall_mem_cons.1 h
    obtain ⟨after, hafter, hrest⟩ : ∃ after, " ".intercalate (part :: parts) = part ++ after ∧
        fits 1 after = fits 1 (" ".intercalate parts) := by
      cases parts with
      | nil => exact ⟨"", by simp, rfl⟩
      | cons next parts =>
        refine ⟨" " ++ " ".intercalate (next :: parts), ?_, closed_space.fits_append (by simp) _⟩
        rw [String.intercalate_cons_cons, String.append_assoc]
    rw [List.forall_mem_cons, hafter]
    by_cases htwice : ['[', '['] <+: part.toList
    · obtain ⟨cs, hcs⟩ := htwice
      -- the second bracket has no place, whatever follows
      have hbroken : fits 1 (part ++ after) = false := by
        rw [fits, String.toList_append, ← hcs]
        rfl
      simp [hbroken, ← hcs]
    · rw [(hpart.resolve_right htwice).fits_append (Nat.le_refl 1), hrest, ih hparts]
      simp [htwice]

end Text

end CommandLines
