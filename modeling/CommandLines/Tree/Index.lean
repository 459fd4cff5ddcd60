/-
Finding nodes by what they are called.

A node keeps its children in a list, and besides in indexes, so that a child need not be
searched for.  That list and indexes say the same is not said here: it is a law of how
trees grow.
-/
import CommandLines.Context

namespace CommandLines

/-- Which node goes by which name, the latest entry first.  A name that is entered again goes to the
later node. -/
structure Index (κ : Type) where
  entries : List (κ × NodeId) := []

namespace Index

variable {κ : Type}

/-- Whether nothing has been entered. -/
def isEmpty (ix : Index κ) : Bool := ix.entries.isEmpty

/-- Let a name go to a node. -/
def insert (ix : Index κ) (name : κ) (id : NodeId) : Index κ := ⟨(name, id) :: ix.entries⟩

variable [DecidableEq κ]

/-- The node that a name goes to. -/
def get? (ix : Index κ) (name : κ) : Option NodeId := ix.entries.lookup name

@[simp]
theorem get?_none (name : κ) : ({} : Index κ).get? name = none := rfl

theorem get?_insert (ix : Index κ) (name other : κ) (id : NodeId) :
    (ix.insert name id).get? other = if other = name then some id else ix.get? other := by
  by_cases h : other = name
  · simp [get?, insert, h]
  · simp [get?, insert, List.lookup_cons, beq_eq_false_iff_ne.2 h, h]

theorem get?_of_isEmpty {ix : Index κ} (h : ix.isEmpty = true) (name : κ) :
    ix.get? name = none := by
  rw [get?, List.isEmpty_iff.1 h, List.lookup_nil]

end Index

end CommandLines
