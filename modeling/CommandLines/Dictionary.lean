/-
Dictionaries: lists of named entries in the order of their names, each name once.
-/

namespace CommandLines.Dictionary

variable {α : Type}

/-- Put an entry in its place, instead of an earlier one of the same name. -/
def insert (entries : List (String × α)) (e : String × α) : List (String × α) :=
  entries.filter (fun o => decide (o.1 < e.1)) ++ e :: entries.filter (fun o => decide (e.1 < o.1))

/-- The entries in the order of their names; of several with one name the last stays. -/
def ofList (entries : List (String × α)) : List (String × α) := entries.foldl insert []

/-- The entry called `name`. -/
def get? (entries : List (String × α)) (name : String) : Option α :=
  (entries.find? (·.1 == name)).map (·.2)

theorem exists_get?_of_mem {entries : List (String × α)} {name : String}
    (h : name ∈ entries.map Prod.fst) : ∃ x, get? entries name = some x := by
  obtain ⟨e, he, rfl⟩ := List.mem_map.1 h
  obtain ⟨found, hfound⟩ := Option.isSome_iff_exists.1
    (List.find?_isSome.2 ⟨e, he, BEq.rfl⟩ : (entries.find? (·.1 == e.1)).isSome)
  exact ⟨found.2, by rw [get?, hfound, Option.map_some]⟩

end CommandLines.Dictionary
