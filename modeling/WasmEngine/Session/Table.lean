/-!
# Tables

What a session names is kept in tables: lists of named items in which no name stands twice.
-/

namespace WasmEngine

/-- Items by name. -/
structure Table (α : Type) where
  entries : List (String × α) := []
  /-- No name stands twice. -/
  unique : (entries.map Prod.fst).Nodup := by exact List.nodup_nil

namespace Table

variable {α : Type}

/-- The item with a name. -/
def get? (table : Table α) (name : String) : Option α :=
  table.entries.lookup name

/-- The table without an item. -/
def erase (table : Table α) (name : String) : Table α where
  entries := table.entries.filter fun entry => entry.1 ≠ name
  unique := table.unique.sublist (List.filter_sublist.map Prod.fst)

theorem not_mem_erase (table : Table α) (name : String) : name ∉ (table.erase name).entries.map Prod.fst := by
  simp [erase]

/-- Puts an item in the place of the one with the same name. -/
def put (table : Table α) (name : String) (item : α) : Table α where
  entries := (name, item) :: (table.erase name).entries
  unique := List.nodup_cons.2 ⟨table.not_mem_erase name, (table.erase name).unique⟩

/-- Whether there are no items. -/
def isEmpty (table : Table α) : Bool :=
  table.entries.isEmpty

/-- An item that was put in is found. -/
theorem get?_put (table : Table α) (name : String) (item : α) : (table.put name item).get? name = some item := by
  simp [get?, put]

/-- An item that was taken out is not found. -/
theorem get?_erase (table : Table α) (name : String) : (table.erase name).get? name = none := by
  rw [get?, erase, List.lookup_eq_none_iff]
  intro entry h
  have := (List.mem_filter.1 h).2
  simp only [ne_eq, decide_not, Bool.not_eq_eq_eq_not, Bool.not_true, decide_eq_false_iff_not] at this
  simpa using fun h => this h.symm

end Table

end WasmEngine
