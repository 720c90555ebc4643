/-!
# Tables

Entries under names, in the order in which the names came. `Table.put` changes the entry of a known
name in its place and adds a new name at the end; `Table.remove` takes a name out.
-/

namespace MemcachedClient

/-- Entries under names. -/
abbrev Table (α : Type) := List (String × α)

namespace Table

variable {α : Type}

/-- The entry under a name. -/
def get? (table : Table α) (name : String) : Option α := table.lookup name

/-- Whether there is an entry under a name. -/
def has (table : Table α) (name : String) : Bool := (table.get? name).isSome

/-- The table with an entry under a name. -/
def put (table : Table α) (name : String) (entry : α) : Table α :=
  match table with
  | [] => [(name, entry)]
  | (other, old) :: rest =>
    if other = name then (name, entry) :: rest else (other, old) :: put rest name entry

/-- The table without a name. -/
def remove (table : Table α) (name : String) : Table α :=
  table.filter fun entry => entry.1 ≠ name

@[simp] theorem get?_nil (name : String) : get? ([] : Table α) name = none := rfl

theorem get?_cons (head : String × α) (rest : Table α) (name : String) :
    get? (head :: rest) name = if name = head.1 then some head.2 else get? rest name := by
  rw [get?, List.lookup_cons]
  by_cases h : name = head.1
  · simp [h]
  · have h' : (name == head.1) = false := by simpa using h
    rw [h', if_neg h]
    rfl

/-- A name has the entry that was put there. -/
@[simp] theorem get?_put_self (table : Table α) (name : String) (entry : α) :
    (table.put name entry).get? name = some entry := by
  induction table with
  | nil => simp [put, get?]
  | cons head rest ih =>
    simp only [put]
    split
    · simp [get?_cons]
    · next h => rw [get?_cons, if_neg fun e => h e.symm, ih]

/-- Other names keep their entries. -/
theorem get?_put_of_ne (table : Table α) {name other : String} (entry : α) (h : other ≠ name) :
    (table.put name entry).get? other = table.get? other := by
  induction table with
  | nil => simp [put, get?_cons, h]
  | cons head rest ih =>
    simp only [put]
    split
    · next e => rw [get?_cons, get?_cons, if_neg h, if_neg (e ▸ h)]
    · rw [get?_cons, get?_cons, ih]

/-- A removed name has no entry. -/
@[simp] theorem get?_remove_self (table : Table α) (name : String) :
    (table.remove name).get? name = none := by
  induction table with
  | nil => rfl
  | cons head rest ih =>
    by_cases h : head.1 = name
    · simpa [remove, h] using ih
    · rw [remove, List.filter_cons_of_pos (by simpa using h), get?_cons, if_neg fun e => h e.symm]
      exact ih

end Table

end MemcachedClient
