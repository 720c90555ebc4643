import MemcachedClient.Table
import Mathlib.Data.List.Basic
import Mathlib.Data.List.Nodup

/-!
# Tables with distinct names

A table that is only changed by `Table.put` and `Table.remove` never has a name twice (`Distinct`).
Of such a table the entry under a name is the one that stands in it, and an entry counts once:
`count_put` and `count_eq_remove` say how the number of entries of a kind changes with one entry.
-/

namespace MemcachedClient.Table

variable {α : Type} {table : Table α} {name other : String} {entry old : α}

/-- No name stands twice in a table. -/
def Distinct (table : Table α) : Prop := (table.map (·.1)).Nodup

/-- The number of entries of a kind. -/
def count (kind : α → Bool) (table : Table α) : ℕ := table.countP fun item => kind item.2

theorem distinct_nil : Distinct ([] : Table α) := List.nodup_nil

theorem distinct_cons : Distinct ((name, entry) :: table) ↔ name ∉ table.map (·.1) ∧ Distinct table :=
  List.nodup_cons

theorem map_fst_put (table : Table α) (name : String) (entry : α) :
    (table.put name entry).map (·.1) =
      if name ∈ table.map (·.1) then table.map (·.1) else table.map (·.1) ++ [name] := by
  induction table with
  | nil => rfl
  | cons head rest ih =>
    simp only [put]
    by_cases h : head.1 = name
    · simp [h]
    · rw [if_neg h, List.map_cons, ih, List.map_cons]
      simp only [List.mem_cons]
      by_cases hmem : name ∈ rest.map (·.1)
      · simp only [if_pos hmem, if_pos (Or.inr hmem)]
      · have hne : ¬ (name = head.1 ∨ name ∈ rest.map (·.1)) := by
          rintro (e | e)
          exacts [h e.symm, hmem e]
        simp only [if_neg hmem, if_neg hne, List.cons_append]

theorem Distinct.put (h : table.Distinct) (name : String) (entry : α) :
    (table.put name entry).Distinct := by
  rw [Distinct, map_fst_put]
  split
  · exact h
  · next hmem =>
    rw [List.nodup_append]
    refine ⟨h, List.nodup_singleton _, fun a ha b hb => ?_⟩
    rw [List.mem_singleton] at hb
    rintro rfl
    exact hmem (hb ▸ ha)

theorem Distinct.remove (h : table.Distinct) (name : String) : (table.remove name).Distinct :=
  (List.filter_sublist.map _).nodup h

/-- Changing entries in their places keeps the names distinct. -/
theorem Distinct.map {β : Type} (h : table.Distinct) (f : α → β) :
    Distinct (List.map (fun item => (item.1, f item.2)) table) := by
  rw [Distinct, List.map_map]
  exact h

theorem mem_of_get? (h : table.get? name = some entry) : (name, entry) ∈ table := by
  induction table with
  | nil => simp at h
  | cons head rest ih =>
    rw [get?_cons] at h
    split at h
    · next e =>
      rw [Option.some.injEq] at h
      rw [e, ← h]
      exact List.mem_cons_self
    · exact List.mem_cons_of_mem _ (ih h)

theorem Distinct.get?_of_mem (hd : table.Distinct) (h : (name, entry) ∈ table) :
    table.get? name = some entry := by
  induction table with
  | nil => simp at h
  | cons head rest ih =>
    obtain ⟨hhead, hrest⟩ := distinct_cons.mp hd
    rw [get?_cons]
    rcases List.mem_cons.mp h with e | hmem
    · rw [← e, if_pos rfl]
    · rw [if_neg]
      · exact ih hrest hmem
      · rintro rfl
        exact hhead (List.mem_map.mpr ⟨_, hmem, rfl⟩)

/-- Of a table with distinct names the entries are what stands in it. -/
theorem Distinct.get?_eq_some_iff (hd : table.Distinct) :
    table.get? name = some entry ↔ (name, entry) ∈ table :=
  ⟨mem_of_get?, hd.get?_of_mem⟩

theorem get?_eq_none_iff : table.get? name = none ↔ name ∉ table.map (·.1) := by
  induction table with
  | nil => simp
  | cons head rest ih =>
    rw [get?_cons, List.map_cons, List.mem_cons, not_or, ← ih]
    by_cases h : name = head.1 <;> simp [h]

/-- A table without an entry under any name. -/
theorem eq_nil_of_get? (h : ∀ name, table.get? name = none) : table = [] := by
  rw [List.eq_nil_iff_forall_not_mem]
  exact fun entry hmem => get?_eq_none_iff.mp (h entry.1) (List.mem_map_of_mem hmem)

theorem has_eq_true_iff : table.has name = true ↔ ∃ entry, table.get? name = some entry :=
  Option.isSome_iff_exists

theorem has_eq_false_iff : table.has name = false ↔ table.get? name = none := by
  simp [has]

theorem get?_put (table : Table α) (name other : String) (entry : α) :
    (table.put name entry).get? other = if other = name then some entry else table.get? other := by
  by_cases h : other = name
  · rw [if_pos h, h, get?_put_self]
  · rw [if_neg h, get?_put_of_ne _ _ h]

/-- What is found after an entry was put is that entry, or it was there before. -/
theorem eq_or_of_get?_put (h : (table.put name entry).get? other = some old) :
    other = name ∧ old = entry ∨ other ≠ name ∧ table.get? other = some old := by
  rw [get?_put] at h
  by_cases hname : other = name
  · rw [if_pos hname, Option.some.injEq] at h
    exact Or.inl ⟨hname, h.symm⟩
  · rw [if_neg hname] at h
    exact Or.inr ⟨hname, h⟩

/-- What is there stays when something is put. -/
theorem has_put (h : table.has name = true) (other : String) (entry : α) : (table.put other entry).has name = true := by
  rw [has, get?_put]
  split
  · rfl
  · exact h

theorem get?_remove (table : Table α) (name other : String) :
    (table.remove name).get? other = if other = name then none else table.get? other := by
  by_cases h : other = name
  · rw [if_pos h, h, get?_remove_self]
  rw [if_neg h]
  induction table with
  | nil => rfl
  | cons head rest ih =>
    by_cases hn : head.1 = name
    · rw [get?_cons, if_neg (hn ▸ h), ← ih, remove, List.filter_cons_of_neg (by simpa using hn)]
      rfl
    · rw [get?_cons, ← ih, remove, List.filter_cons_of_pos (by simpa using hn), get?_cons]
      rfl

theorem get?_remove_of_ne (table : Table α) (h : other ≠ name) :
    (table.remove name).get? other = table.get? other := by
  rw [get?_remove, if_neg h]

/-- What is found after a name was removed was there before. -/
theorem get?_of_get?_remove (h : (table.remove name).get? other = some entry) :
    table.get? other = some entry := by
  rw [get?_remove] at h
  split at h
  · simp at h
  · exact h

theorem remove_of_get?_eq_none (h : table.get? name = none) : table.remove name = table := by
  rw [get?_eq_none_iff] at h
  rw [remove, List.filter_eq_self]
  intro item hitem
  rw [decide_eq_true_eq]
  rintro rfl
  exact h (List.mem_map_of_mem hitem)

@[simp] theorem remove_put_self (table : Table α) (name : String) (entry : α) :
    (table.put name entry).remove name = table.remove name := by
  induction table with
  | nil => simp [put, remove]
  | cons head rest ih =>
    simp only [put]
    split
    · next h => simp [remove, h]
    · next h =>
      simp only [remove] at ih ⊢
      rw [List.filter_cons_of_pos (by simpa using h), List.filter_cons_of_pos (by simpa using h), ih]

theorem remove_put_of_ne (table : Table α) (h : other ≠ name) (entry : α) :
    (table.put other entry).remove name = (table.remove name).put other entry := by
  induction table with
  | nil => simp [put, remove, h]
  | cons head rest ih =>
    simp only [remove] at ih ⊢
    by_cases hhead : head.1 = name
    · have hput : head.1 ≠ other := fun e => h (e.symm.trans hhead)
      rw [put, if_neg hput, List.filter_cons_of_neg (by simpa using hhead), List.filter_cons_of_neg (by simpa using hhead),
        ih]
    · rw [List.filter_cons_of_pos (by simpa using hhead)]
      simp only [put]
      split
      · rw [List.filter_cons_of_pos (by simpa using h)]
      · rw [List.filter_cons_of_pos (by simpa using hhead), ih]

theorem put_of_get?_eq_some (h : table.get? name = some entry) : table.put name entry = table := by
  induction table with
  | nil => simp at h
  | cons head rest ih =>
    simp only [put]
    rw [get?_cons] at h
    split at h
    · next e =>
      rw [Option.some.injEq] at h
      rw [if_pos e.symm, ← h, e]
    · next e => rw [if_neg (Ne.symm e), ih h]

@[simp] theorem put_put_self (table : Table α) (name : String) (old entry : α) :
    (table.put name old).put name entry = table.put name entry := by
  induction table with
  | nil => simp [put]
  | cons head rest ih =>
    by_cases h : head.1 = name
    · simp [put, h]
    · simp [put, h, ih]

/-- A new name stands at the end. -/
theorem put_eq_append (h : table.get? name = none) (entry : α) :
    table.put name entry = table ++ [(name, entry)] := by
  induction table with
  | nil => rfl
  | cons head rest ih =>
    rw [get?_cons] at h
    split at h
    · simp at h
    · next hne =>
      simp only [put]
      rw [if_neg (Ne.symm hne), ih h, List.cons_append]

/-- An entry that does not count in a list made of the entries can be removed. -/
theorem Distinct.filterMap_remove {β : Type} {f : String × α → Option β} (hd : table.Distinct)
    (h : table.get? name = some old) (hf : f (name, old) = none) :
    (table.remove name).filterMap f = table.filterMap f := by
  rw [Table.remove, List.filterMap_filter]
  refine List.filterMap_congr fun item hitem => ?_
  split
  · rfl
  · next hname =>
    obtain ⟨other, found⟩ := item
    obtain rfl : other = name := by simpa using hname
    have hfound := hd.get?_of_mem hitem
    rw [h, Option.some.injEq] at hfound
    rw [← hfound, hf]

/-- An entry that is not picked can be removed. -/
theorem Distinct.filter_remove {pick : String × α → Bool} (hd : table.Distinct) (h : table.get? name = some entry)
    (hpick : pick (name, entry) = false) : (table.remove name).filter pick = table.filter pick := by
  rw [← List.filterMap_eq_filter]
  exact hd.filterMap_remove h (by simp [Option.guard, hpick])

/-- A name that stands in front is found there. -/
theorem get?_append_left {front back : Table α} (h : name ∉ back.map (·.1)) :
    Table.get? (front ++ back) name = front.get? name := by
  induction front with
  | nil => exact get?_eq_none_iff.mpr h
  | cons head rest ih => rw [List.cons_append, get?_cons, get?_cons, ih]

/-- An entry changes in its place. -/
theorem put_append_of_get? {front : Table α} (h : front.get? name = some old) (back : Table α) :
    Table.put (front ++ back) name entry = front.put name entry ++ back := by
  induction front with
  | nil => simp at h
  | cons head rest ih =>
    obtain ⟨other, found⟩ := head
    rw [List.cons_append]
    simp only [put]
    by_cases hname : other = name
    · rw [if_pos hname, if_pos hname]
      rfl
    · rw [get?_cons, if_neg (Ne.symm hname)] at h
      rw [if_neg hname, if_neg hname, ih h]
      rfl

/-! ### Counting entries -/

/-- An entry that is put into a table with distinct names counts once. -/
theorem Distinct.count_put (hd : table.Distinct) (kind : α → Bool) (name : String) (entry : α) :
    (table.put name entry).count kind = (table.remove name).count kind + (kind entry).toNat := by
  induction table with
  | nil => cases h : kind entry <;> simp [Table.put, Table.remove, count, h]
  | cons head rest ih =>
    obtain ⟨hhead, hrest⟩ := distinct_cons.mp hd
    simp only [Table.put]
    split
    · next h =>
      have hnone : get? rest name = none := by rwa [get?_eq_none_iff, ← h]
      have hrem : Table.remove (head :: rest) name = rest := by
        have := remove_of_get?_eq_none hnone
        simp only [Table.remove] at this ⊢
        rw [List.filter_cons_of_neg (by simp [h]), this]
      rw [hrem]
      cases hk : kind entry <;> simp [count, hk]
    · next h =>
      have hrem : Table.remove (head :: rest) name = head :: Table.remove rest name := by
        simp only [Table.remove]
        rw [List.filter_cons_of_pos (by simpa using h)]
      rw [hrem]
      have := ih hrest
      simp only [count, List.countP_cons] at this ⊢
      omega

/-- An entry of a table with distinct names counts once. -/
theorem Distinct.count_eq_remove (hd : table.Distinct) (kind : α → Bool)
    (h : table.get? name = some entry) :
    table.count kind = (table.remove name).count kind + (kind entry).toNat := by
  rw [← hd.count_put, put_of_get?_eq_some h]

theorem length_put_of_get?_eq_none (h : table.get? name = none) (entry : α) :
    (table.put name entry).length = table.length + 1 := by
  have hnames := congrArg List.length (map_fst_put table name entry)
  rw [if_neg (get?_eq_none_iff.mp h)] at hnames
  simpa using hnames

theorem Distinct.length_put (hd : table.Distinct) (name : String) (entry : α) :
    (table.put name entry).length = (table.remove name).length + 1 := by
  simpa [count] using hd.count_put (fun _ => true) name entry

theorem Distinct.length_eq_remove (hd : table.Distinct) (h : table.get? name = some entry) :
    table.length = (table.remove name).length + 1 := by
  rw [← hd.length_put name entry, put_of_get?_eq_some h]

/-- Entries of one of two kinds that exclude each other. -/
theorem count_or (table : Table α) {kind other : α → Bool}
    (h : ∀ entry, kind entry = true → other entry = false) :
    (table.count fun entry => kind entry || other entry) = table.count kind + table.count other := by
  induction table with
  | nil => rfl
  | cons head rest ih =>
    simp only [count, List.countP_cons] at ih ⊢
    rw [ih]
    cases hk : kind head.2 with
    | true => simp [h _ hk, Nat.add_right_comm]
    | false => simp [Nat.add_assoc]

theorem count_pos_iff {kind : α → Bool} :
    0 < table.count kind ↔ ∃ item ∈ table, kind item.2 = true := by
  rw [count, List.countP_pos_iff]

/-- Entries of a kind are there as long as their number is positive. -/
theorem Distinct.count_pos_iff_get? (hd : table.Distinct) {kind : α → Bool} :
    0 < table.count kind ↔ ∃ name entry, table.get? name = some entry ∧ kind entry = true := by
  rw [count_pos_iff]
  constructor
  · rintro ⟨⟨name, entry⟩, hmem, hk⟩
    exact ⟨name, entry, hd.get?_of_mem hmem, hk⟩
  · rintro ⟨name, entry, hget, hk⟩
    exact ⟨(name, entry), mem_of_get? hget, hk⟩

/-- Changing entries in their places leaves the number of those of a kind alone if they keep it. -/
theorem count_map {β : Type} (table : Table α) {f : α → β} {kind : α → Bool} {kind' : β → Bool}
    (hf : ∀ entry, kind' (f entry) = kind entry) :
    Table.count kind' (List.map (fun item => (item.1, f item.2)) table) = table.count kind := by
  rw [count, count, List.countP_map]
  exact List.countP_congr fun item _ => by simp [hf item.2]

theorem map_put {β : Type} (table : Table α) (f : α → β) (name : String) (entry : α) :
    List.map (fun item => (item.1, f item.2)) (table.put name entry) =
      Table.put (List.map (fun item => (item.1, f item.2)) table) name (f entry) := by
  induction table with
  | nil => rfl
  | cons head rest ih =>
    rw [List.map_cons]
    simp only [put]
    split
    · rfl
    · rw [List.map_cons, ih]

theorem get?_map {β : Type} (table : Table α) (f : α → β) (name : String) :
    Table.get? (List.map (fun item => (item.1, f item.2)) table) name = (table.get? name).map f := by
  induction table with
  | nil => rfl
  | cons head rest ih =>
    rw [List.map_cons, get?_cons, get?_cons, ih]
    split <;> rfl

end MemcachedClient.Table
