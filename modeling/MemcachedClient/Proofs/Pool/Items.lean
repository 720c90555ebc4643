import MemcachedClient.Proofs.Pool.Accounting

/-!
# The items of a shared pool

An item of a shared pool is at a place: it is under creation by a borrower, or a slot has it, or it was
closed. `places` counts the places of an item. It is closed when its slot leaves the pool: with the last
unit of a slot that was retired, or when the pool is disposed and the slot has none.

Nothing that a pool does with its slots and units adds a place to an item (`Accounted.single_giveUnit`,
`places_dispose`); only a creation does, of an item that was nowhere before (`Single`). And what a unit
that is given back closes was with a slot that is gone then (`Accounted.closes_giveUnit`).
-/

namespace MemcachedClient.Pool

/-- The item that a borrower creates. -/
def SharedBorrow.item? : SharedBorrow → Option ℕ
  | creating _ item => some item
  | _ => none

@[simp] theorem SharedBorrow.item?_turnedAway (borrow : SharedBorrow) :
    borrow.turnedAway.item? = borrow.item? := by
  cases borrow <;> rfl

theorem Slot.mem_items {s : Slot} {item : ℕ} : item ∈ s.items ↔ s.made = some (.ok item) := by
  rw [items]
  split
  · next made hmade =>
    rw [hmade, List.mem_singleton, Option.some.injEq, Except.ok.injEq, eq_comm]
  · next hmade =>
    constructor
    · intro h
      simp at h
    · exact fun h => absurd h (hmade item)

theorem Slot.count_items (s : Slot) (item : ℕ) :
    s.items.count item = (decide (item ∈ s.items)).toNat := by
  rw [items]
  split
  · next made _ =>
    by_cases h : item = made
    · simp [h]
    · simp [h, Ne.symm h]
  · simp

namespace Shared

/-- The number of places at which an item is: it may be closed, with a slot, or under creation. -/
def places (p : Shared) (item : ℕ) : ℕ :=
  p.closed.count item + p.slots.countP (fun s => item ∈ s.items) +
    p.borrows.count fun borrow => borrow.item? == some item

/-- An item that was started is at one place at most, and one that is to come is nowhere; the item `hand`
is under creation by the borrower whose operation goes on. -/
def Single (p : Shared) (hand : Option ℕ) : Prop :=
  ∀ item, p.places item + (if hand = some item then 1 else 0) ≤ if item < p.created then 1 else 0

/-- On the way from `p` to `q` only items were closed that slots of `p` had, and those slots are gone. -/
def Closes (p q : Shared) : Prop :=
  ∃ items, q.closed = p.closed ++ items ∧ ∀ item ∈ items, ∃ s ∈ p.slots,
    s.made = some (.ok item) ∧ s.id < q.nextSlot ∧ ∀ x ∈ q.slots, x.id ≠ s.id

/-- Every item that a slot of `q` has, the same slot of `p` has. -/
def ItemsFrom (p q : Shared) : Prop :=
  ∀ s ∈ q.slots, ∀ item, s.made = some (.ok item) →
    ∃ old ∈ p.slots, old.id = s.id ∧ old.made = some (.ok item)

section places

variable {p q r : Shared} {hand : Option ℕ} {slot : ℕ} {name : String}

theorem Single.of_le (h : Single p hand) (hle : ∀ item, q.places item ≤ p.places item)
    (hc : p.created ≤ q.created) : Single q hand := by
  intro item
  have hitem := h item
  have hplaces := hle item
  by_cases hlt : item < p.created
  · rw [if_pos hlt] at hitem
    rw [if_pos (Nat.lt_of_lt_of_le hlt hc)]
    omega
  · rw [if_neg hlt] at hitem
    omega

/-- Changes of a slot that leave the result of its creation alone leave the items where they are. -/
theorem places_updateSlot (p : Shared) (id : ℕ) {f : Slot → Slot} (hf : ∀ s, (f s).made = s.made)
    (item : ℕ) : (p.updateSlot id f).places item = p.places item := by
  have hslots : (p.updateSlot id f).slots.countP (fun s => item ∈ s.items) =
      p.slots.countP (fun s => item ∈ s.items) := by
    rw [updateSlot, List.countP_map]
    refine List.countP_congr fun s _ => ?_
    simp only [Function.comp, decide_eq_true_eq, Slot.mem_items]
    split
    · rw [hf]
    · rfl
  rw [places, hslots]
  rfl

/-- The result of a creation that is kept with its slot adds the item that was made. -/
theorem places_made_le (hids : (p.slots.map (·.id)).Nodup) (slot : ℕ)
    (result : Except ClientError ℕ) (item : ℕ) :
    (p.updateSlot slot fun s => { s with made := some result }).places item ≤
      p.places item + if result = .ok item then 1 else 0 := by
  have hslots : ∀ slots : List Slot, (slots.map (·.id)).Nodup →
      (slots.map fun s => if s.id = slot then { s with made := some result } else s).countP
          (fun s => item ∈ s.items) ≤
        slots.countP (fun s => item ∈ s.items) + if result = .ok item then 1 else 0 := by
    intro slots
    induction slots with
    | nil => simp
    | cons s rest ih =>
      intro hnodup
      obtain ⟨hnew, hrest⟩ := List.nodup_cons.mp hnodup
      simp only [List.map_cons, List.countP_cons]
      by_cases e : s.id = slot
      · have hsame : (rest.map fun s => if s.id = slot then { s with made := some result } else s) =
            rest := by
          refine (List.map_congr_left fun x hx => if_neg fun hid => hnew ?_).trans (List.map_id' rest)
          exact List.mem_map.mpr ⟨x, hx, hid.trans e.symm⟩
        have hhead : item ∈ ({ s with made := some result } : Slot).items ↔ result = .ok item := by
          rw [Slot.mem_items, Option.some.injEq]
        rw [if_pos e, hsame]
        simp only [decide_eq_true_eq, hhead]
        omega
      · rw [if_neg e]
        have := ih hrest
        omega
  have := hslots p.slots hids
  simp only [places, updateSlot]
  omega

theorem places_assign? (h : p.assign? = some (slot, q)) (item : ℕ) :
    q.places item = p.places item := by
  rcases assign?_cases h with ⟨best, -, -, -, -, rfl⟩ | ⟨-, -, rfl⟩
  · exact places_updateSlot p best.id (f := Slot.take) (fun _ => rfl) item
  · have hnew : item ∉ (Slot.ofId p.nextSlot).items := by simp [Slot.ofId, Slot.items]
    simp only [places, List.countP_append, List.countP_singleton, hnew, decide_false,
      Bool.false_eq_true, if_false, Nat.add_zero]

theorem places_without_le (p : Shared) (name : String) (item : ℕ) :
    (p.without name).places item ≤ p.places item := by
  have := List.Sublist.countP_le (p := fun entry : String × SharedBorrow =>
    entry.2.item? == some item) (List.filter_sublist (p := fun entry => entry.1 ≠ name)
      (l := p.borrows))
  exact Nat.add_le_add_left this _

/-- A borrower that is put in its place adds the item that it creates. -/
theorem places_put (hd : p.borrows.Distinct) (name : String) (borrow : SharedBorrow) (item : ℕ) :
    places { p with borrows := p.borrows.put name borrow } item =
      (p.without name).places item + if borrow.item? = some item then 1 else 0 := by
  simp only [places, without, hd.count_put]
  by_cases h : borrow.item? = some item <;> simp [h]
  omega

theorem places_handOn_le (hd : p.borrows.Distinct) (slot : ℕ) (queue : List ℕ) (item : ℕ) :
    (p.handOn slot queue).places item ≤ p.places item := by
  rcases handOn_cases p slot queue with ⟨_, _, rest, name, -, -, -, e⟩ | ⟨-, e⟩
  · rw [e]
    have hput := places_put hd name (.assigned slot) item
    have := places_without_le p name item
    simp only [SharedBorrow.item?, reduceCtorEq, if_false, Nat.add_zero] at hput
    exact Nat.le_trans (Nat.le_of_eq hput) this
  · rw [e]
    exact Nat.le_of_eq
      (places_updateSlot { p with queue := [] } slot (f := Slot.give) (fun _ => rfl) item)

/-- Of the slots without those of one number, one slot of that number is missing. -/
theorem countP_filter_id_add_le {slots : List Slot} {s : Slot} (hs : s ∈ slots) (item : ℕ) :
    (slots.filter (·.id ≠ s.id)).countP (fun x => item ∈ x.items) + s.items.count item ≤
      slots.countP (fun x => item ∈ x.items) := by
  rw [Slot.count_items]
  induction slots with
  | nil => simp at hs
  | cons x rest ih =>
    by_cases e : x.id = s.id
    · rw [List.filter_cons_of_neg (by simpa using e)]
      have hrest := List.Sublist.countP_le (p := fun x : Slot => decide (item ∈ x.items))
        (List.filter_sublist (p := fun x => x.id ≠ s.id) (l := rest))
      rw [List.countP_cons]
      rcases List.mem_cons.mp hs with rfl | hmem
      · by_cases h : item ∈ s.items <;> simp [h] <;> simpa using hrest
      · have := ih hmem
        omega
    · rw [List.filter_cons_of_pos (by simpa using e), List.countP_cons, List.countP_cons]
      rcases List.mem_cons.mp hs with rfl | hmem
      · exact absurd rfl e
      · have := ih hmem
        omega

/-- A slot that leaves the pool takes its item with it to those that are closed. -/
theorem places_dropDrained_le {s : Slot} (hs : s ∈ p.slots) (item : ℕ) :
    (p.dropDrained s).places item ≤ p.places item := by
  rw [dropDrained]
  split
  · have := countP_filter_id_add_le hs item
    simp only [places, List.count_append]
    omega
  · exact Nat.le_refl _

/-- Retiring a slot closes its item at most, which the slot has no longer then. -/
theorem places_retireSlot_le (hids : (p.slots.map (·.id)).Nodup) {s : Slot} (hs : s ∈ p.slots)
    (item : ℕ) : (p.retireSlot s).places item ≤ p.places item := by
  -- the change of the slots with the number of `s` is one of `s` alone
  have hsame : (p.updateSlot s.id fun _ => { s.give with retired := true }) =
      p.updateSlot s.id fun x => { x.give with retired := true } := by
    simp only [updateSlot]
    congr 1
    refine List.map_congr_left fun x hx => ?_
    split
    · next e => rw [eq_of_id_eq hids hx hs e]
    · rfl
  have hmem : ({ s.give with retired := true } : Slot) ∈
      (p.updateSlot s.id fun _ => { s.give with retired := true }).slots :=
    mem_updateSlot.mpr ⟨s, hs, if_pos rfl⟩
  refine Nat.le_trans (places_dropDrained_le hmem item) (Nat.le_of_eq ?_)
  rw [hsame]
  exact places_updateSlot p s.id (f := fun x => { x.give with retired := true }) (fun _ => rfl) item

theorem count_flatMap_items (slots : List Slot) (item : ℕ) :
    (slots.flatMap Slot.items).count item = slots.countP fun s => item ∈ s.items := by
  induction slots with
  | nil => rfl
  | cons s rest ih =>
    rw [List.flatMap_cons, List.count_append, ih, Slot.count_items, List.countP_cons]
    by_cases h : item ∈ s.items <;> simp [h, Nat.add_comm]

/-- Disposing a pool closes the items of the slots that go. -/
theorem places_dispose (p : Shared) (item : ℕ) : p.dispose.places item = p.places item := by
  have hborrows : p.dispose.borrows.count (fun borrow => borrow.item? == some item) =
      p.borrows.count fun borrow => borrow.item? == some item := by
    rw [dispose_borrows]
    exact Table.count_map p.borrows fun borrow => by rw [SharedBorrow.item?_turnedAway]
  have hslots : p.dispose.slots.countP (fun s => item ∈ s.items) =
      (p.slots.filter fun s => !(s.inFlight == 0)).countP fun s => item ∈ s.items := by
    rw [dispose, List.countP_map]
    rfl
  have hclosed : p.dispose.closed.count item = p.closed.count item +
      (p.slots.filter fun s => s.inFlight == 0).countP fun s => item ∈ s.items := by
    rw [dispose, List.count_append, count_flatMap_items]
  have hsplit := List.countP_eq_countP_filter_add p.slots (fun s => decide (item ∈ s.items))
    fun s => s.inFlight == 0
  rw [places, places, hborrows, hslots, hclosed]
  omega

theorem assign?_created (h : p.assign? = some (slot, q)) : q.created = p.created := by
  rcases assign?_cases h with ⟨_, -, -, -, -, rfl⟩ | ⟨-, -, rfl⟩ <;> rfl

theorem assign?_closed (h : p.assign? = some (slot, q)) : q.closed = p.closed := by
  rcases assign?_cases h with ⟨_, -, -, -, -, rfl⟩ | ⟨-, -, rfl⟩ <;> rfl

theorem handOn_created (p : Shared) (slot : ℕ) (queue : List ℕ) :
    (p.handOn slot queue).created = p.created := by
  rcases handOn_cases p slot queue with ⟨_, _, _, _, -, -, -, e⟩ | ⟨-, e⟩
  · rw [e]
  · rw [e]
    rfl

theorem retireSlot_created (p : Shared) (s : Slot) : (p.retireSlot s).created = p.created := by
  rw [retireSlot, dropDrained]
  split <;> rfl

/-- Giving a unit back adds no place to an item. -/
theorem Accounted.single_giveUnit (h : Accounted p (some slot)) (hs : Single p hand)
    (retire : Bool) : Single (p.giveUnit slot retire) hand := by
  obtain ⟨s, hslot⟩ := h.exists_slot?
  obtain ⟨hmem, -⟩ := slot?_eq_some hslot
  have hretired : Single (p.retireSlot s) hand :=
    hs.of_le (places_retireSlot_le h.ids hmem) (Nat.le_of_eq (p.retireSlot_created s).symm)
  rw [giveUnit_eq hslot]
  split
  · exact hs.of_le (places_handOn_le h.borrows slot p.queue)
      (Nat.le_of_eq (p.handOn_created slot p.queue).symm)
  split
  · exact hretired
  split
  · exact hretired
  · next other q ha =>
    have hb : q.borrows = p.borrows := (assign?_parts ha).1.trans (p.retireSlot_parts s).1
    have hq : Single q hand := hretired.of_le (fun item => Nat.le_of_eq (places_assign? ha item))
      (Nat.le_of_eq (assign?_created ha).symm)
    exact hq.of_le (places_handOn_le (hb ▸ h.borrows) other q.queue)
      (Nat.le_of_eq (q.handOn_created other q.queue).symm)

/-! ### Which items are closed -/

theorem ItemsFrom.refl (p : Shared) : ItemsFrom p p := fun s hs _ hmade => ⟨s, hs, rfl, hmade⟩

theorem ItemsFrom.trans (h : ItemsFrom p q) (h' : ItemsFrom q r) : ItemsFrom p r := by
  intro s hs item hmade
  obtain ⟨mid, hmid, e, hmade⟩ := h' s hs item hmade
  obtain ⟨old, hold, e', hmade⟩ := h mid hmid item hmade
  exact ⟨old, hold, e'.trans e, hmade⟩

theorem exists_of_mem_updateSlot {id : ℕ} {f : Slot → Slot} (hid : ∀ s, (f s).id = s.id) {s : Slot}
    (hs : s ∈ (p.updateSlot id f).slots) : ∃ old ∈ p.slots, old.id = s.id := by
  rw [← List.mem_map, ← map_id_updateSlot p id hid]
  exact List.mem_map_of_mem hs

/-- A change of a slot brings no item to it, unless it is the result of a creation. -/
theorem itemsFrom_updateSlot (p : Shared) (id : ℕ) {f : Slot → Slot} (hid : ∀ s, (f s).id = s.id)
    (hf : ∀ s item, (f s).made = some (.ok item) → s.made = some (.ok item)) :
    ItemsFrom p (p.updateSlot id f) := by
  intro s hs item hmade
  obtain ⟨old, hold, rfl⟩ := mem_updateSlot.mp hs
  refine ⟨old, hold, ?_⟩
  split at hmade
  · next e => exact ⟨by rw [if_pos e, hid], hf old item hmade⟩
  · next e => exact ⟨by rw [if_neg e], hmade⟩

theorem itemsFrom_assign? (h : p.assign? = some (slot, q)) : ItemsFrom p q := by
  rcases assign?_cases h with ⟨best, -, -, -, -, rfl⟩ | ⟨-, -, rfl⟩
  · exact itemsFrom_updateSlot p best.id (f := Slot.take) (fun _ => rfl) fun _ _ hmade => hmade
  · intro s hs item hmade
    rcases List.mem_append.mp hs with hs | hs
    · exact ⟨s, hs, rfl, hmade⟩
    · rw [List.mem_singleton.mp hs] at hmade
      simp [Slot.ofId] at hmade

theorem Closes.of_eq (h : q.closed = p.closed) : Closes p q :=
  ⟨[], by rw [h, List.append_nil], by simp⟩

/-- What is closed later was with the same slot before. -/
theorem Closes.of_itemsFrom (h : Closes q r) (hc : q.closed = p.closed) (hi : ItemsFrom p q) :
    Closes p r := by
  obtain ⟨items, hclosed, hall⟩ := h
  refine ⟨items, by rw [hclosed, hc], fun item hitem => ?_⟩
  obtain ⟨s, hs, hmade, hlt, hgone⟩ := hall item hitem
  obtain ⟨old, hold, e, hmade'⟩ := hi s hs item hmade
  exact ⟨old, hold, hmade', e ▸ hlt, fun x hx => e ▸ hgone x hx⟩

/-- What happens later to the slots that are there brings no slot back. -/
theorem Closes.mono (h : Closes p q) (hc : r.closed = q.closed) (hn : q.nextSlot ≤ r.nextSlot)
    (hs : ∀ x ∈ r.slots, q.nextSlot ≤ x.id ∨ ∃ old ∈ q.slots, old.id = x.id) : Closes p r := by
  obtain ⟨items, hclosed, hall⟩ := h
  refine ⟨items, by rw [hc, hclosed], fun item hitem => ?_⟩
  obtain ⟨s, hmem, hmade, hlt, hgone⟩ := hall item hitem
  refine ⟨s, hmem, hmade, Nat.lt_of_lt_of_le hlt hn, fun x hx => ?_⟩
  rcases hs x hx with hnew | ⟨old, hold, e⟩
  · omega
  · exact e ▸ hgone old hold

theorem Closes.handOn (h : Closes p q) (slot : ℕ) (queue : List ℕ) :
    Closes p (q.handOn slot queue) := by
  rcases handOn_cases q slot queue with ⟨_, _, rest, name, -, -, -, e⟩ | ⟨-, e⟩
  · rw [e]
    exact h.mono rfl (Nat.le_refl _) fun x hx => Or.inr ⟨x, hx, rfl⟩
  · rw [e]
    exact h.mono rfl (Nat.le_refl _) fun x hx =>
      Or.inr (exists_of_mem_updateSlot (f := Slot.give) (fun _ => rfl) hx)

theorem Closes.assign? (h : Closes p q) (ha : q.assign? = some (slot, r)) : Closes p r := by
  rcases assign?_cases ha with ⟨best, -, -, -, -, rfl⟩ | ⟨-, -, rfl⟩
  · exact h.mono rfl (Nat.le_refl _) fun x hx =>
      Or.inr (exists_of_mem_updateSlot (f := Slot.take) (fun _ => rfl) hx)
  · refine h.mono rfl (Nat.le_succ _) fun x hx => ?_
    rcases List.mem_append.mp hx with hx | hx
    · exact Or.inr ⟨x, hx, rfl⟩
    · rw [List.mem_singleton.mp hx]
      exact Or.inl (Nat.le_refl _)

/-- A slot that is retired goes with its item, or stays with it. -/
theorem closes_retireSlot {s : Slot} (hs : s ∈ p.slots) (hlt : s.id < p.nextSlot) :
    Closes p (p.retireSlot s) := by
  rw [retireSlot, dropDrained]
  split
  · refine ⟨_, rfl, fun item hitem => ⟨s, hs, Slot.mem_items.mp hitem, hlt, fun x hx => ?_⟩⟩
    have hne := (List.mem_filter.mp hx).2
    exact of_decide_eq_true hne
  · exact .of_eq rfl

theorem Accounted.closes_giveUnit (h : Accounted p (some slot)) (retire : Bool) :
    Closes p (p.giveUnit slot retire) := by
  obtain ⟨s, hslot⟩ := h.exists_slot?
  obtain ⟨hmem, -⟩ := slot?_eq_some hslot
  have hretired := closes_retireSlot hmem (h.ids_lt s hmem)
  rw [giveUnit_eq hslot]
  split
  · exact (Closes.of_eq rfl).handOn slot p.queue
  split
  · exact hretired
  split
  · exact hretired
  · next ha => exact (hretired.assign? ha).handOn _ _

end places

end Shared

end MemcachedClient.Pool
