import MemcachedClient.Proofs.Pool.Lifetimes
import Mathlib.Data.List.Perm.Subperm

/-!
# Slots that are spent

A slot is retired when its creation has failed, or when a lease ends that was corrupted or whose item is not accepted.
If an item is over by then, a retired slot is spent (`Slot.Spent`): nothing is to be had of it, although it stays until
its last unit is given back. So at most `target` slots are not spent, and this is kept when the pool is disposed, which
retires slots that are not spent, since no slot is opened afterwards (`Drained`).

Of either kind of pool, then, no more items than it may keep are under creation, or made and not over
(`Sound.length_le`).
-/

namespace MemcachedClient.Pool

/-- A slot is retired and its creation has ended, but it has no item, or one that is over. -/
structure Slot.Spent (ended : ℕ → Prop) (s : Slot) : Prop where
  /-- The slot is retired. -/
  retired : s.retired = true
  /-- It has no item, or one that is over. -/
  made : ∃ result, s.made = some result ∧ ∀ item, result = .ok item → ended item

namespace Slot.Spent

variable {ended more why : ℕ → Prop} {old s : Slot} {item : ℕ}

theorem mono (h : s.Spent ended) (hmore : ∀ item, ended item → more item) : s.Spent more where
  retired := h.retired
  made := h.made.imp fun _ ⟨hmade, hended⟩ => ⟨hmade, fun item hitem => hmore item (hended item hitem)⟩

/-- A spent slot stays so. -/
theorem goesOn (h : old.Spent ended) {reason : Prop} (hgoes : old.GoesOn reason s) : s.Spent ended where
  retired := hgoes.stays h.retired
  made := h.made.imp fun result ⟨hmade, hended⟩ => ⟨hgoes.made result hmade, hended⟩

theorem of_failed (hretired : s.retired = true) (hmade : ∃ cause, s.made = some (.error cause)) : s.Spent ended where
  retired := hretired
  made := hmade.imp' _ fun _ hmade => ⟨hmade, fun _ hitem => by simp at hitem⟩

theorem of_ended (hretired : s.retired = true) (hmade : s.made = some (.ok item)) (hended : ended item) :
    s.Spent ended where
  retired := hretired
  made := ⟨_, hmade, fun _ hitem => Except.ok.inj hitem ▸ hended⟩

end Slot.Spent

namespace Shared

variable {ended more : ℕ → Prop} {p q : Shared} {made : Creations} {name : String} {slot : ℕ}

/-! ### New leases -/

/-- A lease is granted under a name, or none is. -/
def Grants (name : String) (p q : Shared) : Prop :=
  q.leases = p.leases ∨ ∃ slot item, q.leases = p.leases.put name ⟨slot, item, false⟩

theorem grants_settle (p : Shared) (name : String) (slot : ℕ) (result : Except ClientError ℕ) :
    Grants name p (p.settle name slot result).2 := by
  cases result with
  | ok item => exact Or.inr ⟨slot, item, rfl⟩
  | error cause => exact Or.inl ((p.without name).leases_giveUnit slot true)

theorem grants_proceed (p : Shared) (made : Creations) (name : String) (slot item : ℕ) :
    Grants name p (p.proceed made name slot item).2 := by
  simp only [proceed]
  split
  · exact Or.inl rfl
  · exact grants_settle (p.updateSlot slot _) name slot _

theorem grants_await (p : Shared) (made : Creations) (name : String) (slot : ℕ) (place : Handle) (turn : Semaphore) :
    Grants name p (p.await made name slot place turn).2 := by
  simp only [await]
  split
  · exact grants_proceed { p.updateSlot slot _ with created := p.created + 1 } made name slot _
  · exact Or.inl rfl

theorem grants_enter (p : Shared) (made : Creations) (name : String) (slot : ℕ) :
    Grants name p (p.enter made name slot).2 := by
  simp only [enter]
  split
  · exact Or.inl rfl
  split
  · exact grants_settle p name slot _
  · exact grants_await p made name slot _ _

theorem grants_borrow (p : Shared) (made : Creations) (name : String) : Grants name p (p.borrow made name).2 := by
  simp only [borrow]
  split
  · exact Or.inl rfl
  split
  · exact Or.inl rfl
  split
  · next slot q ha =>
    have hgrants := q.grants_enter made name slot
    rwa [Grants, (assign?_parts ha).2.1] at hgrants
  · exact Or.inl rfl

theorem grants_poll (p : Shared) (made : Creations) (name : String) : Grants name p (p.poll made name).2 := by
  simp only [poll]
  split
  · exact Or.inl rfl
  · exact Or.inl rfl
  · exact Or.inl rfl
  · exact p.grants_enter made name _
  · exact p.grants_proceed made name _ _
  · split
    · exact Or.inl rfl
    split
    · exact p.grants_settle name _ _
    · exact p.grants_await made name _ _ _

theorem Grants.get?_cases (h : Grants name p q) {other : String} {lease : SharedLease}
    (hget : q.leases.get? other = some lease) :
    p.leases.get? other = some lease ∨ lease.corrupted = false := by
  rcases h with hsame | ⟨slot, item, hput⟩
  · exact Or.inl (hsame ▸ hget)
  · rw [hput] at hget
    rcases Table.eq_or_of_get?_put hget with ⟨-, rfl⟩ | ⟨-, hget⟩
    · exact Or.inr rfl
    · exact Or.inl hget

/-- A lease was there before, or it is new, or it was marked corrupted. -/
theorem lease_step (p : Shared) {event : Event} {other : String} {lease : SharedLease}
    (hget : (p.step event).leases.get? other = some lease) :
    p.leases.get? other = some lease ∨ lease.corrupted = false ∨
      event = .corrupt other ∧ ∃ old, p.leases.get? other = some old ∧ lease.item = old.item := by
  cases event with
  | borrow made name => exact ((p.grants_borrow made name).get?_cases hget).imp_right Or.inl
  | poll made name => exact ((p.grants_poll made name).get?_cases hget).imp_right Or.inl
  | cancel name =>
    refine Or.inl ?_
    simp only [step, cancel] at hget
    split at hget
    · exact hget
    split at hget
    · exact hget
    · exact hget
    · rwa [leases_giveUnit] at hget
    · rwa [leases_giveUnit] at hget
    · rwa [leases_giveUnit] at hget
  | release accepts name =>
    refine Or.inl ?_
    simp only [step, release] at hget
    split at hget
    · exact hget
    · rw [leases_giveUnit] at hget
      exact Table.get?_of_get?_remove hget
  | corrupt name =>
    simp only [step, corrupt] at hget
    split at hget
    · exact Or.inl hget
    · next old hold =>
      rcases Table.eq_or_of_get?_put hget with ⟨rfl, rfl⟩ | ⟨-, hget⟩
      · exact Or.inr (Or.inr ⟨rfl, old, hold, rfl⟩)
      · exact Or.inl hget
  | dispose => exact Or.inl hget

/-! ### Retired slots -/

/-- Nothing is to be had of the slots of a pool that are retired, if it was not disposed, where some items are over. -/
structure Drained (ended : ℕ → Prop) (p : Shared) : Prop where
  /-- The item of a lease that was marked corrupted is over. -/
  corrupted : ∀ name lease, p.leases.get? name = some lease → lease.corrupted = true → ended lease.item
  /-- A slot that is retired is spent. -/
  retired : p.disposed = false → ∀ s ∈ p.slots, s.retired = true → s.Spent ended
  /-- Nobody queues when the pool was disposed. -/
  queue : p.disposed = true → p.queue = []
  /-- Of a pool that was disposed, no more slots are not spent than it wanted. -/
  kept : p.disposed = true → ∃ ids : List ℕ, ids.length ≤ p.target ∧ ∀ s ∈ p.slots, ¬ s.Spent ended → s.id ∈ ids

namespace Drained

theorem ofOptions (ended : ℕ → Prop) (kind : String) (options : SharedOptions) :
    Drained ended (.ofOptions kind options) where
  corrupted name lease hget := by simp [Shared.ofOptions] at hget
  retired _ s hs := by simp [Shared.ofOptions] at hs
  queue _ := rfl
  kept hdisposed := by simp [Shared.ofOptions] at hdisposed

theorem mono (h : Drained ended p) (hmore : ∀ item, ended item → more item) : Drained more p where
  corrupted name lease hget hcorrupted := hmore _ (h.corrupted name lease hget hcorrupted)
  retired hdisposed s hs hretired := (h.retired hdisposed s hs hretired).mono hmore
  queue := h.queue
  kept hdisposed := by
    obtain ⟨ids, hlength, hids⟩ := h.kept hdisposed
    exact ⟨ids, hlength, fun s hs hspent => hids s hs fun hbefore => hspent (hbefore.mono hmore)⟩

/-- No more slots are not spent than the pool wants. -/
theorem exists_ids (h : Drained ended p) (hb : Balanced p) :
    ∃ ids : List ℕ, ids.length ≤ p.target ∧ ∀ s ∈ p.slots, ¬ s.Spent ended → s.id ∈ ids := by
  cases hdisposed : p.disposed with
  | true => exact h.kept hdisposed
  | false =>
    refine ⟨p.live.map (·.id), Nat.le_trans (Nat.le_of_eq (List.length_map _)) hb.books.target,
      fun s hs hspent => ?_⟩
    refine List.mem_map_of_mem (List.mem_filter.mpr ⟨hs, ?_⟩)
    cases hretired : s.retired with
    | true => exact absurd (h.retired hdisposed s hs hretired) hspent
    | false => rfl

/-- Disposing the pool retires its slots, spent or not. -/
theorem dispose (h : Drained ended p) (hb : Balanced p) : Drained ended p.dispose where
  corrupted := h.corrupted
  retired hdisposed := by simp [Shared.dispose] at hdisposed
  queue _ := rfl
  kept _ := by
    obtain ⟨ids, hlength, hids⟩ := h.exists_ids hb
    refine ⟨ids, hlength, fun s hs hspent => ?_⟩
    obtain ⟨old, hold, rfl⟩ := List.mem_map.mp hs
    exact hids old (List.mem_filter.mp hold).1 fun hbefore => hspent ⟨rfl, hbefore.made⟩

/-- A slot that is retired at the end of a lease is spent, if the item of the lease is over. -/
theorem spent_of_returns (h : Drained ended p) (hb : Balanced p) {event : Event} {old s : Slot}
    (haccepts : ∀ accepts name, event = .release accepts name →
      ∀ x ∈ p.slots, ∀ item, x.made = some (.ok item) → accepts item = false → ended item)
    (hold : old ∈ p.slots) (hgoes : old.GoesOn (p.Returns event s.id) s) (hretired : s.retired = true)
    (hreturns : p.Returns event s.id) : s.Spent ended := by
  obtain ⟨accepts, name, lease, hevent, hget, hslot, hwhy⟩ := hreturns
  obtain ⟨x, hx, hmade⟩ := hb.exists_of_lease hget
  obtain ⟨hmem, hid⟩ := slot?_eq_some hx
  obtain rfl : x = old := eq_of_id_eq hb.books.ids hmem hold ((hid.trans hslot).trans hgoes.id)
  refine .of_ended hretired (hgoes.made _ hmade) ?_
  rcases hwhy with hcorrupted | hrefused
  · exact h.corrupted name lease hget hcorrupted
  · exact haccepts accepts name hevent x hmem lease.item hmade hrefused

/-- Every operation keeps this, if the item of a lease is over that is marked corrupted, or whose item is not accepted
when it ends. -/
theorem step (h : Drained ended p) (hb : Balanced p) (event : Event)
    (hcorrupt : ∀ name, event = .corrupt name → ∀ item, p.Leased name item → ended item)
    (haccepts : ∀ accepts name, event = .release accepts name →
      ∀ x ∈ p.slots, ∀ item, x.made = some (.ok item) → accepts item = false → ended item) :
    Drained ended (p.step event) := by
  by_cases hevent : event = .dispose
  · subst hevent
    exact h.dispose hb
  have halters := hb.alters_step hevent
  refine ⟨fun name lease hget hcorrupted => ?_, fun hdisposed s hs hretired => ?_, fun hdisposed => ?_,
    fun hdisposed => ?_⟩
  · rcases p.lease_step hget with hbefore | hnew | ⟨hmarks, old, hold, hitem⟩
    · exact h.corrupted name lease hbefore hcorrupted
    · rw [hcorrupted] at hnew
      simp at hnew
    · exact hcorrupt name hmarks lease.item ⟨old, hold, hitem.symm⟩
  · rcases halters.slots s hs with ⟨old, hold, hgoes⟩ | ⟨hnew, -, hreason⟩
    · rcases hgoes.retired hretired with hbefore | hfailed | hreturns
      · exact (h.retired (halters.disposed ▸ hdisposed) old hold hbefore).goesOn hgoes
      · exact .of_failed hretired hfailed
      · exact h.spent_of_returns hb haccepts hold hgoes hretired hreturns
    · rcases hreason hretired with hfailed | ⟨_, _, lease, -, hget, hslot, -⟩
      · exact .of_failed hretired hfailed
      · -- nobody has a lease of a slot that is opened only now
        obtain ⟨x, hx, -⟩ := hb.exists_of_lease hget
        obtain ⟨hmem, hid⟩ := slot?_eq_some hx
        have hlt := hb.books.ids_lt x hmem
        omega
  · exact halters.queue (halters.disposed ▸ hdisposed) (h.queue (halters.disposed ▸ hdisposed))
  · have hbefore := halters.disposed ▸ hdisposed
    obtain ⟨ids, hlength, hids⟩ := h.kept hbefore
    refine ⟨ids, ?_, fun s hs hspent => ?_⟩
    · rwa [(limits_eq_iff.mp (p.step_limits event)).1]
    · rcases halters.slots s hs with ⟨old, hold, hgoes⟩ | ⟨-, hopen, -⟩
      · exact hgoes.id ▸ hids old hold fun hspent' => hspent (hspent'.goesOn hgoes)
      · exact absurd (h.queue hbefore) (hopen hbefore)

end Drained

/-- An item has the slot with this number, or gets it. -/
def At (p : Shared) (item slot : ℕ) : Prop :=
  (∃ name, p.borrows.get? name = some (.creating slot item)) ∨ ∃ s ∈ p.slots, s.id = slot ∧ s.made = some (.ok item)

/-- A slot has one creation under way. -/
theorem Balanced.creating_inj (h : Balanced p) {item other : ℕ} {name' : String}
    (hget : p.borrows.get? name = some (.creating slot item))
    (hget' : p.borrows.get? name' = some (.creating slot other)) : item = other := by
  by_cases hname : name' = name
  · rw [hname, hget, Option.some.injEq, SharedBorrow.creating.injEq] at hget'
    exact hget'.2
  · have hhas : p.Has name slot := Or.inl ⟨_, hget, rfl⟩
    obtain ⟨s, hs, hid⟩ := List.mem_map.mp (h.books.listed slot (Or.inl hhas.unitsOn_pos))
    have hturn := h.turned.turn s hs
    rw [hid, creators_eq_without h.books.borrows hget, SharedBorrow.toNat_creates, if_pos rfl] at hturn
    have hwithout : (p.without name).borrows.get? name' = some (.creating slot other) :=
      (Table.get?_remove_of_ne _ hname).trans hget'
    have hpos : 0 < (p.without name).creators slot :=
      Table.count_pos_iff.mpr ⟨_, Table.mem_of_get? hwithout, beq_self_eq_true slot⟩
    omega

/-- A slot has one item. -/
theorem Balanced.at_inj (h : Balanced p) {item other : ℕ} (hitem : p.At item slot) (hother : p.At other slot) :
    item = other := by
  have hunmade : ∀ {name item}, p.borrows.get? name = some (.creating slot item) → ∀ {found},
      ¬ ∃ s ∈ p.slots, s.id = slot ∧ s.made = some (.ok found) := by
    rintro name item hget found ⟨s, hs, hid, hmade⟩
    rw [h.turned.made_eq_none h.books.borrows hget hs hid] at hmade
    simp at hmade
  rcases hitem with ⟨name, hget⟩ | ⟨s, hs, hid, hmade⟩
  · rcases hother with ⟨name', hget'⟩ | hmade'
    · exact h.creating_inj hget hget'
    · exact absurd hmade' (hunmade hget)
  · rcases hother with ⟨name', hget'⟩ | ⟨s', hs', hid', hmade'⟩
    · exact absurd ⟨s, hs, hid, hmade⟩ (hunmade hget')
    · obtain rfl := eq_of_id_eq h.books.ids hs hs' (hid.trans hid'.symm)
      rw [hmade, Option.some.injEq, Except.ok.injEq] at hmade'
      exact hmade'

/-- No more items are under creation, or have a slot and are not over, than the pool wants. -/
theorem Drained.length_le (h : Drained ended p) (hb : Balanced p) {items : List ℕ} (hnodup : items.Nodup)
    (hitems : ∀ item ∈ items, (∃ name slot, p.borrows.get? name = some (.creating slot item)) ∨
      ∃ s ∈ p.slots, s.made = some (.ok item) ∧ ¬ ended item) : items.length ≤ p.target := by
  obtain ⟨ids, hlength, hids⟩ := h.exists_ids hb
  -- each item has a slot that is not spent
  have hat : ∀ item ∈ items, ∃ slot ∈ ids, p.At item slot := by
    intro item hitem
    rcases hitems item hitem with ⟨name, slot, hget⟩ | ⟨s, hs, hmade, hopen⟩
    · have hhas : p.Has name slot := Or.inl ⟨_, hget, rfl⟩
      obtain ⟨s, hs, rfl⟩ := List.mem_map.mp (hb.books.listed slot (Or.inl hhas.unitsOn_pos))
      refine ⟨s.id, hids s hs fun hspent => ?_, Or.inl ⟨name, hget⟩⟩
      obtain ⟨result, hmade, -⟩ := hspent.made
      rw [hb.turned.made_eq_none hb.books.borrows hget hs rfl] at hmade
      simp at hmade
    · refine ⟨s.id, hids s hs fun hspent => ?_, Or.inr ⟨s, hs, rfl, hmade⟩⟩
      obtain ⟨result, hmade', hended⟩ := hspent.made
      rw [hmade, Option.some.injEq] at hmade'
      exact hopen (hended item hmade'.symm)
  choose! slot hslot hat using hat
  have hslots : (items.map slot).Nodup := hnodup.map_on fun item hitem other hother hsame =>
    hb.at_inj (hat item hitem) (hsame ▸ hat other hother)
  have hsubset : items.map slot ⊆ ids := fun id hid => by
    obtain ⟨item, hitem, rfl⟩ := List.mem_map.mp hid
    exact hslot item hitem
  rw [← List.length_map slot]
  exact Nat.le_trans (hslots.subperm hsubset).length_le hlength

end Shared

namespace Exclusive

variable {p : Exclusive} {k : ℕ}

/-- No more items are under creation, idle or on lease than the pool may lend. -/
theorem Balanced.length_le (h : Balanced k p .empty) {items : List ℕ} (hnodup : items.Nodup)
    (hitems : ∀ item ∈ items, (∃ name, p.borrows.get? name = some (.creating item)) ∨ item ∈ p.idle ∨
      ∃ name, p.Leased name item) : items.length ≤ k := by
  have hsubset : items ⊆ p.idle ++ (p.leases.map (·.2.item) ++ p.borrows.filterMap (·.2.item?)) := by
    intro item hitem
    rw [List.mem_append, List.mem_append]
    rcases hitems item hitem with ⟨name, hget⟩ | hidle | ⟨name, lease, hget, rfl⟩
    · exact Or.inr (Or.inr (List.mem_filterMap.mpr ⟨_, Table.mem_of_get? hget, rfl⟩))
    · exact Or.inl hidle
    · exact Or.inr (Or.inl (List.mem_map.mpr ⟨_, Table.mem_of_get? hget, rfl⟩))
  have hcreating : (p.borrows.filterMap (·.2.item?)).length = p.borrows.count (·.isCreating) := by
    rw [Table.count, List.length_filterMap_eq_countP]
    exact List.countP_congr fun entry _ => by cases entry.2 <;> simp [ExclusiveBorrow.item?]
  have hlength := (hnodup.subperm hsubset).length_le
  have hbound := h.items
  rw [List.length_append, List.length_append, List.length_map, hcreating] at hlength
  simp only [Hand.items] at hbound
  omega

end Exclusive

/-! ### Either kind -/

/-- Nothing is to be had of the retired slots of a pool, where some items are over. -/
def Drained (ended : ℕ → Prop) : Pool → Prop
  | exclusive _ => True
  | shared p => p.Drained ended

variable {ended more : ℕ → Prop} {k : ℕ} {p : Pool}

theorem Drained.mono (h : p.Drained ended) (hmore : ∀ item, ended item → more item) : p.Drained more := by
  cases p with
  | exclusive p => trivial
  | shared p => exact Shared.Drained.mono h hmore

theorem Drained.step (h : p.Drained ended) (hsound : p.Sound k) (event : Shared.Event)
    (hcorrupt : ∀ name, event = .corrupt name → ∀ item, p.Leased name item → ended item)
    (haccepts : ∀ accepts name, event = .release accepts name →
      ∀ item, p.Made item → accepts item = false → ended item) : (p.step event).Drained ended := by
  cases p with
  | exclusive p => trivial
  | shared p =>
    refine Shared.Drained.step h hsound.1 event hcorrupt fun accepts name hevent x hx item hmade => ?_
    exact haccepts accepts name hevent item (Or.inl ⟨x, hx, hmade⟩)

/-- **No more items are under creation, or made and not over, than the pool may keep**, where what it has closed is
over. -/
theorem Sound.length_le (h : p.Sound k) (hdrained : p.Drained ended) (hclosed : ∀ item ∈ p.closed, ended item)
    {items : List ℕ} (hnodup : items.Nodup)
    (hitems : ∀ item ∈ items, (∃ name, p.creating? name = some item) ∨ p.Made item ∧ ¬ ended item) :
    items.length ≤ k := by
  cases p with
  | exclusive p =>
    obtain ⟨-, -, hbalanced⟩ := h
    refine hbalanced.length_le hnodup fun item hitem => ?_
    rcases hitems item hitem with ⟨name, hcreating⟩ | ⟨hidle | hleased | hmem, hopen⟩
    · exact Or.inl ⟨name, Exclusive.creating?_eq_some_iff.mp hcreating⟩
    · exact Or.inr (Or.inl hidle)
    · exact Or.inr (Or.inr hleased)
    · exact absurd (hclosed item hmem) hopen
  | shared p =>
    obtain ⟨hbalanced, rfl⟩ := h
    refine Shared.Drained.length_le hdrained hbalanced hnodup fun item hitem => ?_
    rcases hitems item hitem with ⟨name, hcreating⟩ | ⟨⟨s, hs, hmade⟩ | hmem, hopen⟩
    · exact Or.inl ⟨name, Shared.creating?_eq_some_iff.mp hcreating⟩
    · exact Or.inr ⟨s, hs, hmade, hopen⟩
    · exact absurd (hclosed item hmem) hopen

end MemcachedClient.Pool
