import MemcachedClient.Proofs.Pool.Accounting

/-!
# Slots that take no further borrower

A slot that was retired, or that has left the pool, is shut: it is never taken up again, and nobody gets
a unit of it any more. Who has a unit of a slot is known by name (`Has`); a name has it as a borrower or
with a lease. `KeepsShut p q` says that on the way from `p` to `q` no slot that was shut was opened again
and that only names that had a unit of such a slot have one still. Every way in which a pool changes the
owner of a unit keeps shut what is shut, since a unit is handed out only of a slot that takes borrowers
(`KeepsShut.giveUnit`).
-/

namespace MemcachedClient.Pool.Shared

/-- A borrower or a lease under this name has a unit of the slot. -/
def Has (p : Shared) (name : String) (slot : ℕ) : Prop :=
  (∃ borrow, p.borrows.get? name = some borrow ∧ borrow.slot? = some slot) ∨
    ∃ lease, p.leases.get? name = some lease ∧ lease.slot = slot

/-- The slot was opened, and it takes no further borrower. -/
def Shut (p : Shared) (slot : ℕ) : Prop :=
  slot < p.nextSlot ∧ ∀ s ∈ p.slots, s.id = slot → s.retired = true

/-- Slots that are shut stay so, and nobody gets a unit of them. -/
structure KeepsShut (p q : Shared) : Prop where
  /-- No slot loses its number. -/
  later : p.nextSlot ≤ q.nextSlot
  /-- A slot that was shut is shut. -/
  shut : ∀ slot, p.Shut slot → q.Shut slot
  /-- Who has a unit of a slot that was shut had one before. -/
  has : ∀ slot, p.Shut slot → ∀ name, q.Has name slot → p.Has name slot

section retirement

variable {p q r : Shared} {slot : ℕ} {name : String}

theorem has_congr (hb : q.borrows = p.borrows) (hl : q.leases = p.leases) : q.Has = p.Has := by
  funext name slot
  rw [Has, hb, hl]
  rfl

/-- Whoever has a unit of a slot counts among its units. -/
theorem Has.unitsOn_pos (h : p.Has name slot) : 0 < p.unitsOn slot := by
  rcases h with ⟨borrow, hget, hslot⟩ | ⟨lease, hget, rfl⟩
  · refine Nat.add_pos_left (Table.count_pos_iff.mpr ⟨_, Table.mem_of_get? hget, ?_⟩) _
    simp [hslot]
  · refine Nat.add_pos_right _ (Table.count_pos_iff.mpr ⟨_, Table.mem_of_get? hget, ?_⟩)
    simp

/-- Who has a unit when a borrower is gone had it before. -/
theorem Has.of_without {other : String} (h : (p.without name).Has other slot) : p.Has other slot := by
  rcases h with ⟨b, hget, hslot⟩ | hlease
  · rw [without, Table.get?_remove] at hget
    split at hget
    · simp at hget
    · exact Or.inl ⟨b, hget, hslot⟩
  · exact Or.inr hlease

theorem Has.of_removeLease {other : String}
    (h : Has { p with leases := p.leases.remove name } other slot) : p.Has other slot := by
  rcases h with hborrow | ⟨l, hget, hslot⟩
  · exact Or.inl hborrow
  · rw [Table.get?_remove] at hget
    split at hget
    · simp at hget
    · exact Or.inr ⟨l, hget, hslot⟩

theorem not_shut {s : Slot} (hs : s ∈ p.slots) (hr : s.retired = false) : ¬ p.Shut s.id := by
  rintro ⟨-, hall⟩
  rw [hall s hs rfl] at hr
  simp at hr

/-- The slot of a unit that is handed out takes borrowers. -/
theorem not_shut_of_assign? (h : p.assign? = some (slot, q)) : ¬ q.Shut slot := by
  rcases assign?_cases h with ⟨best, hmem, hr, -, rfl, rfl⟩ | ⟨-, rfl, rfl⟩
  · have htaken : best.take ∈ (p.updateSlot best.id .take).slots :=
      mem_updateSlot.mpr ⟨best, hmem, if_pos rfl⟩
    exact not_shut (s := best.take) htaken hr
  · have hopened : Slot.ofId p.nextSlot ∈ p.slots ++ [Slot.ofId p.nextSlot] :=
      List.mem_append_right _ (List.mem_singleton_self _)
    exact not_shut (p := { p with slots := _, nextSlot := _ }) hopened rfl

/-- A slot that is retired is shut. -/
theorem shut_retireSlot {s : Slot} (hs : s ∈ p.slots) (hlt : s.id < p.nextSlot) :
    (p.retireSlot s).Shut s.id := by
  refine ⟨(p.retireSlot_parts s).2.2.2.2.1 ▸ hlt, fun x hx hid => ?_⟩
  rcases (mem_retireSlot hs).mp hx with ⟨-, hne⟩ | ⟨rfl, -⟩
  · exact absurd hid hne
  · rfl

namespace KeepsShut

theorem refl (p : Shared) : KeepsShut p p := ⟨Nat.le_refl _, fun _ h => h, fun _ _ _ h => h⟩

theorem trans (h : KeepsShut p q) (h' : KeepsShut q r) : KeepsShut p r where
  later := Nat.le_trans h.later h'.later
  shut slot hs := h'.shut slot (h.shut slot hs)
  has slot hs name hr := h.has slot hs name (h'.has slot (h.shut slot hs) name hr)

/-- Slots may be changed, dropped and opened, as long as no slot that was retired takes borrowers. -/
theorem of_slots (hb : q.borrows = p.borrows) (hl : q.leases = p.leases)
    (hn : p.nextSlot ≤ q.nextSlot)
    (hs : ∀ s ∈ q.slots, p.nextSlot ≤ s.id ∨
      ∃ old ∈ p.slots, old.id = s.id ∧ (old.retired = true → s.retired = true)) :
    KeepsShut p q where
  later := hn
  shut slot h := by
    refine ⟨Nat.lt_of_lt_of_le h.1 hn, fun s hmem hid => ?_⟩
    rcases hs s hmem with hnew | ⟨old, hold, e, hr⟩
    · have := h.1
      omega
    · exact hr (h.2 old hold (e.trans hid))
  has slot _ name h := by rwa [has_congr hb hl] at h

theorem updateSlot (p : Shared) (id : ℕ) {f : Slot → Slot} (hid : ∀ s, (f s).id = s.id)
    (hr : ∀ s, (f s).retired = s.retired) : KeepsShut p (p.updateSlot id f) := by
  refine of_slots rfl rfl (Nat.le_refl _) fun s hs => Or.inr ?_
  obtain ⟨old, hold, rfl⟩ := mem_updateSlot.mp hs
  refine ⟨old, hold, ?_⟩
  split
  · exact ⟨(hid old).symm, fun h => (hr old).trans h⟩
  · exact ⟨rfl, fun h => h⟩

/-- A borrower may be put in the place of another, if it has no unit of a slot that is shut but one that
its name had before. -/
theorem put (borrow : SharedBorrow)
    (hin : ∀ slot, borrow.slot? = some slot → p.Shut slot → p.Has name slot) :
    KeepsShut p { p with borrows := p.borrows.put name borrow } where
  later := Nat.le_refl _
  shut _ h := h
  has slot hs other h := by
    rcases h with ⟨b, hget, hslot⟩ | hlease
    · rcases Table.eq_or_of_get?_put hget with ⟨rfl, rfl⟩ | ⟨-, hget⟩
      · exact hin slot hslot hs
      · exact Or.inl ⟨b, hget, hslot⟩
    · exact Or.inr hlease

theorem putLease (lease : SharedLease) (hin : p.Shut lease.slot → p.Has name lease.slot) :
    KeepsShut p { p with leases := p.leases.put name lease } where
  later := Nat.le_refl _
  shut _ h := h
  has slot hs other h := by
    rcases h with hborrow | ⟨l, hget, hslot⟩
    · exact Or.inl hborrow
    · rcases Table.eq_or_of_get?_put hget with ⟨rfl, rfl⟩ | ⟨-, hget⟩
      · exact hslot ▸ hin (hslot ▸ hs)
      · exact Or.inr ⟨l, hget, hslot⟩

theorem without (p : Shared) (name : String) : KeepsShut p (p.without name) where
  later := Nat.le_refl _
  shut _ h := h
  has _ _ _ h := h.of_without

theorem removeLease (p : Shared) (name : String) :
    KeepsShut p { p with leases := p.leases.remove name } where
  later := Nat.le_refl _
  shut _ h := h
  has _ _ _ h := h.of_removeLease

/-! ### Handing units out and taking them back -/

theorem assign? (h : p.assign? = some (slot, q)) : KeepsShut p q := by
  rcases assign?_cases h with ⟨best, -, -, -, -, rfl⟩ | ⟨-, -, rfl⟩
  · exact updateSlot p best.id (f := Slot.take) (fun _ => rfl) fun _ => rfl
  · refine of_slots rfl rfl (Nat.le_succ _) fun s hs => ?_
    rcases List.mem_append.mp hs with hs | hs
    · exact Or.inr ⟨s, hs, rfl, fun h => h⟩
    · rw [List.mem_singleton.mp hs]
      exact Or.inl (Nat.le_refl _)

/-- Only a unit of a slot that takes borrowers may be handed on. -/
theorem handOn (hopen : ¬ p.Shut slot) (queue : List ℕ) : KeepsShut p (p.handOn slot queue) := by
  rcases handOn_cases p slot queue with ⟨_, _, rest, name, -, -, -, e⟩ | ⟨-, e⟩
  · rw [e]
    have hput : KeepsShut p { p with borrows := p.borrows.put name (.assigned slot) } := by
      refine put (.assigned slot) fun other hslot hs => ?_
      rw [← Option.some.inj hslot] at hs
      exact absurd hs hopen
    exact hput.trans (of_slots rfl rfl (Nat.le_refl _) fun s hs => Or.inr ⟨s, hs, rfl, fun h => h⟩)
  · rw [e]
    have hqueue : KeepsShut p { p with queue := [] } :=
      of_slots rfl rfl (Nat.le_refl _) fun s hs => Or.inr ⟨s, hs, rfl, fun h => h⟩
    exact hqueue.trans (updateSlot _ slot (f := Slot.give) (fun _ => rfl) fun _ => rfl)

theorem retireSlot {s : Slot} (hs : s ∈ p.slots) : KeepsShut p (p.retireSlot s) := by
  obtain ⟨hb, hl, -, -, hn, -⟩ := p.retireSlot_parts s
  refine of_slots hb hl (Nat.le_of_eq hn.symm) fun x hx => Or.inr ?_
  rcases (mem_retireSlot hs).mp hx with ⟨hx, -⟩ | ⟨rfl, -⟩
  · exact ⟨x, hx, rfl, fun h => h⟩
  · exact ⟨s, hs, rfl, fun _ => rfl⟩

/-- What follows the retirement of a slot hands out units of slots that take borrowers. -/
theorem retired {s : Slot} (hs : p.slot? slot = some s) {retire : Bool}
    (hgoes : ¬ (retire = false ∧ s.retired = false)) :
    KeepsShut (p.retireSlot s) (p.giveUnit slot retire) := by
  rw [giveUnit_eq hs, if_neg hgoes]
  split
  · exact refl _
  split
  · exact refl _
  · next ha => exact (assign? ha).trans (handOn (not_shut_of_assign? ha) _)

theorem giveUnit (p : Shared) (slot : ℕ) (retire : Bool) : KeepsShut p (p.giveUnit slot retire) := by
  cases hs : p.slot? slot with
  | none =>
    rw [Shared.giveUnit, hs]
    exact refl p
  | some s =>
    obtain ⟨hmem, rfl⟩ := slot?_eq_some hs
    by_cases hstay : retire = false ∧ s.retired = false
    · rw [giveUnit_eq hs, if_pos hstay]
      exact handOn (not_shut hmem hstay.2) _
    · exact (retireSlot hmem).trans (retired hs hstay)

theorem dispose (p : Shared) : KeepsShut p p.dispose where
  later := Nat.le_refl _
  shut slot h := by
    refine ⟨h.1, fun s hs _ => ?_⟩
    obtain ⟨old, -, rfl⟩ := List.mem_map.mp hs
    rfl
  has slot _ name h := by
    rcases h with ⟨b, hget, hslot⟩ | hlease
    · rw [dispose_borrows, Table.get?_map, Option.map_eq_some_iff] at hget
      obtain ⟨old, hget, rfl⟩ := hget
      rw [SharedBorrow.slot?_turnedAway] at hslot
      exact Or.inl ⟨old, hget, hslot⟩
    · exact Or.inr hlease

end KeepsShut

/-- The slot of a unit that is given back for good is shut, and nobody gets a unit of it. -/
theorem shut_giveUnit {s : Slot} (hs : p.slot? slot = some s) (hlt : s.id < p.nextSlot) :
    (p.giveUnit slot true).Shut slot ∧ ∀ name, (p.giveUnit slot true).Has name slot → p.Has name slot := by
  obtain ⟨hmem, rfl⟩ := slot?_eq_some hs
  have hshut := shut_retireSlot hmem hlt
  have hkeeps : KeepsShut (p.retireSlot s) (p.giveUnit s.id true) := .retired hs (by simp)
  obtain ⟨hb, hl, -⟩ := p.retireSlot_parts s
  refine ⟨hkeeps.shut _ hshut, fun name h => ?_⟩
  rw [← has_congr hb hl]
  exact hkeeps.has _ hshut name h

end retirement

end MemcachedClient.Pool.Shared
