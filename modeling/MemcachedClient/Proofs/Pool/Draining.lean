import MemcachedClient.Proofs.Pool.Making

/-!
# What becomes of the slots of a shared pool

A slot that is retired stays until its last unit is given back, next to the slot that takes its place. `Alters why p q`
says what becomes of the slots on the way from one state of a pool to another: a slot keeps its number and the result
of its creation, it stays retired once it is, and it is retired only if its creation failed or for the reason `why`.
Slots are opened, but not in a pool that was disposed. An item that a slot has stays with a slot, or is closed.

Of all operations, apart from disposing the pool, only the end of a lease is a reason to retire a slot, and only if the
lease was corrupted or the item is not accepted (`alters_step`).
-/

namespace MemcachedClient.Pool

/-- What may become of a slot. -/
structure Slot.GoesOn (why : Prop) (old s : Slot) : Prop where
  /-- It keeps its number. -/
  id : s.id = old.id
  /-- It keeps the result of its creation. -/
  made : ∀ result, old.made = some result → s.made = some result
  /-- It stays retired. -/
  stays : old.retired = true → s.retired = true
  /-- It is retired if it was, or if its creation failed, or for the reason `why`. -/
  retired : s.retired = true → old.retired = true ∨ (∃ cause, s.made = some (.error cause)) ∨ why

namespace Slot.GoesOn

variable {why : Prop} {a b c : Slot}

theorem refl (s : Slot) : s.GoesOn why s := ⟨rfl, fun _ h => h, fun h => h, Or.inl⟩

theorem trans (h : a.GoesOn why b) (h' : b.GoesOn why c) : a.GoesOn why c where
  id := h'.id.trans h.id
  made result hmade := h'.made result (h.made result hmade)
  stays hretired := h'.stays (h.stays hretired)
  retired hretired := by
    rcases h'.retired hretired with hmid | hreason
    · rcases h.retired hmid with hold | ⟨cause, hfailed⟩ | hwhy
      · exact Or.inl hold
      · exact Or.inr (Or.inl ⟨cause, h'.made _ hfailed⟩)
      · exact Or.inr (Or.inr hwhy)
    · exact Or.inr hreason

end Slot.GoesOn

namespace Shared

/-- What may become of the slots of a pool. -/
structure Alters (why : ℕ → Prop) (p q : Shared) : Prop where
  /-- The pool is disposed in both or in neither. -/
  disposed : q.disposed = p.disposed
  /-- Nobody joins the queue of a pool that was disposed. -/
  queue : p.disposed = true → p.queue = [] → q.queue = []
  /-- The numbers of slots that were opened are used up. -/
  nextSlot : p.nextSlot ≤ q.nextSlot
  /-- What was closed stays closed. -/
  closed : ∀ item ∈ p.closed, item ∈ q.closed
  /-- A slot was there before, or it was opened. -/
  slots : ∀ s ∈ q.slots, (∃ old ∈ p.slots, old.GoesOn (why s.id) s) ∨
    p.nextSlot ≤ s.id ∧ (p.disposed = true → p.queue ≠ []) ∧
      (s.retired = true → (∃ cause, s.made = some (.error cause)) ∨ why s.id)
  /-- The item of a slot stays with a slot, or it is closed. -/
  items : ∀ s ∈ p.slots, ∀ item, s.made = some (.ok item) →
    (∃ x ∈ q.slots, x.made = some (.ok item)) ∨ item ∈ q.closed

namespace Alters

variable {why : ℕ → Prop} {p q r : Shared} {slot : ℕ} {name : String}

theorem of_slots (hslots : q.slots = p.slots) (hnext : q.nextSlot = p.nextSlot) (hclosed : q.closed = p.closed)
    (hdisposed : q.disposed = p.disposed) (hqueue : p.disposed = true → p.queue = [] → q.queue = []) :
    Alters why p q where
  disposed := hdisposed
  queue := hqueue
  nextSlot := Nat.le_of_eq hnext.symm
  closed := by rw [hclosed]; exact fun _ h => h
  slots := by rw [hslots]; exact fun s hs => Or.inl ⟨s, hs, .refl s⟩
  items := by rw [hslots]; exact fun s hs _ hmade => Or.inl ⟨s, hs, hmade⟩

theorem refl (p : Shared) : Alters why p p := .of_slots rfl rfl rfl rfl fun _ h => h

theorem trans (h : Alters why p q) (h' : Alters why q r) : Alters why p r where
  disposed := h'.disposed.trans h.disposed
  queue hdisposed hqueue := h'.queue (h.disposed.trans hdisposed) (h.queue hdisposed hqueue)
  nextSlot := Nat.le_trans h.nextSlot h'.nextSlot
  closed item hitem := h'.closed item (h.closed item hitem)
  slots s hs := by
    rcases h'.slots s hs with ⟨mid, hmid, hgoes⟩ | ⟨hnew, hqueue, hretired⟩
    · rcases h.slots mid hmid with ⟨old, hold, hgoes'⟩ | ⟨hnew, hqueue, hretired⟩
      · rw [← hgoes.id] at hgoes'
        exact Or.inl ⟨old, hold, hgoes'.trans hgoes⟩
      · refine Or.inr ⟨hgoes.id ▸ hnew, hqueue, fun hs => ?_⟩
        rcases hgoes.retired hs with hmid | hreason
        · rcases hretired hmid with ⟨cause, hfailed⟩ | hwhy
          · exact Or.inl ⟨cause, hgoes.made _ hfailed⟩
          · exact Or.inr (hgoes.id ▸ hwhy)
        · exact hreason
    · refine Or.inr ⟨Nat.le_trans h.nextSlot hnew, fun hdisposed hnone => ?_, hretired⟩
      exact hqueue (h.disposed.trans hdisposed) (h.queue hdisposed hnone)
  items s hs item hmade := by
    rcases h.items s hs item hmade with ⟨x, hx, hmade⟩ | hclosed
    · exact h'.items x hx item hmade
    · exact Or.inr (h'.closed item hclosed)

theorem updateSlot (p : Shared) (id : ℕ) {f : Slot → Slot}
    (hf : ∀ s ∈ p.slots, s.id = id → s.GoesOn (why id) (f s)) : Alters why p (p.updateSlot id f) where
  disposed := rfl
  queue _ h := h
  nextSlot := Nat.le_refl _
  closed _ h := h
  slots s hs := by
    obtain ⟨old, hold, rfl⟩ := mem_updateSlot.mp hs
    refine Or.inl ⟨old, hold, ?_⟩
    split
    · next hid =>
      have hgoes := hf old hold hid
      rwa [hgoes.id, hid]
    · exact .refl old
  items s hs item hmade := by
    refine Or.inl ⟨_, mem_updateSlot.mpr ⟨s, hs, rfl⟩, ?_⟩
    split
    · next hid => exact (hf s hs hid).made _ hmade
    · exact hmade

/-! ### Handing units out and taking them back -/

/-- A slot that is opened is not retired. -/
theorem assign? (h : p.assign? = some (slot, q)) (hopen : p.disposed = true → p.queue ≠ []) : Alters why p q := by
  rcases assign?_cases h with ⟨best, -, -, -, -, rfl⟩ | ⟨-, -, rfl⟩
  · exact updateSlot p best.id fun s _ _ => ⟨rfl, fun _ h => h, fun h => h, Or.inl⟩
  · refine ⟨rfl, fun _ h => h, Nat.le_succ _, fun _ h => h, fun s hs => ?_, fun s hs item hmade => ?_⟩
    · rcases List.mem_append.mp hs with hs | hs
      · exact Or.inl ⟨s, hs, .refl s⟩
      · rw [List.mem_singleton.mp hs]
        exact Or.inr ⟨Nat.le_refl _, hopen, fun h => absurd h Bool.false_ne_true⟩
    · exact Or.inl ⟨s, List.mem_append_left _ hs, hmade⟩

theorem handOn (p : Shared) (slot : ℕ) : Alters why p (p.handOn slot p.queue) := by
  rcases handOn_cases p slot p.queue with ⟨passed, ticket, rest, _, hqueue, -, -, e⟩ | ⟨-, e⟩
  · rw [e]
    refine .of_slots rfl rfl rfl rfl fun _ hnone => ?_
    rw [hnone] at hqueue
    simp at hqueue
  · rw [e]
    have hempty : Alters why p { p with queue := [] } := .of_slots rfl rfl rfl rfl fun _ _ => rfl
    exact hempty.trans (updateSlot _ slot fun s _ _ => ⟨rfl, fun _ h => h, fun h => h, Or.inl⟩)

/-- A slot is retired, for the reason `why` if it was not retired before. -/
theorem retireSlot (hids : (p.slots.map (·.id)).Nodup) {s : Slot} (hs : s ∈ p.slots)
    (hwhy : s.retired = true ∨ why s.id) : Alters why p (p.retireSlot s) := by
  obtain ⟨-, -, hqueue, -, hnext, hdisposed⟩ := p.retireSlot_parts s
  refine ⟨hdisposed, fun _ h => hqueue.trans h, Nat.le_of_eq hnext.symm, ?_, fun x hx => Or.inl ?_, ?_⟩
  · intro item hitem
    rw [Shared.retireSlot, dropDrained]
    split
    · exact List.mem_append_left _ hitem
    · exact hitem
  · rcases (mem_retireSlot hs).mp hx with ⟨hx, -⟩ | ⟨rfl, -⟩
    · exact ⟨x, hx, .refl x⟩
    · exact ⟨s, hs, rfl, fun _ h => h, fun _ => rfl, fun _ => hwhy.imp_right Or.inr⟩
  · intro x hx item hmade
    by_cases hid : x.id = s.id
    · obtain rfl := eq_of_id_eq hids hx hs hid
      by_cases hlast : 1 < x.inFlight
      · exact Or.inl ⟨_, (mem_retireSlot hs).mpr (Or.inr ⟨rfl, hlast⟩), hmade⟩
      · -- the slot goes with its last unit, and its item is closed
        refine Or.inr ?_
        have hdrained : x.inFlight - 1 = 0 := by omega
        rw [Shared.retireSlot, dropDrained, if_pos (by simp [Slot.give, hdrained])]
        exact List.mem_append_right _ (Slot.mem_items.mpr hmade)
    · exact Or.inl ⟨x, (mem_retireSlot hs).mpr (Or.inl ⟨hx, hid⟩), hmade⟩

theorem giveUnit (hids : (p.slots.map (·.id)).Nodup) {retire : Bool} (hwhy : retire = true → why slot) :
    Alters why p (p.giveUnit slot retire) := by
  cases hs : p.slot? slot with
  | none =>
    rw [Shared.giveUnit, hs]
    exact refl p
  | some s =>
    obtain ⟨hmem, rfl⟩ := slot?_eq_some hs
    rw [giveUnit_eq hs]
    split
    · exact handOn p s.id
    next hretires =>
    have hretired : Alters why p (p.retireSlot s) := by
      refine retireSlot hids hmem ?_
      cases hretire : retire with
      | true => exact Or.inr (hwhy hretire)
      | false => exact Or.inl (by simpa [hretire] using hretires)
    split
    · exact hretired
    next hqueued =>
    split
    · exact hretired
    · next other q ha =>
      have hqueue : (p.retireSlot s).queue ≠ [] := by rwa [(p.retireSlot_parts s).2.2.1]
      exact hretired.trans ((Alters.assign? ha fun _ => hqueue).trans (handOn q other))

/-! ### Operations -/

/-- A borrower that sees the result of the creation retires the slot only if that failed. -/
theorem settle (hids : (p.slots.map (·.id)).Nodup) {result : Except ClientError ℕ} (hlisted : slot < p.nextSlot)
    (hmade : ∀ s ∈ p.slots, s.id = slot → s.made = some result) : Alters why p (p.settle name slot result).2 := by
  cases result with
  | ok item => exact .of_slots rfl rfl rfl rfl fun _ h => h
  | error cause =>
    have hgives : Alters (fun id => id = slot) (p.without name) ((p.without name).giveUnit slot true) :=
      giveUnit (p := p.without name) hids fun _ => rfl
    refine ⟨hgives.disposed, hgives.queue, hgives.nextSlot, hgives.closed, fun s hs => ?_, hgives.items⟩
    rcases hgives.slots s hs with ⟨old, hold, hgoes⟩ | ⟨hnew, hqueue, hretired⟩
    · refine Or.inl ⟨old, hold, hgoes.id, hgoes.made, hgoes.stays, fun hr => ?_⟩
      rcases hgoes.retired hr with hold' | hfailed | hid
      · exact Or.inl hold'
      · exact Or.inr (Or.inl hfailed)
      · exact Or.inr (Or.inl ⟨cause, hgoes.made _ (hmade old hold (hgoes.id.symm.trans hid))⟩)
    · refine Or.inr ⟨hnew, hqueue, fun hr => ?_⟩
      rcases hretired hr with hfailed | hid
      · exact Or.inl hfailed
      · have hnew : p.nextSlot ≤ s.id := hnew
        omega

/-- A borrower that goes on with the creation of the item of its slot gives the slot its result. -/
theorem proceed (hids : (p.slots.map (·.id)).Nodup) (hlisted : slot < p.nextSlot)
    (hnone : ∀ s ∈ p.slots, s.id = slot → s.made = none) (made : Creations) (item : ℕ) :
    Alters why p (p.proceed made name slot item).2 := by
  simp only [Shared.proceed]
  split
  · exact .of_slots rfl rfl rfl rfl fun _ h => h
  · next result _ =>
    have hslot : Alters why p (p.updateSlot slot fun s => { s with made := some (result.map fun () => item) }) := by
      refine updateSlot p slot fun s hs hid => ⟨rfl, fun before hmade => ?_, fun h => h, Or.inl⟩
      rw [hnone s hs hid] at hmade
      simp at hmade
    refine hslot.trans (settle ?_ hlisted fun s hs hid => ?_)
    · have hmap := map_id_updateSlot p slot
        (f := fun s => { s with made := some (result.map fun () => item) }) fun _ => rfl
      exact hmap ▸ hids
    · obtain ⟨old, -, rfl⟩ := mem_updateSlot.mp hs
      split
      · rfl
      · next hne =>
        rw [if_neg hne] at hid
        exact absurd hid hne

/-- A borrower that looks whether its turn has come creates the item if it has. -/
theorem await (hids : (p.slots.map (·.id)).Nodup) (hlisted : slot < p.nextSlot)
    (hnone : ∀ s ∈ p.slots, s.id = slot → s.made = none) (made : Creations) (place : Handle) (turn : Semaphore) :
    Alters why p (p.await made name slot place turn).2 := by
  have hturn : Alters why p (p.updateSlot slot fun s => { s with turn := (turn.poll place).2.2 }) :=
    updateSlot p slot fun s _ _ => ⟨rfl, fun _ h => h, fun h => h, Or.inl⟩
  simp only [Shared.await]
  split
  · have hstart : Alters why (p.updateSlot slot fun s => { s with turn := (turn.poll place).2.2 })
        { p.updateSlot slot fun s => { s with turn := (turn.poll place).2.2 } with created := p.created + 1 } :=
      .of_slots rfl rfl rfl rfl fun _ h => h
    refine hturn.trans (hstart.trans (proceed
      (p := { p.updateSlot slot fun s => { s with turn := (turn.poll place).2.2 } with created := p.created + 1 })
      ?_ hlisted (fun s hs hid => ?_) made _))
    · have hmap := map_id_updateSlot p slot (f := fun s => { s with turn := (turn.poll place).2.2 }) fun _ => rfl
      exact hmap ▸ hids
    · obtain ⟨old, hold, rfl⟩ := mem_updateSlot.mp hs
      split at hid
      · next e =>
        rw [if_pos e]
        exact hnone old hold e
      · next e => exact absurd hid e
  · exact hturn.trans (.of_slots rfl rfl rfl rfl fun _ h => h)

/-- A borrower that has a unit of a slot. -/
theorem enter (hids : (p.slots.map (·.id)).Nodup) (hlt : ∀ s ∈ p.slots, s.id < p.nextSlot) (made : Creations)
    (name : String) (slot : ℕ) : Alters why p (p.enter made name slot).2 := by
  simp only [Shared.enter]
  split
  · exact .refl p
  · next s hs =>
    obtain ⟨hmem, rfl⟩ := slot?_eq_some hs
    have hone : ∀ x ∈ p.slots, x.id = s.id → x = s := fun x hx e => eq_of_id_eq hids hx hmem e
    split
    · next result hmade => exact settle hids (hlt s hmem) fun x hx e => hone x hx e ▸ hmade
    · next hnone => exact await hids (hlt s hmem) (fun x hx e => hone x hx e ▸ hnone) made _ _

end Alters

variable {p : Shared}

/-- The number of a slot of which a borrower has a unit is in use. -/
theorem Accounted.lt_nextSlot {hand : Option ℕ} (h : Accounted p hand) {name : String} {borrow : SharedBorrow} {slot : ℕ}
    (hget : p.borrows.get? name = some borrow) (hslot : borrow.slot? = some slot) : slot < p.nextSlot := by
  have hhas : p.Has name slot := Or.inl ⟨borrow, hget, hslot⟩
  obtain ⟨s, hs, hid⟩ := List.mem_map.mp (h.listed slot (Or.inl hhas.unitsOn_pos))
  exact hid ▸ h.ids_lt s hs

/-- A slot whose item is under creation has none. -/
theorem Turned.made_eq_none (h : Turned p none) (hd : p.borrows.Distinct) {name : String} {slot item : ℕ}
    (hget : p.borrows.get? name = some (.creating slot item)) {s : Slot} (hs : s ∈ p.slots) (hid : s.id = slot) :
    s.made = none := by
  have hturn := h.turn s hs
  rw [creators_eq_without hd hget, SharedBorrow.toNat_creates, if_pos (congrArg some hid.symm)] at hturn
  simp only [reduceCtorEq, if_false] at hturn
  by_contra hmade
  rw [← Ne, Option.ne_none_iff_isSome] at hmade
  rw [hmade, Bool.toNat_true] at hturn
  omega

/-- Why an operation may retire a slot: it ends a lease of the slot, and the lease was corrupted or the item is not
accepted. -/
def Returns (p : Shared) (event : Event) (slot : ℕ) : Prop :=
  ∃ accepts name lease, event = .release accepts name ∧ p.leases.get? name = some lease ∧ lease.slot = slot ∧
    (lease.corrupted = true ∨ accepts lease.item = false)

/-- **What an operation does to the slots**, unless it disposes the pool: only the end of a lease is a reason to
retire a slot. -/
theorem Balanced.alters_step (h : Balanced p) {event : Event} (hevent : event ≠ .dispose) :
    Alters (p.Returns event) p (p.step event) := by
  have hids := h.books.ids
  have hlt := h.books.ids_lt
  cases event with
  | borrow made name =>
    simp only [Shared.step, Shared.borrow]
    split
    · exact .refl p
    split
    · exact .refl p
    next hopen =>
    split
    · next slot q ha =>
      have hq := h.books.assign? ha
      exact (Alters.assign? ha fun hdisposed => absurd hdisposed hopen).trans (.enter hq.ids hq.ids_lt made name slot)
    · exact .of_slots rfl rfl rfl rfl fun hdisposed => absurd hdisposed hopen
  | poll made name =>
    simp only [Shared.step, Shared.poll]
    split
    · exact .refl p
    · exact .refl p
    · exact .of_slots rfl rfl rfl rfl fun _ h => h
    · exact .enter hids hlt made name _
    · next slot item hget =>
      refine .proceed hids (h.books.lt_nextSlot hget rfl) (fun s hs hid => ?_) made item
      exact h.turned.made_eq_none h.books.borrows hget hs hid
    · next slot place hget =>
      split
      · exact .refl p
      · next s hs =>
        obtain ⟨hmem, rfl⟩ := slot?_eq_some hs
        have hone : ∀ x ∈ p.slots, x.id = s.id → x = s := fun x hx e => eq_of_id_eq hids hx hmem e
        split
        · next result hmade => exact .settle hids (hlt s hmem) fun x hx e => hone x hx e ▸ hmade
        · next hnone => exact .await hids (hlt s hmem) (fun x hx e => hone x hx e ▸ hnone) made _ _
  | cancel name =>
    have hwithout : Alters (p.Returns (.cancel name)) p (p.without name) := .of_slots rfl rfl rfl rfl fun _ h => h
    have hgone : ∀ slot (f : Slot → Slot), (∀ s, (f s).id = s.id ∧ (f s).made = s.made ∧ (f s).retired = s.retired) →
        Alters (p.Returns (.cancel name)) p (((p.without name).updateSlot slot f).giveUnit slot false) := by
      intro slot f hf
      have hslot : Alters (p.Returns (.cancel name)) (p.without name) ((p.without name).updateSlot slot f) := by
        refine .updateSlot _ slot fun s _ _ => ⟨(hf s).1, fun _ h => (hf s).2.1.trans h, ?_, ?_⟩
        · exact fun h => (hf s).2.2.trans h
        · exact fun h => Or.inl ((hf s).2.2 ▸ h)
      refine hwithout.trans (hslot.trans (.giveUnit ?_ fun h => absurd h Bool.false_ne_true))
      rw [map_id_updateSlot _ slot fun s => (hf s).1]
      exact hids
    simp only [Shared.step, Shared.cancel]
    split
    · exact .refl p
    split
    · exact hwithout
    · exact hwithout
    · exact hwithout.trans (.giveUnit (p := p.without name) hids fun h => absurd h Bool.false_ne_true)
    · exact hgone _ _ fun _ => ⟨rfl, rfl, rfl⟩
    · exact hgone _ _ fun _ => ⟨rfl, rfl, rfl⟩
  | release accepts name =>
    simp only [Shared.step, Shared.release]
    split
    · exact .refl p
    · next lease hget =>
      have hgone : Alters (p.Returns (.release accepts name)) p { p with leases := p.leases.remove name } :=
        .of_slots rfl rfl rfl rfl fun _ h => h
      refine hgone.trans (.giveUnit (p := { p with leases := p.leases.remove name }) hids fun hretire => ?_)
      refine ⟨accepts, name, lease, rfl, hget, rfl, ?_⟩
      simpa using hretire
  | corrupt name =>
    simp only [Shared.step, Shared.corrupt]
    split
    · exact .refl p
    · exact .of_slots rfl rfl rfl rfl fun _ h => h
  | dispose => exact absurd rfl hevent

end Shared

end MemcachedClient.Pool
