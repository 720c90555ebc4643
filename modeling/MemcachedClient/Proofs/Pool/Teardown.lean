import MemcachedClient.Proofs.Pool.Items
import MemcachedClient.Proofs.Pool.Retirement

/-!
# Closing the items of a shared pool

No operation of a shared pool puts an item at a second place, so no item is closed twice. An item is
closed only as its slot goes: by the books nobody has a unit of that slot then, and since what is shut
stays shut, nobody ever has again. A lease that is dropped and not to be used again shuts its slot at once
(`Accounted.shut_of_discards`), whoever else has a unit of it.

`Underway` is the state inside an operation, where one borrower has its unit in hand and perhaps a
creation; there is one lemma for each function that such a borrower runs through. From these every
operation is `Tidy`.
-/

namespace MemcachedClient.Pool.Shared

/-! ### Operations -/

/-- Inside an operation on `p`, the borrower `name` has a unit of a slot in hand, and runs the creation
of `item` if there is one. -/
structure Underway (p q : Shared) (name : String) (slot : ℕ) (item : Option ℕ) : Prop where
  /-- The borrower has its unit in hand. -/
  running : Running q name slot
  /-- The table of borrowers is that of the beginning. -/
  borrows : q.borrows = p.borrows
  /-- The leases are those of the beginning. -/
  leases : q.leases = p.leases
  /-- Nothing was closed. -/
  closed : q.closed = p.closed
  /-- What was shut is shut. -/
  shuts : KeepsShut p q
  /-- If the slot takes no borrowers, the borrower had its unit from the beginning. -/
  entitled : q.Shut slot → p.Has name slot
  /-- Each item is at one place at most. -/
  single : Single (q.without name) item

/-- What an operation on `p` may do: nothing that is shut is opened, an item is closed only as its slot
goes, and each item is at one place at most. -/
structure Tidy (p q : Shared) : Prop where
  /-- What was shut is shut. -/
  shuts : KeepsShut p q
  /-- Items are closed as their slots go. -/
  closes : Closes p q
  /-- Each item is at one place at most. -/
  single : Single q none

/-- What an operation answers a borrower that has a unit of `slot`: if it fails, its slot is shut, and
nobody has got a unit of it. -/
structure Concludes (p : Shared) (slot : ℕ) (result : Report × Shared) : Prop where
  /-- The operation leaves the pool tidy. -/
  tidy : Tidy p result.2
  /-- The slot of a failed creation is shut. -/
  fails : ∀ cause, result.1 = .failed cause →
    result.2.Shut slot ∧ ∀ name, result.2.Has name slot → p.Has name slot

namespace Underway

variable {p q : Shared} {name : String} {slot : ℕ} {item : Option ℕ}

theorem has (h : Underway p q name slot item) : q.Has = p.Has := has_congr h.borrows h.leases

/-- A slot may be changed, as long as its unit and its result stay. -/
theorem updateSlot (h : Underway p q name slot item) (id : ℕ) {f : Slot → Slot} (hf : Slot.Keeps f)
    {item' : Option ℕ} (hsingle : Single ((q.updateSlot id f).without name) item') :
    Underway p (q.updateSlot id f) name slot item' where
  running := h.running.updateSlot id hf
  borrows := h.borrows
  leases := h.leases
  closed := h.closed
  shuts := h.shuts.trans (.updateSlot q id hf.id hf.retired)
  entitled hs := by
    refine h.entitled ⟨hs.1, fun s hmem hid => ?_⟩
    have hall := hs.2 _ (mem_updateSlot.mpr ⟨s, hmem, rfl⟩)
    split at hall
    · rw [hf.id, hf.retired] at hall
      exact hall hid
    · exact hall hid
  single := hsingle

/-- A borrower that stays a borrower keeps its unit and its creation. -/
theorem put (h : Underway p q name slot item) {borrow : SharedBorrow}
    (hslot : borrow.slot? = some slot) (hitem : borrow.item? = item) :
    Concludes p slot (.pending, { q with borrows := q.borrows.put name borrow }) where
  tidy := by
    refine ⟨h.shuts.trans (.put borrow fun other he hs => ?_), .of_eq h.closed, fun made => ?_⟩
    · rw [hslot, Option.some.injEq] at he
      subst he
      rw [h.has]
      exact h.entitled hs
    · rw [places_put h.running.borrows, hitem]
      exact h.single made
  fails _ hreport := by simp at hreport

/-- A borrower that is answered with an item has a lease. -/
theorem lease (h : Underway p q name slot none) (made : ℕ) :
    Concludes p slot (q.settle name slot (.ok made)) where
  tidy := by
    refine ⟨?_, .of_eq h.closed, ?_⟩
    · have hlease : KeepsShut q { q with leases := q.leases.put name ⟨slot, made, false⟩ } := by
        refine .putLease _ fun hs => ?_
        rw [h.has]
        exact h.entitled hs
      exact h.shuts.trans (hlease.trans (.without _ name))
    · exact h.single.of_le (fun _ => Nat.le_refl _) (Nat.le_refl _)
  fails _ hreport := by simp [Shared.settle] at hreport

/-- A borrower that is answered with an error gives its unit back for good. -/
theorem fail (h : Underway p q name slot none) (hitems : ItemsFrom p q) (cause : ClientError) :
    Concludes p slot (q.settle name slot (.error cause)) where
  tidy := by
    have hshuts : KeepsShut q ((q.without name).giveUnit slot true) :=
      (KeepsShut.without q name).trans (.giveUnit _ slot true)
    have hcloses : Closes (q.without name) ((q.without name).giveUnit slot true) :=
      h.running.books.closes_giveUnit true
    exact ⟨h.shuts.trans hshuts, hcloses.of_itemsFrom h.closed hitems,
      h.running.books.single_giveUnit h.single true⟩
  fails _ _ := by
    obtain ⟨s, hs⟩ := h.running.books.exists_slot?
    have hlt := h.running.books.ids_lt s (slot?_eq_some hs).1
    obtain ⟨hshut, hhas⟩ := shut_giveUnit hs hlt
    refine ⟨hshut, fun other hother => ?_⟩
    rw [← h.has]
    exact Has.of_without (hhas other hother)

theorem settle (h : Underway p q name slot none) (hitems : ItemsFrom p q)
    (result : Except ClientError ℕ) : Concludes p slot (q.settle name slot result) := by
  cases result with
  | ok made => exact h.lease made
  | error cause => exact h.fail hitems cause

/-- A creation that is complete leaves its item, if it made one, with its slot. -/
theorem single_made {item : ℕ} (h : Underway p q name slot (some item))
    (result : Except ClientError ℕ) (hresult : ∀ made, result = .ok made → made = item) :
    Single ((q.updateSlot slot fun s => { s with made := some result }).without name) none := by
  intro other
  have hplaces : ((q.updateSlot slot fun s => { s with made := some result }).without name).places
      other ≤ (q.without name).places other + if result = .ok other then 1 else 0 :=
    places_made_le h.running.books.ids slot result other
  have hmade : (if result = .ok other then 1 else 0) ≤ if some item = some other then 1 else 0 := by
    split
    · next e => simp [hresult other e]
    · exact Nat.zero_le _
  have hsingle := h.single other
  simp only [reduceCtorEq, if_false, Nat.add_zero]
  exact Nat.le_trans (Nat.le_trans hplaces (Nat.add_le_add_left hmade _)) hsingle

/-- Goes on with a borrower that runs a creation. -/
theorem proceed {item : ℕ} (h : Underway p q name slot (some item)) (hitems : ItemsFrom p q)
    (made : Creations) : Concludes p slot (q.proceed made name slot item) := by
  simp only [Shared.proceed]
  split
  · exact h.put rfl rfl
  · next result _ =>
    cases result with
    | ok _ =>
      have hsingle := h.single_made (.ok item) fun made e => (Except.ok.inj e).symm
      exact (h.updateSlot slot (Slot.keeps_made _) hsingle).lease item
    | error cause =>
      have hsingle := h.single_made (.error cause) fun made e => by simp at e
      have hfrom := itemsFrom_updateSlot q slot (f := fun s => { s with made := some (.error cause) })
        (fun _ => rfl) fun _ _ hmade => by simp at hmade
      exact (h.updateSlot slot (Slot.keeps_made _) hsingle).fail (hitems.trans hfrom) cause

/-- A borrower whose turn it is starts the creation of a new item. -/
theorem start (h : Underway p q name slot none) :
    Underway p { q with created := q.created + 1 } name slot (some q.created) where
  running := h.running.created _
  borrows := h.borrows
  leases := h.leases
  closed := h.closed
  shuts := h.shuts.trans (.of_slots rfl rfl (Nat.le_refl _) fun s hs => Or.inr ⟨s, hs, rfl, fun h => h⟩)
  entitled := h.entitled
  single item := by
    have hitem := h.single item
    change (q.without name).places item + _ ≤ if item < q.created + 1 then 1 else 0
    change _ + _ ≤ if item < q.created then 1 else 0 at hitem
    simp only [reduceCtorEq, if_false, Nat.add_zero] at hitem
    simp only [Option.some.injEq]
    split at hitem <;> split <;> split <;> omega

/-- Goes on with a borrower that waits for its turn to create. -/
theorem await (h : Underway p q name slot none) (hitems : ItemsFrom p q) (made : Creations)
    (place : Handle) (turn : Semaphore) :
    Concludes p slot (q.await made name slot place turn) := by
  have hf : Slot.Keeps fun s => { s with turn := (turn.poll place).2.2 } :=
    Slot.keeps_turn fun _ => _
  have hsingle : Single ((q.updateSlot slot fun s => { s with turn := (turn.poll place).2.2 }).without
      name) none :=
    h.single.of_le (fun other => Nat.le_of_eq (places_updateSlot (q.without name) slot
      (f := fun s => { s with turn := (turn.poll place).2.2 }) (fun _ => rfl) other)) (Nat.le_refl _)
  have hturn := h.updateSlot slot hf hsingle
  have hfrom := itemsFrom_updateSlot q slot (f := fun s => { s with turn := (turn.poll place).2.2 })
    (fun _ => rfl) fun _ _ hmade => hmade
  simp only [Shared.await]
  split
  · exact hturn.start.proceed (hitems.trans hfrom) made
  · exact hturn.put rfl rfl

/-- Goes on with a borrower that has a unit of a slot. -/
theorem enter (h : Underway p q name slot none) (hitems : ItemsFrom p q) (made : Creations) :
    Concludes p slot (q.enter made name slot) := by
  obtain ⟨s, hs⟩ := h.running.books.exists_slot?
  have hs' : q.slot? slot = some s := hs
  simp only [Shared.enter, hs']
  split
  · exact h.settle hitems _
  · exact h.await hitems made _ _

end Underway

theorem Tidy.refl {p : Shared} (hs : Single p none) : Tidy p p := ⟨.refl p, .of_eq rfl, hs⟩

/-- A borrower or a lease that is gone gives its unit back. -/
theorem Tidy.giveUnit {p q : Shared} {slot : ℕ} (books : Accounted q (some slot))
    (shuts : KeepsShut p q) (closed : q.closed = p.closed) (items : ItemsFrom p q)
    (single : Single q none) (retire : Bool) : Tidy p (q.giveUnit slot retire) where
  shuts := shuts.trans (.giveUnit q slot retire)
  closes := (books.closes_giveUnit retire).of_itemsFrom closed items
  single := books.single_giveUnit single retire

namespace Accounted

variable {p q : Shared} {name : String} {slot : ℕ} (h : Accounted p none) (hs : Single p none)
include h hs

/-- A borrower that has a unit goes on. -/
theorem underway {borrow : SharedBorrow} (hget : p.borrows.get? name = some borrow)
    (hslot : borrow.slot? = some slot) : Underway p p name slot borrow.item? where
  running := .of_get? h hget hslot
  borrows := rfl
  leases := rfl
  closed := rfl
  shuts := .refl p
  entitled _ := Or.inl ⟨borrow, hget, hslot⟩
  single item := by
    have hput := places_put h.borrows name borrow item
    rw [Table.put_of_get?_eq_some hget] at hput
    rw [← hput]
    exact hs item

/-- A borrower starts with the unit that it is assigned. -/
theorem underway_new (hb : p.borrows.has name = false) (hl : p.leases.has name = false)
    (ha : p.assign? = some (slot, q)) : Underway p q name slot none := by
  obtain ⟨hborrows, hleases, -⟩ := assign?_parts ha
  refine ⟨.of_new (h.assign? ha) (hborrows ▸ hb) (hleases ▸ hl), hborrows, hleases,
    assign?_closed ha, .assign? ha, fun hshut => absurd hshut (not_shut_of_assign? ha), ?_⟩
  have hget : q.borrows.get? name = none := by
    rw [hborrows, ← Table.has_eq_false_iff]
    exact hb
  rw [without_of_get?_eq_none hget]
  exact hs.of_le (fun item => Nat.le_of_eq (places_assign? ha item))
    (Nat.le_of_eq (assign?_created ha).symm)

/-- A borrower that starts and is assigned a unit. -/
theorem concludes_borrow (made : Creations) (hb : p.borrows.has name = false)
    (hl : p.leases.has name = false) (hopen : p.disposed = false)
    (ha : p.assign? = some (slot, q)) : Concludes p slot (p.borrow made name) := by
  have hborrow : p.borrow made name = q.enter made name slot := by
    simp only [Shared.borrow, hb, hl, hopen, ha, Bool.or_self, Bool.false_eq_true, if_false]
  rw [hborrow]
  exact (h.underway_new hs hb hl ha).enter (itemsFrom_assign? ha) made

/-- A borrower that has a unit and goes on. -/
theorem concludes_poll (made : Creations) {borrow : SharedBorrow}
    (hget : p.borrows.get? name = some borrow) (hslot : borrow.slot? = some slot) :
    Concludes p slot (p.poll made name) := by
  have hrun := h.underway hs hget hslot
  have hitems := ItemsFrom.refl p
  obtain ⟨s, hfound⟩ := hrun.running.books.exists_slot?
  have hfound' : p.slot? slot = some s := hfound
  cases borrow with
  | queued ticket => simp [SharedBorrow.slot?] at hslot
  | refused => simp [SharedBorrow.slot?] at hslot
  | assigned _ =>
    obtain rfl := Option.some.inj hslot
    simp only [Shared.poll, hget]
    exact hrun.enter hitems made
  | creating _ item =>
    obtain rfl := Option.some.inj hslot
    simp only [Shared.poll, hget]
    exact hrun.proceed hitems made
  | awaiting _ place =>
    obtain rfl := Option.some.inj hslot
    simp only [Shared.poll, hget, hfound']
    split
    · exact hrun.settle hitems _
    · exact hrun.await hitems made _ _

theorem tidy_borrow (made : Creations) (name : String) : Tidy p (p.borrow made name).2 := by
  by_cases hused : p.borrows.has name || p.leases.has name
  · simp only [Shared.borrow, hused, if_true]
    exact .refl hs
  rw [Bool.or_eq_true, not_or, Bool.not_eq_true, Bool.not_eq_true] at hused
  obtain ⟨hb, hl⟩ := hused
  by_cases hopen : p.disposed = true
  · simp only [Shared.borrow, hb, hl, hopen, Bool.or_self, Bool.false_eq_true, if_false, if_true]
    exact .refl hs
  rw [Bool.not_eq_true] at hopen
  cases ha : p.assign? with
  | some pair => exact (h.concludes_borrow hs made hb hl hopen ha).tidy
  | none =>
    simp only [Shared.borrow, hb, hl, hopen, ha, Bool.or_self, Bool.false_eq_true, if_false]
    have hput : KeepsShut p { p with borrows := p.borrows.put name (.queued p.nextTicket) } :=
      .put _ fun slot hslot => by simp [SharedBorrow.slot?] at hslot
    refine ⟨hput.trans (.of_slots rfl rfl (Nat.le_refl _) fun s hs => Or.inr ⟨s, hs, rfl, fun h => h⟩),
      .of_eq rfl, fun item => ?_⟩
    have hplaces := places_put h.borrows name (.queued p.nextTicket) item
    rw [without_of_get?_eq_none (Table.has_eq_false_iff.mp hb)] at hplaces
    simp only [SharedBorrow.item?, reduceCtorEq, if_false, Nat.add_zero] at hplaces
    exact Nat.le_trans (Nat.le_of_eq (congrArg (· + 0) hplaces)) (hs item)

theorem tidy_poll (made : Creations) (name : String) : Tidy p (p.poll made name).2 := by
  cases hget : p.borrows.get? name with
  | none =>
    simp only [Shared.poll, hget]
    exact .refl hs
  | some borrow =>
    cases hslot : borrow.slot? with
    | some slot => exact (h.concludes_poll hs made hget hslot).tidy
    | none =>
      cases borrow with
      | queued ticket =>
        simp only [Shared.poll, hget]
        exact .refl hs
      | refused =>
        simp only [Shared.poll, hget]
        exact ⟨.without p name, .of_eq rfl,
          hs.of_le (places_without_le p name) (Nat.le_refl _)⟩
      | _ => simp [SharedBorrow.slot?] at hslot

theorem tidy_cancel (name : String) : Tidy p (p.cancel name).2 := by
  have hwithout : Single (p.without name) none :=
    hs.of_le (places_without_le p name) (Nat.le_refl _)
  have hgone : Tidy p (p.without name) := ⟨.without p name, .of_eq rfl, hwithout⟩
  -- the turn that a borrower leaves behind is passed on
  have hturn : ∀ slot (turn : Slot → Semaphore), Accounted (p.without name) (some slot) →
      Tidy p (((p.without name).updateSlot slot fun s => { s with turn := turn s }).giveUnit slot
        false) := by
    intro slot turn hbooks
    have hfrom := itemsFrom_updateSlot (p.without name) slot (f := fun s => { s with turn := turn s })
      (fun _ => rfl) fun _ _ hmade => hmade
    refine .giveUnit (hbooks.updateSlot slot (Slot.keeps_turn turn))
      ((KeepsShut.without p name).trans (.updateSlot _ slot (fun _ => rfl) fun _ => rfl)) rfl hfrom ?_
      false
    exact hwithout.of_le (fun item => Nat.le_of_eq (places_updateSlot (p.without name) slot
      (f := fun s => { s with turn := turn s }) (fun _ => rfl) item)) (Nat.le_refl _)
  simp only [Shared.cancel]
  split
  · exact .refl hs
  · next borrow hget =>
    have hbooks := h.without hget (Or.inl rfl)
    split
    · exact hgone
    · exact hgone
    · exact .giveUnit hbooks (.without p name) rfl (.refl p) hwithout false
    · exact hturn _ _ hbooks
    · exact hturn _ _ hbooks

theorem tidy_release (accepts : ℕ → Bool) (name : String) : Tidy p (p.release accepts name).2 := by
  simp only [Shared.release]
  split
  · exact .refl hs
  · next lease hget =>
    exact .giveUnit (h.removeLease hget) (.removeLease p name) rfl (.refl p)
      (hs.of_le (fun _ => Nat.le_refl _) (Nat.le_refl _)) _

omit h in
theorem tidy_corrupt (name : String) : Tidy p (p.corrupt name).2 := by
  simp only [Shared.corrupt]
  split
  · exact .refl hs
  · next lease hget =>
    refine ⟨.putLease _ fun _ => Or.inr ⟨lease, hget, rfl⟩, .of_eq rfl, ?_⟩
    exact hs.of_le (fun _ => Nat.le_refl _) (Nat.le_refl _)

theorem tidy_dispose : Tidy p p.dispose where
  shuts := .dispose p
  closes := by
    refine ⟨_, rfl, fun item hitem => ?_⟩
    obtain ⟨s, hdrained, hmade⟩ := List.mem_flatMap.mp hitem
    obtain ⟨hmem, hempty⟩ := List.mem_filter.mp hdrained
    refine ⟨s, hmem, Slot.mem_items.mp hmade, h.ids_lt s hmem, fun x hx e => ?_⟩
    obtain ⟨old, hold, rfl⟩ := List.mem_map.mp hx
    obtain ⟨hold, hunits⟩ := List.mem_filter.mp hold
    rw [eq_of_id_eq h.ids hold hmem e] at hunits
    simp_all
  single := by
    exact hs.of_le (fun item => Nat.le_of_eq (p.places_dispose item)) (Nat.le_refl _)

/-- Every operation leaves the pool tidy. -/
theorem tidy_step (event : Event) : Tidy p (p.step event) := by
  cases event with
  | borrow made name => exact h.tidy_borrow hs made name
  | poll made name => exact h.tidy_poll hs made name
  | cancel name => exact h.tidy_cancel hs name
  | release accepts name => exact h.tidy_release hs accepts name
  | corrupt name => exact tidy_corrupt hs name
  | dispose => exact h.tidy_dispose hs

end Accounted

/-! ### Runs -/

theorem single_ofOptions (kind : String) (options : SharedOptions) :
    Single (.ofOptions kind options) none := by
  intro item
  simp [places, Shared.ofOptions, Table.count]

/-- Each item is at one place at most after every run. -/
theorem Single.run (kind : String) (options : SharedOptions) (events : List Event) :
    Single ((Shared.ofOptions kind options).run events) none := by
  refine (run_induction (P := fun p => Accounted p none ∧ Single p none)
    ⟨.ofOptions kind options, single_ofOptions kind options⟩ ?_ events).2
  rintro p event ⟨h, hs⟩
  exact ⟨h.step event, (h.tidy_step hs event).single⟩

/-- What is shut stays shut along every run. -/
theorem Accounted.keepsShut_run {p : Shared} (h : Accounted p none) (hs : Single p none)
    (events : List Event) : KeepsShut p (p.run events) := by
  induction events generalizing p with
  | nil => exact .refl p
  | cons event events ih =>
    have htidy := h.tidy_step hs event
    exact htidy.shuts.trans (ih (h.step event) htidy.single)

/-- An operation drops a lease of a slot that is not to be used again. -/
inductive Discards (p : Shared) : Event → ℕ → Prop where
  /-- The lease was marked corrupted, or its item is not accepted for further use. -/
  | released {accepts : ℕ → Bool} {name : String} {lease : SharedLease}
    (gets : p.leases.get? name = some lease)
    (unfit : lease.corrupted = true ∨ accepts lease.item = false) :
    Discards p (.release accepts name) lease.slot
  /-- A borrower that goes on is answered with the failed creation of its slot. -/
  | failed {made : Creations} {name : String} {borrow : SharedBorrow} {slot : ℕ} {cause : ClientError}
    (gets : p.borrows.get? name = some borrow) (unit : borrow.slot? = some slot)
    (report : (p.poll made name).1 = .failed cause) : Discards p (.poll made name) slot
  /-- A borrower that starts is answered with the failed creation of the slot that it is assigned. -/
  | failedAtOnce {made : Creations} {name : String} {slot : ℕ} {q : Shared} {cause : ClientError}
    (assigned : p.assign? = some (slot, q))
    (report : (p.borrow made name).1 = .failed (.poolCreation p.kind cause)) :
    Discards p (.borrow made name) slot

/-- A slot of which a lease is dropped that is not to be used again is shut, and nobody gets a unit of
it. -/
theorem Accounted.shut_of_discards {p : Shared} (h : Accounted p none) (hs : Single p none)
    {event : Event} {slot : ℕ} (hd : p.Discards event slot) :
    (p.step event).Shut slot ∧ ∀ name, (p.step event).Has name slot → p.Has name slot := by
  cases hd with
  | @released accepts name lease gets unfit =>
    have hretire : (lease.corrupted || !accepts lease.item) = true := by
      rcases unfit with e | e <;> simp [e]
    have hbooks := h.removeLease gets
    obtain ⟨s, hslot⟩ := hbooks.exists_slot?
    have hlt := hbooks.ids_lt s (slot?_eq_some hslot).1
    obtain ⟨hshut, hhas⟩ := shut_giveUnit hslot hlt
    simp only [Shared.step, Shared.release, gets, hretire]
    exact ⟨hshut, fun other hother => (hhas other hother).of_removeLease⟩
  | failed gets unit report => exact (h.concludes_poll hs _ gets unit).fails _ report
  | @failedAtOnce made name slot q cause assigned report =>
    by_cases hused : p.borrows.has name || p.leases.has name
    · simp [Shared.borrow, hused] at report
    by_cases hopen : p.disposed = true
    · simp [Shared.borrow, hused, hopen] at report
    rw [Bool.or_eq_true, not_or, Bool.not_eq_true, Bool.not_eq_true] at hused
    rw [Bool.not_eq_true] at hopen
    exact (h.concludes_borrow hs made hused.1 hused.2 hopen assigned).fails _ report

/-- **Safe teardown.** Items are closed one after another and none of them twice. An item that an
operation closes was with a slot, and from then on nobody has a unit of that slot, neither a lease nor a
borrower. An operation that drops a lease that is not to be used again hands out no unit of its slot, and
neither does any later operation. -/
theorem torn_down_safely (kind : String) (options : SharedOptions) (events : List Event)
    (event : Event) :
    let p := (Shared.ofOptions kind options).run events
    let q := p.step event
    (p.closed <+: q.closed ∧ q.closed.Nodup) ∧
      (∀ item ∈ q.closed, item ∉ p.closed → ∃ s ∈ p.slots, s.made = some (.ok item) ∧
        ∀ more name, ¬ (q.run more).Has name s.id) ∧
      ∀ slot, p.Discards event slot →
        (∀ name, q.Has name slot → p.Has name slot) ∧
        ∀ more next name, ((q.run more).step next).Has name slot → (q.run more).Has name slot := by
  intro p q
  have h : Accounted p none := .run kind options events
  have hs : Single p none := .run kind options events
  have htidy : Tidy p q := h.tidy_step hs event
  have hq : Accounted q none := h.step event
  obtain ⟨items, hclosed, hitems⟩ := htidy.closes
  refine ⟨⟨hclosed ▸ List.prefix_append _ _, ?_⟩, ?_, ?_⟩
  · rw [List.nodup_iff_count_le_one]
    intro item
    have hitem : q.places item + 0 ≤ _ := htidy.single item
    have hone : (if item < q.created then 1 else 0) ≤ 1 := by split <;> omega
    rw [places] at hitem
    omega
  · intro item hmem hnew
    rw [hclosed, List.mem_append] at hmem
    obtain ⟨s, hslot, hmade, hlt, hgone⟩ := hitems item (hmem.resolve_left hnew)
    refine ⟨s, hslot, hmade, fun more name hhas => ?_⟩
    have hshut : q.Shut s.id := ⟨hlt, fun x hx hid => absurd hid (hgone x hx)⟩
    have hnow := (hq.keepsShut_run htidy.single more).has s.id hshut name hhas
    obtain ⟨x, hx, hid⟩ := List.mem_map.mp (hq.listed s.id (Or.inl hnow.unitsOn_pos))
    exact hgone x hx hid
  · intro slot hd
    obtain ⟨hshut, hhas⟩ := h.shut_of_discards hs hd
    refine ⟨hhas, fun more next name hnext => ?_⟩
    have hrun : q.run more = (Shared.ofOptions kind options).run (events ++ [event] ++ more) := by
      rw [run_append, run_concat]
    have hmore : Accounted (q.run more) none := hrun ▸ .run kind options _
    have hsingle : Single (q.run more) none := hrun ▸ .run kind options _
    have hkept := (hq.keepsShut_run htidy.single more).shut slot hshut
    exact (hmore.tidy_step hsingle next).shuts.has slot hkept name hnext

/-- Two leases share a slot. The first is dropped corrupted and the item stays; it is closed with the
second. -/
example :
    let made : Creations := fun _ => some (.ok ())
    let events : List Event := [.borrow made "a", .borrow made "b", .corrupt "a",
      .release (fun _ => true) "a"]
    ((Shared.ofOptions "item" ⟨1, 2⟩).run events).closed = [] ∧
      ((Shared.ofOptions "item" ⟨1, 2⟩).run (events ++ [.release (fun _ => true) "b"])).closed =
        [0] := by
  decide

end MemcachedClient.Pool.Shared
