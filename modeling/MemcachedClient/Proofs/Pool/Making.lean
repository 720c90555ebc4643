import MemcachedClient.Proofs.Pool.Teardown
import MemcachedClient.Proofs.Pool.Turns

/-!
# What an operation of a shared pool makes

An item comes to a slot only when its creation has ended well: `Carries` says that on the way from one state
of a pool to another every item that a slot has was with that slot before, or its creation made it; that every
creation that is under way was so before, or is of an item that comes now and has no result yet; and that only
the lease of one name was changed. Each operation carries the items in this sense, and starts one creation at
most (`step_created`). Who is told that it has a lease has it (`leased_borrow`, `leased_poll`).

`Balanced` gathers what holds of a pool after every run.
-/

namespace MemcachedClient.Pool.Shared

/-- On the way from `p` to `q` the slots kept their items or got one that comes, only creations of items that
come and have no result were started, and only the lease of `name` was changed. -/
structure Carries (made : Creations) (comes : ℕ → Prop) (name : String) (p q : Shared) : Prop where
  /-- An item that a slot has was there before, or its creation has ended well. -/
  items : ∀ s ∈ q.slots, ∀ item, s.made = some (.ok item) →
    (∃ old ∈ p.slots, old.id = s.id ∧ old.made = some (.ok item)) ∨ made item = some (.ok ()) ∧ comes item
  /-- A creation that is under way was so before, or has no result yet. -/
  creating : ∀ other slot item, q.borrows.get? other = some (.creating slot item) →
    p.borrows.get? other = some (.creating slot item) ∨ made item = none ∧ comes item
  /-- The other leases are those of before. -/
  leases : ∀ other, other ≠ name → q.leases.get? other = p.leases.get? other

namespace Carries

variable {made : Creations} {comes : ℕ → Prop} {name : String} {p q r : Shared} {slot : ℕ}

theorem refl (p : Shared) : Carries made comes name p p :=
  ⟨fun s hs _ hmade => Or.inl ⟨s, hs, rfl, hmade⟩, fun _ _ _ hget => Or.inl hget, fun _ _ => rfl⟩

theorem trans (h : Carries made comes name p q) (h' : Carries made comes name q r) :
    Carries made comes name p r where
  items s hs item hmade := by
    rcases h'.items s hs item hmade with ⟨mid, hmid, e, hmade⟩ | hcomes
    · rcases h.items mid hmid item hmade with ⟨old, hold, e', hmade⟩ | hcomes
      · exact Or.inl ⟨old, hold, e'.trans e, hmade⟩
      · exact Or.inr hcomes
    · exact Or.inr hcomes
  creating other slot item hget := by
    rcases h'.creating other slot item hget with hget | hcomes
    · exact h.creating other slot item hget
    · exact Or.inr hcomes
  leases other hne := (h'.leases other hne).trans (h.leases other hne)

/-- What leaves the borrowers and the leases alone and brings no item. -/
theorem of_itemsFrom (hitems : ItemsFrom p q) (hb : q.borrows = p.borrows) (hl : q.leases = p.leases) :
    Carries made comes name p q where
  items s hs item hmade := Or.inl (hitems s hs item hmade)
  creating _ _ _ hget := Or.inl (hb ▸ hget)
  leases other _ := by rw [hl]

/-- A borrower may be put that creates nothing, or an item that comes and has no result yet. -/
theorem put (other : String) {borrow : SharedBorrow}
    (hcreates : ∀ item, borrow.item? = some item → made item = none ∧ comes item) :
    Carries made comes name p { p with borrows := p.borrows.put other borrow } where
  items s hs _ hmade := Or.inl ⟨s, hs, rfl, hmade⟩
  creating _ slot item hget := by
    rcases Table.eq_or_of_get?_put hget with ⟨-, rfl⟩ | ⟨-, hget⟩
    · exact Or.inr (hcreates item rfl)
    · exact Or.inl hget
  leases _ _ := rfl

theorem without (p : Shared) (other : String) : Carries made comes name p (p.without other) where
  items s hs _ hmade := Or.inl ⟨s, hs, rfl, hmade⟩
  creating _ slot item hget := by
    rw [Shared.without, Table.get?_remove] at hget
    split at hget
    · simp at hget
    · exact Or.inl hget
  leases _ _ := rfl

/-- The lease of the name may be changed. -/
theorem putLease (p : Shared) (lease : SharedLease) :
    Carries made comes name p { p with leases := p.leases.put name lease } where
  items s hs _ hmade := Or.inl ⟨s, hs, rfl, hmade⟩
  creating _ _ _ hget := Or.inl hget
  leases _ hne := Table.get?_put_of_ne _ _ hne

theorem removeLease (p : Shared) : Carries made comes name p { p with leases := p.leases.remove name } where
  items s hs _ hmade := Or.inl ⟨s, hs, rfl, hmade⟩
  creating _ _ _ hget := Or.inl hget
  leases other hne := by rw [Table.get?_remove, if_neg hne]

/-! ### Handing units out and taking them back -/

theorem assign? (h : p.assign? = some (slot, q)) : Carries made comes name p q := by
  obtain ⟨hb, hl, -⟩ := assign?_parts h
  exact of_itemsFrom (itemsFrom_assign? h) hb hl

theorem handOn (p : Shared) (slot : ℕ) (queue : List ℕ) :
    Carries made comes name p (p.handOn slot queue) := by
  rcases handOn_cases p slot queue with ⟨_, _, rest, other, -, -, -, e⟩ | ⟨-, e⟩
  · rw [e]
    exact Carries.trans (put (p := p) other fun item hitem => by simp [SharedBorrow.item?] at hitem)
      (of_itemsFrom (.refl _) rfl rfl)
  · rw [e]
    exact of_itemsFrom (itemsFrom_updateSlot { p with queue := [] } slot (f := Slot.give) (fun _ => rfl)
      fun _ _ hmade => hmade) rfl rfl

theorem retireSlot {s : Slot} (hs : s ∈ p.slots) : Carries made comes name p (p.retireSlot s) := by
  obtain ⟨hb, hl, -⟩ := p.retireSlot_parts s
  refine of_itemsFrom (fun x hx item hmade => ?_) hb hl
  rcases (mem_retireSlot hs).mp hx with ⟨hx, -⟩ | ⟨rfl, -⟩
  · exact ⟨x, hx, rfl, hmade⟩
  · exact ⟨s, hs, rfl, hmade⟩

theorem giveUnit (p : Shared) (slot : ℕ) (retire : Bool) :
    Carries made comes name p (p.giveUnit slot retire) := by
  cases hs : p.slot? slot with
  | none =>
    rw [Shared.giveUnit, hs]
    exact refl p
  | some s =>
    have hretired : Carries made comes name p (p.retireSlot s) := retireSlot (slot?_eq_some hs).1
    rw [giveUnit_eq hs]
    split
    · exact handOn p slot p.queue
    split
    · exact hretired
    split
    · exact hretired
    · next ha => exact hretired.trans ((assign? ha).trans (handOn _ _ _))

/-! ### Operations -/

theorem settle (p : Shared) (slot : ℕ) (result : Except ClientError ℕ) :
    Carries made comes name p (p.settle name slot result).2 := by
  cases result with
  | ok item => exact (putLease p ⟨slot, item, false⟩).trans (without _ name)
  | error cause => exact (without p name).trans (giveUnit _ slot true)

theorem proceed (p : Shared) (slot : ℕ) {item : ℕ} (hcomes : comes item) :
    Carries made comes name p (p.proceed made name slot item).2 := by
  simp only [Shared.proceed]
  split
  · next hnone =>
    refine put name fun other hother => ?_
    rw [← Option.some.inj hother]
    exact ⟨hnone, hcomes⟩
  · next result hresult =>
    have hslot : Carries made comes name p
        (p.updateSlot slot fun s => { s with made := some (result.map fun () => item) }) := by
      refine ⟨fun s hs made' hmade => ?_, fun _ _ _ hget => Or.inl hget, fun _ _ => rfl⟩
      obtain ⟨old, hold, rfl⟩ := mem_updateSlot.mp hs
      split at hmade
      · cases result with
        | ok _ =>
          obtain rfl : item = made' := Except.ok.inj (Option.some.inj hmade)
          exact Or.inr ⟨hresult, hcomes⟩
        | error cause => simp [Except.map] at hmade
      · next hne => exact Or.inl ⟨old, hold, by rw [if_neg hne], hmade⟩
    exact hslot.trans (settle _ slot _)

theorem await (p : Shared) (slot : ℕ) (place : Handle) (turn : Semaphore) (hcomes : comes p.created) :
    Carries made comes name p (p.await made name slot place turn).2 := by
  have hturn : Carries made comes name p
      (p.updateSlot slot fun s => { s with turn := (turn.poll place).2.2 }) :=
    of_itemsFrom (itemsFrom_updateSlot p slot (f := fun s => { s with turn := (turn.poll place).2.2 })
      (fun _ => rfl) fun _ _ hmade => hmade) rfl rfl
  simp only [Shared.await]
  split
  · have hstart : Carries made comes name
        (p.updateSlot slot fun s => { s with turn := (turn.poll place).2.2 })
        { p.updateSlot slot fun s => { s with turn := (turn.poll place).2.2 } with
          created := p.created + 1 } := of_itemsFrom (.refl _) rfl rfl
    exact hturn.trans (hstart.trans (proceed _ slot hcomes))
  · exact hturn.trans (put name fun item hitem => by simp [SharedBorrow.item?] at hitem)

theorem enter (p : Shared) (slot : ℕ) (hcomes : comes p.created) :
    Carries made comes name p (p.enter made name slot).2 := by
  simp only [Shared.enter]
  split
  · exact refl p
  split
  · exact settle p slot _
  · exact await p slot _ _ hcomes

end Carries

variable {p q : Shared} {made : Creations} {name : String} {slot : ℕ}

/-- The items that may come when this name borrows: the one that it creates, or the next one. -/
def Comes (p : Shared) (name : String) (item : ℕ) : Prop :=
  item = p.created ∨ ∃ slot, p.borrows.get? name = some (.creating slot item)

theorem carries_borrow (p : Shared) (made : Creations) (name : String) :
    Carries made (p.Comes name) name p (p.borrow made name).2 := by
  simp only [Shared.borrow]
  split
  · exact .refl p
  split
  · exact .refl p
  split
  · next slot q ha =>
    exact (Carries.assign? ha).trans (.enter q slot (Or.inl (assign?_created ha)))
  · exact Carries.trans (.put name fun item hitem => by simp [SharedBorrow.item?] at hitem)
      (.of_itemsFrom (.refl _) rfl rfl)

theorem carries_poll (p : Shared) (made : Creations) (name : String) :
    Carries made (p.Comes name) name p (p.poll made name).2 := by
  simp only [Shared.poll]
  split
  · exact .refl p
  · exact .refl p
  · exact .without p name
  · next slot _ => exact .enter p slot (Or.inl rfl)
  · next slot item hget => exact .proceed p slot (Or.inr ⟨slot, hget⟩)
  · next slot place _ =>
    split
    · exact .refl p
    split
    · exact .settle p slot _
    · exact .await p slot place _ (Or.inl rfl)

theorem carries_cancel (p : Shared) (comes : ℕ → Prop) (name : String) :
    Carries made comes name p (p.cancel name).2 := by
  have hgone : ∀ slot (f : Slot → Slot), (∀ s, (f s).id = s.id ∧ (f s).made = s.made) →
      Carries made comes name p (((p.without name).updateSlot slot f).giveUnit slot false) := by
    intro slot f hf
    have hslot : Carries made comes name (p.without name) ((p.without name).updateSlot slot f) :=
      .of_itemsFrom (itemsFrom_updateSlot _ slot (fun s => (hf s).1)
        fun s _ hmade => (hf s).2 ▸ hmade) rfl rfl
    exact (Carries.without p name).trans (hslot.trans (.giveUnit _ slot false))
  simp only [Shared.cancel]
  split
  · exact .refl p
  split
  · exact .without p name
  · exact .without p name
  · exact (Carries.without p name).trans (.giveUnit _ _ false)
  · exact hgone _ _ fun _ => ⟨rfl, rfl⟩
  · exact hgone _ _ fun _ => ⟨rfl, rfl⟩

theorem carries_release (p : Shared) (comes : ℕ → Prop) (accepts : ℕ → Bool) (name : String) :
    Carries made comes name p (p.release accepts name).2 := by
  simp only [Shared.release]
  split
  · exact .refl p
  · exact (Carries.removeLease p).trans (.giveUnit _ _ _)

theorem carries_corrupt (p : Shared) (comes : ℕ → Prop) (name : String) :
    Carries made comes name p (p.corrupt name).2 := by
  simp only [Shared.corrupt]
  split
  · exact .refl p
  · exact .putLease p _

theorem carries_dispose (p : Shared) (comes : ℕ → Prop) (name : String) :
    Carries made comes name p p.dispose where
  items s hs item hmade := by
    obtain ⟨old, hold, rfl⟩ := List.mem_map.mp hs
    exact Or.inl ⟨old, (List.mem_filter.mp hold).1, rfl, hmade⟩
  creating other slot item hget := by
    rw [dispose_borrows, Table.get?_map, Option.map_eq_some_iff] at hget
    obtain ⟨borrow, hget, e⟩ := hget
    cases borrow with
    | creating slot' item' =>
      rw [← e]
      exact Or.inl hget
    | _ => simp [SharedBorrow.turnedAway] at e
  leases _ _ := rfl

/-! ### The number of creations -/

@[simp] theorem giveUnit_created (p : Shared) (slot : ℕ) (retire : Bool) :
    (p.giveUnit slot retire).created = p.created := by
  cases hs : p.slot? slot with
  | none => rw [giveUnit, hs]
  | some s =>
    rw [giveUnit_eq hs]
    split
    · exact p.handOn_created slot p.queue
    split
    · exact p.retireSlot_created s
    split
    · exact p.retireSlot_created s
    · next ha => rw [handOn_created, assign?_created ha, retireSlot_created]

@[simp] theorem settle_created (p : Shared) (name : String) (slot : ℕ) (result : Except ClientError ℕ) :
    (p.settle name slot result).2.created = p.created := by
  cases result with
  | ok item => rfl
  | error cause => exact giveUnit_created _ slot true

@[simp] theorem proceed_created (p : Shared) (made : Creations) (name : String) (slot item : ℕ) :
    (p.proceed made name slot item).2.created = p.created := by
  simp only [proceed]
  split
  · rfl
  · exact settle_created _ name slot _

theorem await_created (p : Shared) (made : Creations) (name : String) (slot : ℕ) (place : Handle)
    (turn : Semaphore) : (p.await made name slot place turn).2.created = p.created ∨
      (p.await made name slot place turn).2.created = p.created + 1 := by
  simp only [await]
  split
  · exact Or.inr (proceed_created _ made name slot _)
  · exact Or.inl rfl

theorem enter_created (p : Shared) (made : Creations) (name : String) (slot : ℕ) :
    (p.enter made name slot).2.created = p.created ∨
      (p.enter made name slot).2.created = p.created + 1 := by
  simp only [enter]
  split
  · exact Or.inl rfl
  split
  · exact Or.inl (p.settle_created name slot _)
  · exact p.await_created made name slot _ _

/-- An operation starts one creation at most. -/
theorem step_created (p : Shared) (event : Event) :
    (p.step event).created = p.created ∨ (p.step event).created = p.created + 1 := by
  cases event with
  | borrow made name =>
    simp only [step, borrow]
    split
    · exact Or.inl rfl
    split
    · exact Or.inl rfl
    split
    · next slot q ha =>
      rw [← assign?_created ha]
      exact q.enter_created made name slot
    · exact Or.inl rfl
  | poll made name =>
    simp only [step, poll]
    split
    · exact Or.inl rfl
    · exact Or.inl rfl
    · exact Or.inl rfl
    · next slot _ => exact p.enter_created made name slot
    · next slot item _ => exact Or.inl (p.proceed_created made name slot item)
    · split
      · exact Or.inl rfl
      split
      · exact Or.inl (p.settle_created name _ _)
      · exact p.await_created made name _ _ _
  | cancel name =>
    refine Or.inl ?_
    simp only [step, cancel]
    split
    · rfl
    split
    · rfl
    · rfl
    · exact giveUnit_created _ _ false
    · exact giveUnit_created _ _ false
    · exact giveUnit_created _ _ false
  | release accepts name =>
    refine Or.inl ?_
    simp only [step, release]
    split
    · rfl
    · exact giveUnit_created _ _ _
  | corrupt name =>
    refine Or.inl ?_
    simp only [step, corrupt]
    split <;> rfl
  | dispose => exact Or.inl rfl

/-! ### Who has a lease -/

section leased

variable {item : ℕ}

theorem leased_settle {result : Except ClientError ℕ} (h : (p.settle name slot result).1 = .leased item) :
    (p.settle name slot result).2.leases.get? name = some ⟨slot, item, false⟩ := by
  cases result with
  | ok made =>
    obtain rfl : made = item := Report.leased.inj h
    exact Table.get?_put_self _ _ _
  | error cause => simp [settle] at h

theorem leased_proceed {created : ℕ} (h : (p.proceed made name slot created).1 = .leased item) :
    (p.proceed made name slot created).2.leases.get? name = some ⟨slot, item, false⟩ := by
  simp only [proceed] at h ⊢
  split
  · next hnone =>
    rw [hnone] at h
    simp at h
  · next result hresult =>
    rw [hresult] at h
    exact leased_settle h

theorem leased_await {place : Handle} {turn : Semaphore}
    (h : (p.await made name slot place turn).1 = .leased item) :
    (p.await made name slot place turn).2.leases.get? name = some ⟨slot, item, false⟩ := by
  simp only [await] at h ⊢
  split
  · next htaken =>
    rw [if_pos htaken] at h
    exact leased_proceed h
  · next hwaits =>
    rw [if_neg hwaits] at h
    simp at h

theorem leased_enter (h : (p.enter made name slot).1 = .leased item) :
    (p.enter made name slot).2.leases.get? name = some ⟨slot, item, false⟩ := by
  simp only [enter] at h ⊢
  cases hs : p.slot? slot with
  | none =>
    rw [hs] at h
    simp at h
  | some s =>
    rw [hs] at h
    dsimp only at h ⊢
    cases hmade : s.made with
    | some result =>
      rw [hmade] at h
      exact leased_settle h
    | none =>
      rw [hmade] at h
      exact leased_await h

/-- Who starts a borrower and is told that it has a lease has one. -/
theorem leased_borrow (h : (p.borrow made name).1 = .leased item) :
    ∃ slot, (p.borrow made name).2.leases.get? name = some ⟨slot, item, false⟩ := by
  simp only [borrow] at h ⊢
  split at h
  · simp at h
  next hfree =>
  rw [if_neg hfree]
  split at h
  · simp at h
  next hopen =>
  rw [if_neg hopen]
  cases ha : p.assign? with
  | none =>
    rw [ha] at h
    simp at h
  | some pair =>
    rw [ha] at h
    exact ⟨_, leased_enter h⟩

/-- Who goes on with a borrower and is told that it has a lease has one. -/
theorem leased_poll (h : (p.poll made name).1 = .leased item) :
    ∃ slot, (p.poll made name).2.leases.get? name = some ⟨slot, item, false⟩ := by
  simp only [poll] at h ⊢
  cases hget : p.borrows.get? name with
  | none =>
    rw [hget] at h
    simp at h
  | some borrow =>
    rw [hget] at h
    cases borrow with
    | queued ticket => simp at h
    | refused => simp at h
    | assigned slot => exact ⟨slot, leased_enter h⟩
    | creating slot created => exact ⟨slot, leased_proceed h⟩
    | awaiting slot place =>
      dsimp only at h ⊢
      cases hs : p.slot? slot with
      | none =>
        rw [hs] at h
        simp at h
      | some s =>
        rw [hs] at h
        dsimp only at h ⊢
        cases hmade : s.made with
        | some result =>
          rw [hmade] at h
          exact ⟨slot, leased_settle h⟩
        | none =>
          rw [hmade] at h
          exact ⟨slot, leased_await h⟩

end leased

/-! ### Where an item is -/

/-- There is a lease of an item under a name. -/
def Leased (p : Shared) (name : String) (item : ℕ) : Prop :=
  ∃ lease, p.leases.get? name = some lease ∧ lease.item = item

/-- The books of a pool balance, each item is at one place at most, and the turns to create are in order. -/
structure Balanced (p : Shared) : Prop where
  /-- The units are accounted for. -/
  books : Accounted p none
  /-- Each item is at one place at most. -/
  single : Single p none
  /-- The turns are in order. -/
  turned : Turned p none

namespace Balanced

variable {s s' : Slot} {item : ℕ}

theorem ofOptions (kind : String) (options : SharedOptions) : Balanced (Shared.ofOptions kind options) :=
  ⟨.ofOptions kind options, single_ofOptions kind options, .ofOptions kind options⟩

theorem step (h : Balanced p) (event : Event) : Balanced (p.step event) :=
  ⟨h.books.step event, (h.books.tidy_step h.single event).single, h.turned.step h.books event⟩

/-- An item that a slot has was started, and it is neither closed nor under creation. -/
theorem of_made (h : Balanced p) (hs : s ∈ p.slots) (hmade : s.made = some (.ok item)) :
    item < p.created ∧ item ∉ p.closed ∧
      ∀ name slot, p.borrows.get? name ≠ some (.creating slot item) := by
  have hone := h.single item
  have hslot : 0 < p.slots.countP (fun s => item ∈ s.items) :=
    List.countP_pos_iff.mpr ⟨s, hs, decide_eq_true (Slot.mem_items.mpr hmade)⟩
  simp only [places, reduceCtorEq, if_false, Nat.add_zero] at hone
  refine ⟨?_, fun hclosed => ?_, fun name slot hget => ?_⟩
  · by_contra hlt
    rw [if_neg hlt] at hone
    omega
  · have := List.count_pos_iff.mpr hclosed
    split at hone <;> omega
  · have : 0 < p.borrows.count fun borrow => borrow.item? == some item :=
      Table.count_pos_iff.mpr ⟨_, Table.mem_of_get? hget, beq_self_eq_true _⟩
    split at hone <;> omega

/-- An item that is under creation was started, and it is not closed. -/
theorem of_creating (h : Balanced p) (hget : p.borrows.get? name = some (.creating slot item)) :
    item < p.created ∧ item ∉ p.closed := by
  have hone := h.single item
  have hcreating : 0 < p.borrows.count fun borrow => borrow.item? == some item :=
    Table.count_pos_iff.mpr ⟨_, Table.mem_of_get? hget, beq_self_eq_true _⟩
  simp only [places, reduceCtorEq, if_false, Nat.add_zero] at hone
  refine ⟨?_, fun hclosed => ?_⟩
  · by_contra hlt
    rw [if_neg hlt] at hone
    omega
  · have := List.count_pos_iff.mpr hclosed
    split at hone <;> omega

/-- No two slots have the same item. -/
theorem id_eq_of_made (h : Balanced p) (hs : s ∈ p.slots) (hmade : s.made = some (.ok item))
    (hs' : s' ∈ p.slots) (hmade' : s'.made = some (.ok item)) : s'.id = s.id := by
  by_contra hne
  have hone := h.single item
  have hother : 0 < (p.slots.filter (·.id ≠ s.id)).countP (fun s => item ∈ s.items) :=
    List.countP_pos_iff.mpr ⟨s', List.mem_filter.mpr ⟨hs', decide_eq_true hne⟩,
      decide_eq_true (Slot.mem_items.mpr hmade')⟩
  have hboth := countP_filter_id_add_le hs item
  rw [Slot.count_items, decide_eq_true (Slot.mem_items.mpr hmade)] at hboth
  simp only [places, reduceCtorEq, if_false, Nat.add_zero] at hone
  simp only [Bool.toNat_true] at hboth
  split at hone <;> omega

/-- A slot that is retired is shut. -/
theorem shut_of_retired (h : Balanced p) (hs : s ∈ p.slots) (hr : s.retired = true) : p.Shut s.id := by
  refine ⟨h.books.ids_lt s hs, fun x hx hid => ?_⟩
  rw [eq_of_id_eq h.books.ids hx hs hid]
  exact hr

/-- Who has a lease has the item of a slot that is there. -/
theorem exists_of_lease (h : Balanced p) {lease : SharedLease} (hget : p.leases.get? name = some lease) :
    ∃ s, p.slot? lease.slot = some s ∧ s.made = some (.ok lease.item) := by
  have hhas : p.Has name lease.slot := Or.inr ⟨lease, hget, rfl⟩
  obtain ⟨s, hs⟩ := exists_slot?_of_mem (h.books.listed lease.slot (Or.inl hhas.unitsOn_pos))
  obtain ⟨hmem, hid⟩ := slot?_eq_some hs
  exact ⟨s, hs, h.turned.leases name lease hget s hmem hid⟩

/-- An item of which there is a lease is not under creation. -/
theorem not_creating_of_leased (h : Balanced p) (hlease : p.Leased name item) (other : String) (slot : ℕ) :
    p.borrows.get? other ≠ some (.creating slot item) := by
  obtain ⟨lease, hget, rfl⟩ := hlease
  obtain ⟨s, hs, hmade⟩ := h.exists_of_lease hget
  exact (h.of_made (slot?_eq_some hs).1 hmade).2.2 other slot

end Balanced

end MemcachedClient.Pool.Shared
