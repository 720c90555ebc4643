import MemcachedClient.Proofs.Pool.Draining
import MemcachedClient.Proofs.Pool.Exclusive.Capacity
import MemcachedClient.Proofs.Pool.Leasing

/-!
# The life of an item in either kind of pool

A creation is started, runs under the name of one borrower, and comes to a result; if that is an item, the item is made
(`Pool.Made`), and it stays so: it is idle, on lease or with a slot, until it is closed. `Brings made event p q` says
what an operation brings about of this, in a pool that is told what became of the creations: at most one creation is
started, each stays with its borrower until the borrower sees its result or is dropped, no item that was made is lost,
and none is made unless its creation has ended well. Every operation does what it says (`Sound.brings_step`).
-/

namespace MemcachedClient.Pool

/-- An item was made: somebody may still use it, or it is closed. -/
def Made : Pool → ℕ → Prop
  | exclusive p, item => item ∈ p.idle ∨ (∃ name, p.Leased name item) ∨ item ∈ p.closed
  | shared p, item => (∃ s ∈ p.slots, s.made = some (.ok item)) ∨ item ∈ p.closed

/-- A creation comes to this in `q`: who runs it goes on with it, or its item is made, or it has failed. -/
structure ComesTo (result : Option (Except ClientError Unit)) (item : ℕ) (name : String) (q : Pool) : Prop where
  /-- Who runs it goes on with it. -/
  creating : result = none → q.creating? name = some item
  /-- Its item is made. -/
  made : result = some (.ok ()) → q.Made item

/-- What an operation brings about, that leads from `p` to `q`. -/
structure Brings (made : Creations) (event : Shared.Event) (p q : Pool) : Prop where
  /-- One creation is started at most. -/
  created : q.created = p.created ∨ q.created = p.created + 1 ∧ ∃ name, ComesTo (made p.created) p.created name q
  /-- Who runs a creation and neither goes on nor is dropped still runs it. -/
  creating : ∀ name item, p.creating? name = some item → (∀ made, event ≠ .poll made name) → event ≠ .cancel name →
    q.creating? name = some item
  /-- Who runs a creation and goes on sees its result. -/
  polled : ∀ told name item, event = .poll told name → p.creating? name = some item → ComesTo (made item) item name q
  /-- What is made stays made. -/
  stays : ∀ item, p.Made item → q.Made item
  /-- What is made was made before, or its creation has ended well. -/
  comes : ∀ item, q.Made item → p.Made item ∨ made item = some (.ok ())
  /-- What is closed stays closed. -/
  closed : p.closed <+: q.closed

/-- The pool is told this of the creations, if it is told anything. -/
def Shared.Event.Tells (made : Creations) : Shared.Event → Prop
  | borrow told _ => told = made
  | poll told _ => told = made
  | _ => True

/-- What the pool is told of the creations. -/
def Shared.Event.told : Shared.Event → Creations
  | borrow told _ => told
  | poll told _ => told
  | _ => fun _ => none

theorem Shared.Event.tells_told (event : Shared.Event) : event.Tells event.told := by
  cases event with
  | borrow | poll => rfl
  | cancel | release | corrupt | dispose => trivial

namespace Exclusive

variable {p q : Exclusive} {made : Creations} {name : String} {items : List ℕ} {item : ℕ}

/-- A creation was started at most, and it is under way unless it has a result; nothing was closed. -/
structure Starts (made : Creations) (name : String) (p q : Exclusive) : Prop where
  /-- One creation was started at most. -/
  created : q.created = p.created ∨
    q.created = p.created + 1 ∧ (made p.created = none → q.borrows.get? name = some (.creating p.created))
  /-- Nothing was closed. -/
  closed : q.closed = p.closed

theorem Starts.refl (made : Creations) (name : String) (p : Exclusive) : Starts made name p p := ⟨Or.inl rfl, rfl⟩

theorem creating_proceed (h : made item = none) :
    (p.proceed made name item).2.borrows.get? name = some (.creating item) := by
  rw [proceed, h]
  exact Table.get?_put_self _ _ _

theorem closed_proceed (p : Exclusive) (made : Creations) (name : String) (item : ℕ) :
    (p.proceed made name item).2.closed = p.closed := by
  rw [proceed]
  split <;> rfl

theorem starts_serve (p : Exclusive) (made : Creations) (name : String) :
    Starts made name p (p.serve made name).2 := by
  rcases p.serve_cases made name with ⟨-, e⟩ | ⟨-, ⟨first, idle, -, e⟩ | ⟨-, e⟩⟩ <;> rw [e]
  · exact ⟨Or.inl rfl, rfl⟩
  · exact ⟨Or.inl rfl, rfl⟩
  · exact ⟨Or.inr ⟨created_proceed _ made name _, creating_proceed⟩, closed_proceed _ made name _⟩

theorem starts_await (p : Exclusive) (made : Creations) (name : String) (place : Handle) (units : Semaphore) :
    Starts made name p (p.await made name place units).2 := by
  have hserve := starts_serve { p with capacity := some (units.poll place).2.2 } made name
  simp only [await]
  split
  · exact ⟨hserve.created, hserve.closed⟩
  · exact ⟨Or.inl rfl, rfl⟩

theorem starts_borrow (p : Exclusive) (made : Creations) (name : String) :
    Starts made name p (p.borrow made name).2 := by
  rw [borrow]
  split
  · exact .refl made name p
  split
  · exact .refl made name p
  split
  · exact p.starts_serve made name
  · exact p.starts_await made name _ _

theorem starts_poll (p : Exclusive) (made : Creations) (name : String) : Starts made name p (p.poll made name).2 := by
  rw [poll]
  split
  · exact .refl made name p
  · exact ⟨Or.inl (p.created_proceed made name _), p.closed_proceed made name _⟩
  · split
    · exact .refl made name p
    · exact p.starts_await made name _ _

/-- The items that were made are those that are idle, on lease or closed. -/
theorem Placed.mem_iff (h : Placed items p .empty) : item ∈ items ↔ (exclusive p).Made item := by
  have hsome := h.somewhere item
  have hleased : 0 < p.leases.count (fun lease => lease.item == item) ↔ ∃ name, p.Leased name item := by
    rw [h.leases.count_pos_iff_get?]
    simp only [beq_iff_eq, Leased]
  simp only [Hand.item?, reduceCtorEq, if_false, Nat.add_zero] at hsome
  rw [Made, ← hleased, ← List.count_pos_iff, ← List.count_pos_iff, ← List.count_pos_iff, ← hsome]
  omega

/-- The creation of an item that was made was started. -/
theorem Placed.lt_created (h : Placed items p .empty) (hmade : item ∈ items) : item < p.created := by
  have honce := h.once item
  have hpos := List.count_pos_iff.mpr hmade
  by_contra hlt
  rw [started, if_neg hlt] at honce
  omega

theorem mem_yield {created : ℕ} (h : item ∈ made.yield created) : made item = some (.ok ()) := by
  rw [Creations.yield] at h
  split at h
  · next hmade => rwa [List.mem_singleton.mp h]
  · simp at h

theorem mem_yield_of_ok (h : made item = some (.ok ())) : item ∈ made.yield item := by
  rw [Creations.yield, h]
  exact List.mem_singleton_self item

theorem mem_fresh (h : item ∈ p.fresh made q) : made item = some (.ok ()) := by
  rw [fresh] at h
  split at h
  · exact mem_yield h
  · simp at h

/-- What an operation makes, its creation has made. -/
theorem mem_makes {event : Shared.Event} (htells : event.Tells made) (h : item ∈ p.makes event) :
    made item = some (.ok ()) := by
  cases event with
  | borrow told name =>
    obtain rfl : told = made := htells
    exact mem_fresh h
  | poll told name =>
    obtain rfl : told = made := htells
    simp only [makes] at h
    split at h
    · exact mem_yield h
    · exact mem_fresh h
  | cancel | release | corrupt | dispose => simp [makes] at h

/-- What is closed stays closed. -/
theorem closed_step (p : Exclusive) (event : Shared.Event) : p.closed <+: (p.step event).closed := by
  cases event with
  | borrow made name => exact (p.starts_borrow made name).closed.symm ▸ List.prefix_rfl
  | poll made name => exact (p.starts_poll made name).closed.symm ▸ List.prefix_rfl
  | cancel name =>
    simp only [step, cancel]
    split <;> exact List.prefix_rfl
  | release accepts name =>
    simp only [step, release]
    split
    · exact List.prefix_rfl
    · split
      · exact List.prefix_append _ _
      · exact List.prefix_rfl
  | corrupt name =>
    simp only [step, corrupt]
    split <;> exact List.prefix_rfl
  | dispose => exact List.prefix_append _ _

/-- Only who borrows starts a creation. -/
theorem created_step (p : Exclusive) {event : Shared.Event} (hborrow : ∀ made name, event ≠ .borrow made name)
    (hpoll : ∀ made name, event ≠ .poll made name) : (p.step event).created = p.created := by
  cases event with
  | borrow made name => exact absurd rfl (hborrow made name)
  | poll made name => exact absurd rfl (hpoll made name)
  | cancel name =>
    simp only [step, cancel]
    split <;> rfl
  | release accepts name =>
    simp only [step, release]
    split
    · rfl
    · split <;> rfl
  | corrupt name =>
    simp only [step, corrupt]
    split <;> rfl
  | dispose => rfl

theorem creating?_eq_some_iff :
    (exclusive p).creating? name = some item ↔ p.borrows.get? name = some (.creating item) := by
  rw [creating?]
  cases p.borrows.get? name with
  | none => simp
  | some borrow => cases borrow <;> simp

/-- Who runs a creation still runs it, unless it goes on or is dropped. -/
theorem creating_step (hget : p.borrows.get? name = some (.creating item)) {event : Shared.Event}
    (hpoll : ∀ made, event ≠ .poll made name) (hcancel : event ≠ .cancel name) :
    (p.step event).borrows.get? name = some (.creating item) := by
  by_cases hname : event.name? = some name
  · cases event with
    | borrow made other =>
      obtain rfl := Option.some.inj hname
      rw [step, borrow, if_pos (by simp [Table.has, hget])]
      exact hget
    | poll made other => exact absurd (by rw [Option.some.inj hname]) (hpoll made)
    | cancel other => exact absurd (by rw [Option.some.inj hname]) hcancel
    | release accepts other =>
      simp only [step, release]
      split
      · exact hget
      · split <;> exact hget
    | corrupt other =>
      simp only [step, corrupt]
      split <;> exact hget
    | dispose => simp [Shared.Event.name?] at hname
  · rw [(p.sameUnder_step hname).borrows, hget]

theorem Placed.brings_step (h : Placed items p .empty) {event : Shared.Event} (htells : event.Tells made) :
    Brings made event (exclusive p) (exclusive (p.step event)) := by
  have hstep := placed_step h event
  have hstarts : ∀ name, Starts made name p (p.step event) → p.makes event = p.fresh made (p.step event) →
      (p.step event).created = p.created ∨ (p.step event).created = p.created + 1 ∧
        ∃ name, ComesTo (made p.created) p.created name (exclusive (p.step event)) := by
    intro name hstarts hmakes
    refine hstarts.created.imp_right fun ⟨hone, hcreating⟩ => ⟨hone, name, fun hnone => ?_, fun hok => ?_⟩
    · exact creating?_eq_some_iff.mpr (hcreating hnone)
    · rw [← hstep.mem_iff, hmakes, fresh_eq_yield hone]
      exact List.mem_append_right _ (mem_yield_of_ok hok)
  refine ⟨?_, fun name item hcreating hpoll hcancel => ?_, fun told name item hevent hcreating => ?_,
    fun item hmade => ?_, fun item hmade => ?_, p.closed_step event⟩
  · cases event with
    | borrow told name =>
      obtain rfl : told = made := htells
      exact hstarts name (p.starts_borrow told name) rfl
    | poll told name =>
      obtain rfl : told = made := htells
      cases hget : p.borrows.get? name with
      | none => exact hstarts name (p.starts_poll told name) (by rw [makes, hget]; rfl)
      | some borrow =>
        cases borrow with
        | waiting place => exact hstarts name (p.starts_poll told name) (by rw [makes, hget]; rfl)
        | creating item =>
          refine Or.inl ?_
          show (p.poll told name).2.created = p.created
          rw [Exclusive.poll, hget]
          exact p.created_proceed told name item
    | cancel name => exact Or.inl (p.created_step (by simp) (by simp))
    | release accepts name => exact Or.inl (p.created_step (by simp) (by simp))
    | corrupt name => exact Or.inl (p.created_step (by simp) (by simp))
    | dispose => exact Or.inl rfl
  · rw [creating?_eq_some_iff] at hcreating ⊢
    exact creating_step hcreating hpoll hcancel
  · subst hevent
    obtain rfl : told = made := htells
    rw [creating?_eq_some_iff] at hcreating
    refine ⟨fun hnone => ?_, fun hok => ?_⟩
    · rw [creating?_eq_some_iff, step, Exclusive.poll, hcreating]
      exact creating_proceed hnone
    · rw [← hstep.mem_iff, makes, hcreating]
      exact List.mem_append_right _ (mem_yield_of_ok hok)
  · rw [← hstep.mem_iff]
    exact List.mem_append_left _ (h.mem_iff.mpr hmade)
  · rw [← hstep.mem_iff, List.mem_append] at hmade
    exact hmade.imp h.mem_iff.mp (mem_makes htells)

end Exclusive

namespace Shared

variable {p q : Shared} {made : Creations} {name : String} {slot item : ℕ}

theorem creating?_eq_some_iff :
    (shared p).creating? name = some item ↔ ∃ slot, p.borrows.get? name = some (.creating slot item) := by
  rw [creating?]
  cases p.borrows.get? name with
  | none => simp
  | some borrow => cases borrow <;> simp

/-- Who goes on with a creation sees its result. -/
theorem comes_proceed (hlisted : slot ∈ p.slots.map (·.id)) (made : Creations) (name : String) (item : ℕ) :
    ComesTo (made item) item name (shared (p.proceed made name slot item).2) := by
  refine ⟨fun hnone => ?_, fun hok => Or.inl ?_⟩
  · rw [creating?_eq_some_iff, proceed, hnone]
    exact ⟨slot, Table.get?_put_self _ _ _⟩
  · obtain ⟨s, hs, hid⟩ := List.mem_map.mp hlisted
    rw [proceed, hok]
    exact ⟨_, mem_updateSlot.mpr ⟨s, hs, if_pos hid⟩, rfl⟩

/-- A creation was started at most, and it comes to something. -/
def Starts (made : Creations) (name : String) (p q : Shared) : Prop :=
  q.created = p.created ∨ q.created = p.created + 1 ∧ ComesTo (made p.created) p.created name (shared q)

theorem starts_await (hlisted : slot ∈ p.slots.map (·.id)) (made : Creations) (name : String) (place : Handle)
    (turn : Semaphore) : Starts made name p (p.await made name slot place turn).2 := by
  simp only [await]
  split
  · refine Or.inr ⟨proceed_created _ made name slot _, comes_proceed ?_ made name _⟩
    exact (map_id_updateSlot p slot (f := fun s => { s with turn := (turn.poll place).2.2 }) fun _ => rfl) ▸ hlisted
  · exact Or.inl rfl

theorem starts_enter (p : Shared) (made : Creations) (name : String) (slot : ℕ) :
    Starts made name p (p.enter made name slot).2 := by
  simp only [enter]
  split
  · exact Or.inl rfl
  · next s hs =>
    split
    · exact Or.inl (p.settle_created name slot _)
    · obtain ⟨hmem, rfl⟩ := slot?_eq_some hs
      exact starts_await (List.mem_map_of_mem hmem) made name _ _

theorem starts_borrow (p : Shared) (made : Creations) (name : String) : Starts made name p (p.borrow made name).2 := by
  simp only [borrow]
  split
  · exact Or.inl rfl
  split
  · exact Or.inl rfl
  split
  · next slot q ha =>
    have hstarts := q.starts_enter made name slot
    rwa [Starts, assign?_created ha] at hstarts
  · exact Or.inl rfl

theorem starts_poll (p : Shared) (made : Creations) (name : String) : Starts made name p (p.poll made name).2 := by
  simp only [poll]
  split
  · exact Or.inl rfl
  · exact Or.inl rfl
  · exact Or.inl rfl
  · exact p.starts_enter made name _
  · exact Or.inl (p.proceed_created made name _ _)
  · split
    · exact Or.inl rfl
    · next s hs =>
      split
      · exact Or.inl (p.settle_created name _ _)
      · obtain ⟨hmem, rfl⟩ := slot?_eq_some hs
        exact starts_await (List.mem_map_of_mem hmem) made name _ _

/-- Who runs a creation still runs it, unless it goes on or is dropped. -/
theorem creating_step (hd : p.borrows.Distinct) (hget : p.borrows.get? name = some (.creating slot item))
    {event : Event} (hpoll : ∀ made, event ≠ .poll made name) (hcancel : event ≠ .cancel name) :
    (p.step event).borrows.get? name = some (.creating slot item) := by
  have hunqueued : p.Unqueued name := unqueued_of_get? hd hget rfl
  by_cases hname : event.name? = some name
  · cases event with
    | borrow made other =>
      obtain rfl := Option.some.inj hname
      rw [step, borrow, if_pos (by simp [Table.has, hget])]
      exact hget
    | poll made other => exact absurd (by rw [Option.some.inj hname]) (hpoll made)
    | cancel other => exact absurd (by rw [Option.some.inj hname]) hcancel
    | release accepts other =>
      simp only [step, release]
      split
      · exact hget
      · rw [borrows_giveUnit (p := { p with leases := p.leases.remove other }) hunqueued, hget]
    | corrupt other =>
      simp only [step, corrupt]
      split <;> exact hget
    | dispose => simp [Event.name?] at hname
  · rw [borrows_step hunqueued hname, hget]

/-- What a slot has, it had before, or its creation has made it. -/
theorem comes_step (p : Shared) {event : Event} (htells : event.Tells made) {s : Slot} (hs : s ∈ (p.step event).slots)
    (hmade : s.made = some (.ok item)) :
    (∃ old ∈ p.slots, old.made = some (.ok item)) ∨ made item = some (.ok ()) := by
  have hcarried : ∀ {name}, Carries made (p.Comes name) name p (p.step event) →
      (∃ old ∈ p.slots, old.made = some (.ok item)) ∨ made item = some (.ok ()) := by
    intro name hcarries
    rcases hcarries.items s hs item hmade with ⟨old, hold, -, hmade⟩ | ⟨hok, -⟩
    · exact Or.inl ⟨old, hold, hmade⟩
    · exact Or.inr hok
  cases event with
  | borrow told name =>
    obtain rfl : told = made := htells
    exact hcarried (p.carries_borrow told name)
  | poll told name =>
    obtain rfl : told = made := htells
    exact hcarried (p.carries_poll told name)
  | cancel name => exact hcarried (p.carries_cancel (p.Comes name) name)
  | release accepts name => exact hcarried (p.carries_release (p.Comes name) accepts name)
  | corrupt name => exact hcarried (p.carries_corrupt (p.Comes name) name)
  | dispose =>
    obtain ⟨old, hold, rfl⟩ := List.mem_map.mp hs
    exact Or.inl ⟨old, (List.mem_filter.mp hold).1, hmade⟩

/-- Only who borrows starts a creation. -/
theorem created_step (p : Shared) {event : Event} (hborrow : ∀ made name, event ≠ .borrow made name)
    (hpoll : ∀ made name, event ≠ .poll made name) : (p.step event).created = p.created := by
  cases event with
  | borrow made name => exact absurd rfl (hborrow made name)
  | poll made name => exact absurd rfl (hpoll made name)
  | cancel name =>
    simp only [step, cancel]
    split
    · rfl
    split
    · rfl
    · rfl
    · exact giveUnit_created _ _ _
    · exact giveUnit_created _ _ _
    · exact giveUnit_created _ _ _
  | release accepts name =>
    simp only [step, release]
    split
    · rfl
    · exact giveUnit_created _ _ _
  | corrupt name =>
    simp only [step, corrupt]
    split <;> rfl
  | dispose => rfl

/-- What is made stays with a slot, or it is closed. -/
theorem Balanced.stays_step (h : p.Balanced) (event : Event) (hmade : (shared p).Made item) :
    (shared (p.step event)).Made item := by
  by_cases hevent : event = .dispose
  · subst hevent
    rcases hmade with ⟨s, hs, hmade⟩ | hclosed
    · by_cases hdrained : s.inFlight = 0
      · have hmem : s ∈ p.slots.filter (·.inFlight == 0) := List.mem_filter.mpr ⟨hs, by simpa using hdrained⟩
        exact Or.inr (List.mem_append_right _ (List.mem_flatMap.mpr ⟨s, hmem, Slot.mem_items.mpr hmade⟩))
      · have hmem : s ∈ p.slots.filter (·.inFlight != 0) := List.mem_filter.mpr ⟨hs, by simpa using hdrained⟩
        exact Or.inl ⟨_, List.mem_map_of_mem hmem, hmade⟩
    · exact Or.inr (List.mem_append_left _ hclosed)
  · have halters := h.alters_step hevent
    rcases hmade with ⟨s, hs, hmade⟩ | hclosed
    · exact halters.items s hs item hmade
    · exact Or.inr (halters.closed item hclosed)

theorem Balanced.brings_step (h : p.Balanced) {event : Event} (htells : event.Tells made) :
    Brings made event (shared p) (shared (p.step event)) := by
  obtain ⟨items, hclosed, hitems⟩ := (h.books.tidy_step h.single event).closes
  refine ⟨?_, fun name item hcreating hpoll hcancel => ?_, fun told name item hevent hcreating => ?_,
    fun item hmade => ?_, fun item hmade => ?_, ⟨items, hclosed.symm⟩⟩
  · cases event with
    | borrow told name =>
      obtain rfl : told = made := htells
      exact (p.starts_borrow told name).imp_right fun h => ⟨h.1, name, h.2⟩
    | poll told name =>
      obtain rfl : told = made := htells
      exact (p.starts_poll told name).imp_right fun h => ⟨h.1, name, h.2⟩
    | cancel name => exact Or.inl (p.created_step (by simp) (by simp))
    | release accepts name => exact Or.inl (p.created_step (by simp) (by simp))
    | corrupt name => exact Or.inl (p.created_step (by simp) (by simp))
    | dispose => exact Or.inl rfl
  · rw [creating?_eq_some_iff] at hcreating ⊢
    obtain ⟨slot, hget⟩ := hcreating
    exact ⟨slot, creating_step h.books.borrows hget hpoll hcancel⟩
  · subst hevent
    obtain rfl : told = made := htells
    obtain ⟨slot, hget⟩ := creating?_eq_some_iff.mp hcreating
    have hhas : p.Has name slot := Or.inl ⟨_, hget, rfl⟩
    rw [Shared.step, Shared.poll, hget]
    exact comes_proceed (h.books.listed slot (Or.inl hhas.unitsOn_pos)) told name item
  · exact h.stays_step event hmade
  · rcases hmade with ⟨s, hs, hmade⟩ | hmade
    · exact (p.comes_step htells hs hmade).imp_left Or.inl
    · rw [hclosed, List.mem_append] at hmade
      rcases hmade with hmade | hmade
      · exact Or.inl (Or.inr hmade)
      · obtain ⟨s, hs, hmade, -⟩ := hitems item hmade
        exact Or.inl (Or.inl ⟨s, hs, hmade⟩)

end Shared

/-! ### Either kind -/

/-- A pool as it is after a run, with at most `k` items to be had. -/
def Sound (k : ℕ) : Pool → Prop
  | exclusive p => ∃ items, Exclusive.Placed items p .empty ∧ Exclusive.Balanced k p .empty
  | shared p => p.Balanced ∧ p.target = k

namespace Sound

variable {k : ℕ} {p : Pool} {item : ℕ}

theorem step (h : p.Sound k) (event : Shared.Event) : (p.step event).Sound k := by
  cases p with
  | exclusive p =>
    obtain ⟨items, hplaced, hbalanced⟩ := h
    exact ⟨_, Exclusive.placed_step hplaced event, Exclusive.balanced_step hbalanced hplaced event⟩
  | shared p =>
    obtain ⟨hbalanced, htarget⟩ := h
    exact ⟨hbalanced.step event, (Shared.limits_eq_iff.mp (p.step_limits event)).1.trans htarget⟩

/-- **What an operation brings about.** -/
theorem brings_step (h : p.Sound k) {made : Creations} {event : Shared.Event} (htells : event.Tells made) :
    Brings made event p (p.step event) := by
  cases p with
  | exclusive p =>
    obtain ⟨items, hplaced, -⟩ := h
    exact hplaced.brings_step htells
  | shared p => exact h.1.brings_step htells

/-- The creation of an item that was made was started. -/
theorem lt_created (h : p.Sound k) (hmade : p.Made item) : item < p.created := by
  cases p with
  | exclusive p =>
    obtain ⟨items, hplaced, -⟩ := h
    exact hplaced.lt_created (hplaced.mem_iff.mpr hmade)
  | shared p =>
    rcases hmade with ⟨s, hs, hmade⟩ | hclosed
    · exact (h.1.of_made hs hmade).1
    · have hone := h.1.single item
      have hcount := List.count_pos_iff.mpr hclosed
      by_contra hlt
      have hlt : ¬ item < p.created := hlt
      simp only [Shared.places, reduceCtorEq, if_false, Nat.add_zero, if_neg hlt] at hone
      omega

/-- Who has a lease has an item that was made. -/
theorem made_of_leased (h : p.Sound k) {name : String} (hlease : p.Leased name item) : p.Made item := by
  cases p with
  | exclusive p => exact Or.inr (Or.inl ⟨name, hlease⟩)
  | shared p =>
    obtain ⟨lease, hget, rfl⟩ := hlease
    obtain ⟨s, hs, hmade⟩ := h.1.exists_of_lease hget
    exact Or.inl ⟨s, (Shared.slot?_eq_some hs).1, hmade⟩

end Sound

/-- An item that was closed was made. -/
theorem made_of_mem_closed {p : Pool} {item : ℕ} (h : item ∈ p.closed) : p.Made item := by
  cases p with
  | exclusive p => exact Or.inr (Or.inr h)
  | shared p => exact Or.inr h

/-- Marking a lease corrupted starts nothing and closes nothing. -/
theorem corrupt_parts (p : Pool) (name : String) :
    (p.step (.corrupt name)).created = p.created ∧ (p.step (.corrupt name)).closed = p.closed := by
  cases p with
  | exclusive p =>
    simp only [step, Exclusive.step, Exclusive.corrupt]
    split <;> exact ⟨rfl, rfl⟩
  | shared p =>
    simp only [step, Shared.step, Shared.corrupt]
    split <;> exact ⟨rfl, rfl⟩

end MemcachedClient.Pool
