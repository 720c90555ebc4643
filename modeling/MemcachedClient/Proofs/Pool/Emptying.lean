import MemcachedClient.Proofs.Pool.Disposal
import MemcachedClient.Proofs.Pool.Exclusive.Ownership

/-!
# Pools that were disposed empty themselves

When a pool is disposed, what is idle is closed; a slot of a shared pool is retired and stays until its last unit is
given back. From then on nothing becomes idle, no slot is opened and nobody joins the queue (`Emptied`), whatever is
still done with the leases and by the borrowers that are on their way. So once there is no lease and no borrower left,
nothing is left in the pool (`Orderly.bare`), and since an item that was made can be nowhere else it is closed, and that
once (`leaks_nothing`).

`Pool.makes` reads from outside which item an operation made: a borrower went on with a creation, or started one, that
had come to an item.
-/

namespace MemcachedClient.Pool

/-! ### Exclusive pools -/

namespace Exclusive

variable {p : Exclusive}

/-- When there is no borrower and no lease, nobody has a place in the line for capacity. -/
theorem Regular.queue_eq_nil (h : p.Regular) (hborrows : p.borrows = []) (hleases : p.leases = []) {units : Semaphore}
    (hcap : p.capacity = some units) : units.queue = [] := by
  obtain ⟨bounded, hl, hbounded⟩ := h
  have htrue : bounded = true := by
    rw [← hl.capacity, hcap]
    rfl
  obtain ⟨k, items, hk, -, hbalanced⟩ := hbounded htrue
  obtain ⟨found, hfound, hserves, haccount⟩ := hbalanced.units
  obtain rfl : units = found := Option.some.inj (hcap.symm.trans hfound)
  have hdelivered := count_holdsUnit p hserves
  simp only [hborrows, hleases, Table.count, List.countP_nil, List.length_nil, Semaphore.units, Hand.units] at *
  -- all units are available, so nobody waits
  exact hl.spares units hcap (by omega)

end Exclusive

/-! ### Shared pools -/

namespace Shared

variable {p : Shared} {item : ℕ}

/-- The pool was disposed, every slot is retired and nobody queues. -/
structure Emptied (p : Shared) : Prop where
  /-- The pool was disposed. -/
  disposed : p.disposed = true
  /-- Every slot is retired. -/
  slots : ∀ s ∈ p.slots, s.retired = true
  /-- Nobody queues. -/
  queue : p.queue = []

theorem emptied_dispose (p : Shared) : p.dispose.Emptied where
  disposed := rfl
  slots s hs := by
    obtain ⟨old, -, rfl⟩ := List.mem_map.mp hs
    rfl
  queue := rfl

theorem Balanced.emptied_step (hb : p.Balanced) (h : p.Emptied) (event : Event) : (p.step event).Emptied := by
  by_cases hevent : event = .dispose
  · rw [hevent]
    exact p.emptied_dispose
  · have halters := hb.alters_step hevent
    refine ⟨halters.disposed.trans h.disposed, fun s hs => ?_, halters.queue h.disposed h.queue⟩
    rcases halters.slots s hs with ⟨old, hold, hgoes⟩ | ⟨-, hqueue, -⟩
    · exact hgoes.stays (h.slots old hold)
    · exact absurd h.queue (hqueue h.disposed)

/-- No slot is left when there is no borrower and no lease. -/
theorem Balanced.slots_eq_nil (hb : p.Balanced) (h : p.Emptied) (hborrows : p.borrows = []) (hleases : p.leases = []) :
    p.slots = [] := by
  rw [List.eq_nil_iff_forall_not_mem]
  intro s hs
  have hpos := hb.books.drained s hs (h.slots s hs)
  rw [hb.books.load s hs, unitsOn, hborrows, hleases] at hpos
  simp [Table.count] at hpos

/-- An item is not closed twice. -/
theorem Balanced.count_closed_le_one (hb : p.Balanced) (item : ℕ) : p.closed.count item ≤ 1 := by
  have hone := hb.single item
  rw [places] at hone
  split at hone <;> split at hone <;> omega

end Shared

/-! ### Either kind -/

theorem Creations.mem_yield_iff {told : Creations} {item created : ℕ} :
    item ∈ told.yield created ↔ item = created ∧ told item = some (.ok ()) := by
  constructor
  · intro hmem
    refine ⟨?_, Exclusive.mem_yield hmem⟩
    rw [yield] at hmem
    split at hmem <;> simp_all
  · rintro ⟨rfl, hok⟩
    exact Exclusive.mem_yield_of_ok hok

/-- The item that an operation made, if it made one. -/
def makes (p : Pool) : Shared.Event → List ℕ
  | .borrow told name => if p.created < (p.borrow told name).2.created then told.yield p.created else []
  | .poll told name =>
    match p.creating? name with
    | some item => told.yield item
    | none => if p.created < (p.poll told name).2.created then told.yield p.created else []
  | _ => []

/-- The items that a run made, in that order. -/
def made (p : Pool) : List Shared.Event → List ℕ
  | [] => []
  | event :: events => p.makes event ++ (p.step event).made events

/-- A pool as it is after a run. -/
def Orderly : Pool → Prop
  | exclusive p => p.Regular ∧ ∃ items, Exclusive.Placed items p .empty
  | shared p => p.Balanced

/-- The pool was disposed, and nothing of it is to be had by who comes now. -/
def Emptied : Pool → Prop
  | exclusive p => p.Emptied
  | shared p => p.Emptied

/-- There is no idle item and no slot, and nobody has a place in a queue. -/
def Bare : Pool → Prop
  | exclusive p => p.idle = [] ∧ ∀ units, p.capacity = some units → units.queue = []
  | shared p => p.slots = [] ∧ p.queue = []

section

variable {p : Pool} {item : ℕ}

theorem emptied_dispose (p : Pool) : (p.step .dispose).Emptied := by
  cases p with
  | exclusive p => exact ⟨rfl, rfl⟩
  | shared p => exact p.emptied_dispose

namespace Orderly

theorem ofOptions (options : Options) : (ofOptions options).Orderly := by
  cases options with
  | exclusive options => exact ⟨.ofOptions options, [], Exclusive.placed_ofOptions options⟩
  | shared kind options => exact Shared.Balanced.ofOptions kind options

theorem step (h : p.Orderly) (event : Shared.Event) : (p.step event).Orderly := by
  cases p with
  | exclusive p =>
    obtain ⟨hregular, items, hplaced⟩ := h
    exact ⟨hregular.step event, _, Exclusive.placed_step hplaced event⟩
  | shared p => exact Shared.Balanced.step h event

theorem run (h : p.Orderly) (events : List Shared.Event) : (p.run events).Orderly := by
  induction events generalizing p with
  | nil => exact h
  | cons event events ih => exact ih (h.step event)

theorem brings_step (h : p.Orderly) {told : Creations} {event : Shared.Event} (htells : event.Tells told) :
    Brings told event p (p.step event) := by
  cases p with
  | exclusive p =>
    obtain ⟨-, items, hplaced⟩ := h
    exact hplaced.brings_step htells
  | shared p => exact Shared.Balanced.brings_step h htells

/-- What was made stays made. -/
theorem stays_run (h : p.Orderly) (hmade : p.Made item) (events : List Shared.Event) : (p.run events).Made item := by
  induction events generalizing p with
  | nil => exact hmade
  | cons event events ih =>
    exact ih (h.step event) ((h.brings_step event.tells_told).stays item hmade)

/-- What an operation made is made. -/
theorem made_of_mem_makes (h : p.Orderly) {event : Shared.Event} (hmem : item ∈ p.makes event) :
    (p.step event).Made item := by
  have hbrings := h.brings_step event.tells_told
  -- a creation that was started and has come to an item
  have hstarts : p.created < (p.step event).created → item ∈ event.told.yield p.created → (p.step event).Made item := by
    intro hlt hyield
    obtain ⟨-, name, hcomes⟩ := hbrings.created.resolve_left (Nat.ne_of_gt hlt)
    obtain ⟨rfl, hok⟩ := Creations.mem_yield_iff.mp hyield
    exact hcomes.made hok
  cases event with
  | borrow told name =>
    simp only [makes] at hmem
    split at hmem
    · next hlt => exact hstarts (p.borrow_snd told name ▸ hlt) hmem
    · simp at hmem
  | poll told name =>
    simp only [makes] at hmem
    split at hmem
    · next created hcreating =>
      obtain ⟨rfl, hok⟩ := Creations.mem_yield_iff.mp hmem
      exact (hbrings.polled told name item rfl hcreating).made hok
    · split at hmem
      · next hlt => exact hstarts (p.poll_snd told name ▸ hlt) hmem
      · simp at hmem
  | cancel | release | corrupt | dispose => simp [makes] at hmem

/-- What a run made is made at its end. -/
theorem made_of_mem_made (h : p.Orderly) {events : List Shared.Event} (hmem : item ∈ p.made events) :
    (p.run events).Made item := by
  induction events generalizing p with
  | nil => simp [made] at hmem
  | cons event events ih =>
    rcases List.mem_append.mp hmem with hmem | hmem
    · exact (h.step event).stays_run (h.made_of_mem_makes hmem) events
    · exact ih (h.step event) hmem

theorem emptied_step (h : p.Orderly) (he : p.Emptied) (event : Shared.Event) : (p.step event).Emptied := by
  cases p with
  | exclusive p => exact Exclusive.Emptied.step he event
  | shared p => exact Shared.Balanced.emptied_step h he event

theorem emptied_of_emptied (h : p.Orderly) (he : p.Emptied) (events : List Shared.Event) : (p.run events).Emptied := by
  induction events generalizing p with
  | nil => exact he
  | cons event events ih => exact ih (h.step event) (h.emptied_step he event)

/-- A pool that was disposed along a run empties itself. -/
theorem emptied_run (h : p.Orderly) {events : List Shared.Event} (hdisposed : .dispose ∈ events) :
    (p.run events).Emptied := by
  induction events generalizing p with
  | nil => simp at hdisposed
  | cons event events ih =>
    rcases List.mem_cons.mp hdisposed with rfl | hdisposed
    · exact (h.step .dispose).emptied_of_emptied p.emptied_dispose events
    · exact ih (h.step event) hdisposed

/-- When there is no borrower and no lease left, nothing is. -/
theorem bare (h : p.Orderly) (he : p.Emptied) (hborrows : ∀ name, ¬ p.Borrows name)
    (hleases : ∀ name item, ¬ p.Leased name item) : p.Bare := by
  cases p with
  | exclusive p =>
    obtain ⟨hregular, items, hplaced⟩ := h
    refine ⟨he.idle, fun units hcap => hregular.queue_eq_nil ?_ ?_ hcap⟩
    · exact Table.eq_nil_of_get? fun name => Table.has_eq_false_iff.mp (Bool.eq_false_iff.mpr (hborrows name))
    · refine Table.eq_nil_of_get? fun name => Option.eq_none_iff_forall_ne_some.mpr fun lease hget => ?_
      exact hleases name lease.item ⟨lease, hget, rfl⟩
  | shared p =>
    refine ⟨Shared.Balanced.slots_eq_nil h he ?_ ?_, he.queue⟩
    · exact Table.eq_nil_of_get? fun name => Table.has_eq_false_iff.mp (Bool.eq_false_iff.mpr (hborrows name))
    · refine Table.eq_nil_of_get? fun name => Option.eq_none_iff_forall_ne_some.mpr fun lease hget => ?_
      exact hleases name lease.item ⟨lease, hget, rfl⟩

/-- An item that was made is closed when nothing is left. -/
theorem mem_closed_of_bare (hbare : p.Bare) (hleases : ∀ name item, ¬ p.Leased name item) (hmade : p.Made item) :
    item ∈ p.closed := by
  cases p with
  | exclusive p =>
    rcases hmade with hidle | ⟨name, hlease⟩ | hclosed
    · simp [hbare.1] at hidle
    · exact absurd hlease (hleases name item)
    · exact hclosed
  | shared p =>
    rcases hmade with ⟨s, hs, -⟩ | hclosed
    · simp [hbare.1] at hs
    · exact hclosed

/-- No item is closed twice. -/
theorem count_closed_le_one (h : p.Orderly) (item : ℕ) : p.closed.count item ≤ 1 := by
  cases p with
  | exclusive p =>
    obtain ⟨-, items, hplaced⟩ := h
    have hone := hplaced.places_le_one item
    rw [Exclusive.places] at hone
    exact Nat.le_trans (Nat.le_add_left _ _) hone
  | shared p => exact Shared.Balanced.count_closed_le_one h item

end Orderly

end

/-- **Disposing a pool leaks nothing**, in a pool of either kind and along every run: when there is no lease and no
borrower left, every item that was made, before or after, is closed, once, and nothing is left in the pool. -/
theorem leaks_nothing (options : Options) {events : List Shared.Event} (hdisposed : .dispose ∈ events)
    (hborrows : ∀ name, ¬ ((ofOptions options).run events).Borrows name)
    (hleases : ∀ name item, ¬ ((ofOptions options).run events).Leased name item) :
    (∀ item ∈ (ofOptions options).made events, ((ofOptions options).run events).closed.count item = 1) ∧
      ((ofOptions options).run events).Bare := by
  have h := (Orderly.ofOptions options).run events
  have hbare := h.bare ((Orderly.ofOptions options).emptied_run hdisposed) hborrows hleases
  refine ⟨fun item hmem => ?_, hbare⟩
  have hmade := (Orderly.ofOptions options).made_of_mem_made hmem
  have hpos := List.count_pos_iff.mpr (Orderly.mem_closed_of_bare hbare hleases hmade)
  have := h.count_closed_le_one item
  omega

/-- The creation of the only item is under way when its borrower is dropped; its unit goes to one that queues, and
before that one has looked the pool is disposed. Then the other one starts the creation anew, and both share its item
and end their leases. -/
def takenOver : List Shared.Event :=
  [.borrow (fun _ => none) "a", .borrow (fun _ => none) "b", .borrow (fun _ => none) "c", .cancel "a", .dispose,
    .poll (fun _ => none) "b", .poll (fun _ => some (.ok ())) "b", .poll (fun _ => none) "c",
    .release (fun _ => true) "b", .release (fun _ => true) "c"]

/-- The item is made after the pool was disposed, and it is closed with the second lease. -/
theorem leaks_nothing_of_taken_over : .dispose ∈ takenOver ∧
    (∀ name, ¬ ((ofOptions (.shared "Probe" ⟨1, 2⟩)).run takenOver).Borrows name) ∧
    (∀ name item, ¬ ((ofOptions (.shared "Probe" ⟨1, 2⟩)).run takenOver).Leased name item) ∧
    (ofOptions (.shared "Probe" ⟨1, 2⟩)).made takenOver = [1] ∧
    (∀ item ∈ (ofOptions (.shared "Probe" ⟨1, 2⟩)).made takenOver,
      ((ofOptions (.shared "Probe" ⟨1, 2⟩)).run takenOver).closed.count item = 1) ∧
    ((ofOptions (.shared "Probe" ⟨1, 2⟩)).run takenOver).Bare := by
  have hdisposed : Shared.Event.dispose ∈ takenOver := by simp [takenOver]
  have hborrows : ((Shared.ofOptions "Probe" ⟨1, 2⟩).run takenOver).borrows = [] := by decide +kernel
  have hleases : ((Shared.ofOptions "Probe" ⟨1, 2⟩).run takenOver).leases = [] := by decide +kernel
  have hnoBorrow : ∀ name, ¬ ((ofOptions (.shared "Probe" ⟨1, 2⟩)).run takenOver).Borrows name := by
    intro name h
    change ((Shared.ofOptions "Probe" ⟨1, 2⟩).run takenOver).borrows.has name = true at h
    simp [hborrows, Table.has, Table.get?] at h
  have hnoLease : ∀ name item, ¬ ((ofOptions (.shared "Probe" ⟨1, 2⟩)).run takenOver).Leased name item := by
    intro name item h
    change ∃ lease, ((Shared.ofOptions "Probe" ⟨1, 2⟩).run takenOver).leases.get? name = some lease ∧ _ at h
    simp [hleases, Table.get?] at h
  exact ⟨hdisposed, hnoBorrow, hnoLease, by decide +kernel, leaks_nothing _ hdisposed hnoBorrow hnoLease⟩

end MemcachedClient.Pool
