import MemcachedClient.Pool
import MemcachedClient.Proofs.Pool.Exclusive.Run
import MemcachedClient.Proofs.Pool.Making

/-!
# Leases of either kind of pool

Both kinds of pool take the same operations (`Pool.step`). Who is told that it has a lease of an item has one. An
operation under one name leaves the leases of all other names alone (`leased_step`), and makes nobody else a borrower
(`borrows_step`).
-/

namespace MemcachedClient.Pool

/-- The name under which an operation is done. -/
def Shared.Event.name? : Shared.Event → Option String
  | borrow _ name => some name
  | poll _ name => some name
  | cancel name => some name
  | release _ name => some name
  | corrupt name => some name
  | dispose => none

namespace Exclusive

variable {p : Exclusive} {made : Creations} {name other : String} {item : ℕ}

/-- There is a lease of an item under a name. -/
def Leased (p : Exclusive) (name : String) (item : ℕ) : Prop :=
  ∃ lease, p.leases.get? name = some lease ∧ lease.item = item

/-! ### The borrower that goes on -/

theorem leased_proceed {created : ℕ} (h : (p.proceed made name created).1 = .leased item) :
    (p.proceed made name created).2.leases.get? name = some ⟨item, false⟩ := by
  rw [proceed] at h ⊢
  split
  · next hnone =>
    rw [hnone] at h
    simp at h
  · next hok =>
    rw [hok] at h
    rw [Report.leased.inj h]
    exact Table.get?_put_self _ _ _
  · next hfailed =>
    rw [hfailed] at h
    simp [refuse] at h

theorem leased_serve (h : (p.serve made name).1 = .leased item) :
    (p.serve made name).2.leases.get? name = some ⟨item, false⟩ := by
  rcases p.serve_cases made name with ⟨-, e⟩ | ⟨-, ⟨first, idle, -, e⟩ | ⟨-, e⟩⟩
  · rw [e] at h
    simp [refuse] at h
  · rw [e] at h ⊢
    rw [Report.leased.inj h]
    exact Table.get?_put_self _ _ _
  · rw [e] at h ⊢
    exact leased_proceed h

theorem leased_await {place : Handle} {units : Semaphore} (h : (p.await made name place units).1 = .leased item) :
    (p.await made name place units).2.leases.get? name = some ⟨item, false⟩ := by
  simp only [await] at h ⊢
  split
  · next htaken =>
    rw [if_pos htaken] at h
    exact leased_serve h
  · next hwaits =>
    rw [if_neg hwaits] at h
    simp at h

theorem leased_borrow (h : (p.borrow made name).1 = .leased item) :
    (p.borrow made name).2.leases.get? name = some ⟨item, false⟩ := by
  rw [borrow] at h ⊢
  split
  · next huse =>
    rw [if_pos huse] at h
    simp at h
  split
  · next huse hdisposed =>
    rw [if_neg huse, if_pos hdisposed] at h
    simp at h
  · next huse hopen =>
    rw [if_neg huse, if_neg hopen] at h
    split
    · next hcapacity =>
      rw [hcapacity] at h
      exact leased_serve h
    · next units hcapacity =>
      rw [hcapacity] at h
      exact leased_await h

theorem leased_poll (h : (p.poll made name).1 = .leased item) :
    (p.poll made name).2.leases.get? name = some ⟨item, false⟩ := by
  rw [poll] at h ⊢
  split
  · next hget =>
    rw [hget] at h
    simp at h
  · next hget =>
    rw [hget] at h
    exact leased_proceed h
  · next hget =>
    rw [hget] at h
    dsimp only at h
    split
    · next hcapacity =>
      rw [hcapacity] at h
      simp at h
    · next units hcapacity =>
      rw [hcapacity] at h
      exact leased_await h

/-! ### The others -/

/-- Two pools have the same under a name. -/
structure SameUnder (other : String) (p q : Exclusive) : Prop where
  /-- The same borrower. -/
  borrows : q.borrows.get? other = p.borrows.get? other
  /-- The same lease. -/
  leases : q.leases.get? other = p.leases.get? other

section others

variable (hne : other ≠ name)
include hne

theorem sameUnder_lend (p : Exclusive) (item : ℕ) : SameUnder other p (p.lend name item).2 :=
  ⟨Table.get?_remove_of_ne _ hne, Table.get?_put_of_ne _ _ hne⟩

theorem sameUnder_refuse (p : Exclusive) (cause : ClientError) : SameUnder other p (p.refuse name cause).2 :=
  ⟨Table.get?_remove_of_ne _ hne, rfl⟩

theorem sameUnder_proceed (p : Exclusive) (made : Creations) (created : ℕ) :
    SameUnder other p (p.proceed made name created).2 := by
  rw [proceed]
  split
  · exact ⟨Table.get?_put_of_ne _ _ hne, rfl⟩
  · exact sameUnder_lend hne p created
  · exact sameUnder_refuse hne p _

theorem sameUnder_serve (p : Exclusive) (made : Creations) : SameUnder other p (p.serve made name).2 := by
  rcases p.serve_cases made name with ⟨-, e⟩ | ⟨-, ⟨first, idle, -, e⟩ | ⟨-, e⟩⟩
  · rw [e]
    exact sameUnder_refuse hne p _
  · rw [e]
    exact ⟨Table.get?_remove_of_ne _ hne, Table.get?_put_of_ne _ _ hne⟩
  · have hproceed := sameUnder_proceed hne { p with created := p.created + 1 } made p.created
    rw [e]
    exact ⟨hproceed.borrows, hproceed.leases⟩

theorem sameUnder_await (p : Exclusive) (made : Creations) (place : Handle) (units : Semaphore) :
    SameUnder other p (p.await made name place units).2 := by
  have hserve := sameUnder_serve hne { p with capacity := some (units.poll place).2.2 } made
  simp only [await]
  split
  · exact ⟨hserve.borrows, hserve.leases⟩
  · exact ⟨Table.get?_put_of_ne _ _ hne, rfl⟩

end others

/-- An operation under one name leaves alone who has another. -/
theorem sameUnder_step (p : Exclusive) {event : Shared.Event} (hne : event.name? ≠ some other) :
    SameUnder other p (p.step event) := by
  have hne : ∀ name, event.name? = some name → other ≠ name := fun name h e => hne (by rw [h, e])
  cases event with
  | borrow made name =>
    have hne := hne name rfl
    simp only [step, borrow]
    split
    · exact ⟨rfl, rfl⟩
    split
    · exact ⟨rfl, rfl⟩
    split
    · exact sameUnder_serve hne p made
    · exact sameUnder_await hne p made _ _
  | poll made name =>
    have hne := hne name rfl
    simp only [step, poll]
    split
    · exact ⟨rfl, rfl⟩
    · exact sameUnder_proceed hne p made _
    · split
      · exact ⟨rfl, rfl⟩
      · exact sameUnder_await hne p made _ _
  | cancel name =>
    have hremoved := Table.get?_remove_of_ne p.borrows (hne name rfl)
    simp only [step, cancel]
    split
    · exact ⟨rfl, rfl⟩
    · exact ⟨hremoved, rfl⟩
    · exact ⟨hremoved, rfl⟩
  | release accepts name =>
    have hremoved := Table.get?_remove_of_ne p.leases (hne name rfl)
    simp only [step, release]
    split
    · exact ⟨rfl, rfl⟩
    · split <;> exact ⟨rfl, hremoved⟩
  | corrupt name =>
    simp only [step, corrupt]
    split
    · exact ⟨rfl, rfl⟩
    · exact ⟨rfl, Table.get?_put_of_ne _ _ (hne name rfl)⟩
  | dispose => exact ⟨rfl, rfl⟩

end Exclusive

namespace Shared

variable {p : Shared} {other : String} {slot : ℕ}

/-! ### Who does not queue -/

/-- Nobody queues under a name. -/
def Unqueued (p : Shared) (other : String) : Prop := ∀ ticket, (other, .queued ticket) ∉ p.borrows

theorem unqueued_of_none (h : p.borrows.get? other = none) : p.Unqueued other := fun _ hmem =>
  Table.get?_eq_none_iff.mp h (List.mem_map_of_mem hmem)

theorem unqueued_of_get? (hd : p.borrows.Distinct) {borrow : SharedBorrow} (h : p.borrows.get? other = some borrow)
    (hborrow : borrow.isQueued = false) : p.Unqueued other := by
  intro ticket hmem
  rw [(hd.get?_eq_some_iff).mpr hmem, Option.some.injEq] at h
  rw [← h] at hborrow
  simp [SharedBorrow.isQueued] at hborrow

theorem Unqueued.waiter?_ne (h : p.Unqueued other) (ticket : ℕ) : p.waiter? ticket ≠ some other := by
  intro hwaiter
  obtain ⟨entry, hfind, rfl⟩ := Option.map_eq_some_iff.mp hwaiter
  have hqueued : entry.2 = .queued ticket := by simpa using List.find?_some hfind
  exact h ticket (hqueued ▸ List.mem_of_find?_eq_some hfind)

theorem Unqueued.without (h : p.Unqueued other) (name : String) : (p.without name).Unqueued other :=
  fun ticket hmem => h ticket (List.mem_filter.mp hmem).1

theorem borrows_handOn (h : p.Unqueued other) (slot : ℕ) (queue : List ℕ) :
    (p.handOn slot queue).borrows.get? other = p.borrows.get? other := by
  rcases handOn_cases p slot queue with ⟨_, ticket, rest, waiter, -, -, hwaiter, e⟩ | ⟨-, e⟩
  · have hne : other ≠ waiter := fun e => h.waiter?_ne ticket (e ▸ hwaiter)
    rw [e]
    exact Table.get?_put_of_ne _ _ hne
  · rw [e]
    rfl

theorem borrows_giveUnit (h : p.Unqueued other) (slot : ℕ) (retire : Bool) :
    (p.giveUnit slot retire).borrows.get? other = p.borrows.get? other := by
  cases hs : p.slot? slot with
  | none => rw [giveUnit, hs]
  | some s =>
    have hretired := (p.retireSlot_parts s).1
    rw [giveUnit_eq hs]
    split
    · exact borrows_handOn h slot p.queue
    split
    · rw [hretired]
    split
    · rw [hretired]
    · next q ha =>
      have hq : q.borrows = p.borrows := (assign?_parts ha).1.trans hretired
      have hunqueued : q.Unqueued other := fun ticket hmem => h ticket (hq ▸ hmem)
      rw [borrows_handOn hunqueued, hq]

section others

variable {made : Creations} {name : String} (hne : other ≠ name)
include hne

theorem borrows_without (p : Shared) : (p.without name).borrows.get? other = p.borrows.get? other := by
  rw [without, Table.get?_remove_of_ne _ hne]

theorem borrows_settle (h : p.Unqueued other) (slot : ℕ) (result : Except ClientError ℕ) :
    (p.settle name slot result).2.borrows.get? other = p.borrows.get? other := by
  cases result with
  | ok item => exact borrows_without hne p
  | error cause => exact (borrows_giveUnit (h.without name) slot true).trans (borrows_without hne p)

theorem borrows_proceed (h : p.Unqueued other) (slot item : ℕ) :
    (p.proceed made name slot item).2.borrows.get? other = p.borrows.get? other := by
  simp only [proceed]
  split
  · exact Table.get?_put_of_ne _ _ hne
  · exact borrows_settle hne (p := p.updateSlot slot _) h slot _

theorem borrows_await (h : p.Unqueued other) (slot : ℕ) (place : Handle) (turn : Semaphore) :
    (p.await made name slot place turn).2.borrows.get? other = p.borrows.get? other := by
  simp only [await]
  split
  · exact borrows_proceed hne (p := { p.updateSlot slot _ with created := p.created + 1 }) h slot _
  · exact Table.get?_put_of_ne _ _ hne

theorem borrows_enter (h : p.Unqueued other) (slot : ℕ) :
    (p.enter made name slot).2.borrows.get? other = p.borrows.get? other := by
  simp only [enter]
  split
  · rfl
  split
  · exact borrows_settle hne h slot _
  · exact borrows_await hne h slot _ _

end others

/-- An operation under one name leaves alone who has another name and does not queue. -/
theorem borrows_step (h : p.Unqueued other) {event : Event} (hne : event.name? ≠ some other) :
    (p.step event).borrows.get? other = p.borrows.get? other := by
  have hne : ∀ name, event.name? = some name → other ≠ name := fun name h e => hne (by rw [h, e])
  cases event with
  | borrow made name =>
    have hne := hne name rfl
    simp only [step, borrow]
    split
    · rfl
    split
    · rfl
    split
    · next q ha =>
      have hq : q.borrows = p.borrows := (assign?_parts ha).1
      have hunqueued : q.Unqueued other := fun ticket hmem => h ticket (hq ▸ hmem)
      rw [borrows_enter hne hunqueued, hq]
    · exact Table.get?_put_of_ne _ _ hne
  | poll made name =>
    have hne := hne name rfl
    simp only [step, poll]
    split
    · rfl
    · rfl
    · exact borrows_without hne p
    · exact borrows_enter hne h _
    · exact borrows_proceed hne h _ _
    · split
      · rfl
      split
      · exact borrows_settle hne h _ _
      · exact borrows_await hne h _ _ _
  | cancel name =>
    have hgone := borrows_without (hne name rfl) p
    have hwithout := h.without name
    simp only [step, cancel]
    split
    · rfl
    split
    · exact hgone
    · exact hgone
    · exact (borrows_giveUnit hwithout _ _).trans hgone
    · exact (borrows_giveUnit (p := (p.without name).updateSlot _ _) hwithout _ _).trans hgone
    · exact (borrows_giveUnit (p := (p.without name).updateSlot _ _) hwithout _ _).trans hgone
  | release accepts name =>
    simp only [step, release]
    split
    · rfl
    · exact borrows_giveUnit (p := { p with leases := p.leases.remove name }) h _ _
  | corrupt name =>
    simp only [step, corrupt]
    split <;> rfl
  | dispose =>
    rw [step, dispose_borrows, Table.get?_map]
    cases hget : p.borrows.get? other with
    | none => rfl
    | some borrow =>
      cases borrow with
      | queued ticket => exact absurd (Table.mem_of_get? hget) (h ticket)
      | _ => rfl

end Shared

/-! ### Either kind -/

/-- One operation. -/
def step : Pool → Shared.Event → Pool
  | exclusive p, event => exclusive (p.step event)
  | shared p, event => shared (p.step event)

/-- There is a lease of an item under a name. -/
def Leased : Pool → String → ℕ → Prop
  | exclusive p, name, item => p.Leased name item
  | shared p, name, item => p.Leased name item

/-- There is a borrower under a name. -/
def Borrows : Pool → String → Prop
  | exclusive p, name => p.borrows.has name = true
  | shared p, name => p.borrows.has name = true

variable (p : Pool) (made : Creations) (name : String)

theorem borrow_snd : (p.borrow made name).2 = p.step (.borrow made name) := by
  cases p <;> rfl

theorem poll_snd : (p.poll made name).2 = p.step (.poll made name) := by
  cases p <;> rfl

theorem cancel_snd : (p.cancel name).2 = p.step (.cancel name) := by
  cases p <;> rfl

theorem release_snd (accepts : ℕ → Bool) : (p.release accepts name).2 = p.step (.release accepts name) := by
  cases p <;> rfl

theorem corrupt_snd : (p.corrupt name).2 = p.step (.corrupt name) := by
  cases p <;> rfl

theorem dispose_eq : p.dispose = p.step .dispose := by
  cases p <;> rfl

variable {p made name} {item : ℕ}

theorem leased_borrow (h : (p.borrow made name).1 = .leased item) : (p.borrow made name).2.Leased name item := by
  cases p with
  | exclusive p => exact ⟨_, Exclusive.leased_borrow h, rfl⟩
  | shared p =>
    obtain ⟨slot, hget⟩ := Shared.leased_borrow h
    exact ⟨_, hget, rfl⟩

theorem leased_poll (h : (p.poll made name).1 = .leased item) : (p.poll made name).2.Leased name item := by
  cases p with
  | exclusive p => exact ⟨_, Exclusive.leased_poll h, rfl⟩
  | shared p =>
    obtain ⟨slot, hget⟩ := Shared.leased_poll h
    exact ⟨_, hget, rfl⟩

/-- An operation under one name leaves the leases of other names alone. -/
theorem Shared.leases_step (p : Shared) {event : Event} {other : String} (hne : event.name? ≠ some other) :
    (p.step event).leases.get? other = p.leases.get? other := by
  have hcarried : ∀ (made : Creations) {comes : ℕ → Prop} {name : String}, event.name? = some name →
      Carries made comes name p (p.step event) → (p.step event).leases.get? other = p.leases.get? other :=
    fun _ _ _ hname hcarries => hcarries.leases other fun e => hne (hname.trans (congrArg some e.symm))
  cases event with
  | borrow made name => exact hcarried made rfl (p.carries_borrow made name)
  | poll made name => exact hcarried made rfl (p.carries_poll made name)
  | cancel name => exact hcarried (fun _ => none) rfl (p.carries_cancel (p.Comes name) name)
  | release accepts name => exact hcarried (fun _ => none) rfl (p.carries_release (p.Comes name) accepts name)
  | corrupt name => exact hcarried (fun _ => none) rfl (p.carries_corrupt (p.Comes name) name)
  | dispose => rfl

/-- Who has a lease keeps it while others do what they do. -/
theorem leased_step {event : Shared.Event} (hne : event.name? ≠ some name) :
    (p.step event).Leased name item ↔ p.Leased name item := by
  cases p with
  | exclusive p => simp only [step, Leased, Exclusive.Leased, (p.sameUnder_step hne).leases]
  | shared p => simp only [step, Leased, Shared.Leased, p.leases_step hne]

/-- Who has a lease has it when it is marked corrupted. -/
theorem leased_corrupt (h : p.Leased name item) : (p.corrupt name).2.Leased name item := by
  cases p with
  | exclusive p =>
    obtain ⟨lease, hget, rfl⟩ := h
    simp only [corrupt, Exclusive.corrupt, hget]
    exact ⟨_, Table.get?_put_self _ _ _, rfl⟩
  | shared p =>
    obtain ⟨lease, hget, rfl⟩ := h
    simp only [corrupt, Shared.corrupt, hget]
    exact ⟨_, Table.get?_put_self _ _ _, rfl⟩

/-- There is one lease under a name. -/
theorem Leased.unique {other : ℕ} (h : p.Leased name item) (h' : p.Leased name other) : item = other := by
  cases p with
  | exclusive p =>
    obtain ⟨lease, hget, rfl⟩ := h
    obtain ⟨lease', hget', rfl⟩ := h'
    rw [Option.some.inj (hget.symm.trans hget')]
  | shared p =>
    obtain ⟨lease, hget, rfl⟩ := h
    obtain ⟨lease', hget', rfl⟩ := h'
    rw [Option.some.inj (hget.symm.trans hget')]

/-- An operation under one name makes nobody else a borrower. -/
theorem borrows_step {event : Shared.Event} (hne : event.name? ≠ some name) (h : (p.step event).Borrows name) :
    p.Borrows name := by
  cases p with
  | exclusive p =>
    rw [step, Borrows, Table.has, (p.sameUnder_step hne).borrows] at h
    exact h
  | shared p =>
    by_contra hnone
    have hget : p.borrows.get? name = none := Table.has_eq_false_iff.mp (Bool.not_eq_true _ ▸ hnone)
    rw [step, Borrows, Table.has, Shared.borrows_step (Shared.unqueued_of_none hget) hne, hget] at h
    exact Bool.false_ne_true h

end MemcachedClient.Pool
