import MemcachedClient.Proofs.Pool.Lifetimes

/-!
# Who has the items of an exclusive pool

Of the items that an exclusive pool made, each is idle, on one lease, or closed, and that once: this is `Placed`
without anything in hand. A closed item stays closed, so it is never lent again; an item whose lease ends unfit is
closed then. The idle items of a pool that was disposed are closed, and none becomes idle afterwards.

The idle items are a stack. `Exclusive.returned` reads from outside which items an operation made idle, and a run has
the list of all of them; of that list `Stacked` says that it orders the idle items, and hence a borrower that creates
nothing takes the one that was returned last. All this holds after every run, of a pool with a bound or without
(`owned_run`).
-/

namespace MemcachedClient.Pool

/-- Idle items in the order of their return, where `past` lists what was returned, the latest first: an item that is
idle stands where its latest return stands. -/
inductive Stacked : List ℕ → List ℕ → Prop where
  /-- Nothing is idle. -/
  | empty (past : List ℕ) : Stacked [] past
  /-- The item that was returned last is idle. -/
  | push {idle past : List ℕ} {item : ℕ} (stacked : Stacked idle past) (absent : item ∉ idle) :
    Stacked (item :: idle) (item :: past)
  /-- The item that was returned last is not idle any more. -/
  | pass {idle past : List ℕ} {item : ℕ} (stacked : Stacked idle past) (absent : item ∉ idle) :
    Stacked idle (item :: past)

namespace Stacked

variable {idle past : List ℕ} {item : ℕ}

/-- The first of the idle items is the one that was returned last of them. -/
theorem find? (h : Stacked (item :: idle) past) : past.find? (· ∈ item :: idle) = some item := by
  generalize hall : item :: idle = all at h
  induction h with
  | empty past => simp at hall
  | @push below past top _ _ _ =>
    rw [List.find?_cons_of_pos (by simp), (List.cons.inj hall).1]
  | @pass all past top stacked absent ih =>
    rw [List.find?_cons_of_neg (by simpa using absent)]
    exact ih hall

/-- The first of the idle items is taken. -/
theorem tail (h : Stacked (item :: idle) past) : Stacked idle past := by
  generalize hall : item :: idle = all at h
  induction h with
  | empty past => simp at hall
  | @push below past top stacked absent _ =>
    rw [(List.cons.inj hall).2]
    exact stacked.pass absent
  | @pass all past top stacked absent ih =>
    refine (ih hall).pass fun hmem => absent ?_
    rw [← hall]
    exact List.mem_cons_of_mem _ hmem

end Stacked

namespace Exclusive

/-- The items that an operation made idle. -/
def returned (p : Exclusive) (event : Shared.Event) : List ℕ := (p.step event).idle.filter (· ∉ p.idle)

/-- The items that the operations of a run made idle, the latest first, before those of `past`. -/
def returns (p : Exclusive) (past : List ℕ) : List Shared.Event → List ℕ
  | [] => past
  | event :: events => (p.step event).returns (p.returned event ++ past) events

variable {p q : Exclusive} {made : List ℕ} {name : String} {item : ℕ}

/-! ### The stack of idle items -/

/-- What an operation does with the idle items. -/
inductive Turns (p q : Exclusive) : Prop where
  /-- It leaves them alone. -/
  | keeps (idle : q.idle = p.idle) (disposed : q.disposed = p.disposed)
  /-- It takes the first of them. -/
  | takes {item : ℕ} (idle : p.idle = item :: q.idle) (disposed : q.disposed = p.disposed)
  /-- It returns the item of a lease, to a pool that was not disposed. -/
  | gives {name : String} {lease : ExclusiveLease} (gets : p.leases.get? name = some lease)
    (kept : p.disposed = false) (idle : q.idle = lease.item :: p.idle)
  /-- It disposes the pool. -/
  | clears (idle : q.idle = []) (disposed : q.disposed = true)

/-- What else there is in the pool does not matter. -/
theorem Turns.congr (h : Turns p q) {p' : Exclusive} (hidle : p'.idle = p.idle) (hdisposed : p'.disposed = p.disposed)
    (hleases : p'.leases = p.leases) : Turns p' q := by
  cases h with
  | keeps idle disposed => exact .keeps (idle.trans hidle.symm) (disposed.trans hdisposed.symm)
  | takes idle disposed => exact .takes (hidle.trans idle) (disposed.trans hdisposed.symm)
  | gives gets kept idle => exact .gives (hleases ▸ gets) (hdisposed.trans kept) (hidle ▸ idle)
  | clears idle disposed => exact .clears idle disposed

theorem turns_proceed (p : Exclusive) (creations : Creations) (name : String) (item : ℕ) :
    Turns p (p.proceed creations name item).2 := by
  rw [proceed]
  split <;> exact .keeps rfl rfl

theorem turns_serve (p : Exclusive) (creations : Creations) (name : String) :
    Turns p (p.serve creations name).2 := by
  rcases p.serve_cases creations name with ⟨-, e⟩ | ⟨-, ⟨item, idle, hidle, e⟩ | ⟨-, e⟩⟩ <;> rw [e]
  · exact .keeps rfl rfl
  · exact .takes hidle rfl
  · exact (turns_proceed _ creations name p.created).congr rfl rfl rfl

theorem turns_await (p : Exclusive) (creations : Creations) (name : String) (place : Handle) (units : Semaphore) :
    Turns p (p.await creations name place units).2 := by
  simp only [await]
  split
  · exact (turns_serve _ creations name).congr rfl rfl rfl
  · exact .keeps rfl rfl

/-- What every operation does with the idle items. -/
theorem turns_step (p : Exclusive) (event : Shared.Event) : Turns p (p.step event) := by
  cases event with
  | borrow creations name =>
    simp only [step, borrow]
    split
    · exact .keeps rfl rfl
    split
    · exact .keeps rfl rfl
    split
    · exact p.turns_serve creations name
    · exact p.turns_await creations name _ _
  | poll creations name =>
    simp only [step, poll]
    split
    · exact .keeps rfl rfl
    · exact p.turns_proceed creations name _
    · split
      · exact .keeps rfl rfl
      · exact p.turns_await creations name _ _
  | cancel name =>
    simp only [step, cancel]
    split <;> exact .keeps rfl rfl
  | release accepts name =>
    simp only [step, release]
    split
    · exact .keeps rfl rfl
    · next lease hget =>
      split
      · exact .keeps rfl rfl
      · next hfit =>
        rw [Bool.or_eq_true, not_or, Bool.not_eq_true, Bool.not_eq_true] at hfit
        exact .gives hget hfit.2 rfl
  | corrupt name =>
    simp only [step, corrupt]
    split <;> exact .keeps rfl rfl
  | dispose => exact .clears rfl rfl

/-- The number of places at which an item is: it may be idle, on lease or closed. -/
def places (p : Exclusive) (item : ℕ) : ℕ :=
  p.idle.count item + p.leases.count (fun lease => lease.item == item) + p.closed.count item

/-- Each item that was made is at one place, and no other item is anywhere. -/
theorem Placed.places_eq (h : Placed made p .empty) (item : ℕ) : p.places item = made.count item := h.somewhere item

/-- No item is made twice. -/
theorem Placed.nodup (h : Placed made p .empty) : made.Nodup := by
  rw [List.nodup_iff_count_le_one]
  intro item
  have honce := h.once item
  have hstarted : p.started item ≤ 1 := by
    rw [started]
    split <;> omega
  omega

theorem Placed.places_le_one (h : Placed made p .empty) (item : ℕ) : p.places item ≤ 1 := by
  rw [h.places_eq]
  exact List.nodup_iff_count_le_one.mp h.nodup item

theorem Leased.count_pos (h : p.Leased name item) : 0 < p.leases.count fun lease => lease.item == item := by
  obtain ⟨lease, hget, hitem⟩ := h
  exact Table.count_pos_iff.mpr ⟨_, Table.mem_of_get? hget, by simpa using hitem⟩

/-- An item of which there is a lease is not idle. -/
theorem Placed.not_idle_of_leased (h : Placed made p .empty) (hlease : p.Leased name item) : item ∉ p.idle := by
  intro hidle
  have hone := h.places_le_one item
  have hpos := List.count_pos_iff.mpr hidle
  have := hlease.count_pos
  rw [places] at hone
  omega

theorem returned_eq_nil {event : Shared.Event} (h : ∀ item ∈ (p.step event).idle, item ∈ p.idle) :
    p.returned event = [] :=
  List.filter_eq_nil_iff.mpr fun item hitem => by simpa using h item hitem

/-- Every operation keeps the order of the stack. -/
theorem Placed.stacked_step (h : Placed made p .empty) {past : List ℕ} (hs : Stacked p.idle past)
    (event : Shared.Event) : Stacked (p.step event).idle (p.returned event ++ past) := by
  cases p.turns_step event with
  | keeps idle _ =>
    rw [returned_eq_nil fun item hitem => idle ▸ hitem, idle]
    exact hs
  | takes idle _ =>
    rw [returned_eq_nil fun item hitem => idle ▸ List.mem_cons_of_mem _ hitem]
    exact Stacked.tail (idle ▸ hs)
  | @gives name lease gets _ idle =>
    have habsent : lease.item ∉ p.idle := h.not_idle_of_leased ⟨lease, gets, rfl⟩
    have hreturned : p.returned event = [lease.item] := by
      rw [returned, idle, List.filter_cons_of_pos (by simpa using habsent)]
      exact congrArg _ (List.filter_eq_nil_iff.mpr fun item hitem => by simpa using hitem)
    rw [hreturned, idle]
    exact hs.push habsent
  | clears idle _ =>
    rw [idle]
    exact .empty _

theorem Placed.stacked_run (h : Placed made p .empty) {past : List ℕ} (hs : Stacked p.idle past)
    (events : List Shared.Event) : Stacked (p.run events).idle (p.returns past events) := by
  induction events generalizing p made past with
  | nil => exact hs
  | cons event events ih => exact ih (placed_step h event) (h.stacked_step hs event)

/-! ### What is lent -/

/-- An operation lends an item to the borrower whose operation it is. -/
inductive Lends (p : Exclusive) : Shared.Event → ℕ → Prop where
  /-- The borrower starts. -/
  | borrow {creations : Creations} {name : String} {item : ℕ}
    (report : (p.borrow creations name).1 = .leased item) : Lends p (.borrow creations name) item
  /-- The borrower goes on. -/
  | poll {creations : Creations} {name : String} {item : ℕ}
    (report : (p.poll creations name).1 = .leased item) : Lends p (.poll creations name) item

/-- What is lent is on lease then. -/
theorem Lends.leased {event : Shared.Event} (h : p.Lends event item) : ∃ name, (p.step event).Leased name item := by
  cases h with
  | @borrow _ name _ report => exact ⟨name, _, leased_borrow report, rfl⟩
  | @poll _ name _ report => exact ⟨name, _, leased_poll report, rfl⟩

variable {creations : Creations}

/-- A creation that is answered with an item has made it. -/
theorem mem_yield_of_proceed {created : ℕ} (h : (p.proceed creations name created).1 = .leased item) :
    created ∈ creations.yield created := by
  rw [proceed] at h
  split at h
  · simp at h
  · next hok => exact mem_yield_of_ok hok
  · simp [refuse] at h

/-- A borrower that is lent an item and has made none was lent the first of the idle ones. -/
theorem idle_of_serve (h : (p.serve creations name).1 = .leased item)
    (hmakes : p.fresh creations (p.serve creations name).2 = []) : ∃ idle, p.idle = item :: idle := by
  rcases p.serve_cases creations name with ⟨-, e⟩ | ⟨-, ⟨first, idle, hidle, e⟩ | ⟨-, e⟩⟩ <;> rw [e] at h hmakes
  · simp [refuse] at h
  · exact ⟨idle, Report.leased.inj h ▸ hidle⟩
  · rw [fresh_eq_yield (created_proceed _ creations name p.created)] at hmakes
    have hmade := mem_yield_of_proceed h
    rw [hmakes] at hmade
    simp at hmade

theorem idle_of_await {place : Handle} {units : Semaphore}
    (h : (p.await creations name place units).1 = .leased item)
    (hmakes : p.fresh creations (p.await creations name place units).2 = []) : ∃ idle, p.idle = item :: idle := by
  simp only [await] at h hmakes
  split at h
  · next htaken =>
    rw [if_pos htaken] at hmakes
    exact idle_of_serve (p := { p with capacity := some (units.poll place).2.2 }) h hmakes
  · simp at h

theorem idle_of_borrow (h : (p.borrow creations name).1 = .leased item)
    (hmakes : p.makes (.borrow creations name) = []) : ∃ idle, p.idle = item :: idle := by
  simp only [makes, Exclusive.borrow] at h hmakes
  split at h
  · simp at h
  next hnew =>
  rw [if_neg hnew] at hmakes
  split at h
  · simp at h
  next hopen =>
  rw [if_neg hopen] at hmakes
  cases hcap : p.capacity with
  | none =>
    rw [hcap] at h hmakes
    exact idle_of_serve h hmakes
  | some units =>
    rw [hcap] at h hmakes
    exact idle_of_await h hmakes

theorem idle_of_poll (h : (p.poll creations name).1 = .leased item)
    (hmakes : p.makes (.poll creations name) = []) : ∃ idle, p.idle = item :: idle := by
  simp only [makes, Exclusive.poll] at h hmakes
  cases hget : p.borrows.get? name with
  | none => simp [hget] at h
  | some borrow =>
    rw [hget] at h hmakes
    cases borrow with
    | creating created =>
      have hnone : creations.yield created = [] := hmakes
      have hmade := mem_yield_of_proceed h
      rw [hnone] at hmade
      simp at hmade
    | waiting place =>
      cases hcap : p.capacity with
      | none => simp [hcap] at h
      | some units =>
        simp only [hcap] at h hmakes
        exact idle_of_await h hmakes

/-- Who is lent an item by an operation that makes none is lent the first of the idle ones. -/
theorem Lends.idle {event : Shared.Event} (h : p.Lends event item) (hmakes : p.makes event = []) :
    ∃ idle, p.idle = item :: idle := by
  cases h with
  | borrow report => exact idle_of_borrow report hmakes
  | poll report => exact idle_of_poll report hmakes

/-! ### Runs -/

/-- An item is closed and at no other place, and it is not lent. -/
structure Gone (p : Exclusive) (item : ℕ) : Prop where
  /-- It is closed, once. -/
  closed : p.closed.count item = 1
  /-- It is not idle. -/
  idle : item ∉ p.idle
  /-- There is no lease of it. -/
  leases : ∀ name, ¬ p.Leased name item
  /-- No operation lends it. -/
  lends : ∀ event, ¬ p.Lends event item

theorem Placed.gone (h : Placed made p .empty) (hclosed : item ∈ p.closed) : p.Gone item := by
  have hone := h.places_le_one item
  have hpos := List.count_pos_iff.mpr hclosed
  rw [places] at hone
  refine ⟨by omega, fun hidle => ?_, fun name hlease => ?_, fun event hlends => ?_⟩
  · have := List.count_pos_iff.mpr hidle
    omega
  · have := hlease.count_pos
    omega
  · -- it would be closed and on lease after the operation
    obtain ⟨name, hlease⟩ := hlends.leased
    have hpos' := List.count_pos_iff.mpr ((p.closed_step event).subset hclosed)
    have hlater := (placed_step h event).places_le_one item
    have := hlease.count_pos
    rw [places] at hlater
    omega

theorem closed_run (p : Exclusive) (events : List Shared.Event) : p.closed <+: (p.run events).closed := by
  induction events generalizing p with
  | nil => exact List.prefix_rfl
  | cons event events ih => exact (p.closed_step event).trans (ih _)

theorem Placed.run (h : Placed made p .empty) (events : List Shared.Event) :
    ∃ more, Placed more (p.run events) .empty := by
  induction events generalizing p made with
  | nil => exact ⟨made, h⟩
  | cons event events ih => exact ih (placed_step h event)

/-- What is closed is gone for good. -/
theorem Placed.gone_run (h : Placed made p .empty) (hclosed : item ∈ p.closed) (more : List Shared.Event) :
    (p.run more).Gone item := by
  obtain ⟨_, hlater⟩ := h.run more
  exact hlater.gone ((p.closed_run more).subset hclosed)

/-- The pool was disposed, and no item is idle. -/
structure Emptied (p : Exclusive) : Prop where
  /-- The pool was disposed. -/
  disposed : p.disposed = true
  /-- No item is idle. -/
  idle : p.idle = []

theorem Emptied.step (h : p.Emptied) (event : Shared.Event) : (p.step event).Emptied := by
  cases p.turns_step event with
  | keeps idle disposed => exact ⟨disposed.trans h.disposed, idle.trans h.idle⟩
  | takes idle _ =>
    rw [h.idle] at idle
    simp at idle
  | gives _ kept _ =>
    rw [h.disposed] at kept
    simp at kept
  | clears idle disposed => exact ⟨disposed, idle⟩

theorem Emptied.run (h : p.Emptied) (events : List Shared.Event) : (p.run events).Emptied := by
  induction events generalizing p with
  | nil => exact h
  | cons event events ih => exact ih (h.step event)

/-- What a pool keeps of the items that it made, where `past` lists what was returned to it, the latest first. -/
structure Owned (made past : List ℕ) (p : Exclusive) : Prop where
  /-- No item is made twice. -/
  once : made.Nodup
  /-- An item that was made is at one place, and no other item is anywhere. -/
  place : ∀ item, p.places item = if item ∈ made then 1 else 0
  /-- A closed item is gone for good. -/
  closed : ∀ item ∈ p.closed, ∀ more, (p.run more).Gone item
  /-- So is an item whose lease ends when it was marked corrupted or the item is not accepted for further use. -/
  unfit : ∀ accepts name lease, p.leases.get? name = some lease →
    lease.corrupted = true ∨ accepts lease.item = false →
      ∀ more, ((p.step (.release accepts name)).run more).Gone lease.item
  /-- Releasing a lease ends it, and marking it corrupted makes it so. -/
  leases : ∀ accepts name, (p.step (.release accepts name)).leases = p.leases.remove name ∧
    ∀ lease, p.leases.get? name = some lease → (p.step (.corrupt name)).leases.get? name = some ⟨lease.item, true⟩
  /-- When the pool is disposed, nothing is idle any more. -/
  disposed : ∀ more, ((p.step .dispose).run more).idle = []
  /-- Who is lent an item that the operation does not make is lent the one that was returned last of the idle ones. -/
  latest : ∀ event item, p.Lends event item → p.makes event = [] → past.find? (· ∈ p.idle) = some item

/-- An unfit item is closed when its lease ends. -/
theorem mem_closed_of_release {accepts : ℕ → Bool} {lease : ExclusiveLease} (hget : p.leases.get? name = some lease)
    (hunfit : lease.corrupted = true ∨ accepts lease.item = false) :
    lease.item ∈ (p.step (.release accepts name)).closed := by
  have hcond : (lease.corrupted || !accepts lease.item || p.disposed) = true := by
    rcases hunfit with e | e <;> simp [e]
  simp only [step, release, hget, hcond, if_true]
  exact List.mem_append_right _ (List.mem_singleton_self _)

/-- **Every item of an exclusive pool has one owner**, after every run of a pool with a bound or without. -/
theorem owned_run (options : ExclusiveOptions) (events : List Shared.Event) :
    Owned ((ofOptions options).made events) ((ofOptions options).returns [] events)
      ((ofOptions options).run events) := by
  have h := placed_run options events
  have hstacked := (placed_ofOptions options).stacked_run (.empty []) events
  refine ⟨h.nodup, fun item => ?_, fun item hclosed more => h.gone_run hclosed more,
    fun accepts name lease hget hunfit more => ?_,
    fun accepts name => ⟨leases_release _ accepts name, fun lease hget => get?_corrupt hget⟩,
    fun more => ?_, fun event item hlends hmakes => ?_⟩
  · rw [h.places_eq, h.nodup.count]
  · exact (placed_step h _).gone_run (mem_closed_of_release hget hunfit) more
  · exact (Emptied.run ⟨rfl, rfl⟩ more).idle
  · obtain ⟨idle, hidle⟩ := hlends.idle hmakes
    rw [hidle] at hstacked ⊢
    exact hstacked.find?

end Exclusive

end MemcachedClient.Pool
