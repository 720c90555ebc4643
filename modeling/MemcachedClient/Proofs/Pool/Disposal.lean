import MemcachedClient.Proofs.Pool.Exclusive.Line
import MemcachedClient.Proofs.Pool.Spent

/-!
# Borrowers of a pool that is disposed

Disposing a pool turns away who borrows afterwards and who queues. Whoever runs a creation by then goes on with it; so
does, in a shared pool, whoever has been given a unit of a slot, even if it has not looked yet, and it may start a
creation anew. An exclusive pool looks again whether it was disposed when a borrower gets its unit of capacity; a shared
one does not.

So everybody who borrows from a pool that is disposed is turned away, nothing is created any more and no lease is
granted (`Ends`), exactly when nobody was on the way to an item by then (`ends_iff`).
-/

namespace MemcachedClient.Pool

/-- From `p` to `q` nothing is created, and no lease is granted. -/
structure Rests (p q : Pool) : Prop where
  /-- Nothing is created. -/
  created : q.created = p.created
  /-- No lease is granted. -/
  leases : ∀ name item, q.Leased name item → p.Leased name item

namespace Rests

variable {p q r : Pool}

theorem refl (p : Pool) : Rests p p := ⟨rfl, fun _ _ h => h⟩

theorem trans (h : Rests p q) (h' : Rests q r) : Rests p r :=
  ⟨h'.created.trans h.created, fun name item hlease => h.leases name item (h'.leases name item hlease)⟩

end Rests

/-! ### Exclusive pools -/

namespace Exclusive

variable {p : Exclusive} {made : Creations} {name : String}

/-- A borrower runs the creation of an item. -/
def Engaged (p : Exclusive) (name : String) : Prop := ∃ item, p.borrows.get? name = some (.creating item)

/-- A borrower waits for a unit of capacity, and none is there for it. -/
def AwaitsUnit (p : Exclusive) (name : String) : Prop :=
  ∃ units place, p.capacity = some units ∧ p.borrows.get? name = some (.waiting place) ∧ (units.poll place).1 = false

/-- The pool was disposed, and nobody runs a creation. -/
structure Closing (p : Exclusive) : Prop where
  /-- The pool was disposed. -/
  disposed : p.disposed = true
  /-- Nobody runs a creation. -/
  idle : ∀ name, ¬ p.Engaged name

namespace Closing

theorem serve (h : p.Closing) (made : Creations) (name : String) : p.serve made name = p.refuse name .disposed :=
  if_pos h.disposed

theorem borrow (h : p.Closing) (made : Creations) (name : String) :
    p.borrow made name = (.absent, p) ∨ p.borrow made name = (.failed .disposed, p) := by
  rw [Exclusive.borrow]
  split
  · exact Or.inl rfl
  · exact Or.inr (if_pos h.disposed)

/-- Fewer borrowers. -/
theorem without (h : p.Closing) (name : String) : (p.without name).Closing where
  disposed := h.disposed
  idle other := by
    rintro ⟨item, hget⟩
    exact h.idle other ⟨item, Table.get?_of_get?_remove hget⟩

theorem congr (h : p.Closing) {q : Exclusive} (hdisposed : q.disposed = p.disposed) (hb : q.borrows = p.borrows) :
    q.Closing :=
  ⟨hdisposed.trans h.disposed, fun name => by
    rintro ⟨item, hget⟩
    exact h.idle name ⟨item, hb ▸ hget⟩⟩

theorem refuse (h : p.Closing) (name : String) (cause : ClientError) : (p.refuse name cause).2.Closing := by
  have hback : p.giveBack.Closing := h.congr rfl rfl
  exact hback.without name

/-- A borrower that gets its unit is refused; another waits on. -/
theorem await (h : p.Closing) (made : Creations) (name : String) (place : Handle) (units : Semaphore) :
    (p.await made name place units).2.Closing ∧
      Rests (.exclusive p) (.exclusive (p.await made name place units).2) ∧
      (p.await made name place units).1 = if (units.poll place).1 = true then .failed .disposed else .pending := by
  have hset : Closing { p with capacity := some (units.poll place).2.2 } := h.congr rfl rfl
  simp only [Exclusive.await, hset.serve]
  split
  · exact ⟨hset.refuse name .disposed, ⟨rfl, fun _ _ h => h⟩, rfl⟩
  · refine ⟨⟨h.disposed, fun other => ?_⟩, ⟨rfl, fun _ _ h => h⟩, rfl⟩
    rintro ⟨item, hget⟩
    rcases Table.eq_or_of_get?_put hget with ⟨-, hwaits⟩ | ⟨-, hget⟩
    · simp at hwaits
    · exact h.idle other ⟨item, hget⟩

/-- Every operation leaves the pool closing. -/
theorem step (h : p.Closing) (event : Shared.Event) :
    (p.step event).Closing ∧ Rests (.exclusive p) (.exclusive (p.step event)) := by
  cases event with
  | borrow made name =>
    rcases h.borrow made name with e | e <;> rw [Exclusive.step, e] <;> exact ⟨h, .refl _⟩
  | poll made name =>
    simp only [Exclusive.step, Exclusive.poll]
    split
    · exact ⟨h, .refl _⟩
    · next item hget => exact absurd ⟨item, hget⟩ (h.idle name)
    · split
      · exact ⟨h, .refl _⟩
      · exact ⟨(h.await made name _ _).1, (h.await made name _ _).2.1⟩
  | cancel name =>
    simp only [Exclusive.step, cancel]
    split
    · exact ⟨h, .refl _⟩
    · next item hget => exact absurd ⟨item, hget⟩ (h.idle name)
    · exact ⟨(h.without name).congr rfl rfl, rfl, fun _ _ h => h⟩
  | release accepts name =>
    have hleases : ∀ {other item} {q : Exclusive}, q.leases = p.leases.remove name → q.Leased other item →
        p.Leased other item := by
      rintro other item q hq ⟨lease, hget, hitem⟩
      rw [hq] at hget
      exact ⟨lease, Table.get?_of_get?_remove hget, hitem⟩
    simp only [Exclusive.step, release]
    split
    · exact ⟨h, .refl _⟩
    · split <;> exact ⟨h.congr rfl rfl, rfl, fun _ _ => hleases rfl⟩
  | corrupt name =>
    simp only [Exclusive.step, corrupt]
    split
    · exact ⟨h, .refl _⟩
    · next old hold =>
      refine ⟨h.congr rfl rfl, rfl, fun other item => ?_⟩
      rintro ⟨lease, hget, rfl⟩
      rcases Table.eq_or_of_get?_put hget with ⟨rfl, rfl⟩ | ⟨-, hget⟩
      · exact ⟨old, hold, rfl⟩
      · exact ⟨lease, hget, rfl⟩
  | dispose => exact ⟨⟨rfl, h.idle⟩, rfl, fun _ _ h => h⟩

/-- A borrower for which a unit is there is refused when it looks. -/
theorem poll_of_taken (h : p.Closing) {units : Semaphore} {place : Handle} (hcap : p.capacity = some units)
    (hget : p.borrows.get? name = some (.waiting place)) (htaken : (units.poll place).1 = true) (made : Creations) :
    (p.poll made name).1 = .failed .disposed := by
  simp only [Exclusive.poll, hget, hcap]
  exact (h.await made name place units).2.2.trans (if_pos htaken)

/-- A borrower is refused when it looks, or waits for its unit. -/
theorem poll (h : p.Closing) {bounded : Bool} (hl : Lined bounded p) (made : Creations)
    (hborrows : p.borrows.has name = true) :
    (p.poll made name).1 = .failed .disposed ∨ (p.poll made name).1 = .pending ∧ p.AwaitsUnit name := by
  obtain ⟨borrow, hget⟩ := Table.has_eq_true_iff.mp hborrows
  cases borrow with
  | creating item => exact absurd ⟨item, hget⟩ (h.idle name)
  | waiting place =>
    have hsome : p.capacity.isSome = true := hl.capacity.trans (hl.waits name place hget)
    obtain ⟨units, hcap⟩ := Option.isSome_iff_exists.mp hsome
    cases htaken : (units.poll place).1 with
    | true => exact Or.inl (h.poll_of_taken hcap hget htaken made)
    | false =>
      refine Or.inr ⟨?_, units, place, hcap, hget, htaken⟩
      simp only [Exclusive.poll, hget, hcap]
      exact (h.await made name place units).2.2.trans (if_neg (by simp [htaken]))

end Closing

/-- A pool as it is after a run. -/
def Regular (p : Exclusive) : Prop :=
  ∃ bounded, Lined bounded p ∧
    (bounded = true → ∃ k items, 0 < k ∧ Placed items p .empty ∧ Balanced k p .empty)

namespace Regular

theorem ofOptions (options : ExclusiveOptions) : Regular (Exclusive.ofOptions options) := by
  refine ⟨_, .ofOptions options, fun hbounded => ?_⟩
  have hpos : 0 < options.maxCount := Nat.pos_of_ne_zero (by simpa using hbounded)
  exact ⟨options.maxCount, [], hpos, placed_ofOptions options, balanced_ofOptions hpos⟩

theorem step (h : p.Regular) (event : Shared.Event) : (p.step event).Regular := by
  obtain ⟨bounded, hl, hbounded⟩ := h
  refine ⟨bounded, hl.step event, fun hb => ?_⟩
  obtain ⟨k, items, hk, hp, hb⟩ := hbounded hb
  exact ⟨k, _, hk, placed_step hp event, balanced_step hb hp event⟩

/-- When no lease is left, one of the borrowers is refused when it looks. -/
theorem exists_refused (h : p.Regular) (hc : p.Closing) (hleases : ∀ name item, ¬ p.Leased name item)
    (hborrows : ∃ name, p.borrows.has name = true) :
    ∃ name, p.borrows.has name = true ∧ ∀ made, (p.poll made name).1 = .failed .disposed := by
  obtain ⟨bounded, hl, hbounded⟩ := h
  obtain ⟨name, borrow, hget⟩ : ∃ name borrow, p.borrows.get? name = some borrow := by
    obtain ⟨name, hhas⟩ := hborrows
    exact ⟨name, Table.has_eq_true_iff.mp hhas⟩
  have hcreating : ∀ name item, p.borrows.get? name ≠ some (.creating item) :=
    fun name item hget => hc.idle name ⟨item, hget⟩
  cases borrow with
  | creating item => exact absurd hget (hcreating name item)
  | waiting place =>
    obtain rfl := hl.waits name place hget
    obtain ⟨k, items, hk, hp, hb⟩ := hbounded rfl
    have hnone : p.leases = [] := by
      rw [List.eq_nil_iff_forall_not_mem]
      rintro ⟨other, lease⟩ hmem
      exact hleases other lease.item ⟨lease, hp.leases.get?_of_mem hmem, rfl⟩
    obtain ⟨units, other, place', hcap, hget', htaken⟩ :=
      exists_unit hl hb hp hk hcreating hnone ⟨name, _, hget⟩
    exact ⟨other, Table.has_eq_true_iff.mpr ⟨_, hget'⟩, hc.poll_of_taken hcap hget' htaken⟩

end Regular

end Exclusive

/-! ### Shared pools -/

namespace Shared

variable {p : Shared} {made : Creations} {name : String} {slot : ℕ}

/-- A borrower has been given a unit of a slot. -/
def Engaged (p : Shared) (name : String) : Prop :=
  ∃ borrow slot, p.borrows.get? name = some borrow ∧ borrow.slot? = some slot

/-- The pool was disposed, and whoever borrows was turned away. -/
structure Closing (p : Shared) : Prop where
  /-- The pool was disposed. -/
  disposed : p.disposed = true
  /-- Whoever borrows was turned away. -/
  refused : ∀ name borrow, p.borrows.get? name = some borrow → borrow = .refused

namespace Closing

theorem borrow (h : p.Closing) (made : Creations) (name : String) :
    p.borrow made name = (.absent, p) ∨ p.borrow made name = (.failed .disposed, p) := by
  rw [Shared.borrow]
  split
  · exact Or.inl rfl
  · exact Or.inr (if_pos h.disposed)

theorem poll (h : p.Closing) (made : Creations) (hborrows : p.borrows.has name = true) :
    p.poll made name = (.failed .disposed, p.without name) := by
  obtain ⟨borrow, hget⟩ := Table.has_eq_true_iff.mp hborrows
  obtain rfl := h.refused name borrow hget
  simp only [Shared.poll, hget]
  rfl

theorem without (h : p.Closing) (name : String) : (p.without name).Closing where
  disposed := h.disposed
  refused other borrow hget := h.refused other borrow (Table.get?_of_get?_remove hget)

theorem unqueued (h : p.Closing) (hd : p.borrows.Distinct) (name : String) : p.Unqueued name := by
  intro ticket hmem
  have := h.refused name _ (hd.get?_of_mem hmem)
  simp at this

/-- Every operation leaves the pool closing. -/
theorem step (h : p.Closing) (hb : Balanced p) (event : Event) :
    (p.step event).Closing ∧ Rests (.shared p) (.shared (p.step event)) := by
  cases event with
  | borrow made name =>
    rcases h.borrow made name with e | e <;> rw [Shared.step, e] <;> exact ⟨h, .refl _⟩
  | poll made name =>
    cases hhas : p.borrows.has name with
    | false =>
      rw [Shared.step, Shared.poll, Table.has_eq_false_iff.mp hhas]
      exact ⟨h, .refl _⟩
    | true =>
      rw [Shared.step, h.poll made hhas]
      exact ⟨h.without name, rfl, fun _ _ h => h⟩
  | cancel name =>
    simp only [Shared.step, cancel]
    split
    · exact ⟨h, .refl _⟩
    · next borrow hget =>
      obtain rfl := h.refused name borrow hget
      exact ⟨h.without name, rfl, fun _ _ h => h⟩
  | release accepts name =>
    have hdisposed : (p.step (.release accepts name)).disposed = p.disposed := (hb.alters_step (by simp)).disposed
    have hcreated : (p.step (.release accepts name)).created = p.created := p.created_step (by simp) (by simp)
    refine ⟨⟨hdisposed.trans h.disposed, fun other borrow hget => ?_⟩, hcreated, fun other item => ?_⟩
    · simp only [Shared.step, release] at hget
      split at hget
      · exact h.refused other borrow hget
      · have hunqueued : Unqueued { p with leases := p.leases.remove name } other := h.unqueued hb.books.borrows other
        rw [borrows_giveUnit hunqueued] at hget
        exact h.refused other borrow hget
    · rintro ⟨lease, hget, hitem⟩
      simp only [Shared.step, release] at hget
      split at hget
      · exact ⟨lease, hget, hitem⟩
      · rw [leases_giveUnit] at hget
        exact ⟨lease, Table.get?_of_get?_remove hget, hitem⟩
  | corrupt name =>
    simp only [Shared.step, corrupt]
    split
    · exact ⟨h, .refl _⟩
    · next old hold =>
      refine ⟨⟨h.disposed, h.refused⟩, rfl, fun other item => ?_⟩
      rintro ⟨lease, hget, rfl⟩
      rcases Table.eq_or_of_get?_put hget with ⟨rfl, rfl⟩ | ⟨-, hget⟩
      · exact ⟨old, hold, rfl⟩
      · exact ⟨lease, hget, rfl⟩
  | dispose =>
    refine ⟨⟨rfl, fun other borrow hget => ?_⟩, rfl, fun _ _ h => h⟩
    rw [Shared.step, dispose_borrows, Table.get?_map] at hget
    obtain ⟨old, hold, rfl⟩ := Option.map_eq_some_iff.mp hget
    obtain rfl := h.refused other old hold
    rfl

end Closing

/-- Who has a unit of a slot is not turned away when it looks. -/
theorem report_settle_ne (p : Shared) (name : String) (slot : ℕ) (result : Except ClientError ℕ) :
    (p.settle name slot result).1 ≠ .failed .disposed := by
  cases result <;> simp [settle]

theorem report_proceed_ne (p : Shared) (made : Creations) (name : String) (slot item : ℕ) :
    (p.proceed made name slot item).1 ≠ .failed .disposed := by
  simp only [proceed]
  split
  · simp
  · exact report_settle_ne _ name slot _

theorem report_await_ne (p : Shared) (made : Creations) (name : String) (slot : ℕ) (place : Handle)
    (turn : Semaphore) : (p.await made name slot place turn).1 ≠ .failed .disposed := by
  simp only [await]
  split
  · exact report_proceed_ne _ made name slot _
  · simp

theorem report_poll_ne (h : p.Engaged name) (made : Creations) : (p.poll made name).1 ≠ .failed .disposed := by
  obtain ⟨borrow, slot, hget, hslot⟩ := h
  cases borrow with
  | queued ticket => simp [SharedBorrow.slot?] at hslot
  | refused => simp [SharedBorrow.slot?] at hslot
  | assigned slot =>
    simp only [poll, hget, enter]
    split
    · simp
    split
    · exact report_settle_ne p name _ _
    · exact report_await_ne p made name _ _ _
  | awaiting slot place =>
    simp only [poll, hget]
    split
    · simp
    split
    · exact report_settle_ne p name _ _
    · exact report_await_ne p made name _ _ _
  | creating slot item =>
    simp only [poll, hget]
    exact report_proceed_ne p made name _ _

/-- When a pool is disposed of which nobody has been given a unit, everybody is turned away. -/
theorem closing_dispose (h : ∀ name, ¬ p.Engaged name) : p.dispose.Closing := by
  refine ⟨rfl, fun name borrow hget => ?_⟩
  rw [dispose_borrows, Table.get?_map] at hget
  obtain ⟨old, hold, rfl⟩ := Option.map_eq_some_iff.mp hget
  cases old with
  | queued ticket => rfl
  | refused => rfl
  | assigned slot => exact absurd ⟨_, slot, hold, rfl⟩ (h name)
  | awaiting slot place => exact absurd ⟨_, slot, hold, rfl⟩ (h name)
  | creating slot item => exact absurd ⟨_, slot, hold, rfl⟩ (h name)

/-- Who has been given a unit has it when the pool is disposed. -/
theorem engaged_dispose (h : p.Engaged name) : p.dispose.Engaged name := by
  obtain ⟨borrow, slot, hget, hslot⟩ := h
  refine ⟨borrow.turnedAway, slot, ?_, ?_⟩
  · rw [dispose_borrows, Table.get?_map, hget]
    rfl
  · rw [SharedBorrow.slot?_turnedAway]
    exact hslot

end Shared

/-! ### Either kind -/

/-- The options of a pool of either kind. -/
inductive Options where
  /-- The options of a pool that lends each item to one borrower at a time. -/
  | exclusive (options : ExclusiveOptions)
  /-- The kind of item and the options of a pool that lends each item to several. -/
  | shared (kind : String) (options : SharedOptions)

/-- An empty pool. -/
def ofOptions : Options → Pool
  | .exclusive options => exclusive (.ofOptions options)
  | .shared kind options => shared (.ofOptions kind options)

/-- The pool after some operations. -/
def run (p : Pool) (events : List Shared.Event) : Pool := events.foldl step p

/-- A borrower is on its way to an item: it runs a creation, or it has been given a unit of a slot. -/
def Engaged : Pool → String → Prop
  | exclusive p, name => p.Engaged name
  | shared p, name => p.Engaged name

/-- A borrower of an exclusive pool waits for a unit of capacity, and none is there for it. -/
def AwaitsUnit : Pool → String → Prop
  | exclusive p, name => p.AwaitsUnit name
  | shared _, _ => False

/-- Everybody who borrows is turned away. -/
structure TurnsAway (p : Pool) : Prop where
  /-- Who begins to borrow fails, unless the name is in use. -/
  borrow : ∀ made name, (p.borrow made name).1 = .absent ∨ (p.borrow made name).1 = .failed .disposed
  /-- A borrower that looks fails, unless it waits for a unit of capacity. -/
  poll : ∀ made name, p.Borrows name → (p.poll made name).1 = .failed .disposed ∨
    (p.poll made name).1 = .pending ∧ p.AwaitsUnit name
  /-- When no lease is left, one of those who still borrow fails when it looks. -/
  next : (∀ name item, ¬ p.Leased name item) → (∃ name, p.Borrows name) →
    ∃ name, p.Borrows name ∧ ∀ made, (p.poll made name).1 = .failed .disposed

/-- Whatever happens, everybody who borrows is turned away, nothing is created and no lease is granted. -/
def Ends (p : Pool) : Prop := ∀ more, (p.run more).TurnsAway ∧ Rests p (p.run more)

/-- A pool as it is after a run. -/
def Regular : Pool → Prop
  | exclusive p => p.Regular
  | shared p => p.Balanced

/-- The pool was disposed, and nobody is on the way to an item. -/
def Closing : Pool → Prop
  | exclusive p => p.Closing
  | shared p => p.Closing

section

variable {p : Pool} {name : String}

theorem Regular.step (h : p.Regular) (event : Shared.Event) : (p.step event).Regular := by
  cases p with
  | exclusive p => exact Exclusive.Regular.step h event
  | shared p => exact Shared.Balanced.step h event

theorem regular_run (options : Options) (events : List Shared.Event) : ((ofOptions options).run events).Regular := by
  have hrun : ∀ p : Pool, p.Regular → (p.run events).Regular := by
    induction events with
    | nil => exact fun _ h => h
    | cons event events ih => exact fun p h => ih _ (h.step event)
  refine hrun _ ?_
  cases options with
  | exclusive options => exact .ofOptions options
  | shared kind options => exact .ofOptions kind options

theorem Closing.step (h : p.Closing) (hr : p.Regular) (event : Shared.Event) :
    (p.step event).Closing ∧ Rests p (p.step event) := by
  cases p with
  | exclusive p => exact Exclusive.Closing.step h event
  | shared p => exact Shared.Closing.step h hr event

theorem Closing.turnsAway (h : p.Closing) (hr : p.Regular) : p.TurnsAway := by
  cases p with
  | exclusive p =>
    refine ⟨fun made name => ?_, fun made name hborrows => ?_, fun hleases hborrows => ?_⟩
    · exact (Exclusive.Closing.borrow h made name).imp (congrArg Prod.fst) (congrArg Prod.fst)
    · obtain ⟨bounded, hl, -⟩ := hr
      exact Exclusive.Closing.poll h hl made hborrows
    · exact Exclusive.Regular.exists_refused hr h hleases hborrows
  | shared p =>
    refine ⟨fun made name => ?_, fun made name hborrows => ?_, fun _ hborrows => ?_⟩
    · exact (Shared.Closing.borrow h made name).imp (congrArg Prod.fst) (congrArg Prod.fst)
    · exact Or.inl (congrArg Prod.fst (Shared.Closing.poll h made hborrows))
    · obtain ⟨name, hborrows⟩ := hborrows
      exact ⟨name, hborrows, fun made => congrArg Prod.fst (Shared.Closing.poll h made hborrows)⟩

/-- A pool that is closing ends. -/
theorem Closing.ends (h : p.Closing) (hr : p.Regular) : p.Ends := by
  intro more
  have hrun : ∀ p : Pool, p.Closing → p.Regular →
      ((p.run more).Closing ∧ (p.run more).Regular) ∧ Rests p (p.run more) := by
    induction more with
    | nil => exact fun p h hr => ⟨⟨h, hr⟩, .refl p⟩
    | cons event more ih =>
      intro p h hr
      obtain ⟨hstep, hrests⟩ := h.step hr event
      obtain ⟨hlast, hrests'⟩ := ih _ hstep (hr.step event)
      exact ⟨hlast, hrests.trans hrests'⟩
  obtain ⟨⟨hclosing, hregular⟩, hrests⟩ := hrun p h hr
  exact ⟨hclosing.turnsAway hregular, hrests⟩

/-- If nobody is on the way to an item when a pool is disposed, the pool is closing. -/
theorem closing_dispose (h : ∀ name, ¬ p.Engaged name) : (p.step .dispose).Closing := by
  cases p with
  | exclusive p => exact ⟨rfl, h⟩
  | shared p => exact Shared.closing_dispose h

/-- Who is on the way to an item when a pool is disposed is not turned away. -/
theorem not_turnsAway_of_engaged (h : p.Engaged name) : ¬ (p.step .dispose).TurnsAway := by
  intro haway
  cases p with
  | exclusive p =>
    obtain ⟨item, hget⟩ := h
    have hget : p.dispose.borrows.get? name = some (.creating item) := hget
    -- the creation may end well
    rcases haway.poll (fun _ => some (.ok ())) name (Table.has_eq_true_iff.mpr ⟨_, hget⟩) with hfailed | ⟨hpending, -⟩
    · simp [step, Exclusive.step, poll, Exclusive.poll, hget, Exclusive.proceed, Exclusive.lend] at hfailed
    · simp [step, Exclusive.step, poll, Exclusive.poll, hget, Exclusive.proceed, Exclusive.lend] at hpending
  | shared p =>
    have hengaged := Shared.engaged_dispose h
    obtain ⟨borrow, _, hget, -⟩ := id hengaged
    rcases haway.poll (fun _ => none) name (Table.has_eq_true_iff.mpr ⟨_, hget⟩) with hfailed | ⟨-, hawaits⟩
    · exact Shared.report_poll_ne hengaged (fun _ => none) hfailed
    · exact hawaits

end

/-- **Who borrows from a pool that is disposed is turned away**, in a pool of either kind and after any run: who begins
afterwards, and who has not finished by then, at the latest when no lease is left; nothing is created any more, and no
lease is granted. This is so exactly when nobody is on the way to an item when the pool is disposed. -/
theorem ends_iff (options : Options) (events : List Shared.Event) :
    (((ofOptions options).run events).step .dispose).Ends ↔
      ∀ name, ¬ ((ofOptions options).run events).Engaged name := by
  constructor
  · exact fun hends name hengaged => not_turnsAway_of_engaged hengaged (hends []).1
  · exact fun hidle => (closing_dispose hidle).ends ((regular_run options events).step .dispose)

/-- One borrower runs the creation of the only item, and another queues for it; the first is dropped, and the second
has not looked. -/
def handed : List Shared.Event := [.borrow (fun _ => none) "a", .borrow (fun _ => none) "b", .cancel "a"]

/-- The second borrower has been handed the unit. When the pool is disposed and it looks then, it starts a creation
anew, and gets a lease of what that makes. -/
theorem not_ends_of_handed : (((ofOptions (.shared "Probe" ⟨1, 1⟩)).run handed).step .dispose).created = 1 ∧
    ((((ofOptions (.shared "Probe" ⟨1, 1⟩)).run handed).step .dispose).step
      (.poll (fun _ => some (.ok ())) "b")).created = 2 ∧
    ((((ofOptions (.shared "Probe" ⟨1, 1⟩)).run handed).step .dispose).poll (fun _ => some (.ok ())) "b").1 =
      .leased 1 ∧
    ¬ (((ofOptions (.shared "Probe" ⟨1, 1⟩)).run handed).step .dispose).Ends := by
  have hcreated : (((ofOptions (.shared "Probe" ⟨1, 1⟩)).run handed).step .dispose).created = 1 := by decide +kernel
  have hmore : ((((ofOptions (.shared "Probe" ⟨1, 1⟩)).run handed).step .dispose).step
      (.poll (fun _ => some (.ok ())) "b")).created = 2 := by decide +kernel
  refine ⟨hcreated, hmore, by decide +kernel, fun hends => ?_⟩
  have hrests := (hends [.poll (fun _ => some (.ok ())) "b"]).2.created
  rw [hcreated] at hrests
  exact absurd (hmore.symm.trans hrests) (by decide)

end MemcachedClient.Pool
