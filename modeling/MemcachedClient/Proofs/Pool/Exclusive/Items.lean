import MemcachedClient.Proofs.Pool.Exclusive.Run

/-!
# The items of an exclusive pool

An item that was made is idle, or on lease, or closed, and it is at one of these places, once. `Placed` says
so of a pool inside an operation, where the borrower whose operation goes on may have a unit of capacity, a
creation or an item in hand. There is one lemma for each function that such a borrower runs through, and from
these every operation keeps the places (`placed_step`), with the item that it made.
-/

namespace MemcachedClient.Pool

/-- What a borrower has in hand while its operation goes on. -/
inductive Hand where
  /-- Nothing. -/
  | empty
  /-- Its turn to be served, with a unit if the pool is bounded. -/
  | unit
  /-- The same, and the creation of an item. -/
  | creating (item : ℕ)
  /-- The same, and an item. -/
  | having (item : ℕ)

/-- The item in hand. -/
def Hand.item? : Hand → Option ℕ
  | having item => some item
  | _ => none

/-- The item of the creation in hand. -/
def Hand.creating? : Hand → Option ℕ
  | creating item => some item
  | _ => none

@[simp] theorem Hand.creating?_empty : empty.creating? = none := rfl

/-- The item that a borrower creates. -/
def ExclusiveBorrow.item? : ExclusiveBorrow → Option ℕ
  | waiting _ => none
  | creating item => some item

/-- What a borrower has in hand when its operation goes on. -/
def ExclusiveBorrow.hand : ExclusiveBorrow → Hand
  | waiting _ => .unit
  | creating item => .creating item

@[simp] theorem ExclusiveBorrow.item?_hand (borrow : ExclusiveBorrow) : borrow.hand.item? = none := by
  cases borrow <;> rfl

@[simp] theorem ExclusiveBorrow.creating?_hand (borrow : ExclusiveBorrow) :
    borrow.hand.creating? = borrow.item? := by
  cases borrow <;> rfl

namespace Exclusive

/-- The number of times that the creation of an item was started. -/
def started (p : Exclusive) (item : ℕ) : ℕ := if item < p.created then 1 else 0

/-- Of the items that were made each is at one place, and none is made twice. -/
structure Placed (made : List ℕ) (p : Exclusive) (hand : Hand) : Prop where
  /-- Each borrower has a name of its own. -/
  borrows : p.borrows.Distinct
  /-- Each lease has a name of its own. -/
  leases : p.leases.Distinct
  /-- Nobody has a lease and waits for another. -/
  apart : ∀ name, p.borrows.has name = true → p.leases.has name = false
  /-- An item that was made is idle, on lease, closed or in hand, as often as it was made. -/
  somewhere : ∀ item, p.idle.count item + p.leases.count (fun lease => lease.item == item) +
    p.closed.count item + (if hand.item? = some item then 1 else 0) = made.count item
  /-- An item whose creation was started is made, or under creation, and not again; others are not. -/
  once : ∀ item, made.count item + p.borrows.count (fun borrow => borrow.item? == some item) +
    (if hand.creating? = some item then 1 else 0) ≤ p.started item

/-- A borrower whose operation goes on. -/
structure Going (made : List ℕ) (p : Exclusive) (name : String) (hand : Hand) : Prop where
  /-- Each borrower has a name of its own. -/
  borrows : p.borrows.Distinct
  /-- There is no lease under its name. -/
  lease : p.leases.has name = false
  /-- Without the borrower the items are at their places. -/
  placed : Placed made (p.without name) hand

variable {p q : Exclusive} {made : List ℕ} {name : String} {hand : Hand} {item : ℕ}

theorem placed_ofOptions (options : ExclusiveOptions) : Placed [] (ofOptions options) .empty where
  borrows := Table.distinct_nil
  leases := Table.distinct_nil
  apart name h := by simp [ofOptions, Table.has] at h
  somewhere _ := rfl
  once _ := by simp [ofOptions, Table.count, Hand.creating?]

namespace Placed

/-- The capacity does not matter, nor does it matter whether the pool was disposed. -/
theorem congr (h : Placed made p hand) (hb : q.borrows = p.borrows) (hl : q.leases = p.leases)
    (hi : q.idle = p.idle) (hc : q.closed = p.closed) (hn : q.created = p.created) :
    Placed made q hand where
  borrows := hb ▸ h.borrows
  leases := hl ▸ h.leases
  apart := by
    rw [hb, hl]
    exact h.apart
  somewhere := by
    rw [hi, hl, hc]
    exact h.somewhere
  once := by
    rw [hb]
    simpa only [started, hn] using h.once

/-- What is in hand may be given up, but for an item. -/
theorem giveUp (h : Placed made p hand) (hitem : hand.item? = none) : Placed made p .empty where
  borrows := h.borrows
  leases := h.leases
  apart := h.apart
  somewhere other := by
    have := h.somewhere other
    rwa [hitem] at this
  once other := by
    have := h.once other
    simp only [Hand.creating?, reduceCtorEq, if_false]
    omega

/-- Where no creation was started none made an item. -/
theorem withoutFresh (h : Placed made q hand) (hc : q.created = p.created) (creations : Creations) :
    Placed (made ++ p.fresh creations q) q hand := by
  rwa [fresh_eq_nil hc, List.append_nil]

/-- A borrower goes on. -/
theorem going (h : Placed made p .empty) {borrow : ExclusiveBorrow}
    (hget : p.borrows.get? name = some borrow) : Going made p name borrow.hand where
  borrows := h.borrows
  lease := h.apart name (Table.has_eq_true_iff.mpr ⟨borrow, hget⟩)
  placed := by
    refine ⟨h.borrows.remove name, h.leases, fun other hother => h.apart other ?_, fun other => ?_,
      fun other => ?_⟩
    · obtain ⟨entry, hentry⟩ := Table.has_eq_true_iff.mp hother
      simp only [without, Table.get?_remove] at hentry
      split at hentry
      · simp at hentry
      · exact Table.has_eq_true_iff.mpr ⟨entry, hentry⟩
    · rw [ExclusiveBorrow.item?_hand]
      exact h.somewhere other
    · have honce : _ ≤ p.started other := h.once other
      have hcount := h.borrows.count_eq_remove (fun borrow => borrow.item? == some other) hget
      simp only [ExclusiveBorrow.creating?_hand, Hand.creating?_empty, reduceCtorEq,
        if_false] at honce hcount ⊢
      change _ + Table.count _ (p.borrows.remove name) + _ ≤ p.started other
      by_cases e : borrow.item? = some other
      · simp only [e, beq_self_eq_true, Bool.toNat_true, if_true] at hcount ⊢
        omega
      · rw [if_neg e]
        omega

/-- A borrower starts. -/
theorem starts (h : Placed made p .empty) (hb : p.borrows.has name = false)
    (hl : p.leases.has name = false) : Going made p name .unit where
  borrows := h.borrows
  lease := hl
  placed := by
    rw [without_of_get?_eq_none (Table.has_eq_false_iff.mp hb)]
    exact ⟨h.borrows, h.leases, h.apart, h.somewhere, h.once⟩

end Placed

namespace Going

/-- A borrower that stays a borrower. -/
theorem put (borrow : ExclusiveBorrow) (h : Going made p name borrow.hand) :
    Placed made { p with borrows := p.borrows.put name borrow } .empty where
  borrows := h.borrows.put name borrow
  leases := h.placed.leases
  apart other hother := by
    obtain ⟨entry, hentry⟩ := Table.has_eq_true_iff.mp hother
    rcases Table.eq_or_of_get?_put hentry with ⟨rfl, -⟩ | ⟨hne, hold⟩
    · exact h.lease
    · refine h.placed.apart other (Table.has_eq_true_iff.mpr ⟨entry, ?_⟩)
      rwa [without, Table.get?_remove, if_neg hne]
  somewhere other := by
    have := h.placed.somewhere other
    rwa [ExclusiveBorrow.item?_hand] at this
  once other := by
    have honce : _ + Table.count _ (p.borrows.remove name) + _ ≤ p.started other :=
      h.placed.once other
    change _ ≤ p.started other
    simp only [h.borrows.count_put, ExclusiveBorrow.creating?_hand, Hand.creating?_empty, reduceCtorEq,
      if_false] at honce ⊢
    by_cases e : borrow.item? = some other
    · simp only [e, beq_self_eq_true, Bool.toNat_true, if_true] at honce ⊢
      omega
    · rw [if_neg e] at honce
      simp only [beq_eq_false_iff_ne.mpr e, Bool.toNat_false]
      omega

/-- A borrower with an item gets its lease. -/
theorem lend (h : Going made p name (.having item)) : Placed made (p.lend name item).2 .empty where
  borrows := h.borrows.remove name
  leases := h.placed.leases.put name _
  apart other hother := by
    have hold := h.placed.apart other hother
    rw [Table.has_eq_false_iff] at hold ⊢
    rw [Exclusive.lend, Table.get?_put, if_neg]
    · exact hold
    · rintro rfl
      simp [Exclusive.lend, Table.has] at hother
  somewhere other := by
    have hsome := h.placed.somewhere other
    have hnone := Table.remove_of_get?_eq_none (Table.has_eq_false_iff.mp h.lease)
    have hcount := h.placed.leases.count_put (fun lease => lease.item == other) name ⟨item, false⟩
    simp only [without, hnone] at hcount hsome
    simp only [Exclusive.lend, hcount, Hand.item?, reduceCtorEq, if_false, Option.some.injEq] at hsome ⊢
    by_cases e : item = other
    · simp only [e, beq_self_eq_true, Bool.toNat_true, if_true] at hsome ⊢
      omega
    · rw [if_neg e] at hsome
      simp only [beq_eq_false_iff_ne.mpr e, Bool.toNat_false]
      omega
  once := h.placed.once

/-- A borrower that is turned away has no item. -/
theorem refuse (h : Going made p name hand) (hitem : hand.item? = none) (cause : ClientError) :
    Placed made (p.refuse name cause).2 .empty :=
  (h.placed.giveUp hitem).congr rfl rfl rfl rfl rfl

/-- A creation makes its item. -/
theorem yield (h : Going made p name (.creating item)) : Going (made ++ [item]) p name (.having item) where
  borrows := h.borrows
  lease := h.lease
  placed := by
    refine ⟨h.placed.borrows, h.placed.leases, h.placed.apart, fun other => ?_, fun other => ?_⟩
    · have := h.placed.somewhere other
      simp only [Hand.item?, reduceCtorEq, if_false, Option.some.injEq, List.count_append,
        List.count_singleton, beq_iff_eq] at this ⊢
      omega
    · have := h.placed.once other
      simp only [Hand.creating?, reduceCtorEq, if_false, Option.some.injEq, List.count_append,
        List.count_singleton, beq_iff_eq] at this ⊢
      omega

/-- A borrower goes on with its creation. -/
theorem proceed (h : Going made p name (.creating item)) (creations : Creations) :
    Placed (made ++ creations.yield item) (p.proceed creations name item).2 .empty := by
  rw [Exclusive.proceed, Creations.yield]
  cases creations item with
  | none =>
    rw [List.append_nil]
    exact put (.creating item) h
  | some result =>
    cases result with
    | ok => exact h.yield.lend
    | error cause =>
      rw [List.append_nil]
      exact h.refuse rfl cause

/-- A borrower starts a creation, whose number is new. -/
theorem create (h : Going made p name .unit) :
    Going made { p with created := p.created + 1 } name (.creating p.created) where
  borrows := h.borrows
  lease := h.lease
  placed := by
    refine ⟨h.placed.borrows, h.placed.leases, h.placed.apart, h.placed.somewhere, fun other => ?_⟩
    have honce : _ + Table.count _ (p.borrows.remove name) + 0 ≤ p.started other := h.placed.once other
    have hnext : p.started other + (if p.created = other then 1 else 0) =
        if other < p.created + 1 then 1 else 0 := by
      rw [started]
      split_ifs <;> omega
    refine Nat.le_trans ?_ (Nat.le_of_eq hnext)
    simp only [without, Hand.creating?, Option.some.injEq]
    omega

/-- A borrower takes the item that was returned last. -/
theorem take (h : Going made p name .unit) {idle : List ℕ} (hidle : p.idle = item :: idle) :
    Going made { p with idle } name (.having item) where
  borrows := h.borrows
  lease := h.lease
  placed := by
    refine ⟨h.placed.borrows, h.placed.leases, h.placed.apart, fun other => ?_, h.placed.once⟩
    have := h.placed.somewhere other
    simp only [without, hidle, List.count_cons, beq_iff_eq, Hand.item?, reduceCtorEq, if_false,
      Option.some.injEq] at this ⊢
    omega

/-- A borrower whose turn it is. -/
theorem serve (h : Going made p name .unit) (creations : Creations) :
    Placed (made ++ p.fresh creations (p.serve creations name).2) (p.serve creations name).2
      .empty := by
  rcases p.serve_cases creations name with
    ⟨-, e⟩ | ⟨-, ⟨item, idle, hidle, e⟩ | ⟨-, e⟩⟩ <;> rw [e]
  · exact (h.refuse rfl _).withoutFresh rfl creations
  · exact (h.take hidle).lend.withoutFresh rfl creations
  · rw [fresh_eq_yield (created_proceed _ creations name p.created)]
    exact h.create.proceed creations

/-- The capacity does not matter to a borrower. -/
theorem withCapacity (h : Going made p name hand) (capacity : Option Semaphore) :
    Going made { p with capacity } name hand :=
  ⟨h.borrows, h.lease, h.placed.congr rfl rfl rfl rfl rfl⟩

/-- A borrower looks for its unit of capacity. -/
theorem await (h : Going made p name .unit) (creations : Creations) (place : Handle)
    (units : Semaphore) :
    Placed (made ++ p.fresh creations (p.await creations name place units).2)
      (p.await creations name place units).2 .empty := by
  have h' := h.withCapacity (some (units.poll place).2.2)
  rw [Exclusive.await]
  dsimp only
  split
  · exact h'.serve creations
  · exact (put (.waiting (units.poll place).2.1) h').withoutFresh rfl creations

end Going

/-! ### Operations -/

namespace Placed

theorem borrow (h : Placed made p .empty) (creations : Creations) (name : String) :
    Placed (made ++ p.fresh creations (p.borrow creations name).2) (p.borrow creations name).2
      .empty := by
  rw [Exclusive.borrow]
  split
  · exact h.withoutFresh rfl creations
  next hnew =>
  obtain ⟨hb, hl⟩ := Bool.or_eq_false_iff.mp (Bool.eq_false_iff.mpr hnew)
  have hgoing := h.starts hb hl
  split
  · exact h.withoutFresh rfl creations
  split
  · exact hgoing.serve creations
  · next units _ => exact hgoing.await creations units.wait.1 units.wait.2

theorem poll (h : Placed made p .empty) (creations : Creations) (name : String) :
    Placed (made ++ p.makes (.poll creations name)) (p.poll creations name).2 .empty := by
  rw [makes, Exclusive.poll]
  cases hget : p.borrows.get? name with
  | none =>
    exact h.withoutFresh rfl creations
  | some borrow =>
    have hgoing := h.going hget
    cases borrow with
    | creating item => exact hgoing.proceed creations
    | waiting place =>
      dsimp only
      split
      · exact h.withoutFresh rfl creations
      · exact hgoing.await creations place _

theorem cancel (h : Placed made p .empty) (name : String) :
    Placed made (p.cancel name).2 .empty := by
  rw [Exclusive.cancel]
  cases hget : p.borrows.get? name with
  | none => exact h
  | some borrow =>
    have hgoing := h.going hget
    cases borrow with
    | creating item => exact (hgoing.placed.giveUp rfl).congr rfl rfl rfl rfl rfl
    | waiting place => exact (hgoing.placed.giveUp rfl).congr rfl rfl rfl rfl rfl

/-- An item whose lease ends becomes idle or is closed. -/
theorem release (h : Placed made p .empty) (accepts : ℕ → Bool) (name : String) :
    Placed made (p.release accepts name).2 .empty := by
  rw [Exclusive.release]
  split
  · exact h
  next lease hget =>
  have hleases := h.leases.remove name
  have hapart : ∀ other, p.borrows.has other = true → (p.leases.remove name).has other = false := by
    intro other hother
    have := h.apart other hother
    rw [Table.has_eq_false_iff] at this ⊢
    rw [Table.get?_remove]
    split
    · rfl
    · exact this
  have hcount := fun other =>
    h.leases.count_eq_remove (fun lease => lease.item == other) hget
  dsimp only
  split
  · refine ⟨h.borrows, hleases, hapart, fun other => ?_, h.once⟩
    have hsome := h.somewhere other
    have := hcount other
    simp only [giveBack, List.count_append, List.count_singleton] at hsome ⊢
    cases e : lease.item == other <;> simp [e] at * <;> omega
  · refine ⟨h.borrows, hleases, hapart, fun other => ?_, h.once⟩
    have hsome := h.somewhere other
    have := hcount other
    simp only [giveBack, List.count_cons] at hsome ⊢
    cases e : lease.item == other <;> simp [e] at * <;> omega

theorem corrupt (h : Placed made p .empty) (name : String) :
    Placed made (p.corrupt name).2 .empty := by
  rw [Exclusive.corrupt]
  split
  · exact h
  next lease hget =>
  refine ⟨h.borrows, h.leases.put name _, fun other hother => ?_, fun other => ?_, h.once⟩
  · have := h.apart other hother
    rw [Table.has_eq_false_iff] at this ⊢
    rw [Table.get?_put_of_ne _ _ ?_]
    · exact this
    · rintro rfl
      simp [hget] at this
  · have hsome := h.somewhere other
    have hcount := h.leases.count_eq_remove (fun lease => lease.item == other) hget
    rw [hcount] at hsome
    simp only [h.leases.count_put]
    exact hsome

/-- Every idle item is closed. -/
theorem dispose (h : Placed made p .empty) : Placed made p.dispose .empty := by
  refine ⟨h.borrows, h.leases, h.apart, fun other => ?_, h.once⟩
  have := h.somewhere other
  simp only [Exclusive.dispose, List.count_append, List.count_reverse, List.count_nil] at this ⊢
  omega

end Placed

/-- Every operation keeps the places, with the item that it made. -/
theorem placed_step (h : Placed made p .empty) (event : Shared.Event) :
    Placed (made ++ p.makes event) (p.step event) .empty := by
  cases event with
  | borrow creations name => exact h.borrow creations name
  | poll creations name => exact h.poll creations name
  | cancel name => exact (List.append_nil made).symm ▸ h.cancel name
  | release accepts name => exact (List.append_nil made).symm ▸ h.release accepts name
  | corrupt name => exact (List.append_nil made).symm ▸ h.corrupt name
  | dispose => exact (List.append_nil made).symm ▸ h.dispose

/-- Along every run each item that was made is at one place. -/
theorem placed_run (options : ExclusiveOptions) (events : List Shared.Event) :
    Placed ((ofOptions options).made events) ((ofOptions options).run events) .empty :=
  run_induction (P := fun made p => Placed made p .empty) (placed_ofOptions options)
    (fun _ _ event h => placed_step h event) events

end Exclusive

end MemcachedClient.Pool
