import MemcachedClient.Proofs.Pool.Exclusive.Items
import MemcachedClient.Proofs.Semaphore.Tickets

/-!
# The capacity of an exclusive pool

A bounded pool of `k` items has `k` units of capacity. A unit is with the semaphore, or with a borrower whose
turn it is, or with a lease, and nowhere else: `Balanced` is the account, with the unit that is in hand while
an operation goes on, and with the account of the semaphore itself, which serves the borrowers that wait.

The units bound the items too, although an idle item has no unit: a creation is started only if no item is
idle, by a borrower that has a unit. So at that moment the leases and the creations are fewer than `k`
(`Balanced.create`), and nothing else adds an item.
-/

namespace MemcachedClient.Pool

/-- The units in hand. -/
def Hand.units : Hand → ℕ
  | empty => 0
  | _ => 1

/-- The items in hand, made or to be made. -/
def Hand.items : Hand → ℕ
  | creating _ => 1
  | having _ => 1
  | _ => 0

namespace ExclusiveBorrow

/-- The ticket with which a borrower queues. -/
def ticket? : ExclusiveBorrow → Option ℕ
  | waiting place => place.ticket?
  | creating _ => none

/-- Whether a borrower has a unit of its own: it was granted when it asked, or taken. -/
def hasUnit : ExclusiveBorrow → Bool
  | waiting place => place.units == 1
  | creating _ => true

/-- Whether a borrower runs a creation. -/
def isCreating : ExclusiveBorrow → Bool
  | waiting _ => false
  | creating _ => true

/-- Whether a borrower holds a unit of a semaphore: its own, or one that is on its way to it. -/
def holdsUnit (units : Semaphore) (borrow : ExclusiveBorrow) : Bool :=
  borrow.hasUnit || borrow.ticket?.any (· ∈ units.delivered)

@[simp] theorem hasUnit_creating (item : ℕ) : (creating item).hasUnit = true := rfl

@[simp] theorem isCreating_creating (item : ℕ) : (creating item).isCreating = true := rfl

@[simp] theorem isCreating_waiting (place : Handle) : (waiting place).isCreating = false := rfl

theorem hasUnit_waiting (place : Handle) : (waiting place).hasUnit.toNat = place.units := by
  cases place <;> rfl

theorem hasUnit_of_isCreating {borrow : ExclusiveBorrow} (h : borrow.isCreating = true) :
    borrow.hasUnit = true := by
  cases borrow with
  | waiting place => simp [isCreating] at h
  | creating item => rfl

end ExclusiveBorrow

namespace Exclusive

/-- The number of borrowers that wait under a ticket. -/
def calls (p : Exclusive) (ticket : ℕ) : ℕ :=
  p.borrows.count fun borrow => borrow.ticket? == some ticket

/-- The account of a pool that is bounded by `k`. -/
structure Balanced (k : ℕ) (p : Exclusive) (hand : Hand) : Prop where
  /-- Each unit is with the semaphore, with a borrower, with a lease or in hand. -/
  units : ∃ units, p.capacity = some units ∧ units.Serves p.calls ∧
    units.units + p.borrows.count (·.hasUnit) + p.leases.length + hand.units = k
  /-- No more items are idle, on lease or under creation than there are units. -/
  items : p.idle.length + p.leases.length + p.borrows.count (·.isCreating) + hand.items ≤ k
  /-- A borrower that takes its unit waits no longer. -/
  untaken : ∀ name, p.borrows.get? name ≠ some (.waiting .acquired)

variable {k : ℕ} {p : Exclusive} {made : List ℕ} {name : String} {hand : Hand} {item : ℕ}

namespace Balanced

/-- A unit in hand is given back, with the creation or the item that came with it. -/
theorem giveBack (h : Balanced k p hand) (hhand : hand.units = 1) :
    Balanced k p.giveBack .empty where
  units := by
    obtain ⟨units, hcap, hserves, hk⟩ := h.units
    refine ⟨units.signalOne, ?_, hserves.signalOne, ?_⟩
    · rw [Exclusive.giveBack, hcap]
      rfl
    · rw [Semaphore.units_signalOne]
      simp only [Exclusive.giveBack, Hand.units]
      omega
  items := by
    have := h.items
    simp only [Exclusive.giveBack, Hand.items]
    omega
  untaken := h.untaken

theorem untaken_without (h : Balanced k p hand) (name : String) (other : String) :
    (p.without name).borrows.get? other ≠ some (.waiting .acquired) := by
  rw [without, Table.get?_remove]
  split
  · simp
  · exact h.untaken other

/-- A borrower with an item gets its lease. -/
theorem lend (h : Balanced k (p.without name) (.having item)) (hl : p.leases.has name = false) :
    Balanced k (p.lend name item).2 .empty := by
  have hlength := Table.length_put_of_get?_eq_none (Table.has_eq_false_iff.mp hl)
    (⟨item, false⟩ : ExclusiveLease)
  refine ⟨?_, ?_, h.untaken⟩
  · obtain ⟨units, hcap, hserves, hk⟩ := h.units
    refine ⟨units, hcap, hserves, ?_⟩
    simp only [without, Exclusive.lend, hlength, Hand.units] at hk ⊢
    omega
  · have := h.items
    simp only [without, Exclusive.lend, hlength, Hand.items] at this ⊢
    omega

/-- A borrower whose creation stays under way keeps its unit. -/
theorem put (h : Balanced k (p.without name) (.creating item)) (hd : p.borrows.Distinct) :
    Balanced k { p with borrows := p.borrows.put name (.creating item) } .empty := by
  refine ⟨?_, ?_, fun other => ?_⟩
  · obtain ⟨units, hcap, hserves, hk⟩ := h.units
    refine ⟨units, hcap, ⟨hserves.once, fun ticket => ?_⟩, ?_⟩
    · rw [hserves.owed, calls, calls, hd.count_put]
      rfl
    · simp only [hd.count_put, Hand.units] at hk ⊢
      simp only [without] at hk
      simp only [ExclusiveBorrow.hasUnit_creating, Bool.toNat_true]
      omega
  · have := h.items
    simp only [hd.count_put, without, Hand.items, ExclusiveBorrow.isCreating_creating,
      Bool.toNat_true] at this ⊢
    omega
  · rw [Table.get?_put]
    split
    · simp
    · next hne =>
      have := h.untaken other
      rwa [without, Table.get?_remove, if_neg hne] at this

/-- A borrower goes on with its creation. -/
theorem proceed (h : Balanced k (p.without name) (.creating item)) (hd : p.borrows.Distinct)
    (hl : p.leases.has name = false) (creations : Creations) :
    Balanced k (p.proceed creations name item).2 .empty := by
  rw [Exclusive.proceed]
  split
  · exact h.put hd
  · exact lend ⟨h.units, h.items, h.untaken⟩ hl
  · exact h.giveBack rfl

/-- A borrower that finds no idle item starts a creation: it has a unit itself, so there are not as many
leases and creations as units. -/
theorem create (h : Balanced k p .unit) (hidle : p.idle = []) :
    Balanced k { p with created := p.created + 1 } (.creating p.created) := by
  refine ⟨h.units, ?_, h.untaken⟩
  obtain ⟨units, -, -, hk⟩ := h.units
  have hcreating : p.borrows.count (·.isCreating) ≤ p.borrows.count (·.hasUnit) :=
    List.countP_mono_left fun entry _ => ExclusiveBorrow.hasUnit_of_isCreating
  simp only [hidle, List.length_nil, Hand.units, Hand.items] at hk ⊢
  omega

/-- A borrower takes the item that was returned last. -/
theorem take (h : Balanced k p .unit) {idle : List ℕ} (hidle : p.idle = item :: idle) :
    Balanced k { p with idle } (.having item) := by
  refine ⟨h.units, ?_, h.untaken⟩
  have := h.items
  simp only [hidle, List.length_cons, Hand.items] at this ⊢
  omega

/-- A borrower whose turn it is. -/
theorem serve (h : Balanced k (p.without name) .unit) (hd : p.borrows.Distinct)
    (hl : p.leases.has name = false) (creations : Creations) :
    Balanced k (p.serve creations name).2 .empty := by
  rcases p.serve_cases creations name with
    ⟨-, e⟩ | ⟨-, ⟨item, idle, hidle, e⟩ | ⟨hidle, e⟩⟩ <;> rw [e]
  · exact h.giveBack rfl
  · have htake : Balanced k ({ p with idle }.without name) (.having item) := h.take hidle
    exact htake.lend hl
  · have hcreate : Balanced k ({ p with created := p.created + 1 }.without name)
        (.creating p.created) := h.create hidle
    exact hcreate.proceed hd hl creations

/-- The unit of a borrower that waits is taken from the semaphore, or given up there: what is left is the
account of the others. -/
theorem leave (h : Balanced k p .empty) (hd : p.borrows.Distinct) {place : Handle}
    (hget : p.borrows.get? name = some (.waiting place)) {units left : Semaphore}
    (hcap : p.capacity = some units) (hand : Hand) (hitems : hand.items = 0)
    (hserves : ∀ calls more : ℕ → ℕ, units.Serves more →
      (∀ ticket, more ticket = calls ticket + if place.ticket? = some ticket then 1 else 0) →
        left.Serves calls)
    (hunits : left.units + hand.units = units.units + place.units) :
    Balanced k { p.without name with capacity := some left } hand := by
  obtain ⟨others, hcap', hserved, hk⟩ := h.units
  rw [hcap, Option.some.injEq] at hcap'
  subst hcap'
  refine ⟨⟨left, rfl, hserves _ _ hserved fun ticket => ?_, ?_⟩, ?_, h.untaken_without name⟩
  · rw [calls, hd.count_eq_remove _ hget]
    by_cases e : place.ticket? = some ticket <;> simp [calls, without, ExclusiveBorrow.ticket?, e]
  · have hcount := hd.count_eq_remove (·.hasUnit) hget
    simp only [ExclusiveBorrow.hasUnit_waiting] at hcount
    simp only [hcount, Hand.units] at hk
    simp only [without]
    omega
  · have hcount := hd.count_eq_remove (·.isCreating) hget
    have := h.items
    simp only [ExclusiveBorrow.isCreating_waiting, Bool.toNat_false, Hand.items] at hcount this
    simp only [without, hitems]
    omega

/-- A borrower goes on with its creation, and its unit. -/
theorem resume (h : Balanced k p .empty) (hd : p.borrows.Distinct)
    (hget : p.borrows.get? name = some (.creating item)) :
    Balanced k (p.without name) (.creating item) := by
  have hcount := fun kind : ExclusiveBorrow → Bool => hd.count_eq_remove kind hget
  refine ⟨?_, ?_, h.untaken_without name⟩
  · obtain ⟨units, hcap, hserves, hk⟩ := h.units
    refine ⟨units, hcap, ⟨hserves.once, fun ticket => ?_⟩, ?_⟩
    · rw [hserves.owed, calls, hcount]
      rfl
    · simp only [hcount, ExclusiveBorrow.hasUnit_creating, Bool.toNat_true, Hand.units] at hk
      simp only [without, Hand.units]
      omega
  · have := h.items
    simp only [hcount, ExclusiveBorrow.isCreating_creating, Bool.toNat_true, Hand.items] at this
    simp only [without, Hand.items]
    omega

/-- A borrower looks for its unit of capacity. It may have just asked for it. -/
theorem await {place : Handle} {units : Semaphore}
    (h : Balanced k { p with capacity := some units, borrows := p.borrows.put name (.waiting place) }
      .empty)
    (hd : p.borrows.Distinct) (hl : p.leases.has name = false) (creations : Creations) :
    Balanced k (p.await creations name place units).2 .empty := by
  rw [Exclusive.await]
  cases htaken : (units.poll place).1 with
  | false =>
    obtain ⟨-, -, -, e⟩ := Semaphore.poll_eq_false htaken
    rw [e]
    exact h
  | true =>
    have hleft := h.leave (hd.put name _) (Table.get?_put_self _ _ _) rfl .unit rfl
      (fun _ _ hserves hcalls => hserves.poll htaken hcalls)
      (Semaphore.units_poll_of_taken htaken)
    simp only [without, Table.remove_put_self] at hleft
    dsimp only
    rw [if_pos htaken]
    exact serve (p := { p with capacity := some (units.poll place).2.2 }) hleft hd hl creations

/-! ### Operations -/

/-- A borrower that asks for a unit waits for it. -/
theorem wait (h : Balanced k p .empty) (hd : p.borrows.Distinct) (hb : p.borrows.get? name = none)
    {units : Semaphore} (hcap : p.capacity = some units) :
    Balanced k { p with
      capacity := some units.wait.2
      borrows := p.borrows.put name (.waiting units.wait.1) } .empty := by
  obtain ⟨others, hcap', hserves, hk⟩ := h.units
  rw [hcap, Option.some.injEq] at hcap'
  subst hcap'
  have hcount := fun kind : ExclusiveBorrow → Bool => hd.count_put kind name (.waiting units.wait.1)
  simp only [Table.remove_of_get?_eq_none hb] at hcount
  refine ⟨⟨units.wait.2, rfl, ?_, ?_⟩, ?_, fun other => ?_⟩
  · convert hserves.wait using 1
    funext ticket
    rw [calls, calls, hcount]
    by_cases e : units.wait.1.ticket? = some ticket <;> simp [ExclusiveBorrow.ticket?, e]
  · have hunits := units.units_wait
    simp only [hcount, ExclusiveBorrow.hasUnit_waiting]
    omega
  · have := h.items
    simp only [hcount, ExclusiveBorrow.isCreating_waiting, Bool.toNat_false]
    exact this
  · rw [Table.get?_put]
    split
    · rw [Semaphore.wait]
      split <;> simp
    · exact h.untaken other

theorem borrow (h : Balanced k p .empty) (hp : Placed made p .empty) (creations : Creations)
    (name : String) : Balanced k (p.borrow creations name).2 .empty := by
  rw [Exclusive.borrow]
  split
  · exact h
  next hnew =>
  obtain ⟨hb, hl⟩ := Bool.or_eq_false_iff.mp (Bool.eq_false_iff.mpr hnew)
  split
  · exact h
  obtain ⟨units, hcap, -, -⟩ := h.units
  rw [hcap]
  exact (h.wait hp.borrows (Table.has_eq_false_iff.mp hb) hcap).await hp.borrows hl creations

theorem poll (h : Balanced k p .empty) (hp : Placed made p .empty) (creations : Creations)
    (name : String) : Balanced k (p.poll creations name).2 .empty := by
  rw [Exclusive.poll]
  cases hget : p.borrows.get? name with
  | none => exact h
  | some borrow =>
    have hl := (hp.going hget).lease
    cases borrow with
    | creating item => exact (h.resume hp.borrows hget).proceed hp.borrows hl creations
    | waiting place =>
      obtain ⟨units, hcap, -, -⟩ := h.units
      rw [hcap]
      refine await ?_ hp.borrows hl creations
      rwa [Table.put_of_get?_eq_some hget, ← hcap]

theorem cancel (h : Balanced k p .empty) (hp : Placed made p .empty) (name : String) :
    Balanced k (p.cancel name).2 .empty := by
  rw [Exclusive.cancel]
  cases hget : p.borrows.get? name with
  | none => exact h
  | some borrow =>
    cases borrow with
    | creating item => exact (h.resume hp.borrows hget).giveBack rfl
    | waiting place =>
      obtain ⟨units, hcap, -, -⟩ := h.units
      have hplace : place ≠ .acquired := by
        rintro rfl
        exact h.untaken name hget
      simp only [hcap, Option.map_some]
      exact h.leave hp.borrows hget hcap .empty rfl (fun _ _ hserves hcalls => hserves.drop hcalls)
        (Semaphore.units_drop hplace)

/-- A lease that ends gives its unit back, whatever becomes of the item. -/
theorem release (h : Balanced k p .empty) (hp : Placed made p .empty) (accepts : ℕ → Bool)
    (name : String) : Balanced k (p.release accepts name).2 .empty := by
  rw [Exclusive.release]
  split
  · exact h
  next lease hget =>
  have hlength := hp.leases.length_eq_remove hget
  obtain ⟨units, hcap, hserves, hk⟩ := h.units
  have hitems := h.items
  have hunits : units.units + p.borrows.count (·.hasUnit) + (p.leases.remove name).length + 1 = k := by
    simp only [Hand.units] at hk
    omega
  simp only [Hand.items] at hitems
  dsimp only
  split
  · have hclosed : Balanced k { p with
        leases := p.leases.remove name
        closed := p.closed ++ [lease.item] } .unit := by
      refine ⟨⟨units, hcap, hserves, hunits⟩, ?_, h.untaken⟩
      simp only [Hand.items]
      omega
    exact hclosed.giveBack rfl
  · have hidle : Balanced k { p with
        leases := p.leases.remove name
        idle := lease.item :: p.idle } .unit := by
      refine ⟨⟨units, hcap, hserves, hunits⟩, ?_, h.untaken⟩
      simp only [Hand.items, List.length_cons]
      omega
    exact hidle.giveBack rfl

theorem corrupt (h : Balanced k p .empty) (hp : Placed made p .empty) (name : String) :
    Balanced k (p.corrupt name).2 .empty := by
  rw [Exclusive.corrupt]
  split
  · exact h
  next lease hget =>
  have hlength : (p.leases.put name { lease with corrupted := true }).length = p.leases.length :=
    (hp.leases.length_put name _).trans (hp.leases.length_eq_remove hget).symm
  obtain ⟨units, hcap, hserves, hk⟩ := h.units
  have hitems := h.items
  rw [← hlength] at hk hitems
  exact ⟨⟨units, hcap, hserves, hk⟩, hitems, h.untaken⟩

theorem dispose (h : Balanced k p .empty) : Balanced k p.dispose .empty where
  units := h.units
  items := by
    have := h.items
    simp only [Exclusive.dispose, List.length_nil]
    omega
  untaken := h.untaken

end Balanced

theorem balanced_ofOptions {options : ExclusiveOptions} (h : 0 < options.maxCount) :
    Balanced options.maxCount (ofOptions options) .empty where
  units := ⟨.ofCount options.maxCount, if_neg (by omega), Semaphore.serves_ofCount _, by
    simp [Semaphore.units, Semaphore.ofCount, ofOptions, Table.count, Hand.units]⟩
  items := by simp [ofOptions, Table.count, Hand.items]
  untaken name := by simp [ofOptions]

/-- Every operation keeps the account. -/
theorem balanced_step (h : Balanced k p .empty) (hp : Placed made p .empty) (event : Shared.Event) :
    Balanced k (p.step event) .empty := by
  cases event with
  | borrow creations name => exact h.borrow hp creations name
  | poll creations name => exact h.poll hp creations name
  | cancel name => exact h.cancel hp name
  | release accepts name => exact h.release hp accepts name
  | corrupt name => exact h.corrupt hp name
  | dispose => exact h.dispose

/-- The account balances along every run. -/
theorem balanced_run {options : ExclusiveOptions} (h : 0 < options.maxCount)
    (events : List Shared.Event) :
    Balanced options.maxCount ((ofOptions options).run events) .empty := by
  have hall := run_induction
    (P := fun made p => Placed made p .empty ∧ Balanced options.maxCount p .empty)
    ⟨placed_ofOptions options, balanced_ofOptions h⟩
    (fun _ _ event hq => ⟨placed_step hq.1 event, balanced_step hq.2 hq.1 event⟩) events
  exact hall.2

/-- The items that were made and are not closed are idle or on lease. -/
theorem Placed.perm_open (h : Placed made p .empty) :
    (made.filter (· ∉ p.closed)).Perm (p.idle ++ p.leases.map (·.2.item)) := by
  rw [List.perm_iff_count]
  intro item
  have hsome := h.somewhere item
  have honce : _ ≤ p.started item := h.once item
  have hstarted : p.started item ≤ 1 := by
    rw [started]
    split <;> omega
  have hleases : (p.leases.map (·.2.item)).count item =
      p.leases.count fun lease => lease.item == item := by
    rw [List.count, List.countP_map]
    rfl
  simp only [Hand.item?, reduceCtorEq, if_false] at hsome
  rw [List.count_append, hleases]
  by_cases hclosed : item ∈ p.closed
  · have hpos := List.count_pos_iff.mpr hclosed
    rw [List.count_eq_zero.mpr fun hmem => by simp [hclosed] at hmem]
    omega
  · rw [List.count_filter (by simpa using hclosed)]
    have := List.count_eq_zero.mpr hclosed
    omega

/-- The borrowers that hold a unit are those with a unit of their own, and those to which one is on its
way. -/
theorem count_holdsUnit (p : Exclusive) {units : Semaphore} (h : units.Serves p.calls) :
    p.borrows.count (·.holdsUnit units) = p.borrows.count (·.hasUnit) + units.delivered.length := by
  have hserves : units.Serves fun ticket =>
      p.borrows.countP fun entry => entry.2.ticket? == some ticket := h
  have hdelivered : p.borrows.count (fun borrow => borrow.ticket?.any (· ∈ units.delivered)) =
      units.delivered.length := hserves.count_delivered
  rw [← hdelivered]
  refine Table.count_or _ fun borrow hunit => ?_
  -- nobody has a unit of its own and another on its way
  cases borrow with
  | creating item => rfl
  | waiting place =>
    cases place with
    | queued ticket => simp [ExclusiveBorrow.hasUnit, Handle.units] at hunit
    | granted => rfl
    | acquired => rfl

/-- What a pool that is bounded by `k` keeps, of which these items were made so far. -/
structure Bounded (k : ℕ) (made : List ℕ) (p : Exclusive) : Prop where
  /-- The available units, the leases, and the borrowers with a unit are `k`. -/
  units : ∃ units, p.capacity = some units ∧
    units.available + p.leases.length + p.borrows.count (·.holdsUnit units) = k
  /-- The items that are not closed, and those under creation, are `k` at most. -/
  items : (made.filter (· ∉ p.closed)).length + p.borrows.count (·.isCreating) ≤ k
  /-- There are `k` leases at most. -/
  leases : p.leases.length ≤ k
  /-- When nobody waits and no lease is left, all units are available. -/
  free : p.borrows = [] → p.leases = [] → ∃ units, p.capacity = some units ∧ units.available = k
  /-- Who releases a lease has it no longer, and who gives up borrows no longer. -/
  ends : ∀ accepts name, (p.step (.release accepts name)).leases = p.leases.remove name ∧
    (p.step (.cancel name)).borrows = p.borrows.remove name

/-- **The capacity of a bounded pool is kept**: along every run of borrowing, looking, giving up, ending
leases of any kind and disposing, whatever becomes of the creations, no unit is lost or made, and no
more items are open or under creation than the pool may lend. -/
theorem bounded_run {options : ExclusiveOptions} (h : 0 < options.maxCount)
    (events : List Shared.Event) :
    Bounded options.maxCount ((ofOptions options).made events) ((ofOptions options).run events) := by
  have hplaced := placed_run options events
  have hbalanced := balanced_run h events
  generalize (ofOptions options).made events = made at hplaced ⊢
  generalize (ofOptions options).run events = p at hplaced hbalanced ⊢
  obtain ⟨units, hcap, hserves, hk⟩ := hbalanced.units
  have hholds := p.count_holdsUnit hserves
  simp only [Semaphore.units, Hand.units] at hk
  have hunits : units.available + p.leases.length + p.borrows.count (·.holdsUnit units) =
      options.maxCount := by omega
  refine ⟨⟨units, hcap, hunits⟩, ?_, by omega, fun hb hl => ⟨units, hcap, ?_⟩,
    fun accepts name => ⟨p.leases_release accepts name, p.borrows_cancel name⟩⟩
  · have hitems := hbalanced.items
    have hopen := hplaced.perm_open.length_eq
    rw [List.length_append, List.length_map] at hopen
    simp only [Hand.items] at hitems
    omega
  · simpa [hb, hl, Table.count] using hunits

/-- A pool of one item, of which one borrower holds the lease and two wait; the first of them gives up. -/
theorem bounded_run_one : 0 < (⟨1⟩ : ExclusiveOptions).maxCount ∧
    Bounded 1
      ((ofOptions ⟨1⟩).made [.borrow (fun _ => some (.ok ())) "a", .borrow (fun _ => none) "b",
        .borrow (fun _ => none) "c", .cancel "b", .release (fun _ => false) "a"])
      ((ofOptions ⟨1⟩).run [.borrow (fun _ => some (.ok ())) "a", .borrow (fun _ => none) "b",
        .borrow (fun _ => none) "c", .cancel "b", .release (fun _ => false) "a"]) :=
  ⟨by decide, bounded_run (by decide) _⟩

end Exclusive

end MemcachedClient.Pool
