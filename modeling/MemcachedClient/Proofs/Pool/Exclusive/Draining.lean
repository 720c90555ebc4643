import MemcachedClient.Proofs.Pool.Disposal
import MemcachedClient.Proofs.Semaphore.Precedence

/-!
# How a pool that was disposed drains

Disposing an exclusive pool wakes nobody: a borrower that waits for capacity is turned away only when a unit comes to
it, and it gives the unit back as it goes, so the unit comes to the next one. The borrowers are kept in the order in
which they came, and they use the capacity like any callers of a semaphore (`Exclusive.callers`): those who wait stand
at the end, and the first of them is the first that is handed a unit (`Exclusive.Ranked`).

So when no lease is left and nobody runs a creation, there is a unit for the first borrower, whoever it is. If it looks
it is turned away, and then the same holds of those who are left. When all have looked nobody is left, and all units are
available again (`drains`).
-/

namespace MemcachedClient.Pool

open Semaphore

/-- What a borrower has of the capacity, as a caller of the semaphore: it waits for a unit, or has taken one. -/
def ExclusiveBorrow.holding : ExclusiveBorrow → Holding
  | waiting place => .guarding place
  | creating _ => .guarding .acquired

namespace Exclusive

variable {p q : Exclusive} {made : Creations} {name : String} {units : Semaphore} {place : Handle} {item : ℕ}
  {borrower : ExclusiveBorrow}

/-- The borrowers as callers of a semaphore. -/
def callers (p : Exclusive) (units : Semaphore) : Semaphore.Session :=
  ⟨units, p.borrows.map fun entry => (entry.1, entry.2.holding), []⟩

/-- The borrowers that wait for a unit of capacity that is not there, in the order in which they came. -/
def waiters (p : Exclusive) : List String := (p.capacity.map fun units => (p.callers units).waiters).getD []

/-- The borrowers of a bounded pool are in order, and those who wait stand at the end. -/
def Ranked (p : Exclusive) : Prop := ∀ units, p.capacity = some units → (p.callers units).Ranked

theorem get?_callers (h : p.borrows.get? name = some borrower) :
    (p.callers units).holdings.get? name = some borrower.holding := by
  rw [callers, Table.get?_map, h]
  rfl

theorem callers_put (p : Exclusive) (units : Semaphore) (name : String) (borrower : ExclusiveBorrow) :
    callers { p with borrows := p.borrows.put name borrower } units =
      ⟨units, (p.callers units).holdings.put name borrower.holding, []⟩ := by
  rw [callers, callers, Table.map_put]

theorem callers_without (p : Exclusive) (units : Semaphore) (name : String) :
    (p.without name).callers units = ⟨units, (p.callers units).holdings.remove name, []⟩ := by
  rw [callers, callers, without, Table.remove, Table.remove, List.filter_map]
  rfl

theorem waiters_eq (hcap : p.capacity = some units) : p.waiters = (p.callers units).waiters := by
  rw [waiters, hcap]
  rfl

namespace Ranked

theorem ofOptions (options : ExclusiveOptions) : (Exclusive.ofOptions options).Ranked := by
  intro units hcap
  unfold Exclusive.ofOptions at hcap
  split at hcap
  · simp at hcap
  · obtain rfl := Option.some.inj hcap
    exact .ofCount options.maxCount

theorem intro (hcap : p.capacity = some units) (h : (p.callers units).Ranked) : p.Ranked := fun _ hother =>
  Option.some.inj (hcap.symm.trans hother) ▸ h

/-- What else there is in the pool does not matter. -/
theorem congr (h : p.Ranked) (hcap : q.capacity = p.capacity) (hborrows : q.borrows = p.borrows) : q.Ranked := by
  intro units hunits
  rw [callers, hborrows]
  exact h units (hcap.symm.trans hunits)

theorem giveBack (h : p.Ranked) : p.giveBack.Ranked := by
  intro units hunits
  obtain ⟨before, hcap, rfl⟩ := Option.map_eq_some_iff.mp hunits
  exact (h before hcap).signal 1

end Ranked

/-- The same if the borrower under a name holds a unit, whatever it had before. -/
def RankedWith (p : Exclusive) (name : String) : Prop :=
  ∀ units, p.capacity = some units → Session.Ranked ⟨units, (p.callers units).holdings.put name (.guarding .acquired), []⟩

theorem Ranked.with_of_creating (h : p.Ranked) (hget : p.borrows.get? name = some (.creating item)) :
    p.RankedWith name := by
  intro units hcap
  have hput : (p.callers units).holdings.put name (.guarding .acquired) = (p.callers units).holdings :=
    Table.put_of_get?_eq_some (get?_callers hget)
  rw [hput]
  exact h units hcap

namespace RankedWith

/-- The borrower is gone with its unit. -/
theorem without (h : p.RankedWith name) : (p.without name).Ranked := by
  intro units hcap
  have hgone := (h units hcap).withdraw (Table.get?_put_self _ _ _) rfl
  rw [Table.remove_put_self] at hgone
  rw [callers_without]
  exact hgone

theorem lend (h : p.RankedWith name) (item : ℕ) : (p.lend name item).2.Ranked := h.without.congr rfl rfl

theorem refuse (h : p.RankedWith name) (cause : ClientError) : (p.refuse name cause).2.Ranked :=
  h.without.giveBack.congr rfl rfl

theorem proceed (h : p.RankedWith name) (made : Creations) (item : ℕ) : (p.proceed made name item).2.Ranked := by
  unfold Exclusive.proceed
  split
  · intro units hcap
    have hput := callers_put p units name (.creating item)
    rw [hput]
    exact h units hcap
  · exact h.lend item
  · exact h.refuse _

theorem serve (h : p.RankedWith name) (made : Creations) : (p.serve made name).2.Ranked := by
  rcases p.serve_cases made name with ⟨-, e⟩ | ⟨-, ⟨first, idle, -, e⟩ | ⟨-, e⟩⟩ <;> rw [e]
  · exact h.refuse .disposed
  · exact lend (p := { p with idle }) h first
  · exact proceed (p := { p with created := p.created + 1 }) h made p.created

end RankedWith

namespace Ranked

/-- A borrower looks for its unit of capacity. It may have just asked for it. -/
theorem await (h : Session.Ranked ⟨units, (p.callers units).holdings.put name (.guarding place), []⟩) (made : Creations) :
    (p.await made name place units).2.Ranked := by
  have hget := Table.get?_put_self (p.callers units).holdings name (.guarding place)
  cases hwaits : units.keepsWaiting place with
  | true =>
    obtain ⟨ticket, rfl, hmem⟩ := keepsWaiting_iff.mp hwaits
    have hpoll : units.poll (.queued ticket) = (false, .queued ticket, units) := if_neg hmem
    unfold Exclusive.await
    rw [hpoll]
    refine intro rfl ?_
    have hput := callers_put p units name (.waiting (.queued ticket))
    exact hput ▸ h
  | false =>
    have hpoll := poll_of_keepsWaiting_eq_false hwaits
    have htake := h.take hget hwaits (.guarding .acquired) rfl
    rw [Table.put_put_self] at htake
    unfold Exclusive.await
    rw [hpoll]
    refine RankedWith.serve (p := { p with capacity := some (units.withdraw place) }) (fun units' hcap => ?_) made
    obtain rfl := Option.some.inj hcap
    exact htake

theorem borrow (h : p.Ranked) (made : Creations) (name : String) : (p.borrow made name).2.Ranked := by
  unfold Exclusive.borrow
  split
  · exact h
  next hnew =>
  split
  · exact h
  split
  · next hcap => exact RankedWith.serve (fun units hsome => by simp [hcap] at hsome) made
  · next units hcap =>
    have hnone : p.borrows.get? name = none := by
      obtain ⟨hborrows, -⟩ := Bool.or_eq_false_iff.mp (Bool.eq_false_iff.mpr hnew)
      exact Table.has_eq_false_iff.mp hborrows
    have hthere : (p.callers units).holdings.get? name = none := by
      rw [callers, Table.get?_map, hnone]
      rfl
    have hask := (h units hcap).ask hthere .guarding fun _ => rfl
    exact await hask made

theorem poll (h : p.Ranked) (made : Creations) (name : String) : (p.poll made name).2.Ranked := by
  unfold Exclusive.poll
  split
  · exact h
  · next item hget => exact (h.with_of_creating hget).proceed made item
  · next place hget =>
    split
    · exact h
    · next units hcap =>
      have hput : (p.callers units).holdings.put name (.guarding place) = (p.callers units).holdings :=
        Table.put_of_get?_eq_some (get?_callers hget)
      refine await ?_ made
      rw [hput]
      exact h units hcap

theorem cancel (h : p.Ranked) (name : String) : (p.cancel name).2.Ranked := by
  unfold Exclusive.cancel
  split
  · exact h
  · next item hget => exact (h.with_of_creating hget).without.giveBack.congr rfl rfl
  · next place hget =>
    intro units hunits
    obtain ⟨before, hcap, rfl⟩ := Option.map_eq_some_iff.mp hunits
    have hgone : (p.without name).callers (before.drop place) =
        ⟨before.drop place, (p.callers before).holdings.remove name, []⟩ := callers_without p _ name
    have hranked := h before hcap
    have hthere : (p.callers before).holdings.get? name = some (.guarding place) := get?_callers hget
    cases hwaits : before.keepsWaiting place with
    | true =>
      have hleft := hranked.giveUp hthere hwaits
      exact hgone ▸ hleft
    | false =>
      have hleft := hranked.withdraw hthere hwaits
      cases hready : before.isReadyFor place with
      | true =>
        rw [drop_of_isReadyFor hready] at hgone ⊢
        exact hgone ▸ hleft.signal 1
      | false =>
        have hacquired : (ExclusiveBorrow.waiting place).holding.handle = .acquired :=
          Holding.handle_of_not_returns hwaits hready
        obtain rfl : place = .acquired := hacquired
        exact hgone ▸ hleft

theorem release (h : p.Ranked) (accepts : ℕ → Bool) (name : String) : (p.release accepts name).2.Ranked := by
  unfold Exclusive.release
  split
  · exact h
  · dsimp only
    split
    · exact h.giveBack.congr rfl rfl
    · exact h.giveBack.congr rfl rfl

/-- Every operation keeps the order of the borrowers. -/
theorem step (h : p.Ranked) (event : Shared.Event) : (p.step event).Ranked := by
  cases event with
  | borrow made name => exact h.borrow made name
  | poll made name => exact h.poll made name
  | cancel name => exact h.cancel name
  | release accepts name => exact h.release accepts name
  | corrupt name =>
    unfold Exclusive.step Exclusive.corrupt
    dsimp only
    split
    · exact h
    · exact h.congr rfl rfl
  | dispose => exact h.congr rfl rfl

end Ranked

/-! ### One after the other -/

/-- A unit of capacity passes on: to the first of the borrowers that wait, or it becomes available if none does. -/
structure PassesOn (p q : Exclusive) : Prop where
  /-- The first that waited does not wait any more. -/
  waiters : q.waiters = p.waiters.drop 1
  /-- If nobody waited one more unit is available. -/
  spare : ∀ units, p.capacity = some units → ∃ units', q.capacity = some units' ∧
    units'.available = units.available + (1 - p.waiters.length)

theorem length_waiters (h : (p.callers units).Orderly) (hcap : p.capacity = some units) :
    p.waiters.length = units.line.length := by
  have hline : units.line = (p.callers units).holdings.filterMap fun item => item.2.waiting? units := h.line
  rw [waiters_eq hcap, Session.waiters, List.length_map, hline, List.length_filterMap_eq_countP,
    ← List.countP_eq_length_filter]
  exact List.countP_congr fun item _ => by rw [Holding.isSome_waiting?]; rfl

theorem Ranked.passesOn_giveBack (h : p.Ranked) : PassesOn p p.giveBack where
  waiters := by
    cases hcap : p.capacity with
    | none => simp [Exclusive.waiters, Exclusive.giveBack, hcap]
    | some units =>
      have hback : p.giveBack.capacity = some units.signalOne := by
        rw [Exclusive.giveBack, hcap]
        rfl
      rw [waiters_eq hback, waiters_eq hcap, Session.waiters_eq, Session.waiters_eq, ← List.map_drop,
        ← (h units hcap).orderly.rear_signal 1]
      rfl
  spare units hcap := by
    refine ⟨units.signalOne, by rw [Exclusive.giveBack, hcap]; rfl, ?_⟩
    rw [length_waiters (h units hcap).orderly hcap]
    exact available_signal units 1

theorem PassesOn.congr (h : PassesOn p q) {q' : Exclusive} (hcap : q'.capacity = q.capacity)
    (hborrows : q'.borrows = q.borrows) : PassesOn p q' where
  waiters := by
    rw [← h.waiters, Exclusive.waiters, Exclusive.waiters, hcap]
    simp only [callers, hborrows]
  spare units hunits := by
    rw [hcap]
    exact h.spare units hunits

/-- A borrower that waits for capacity is among those who wait exactly if no unit is there for it. -/
theorem Ranked.mem_waiters_iff (h : p.Ranked) (hcap : p.capacity = some units)
    (hget : p.borrows.get? name = some (.waiting place)) : name ∈ p.waiters ↔ units.keepsWaiting place = true := by
  have hthere : (p.callers units).holdings.get? name = some (.guarding place) := get?_callers hget
  rw [waiters_eq hcap, Session.waiters, List.mem_map]
  constructor
  · rintro ⟨⟨other, found⟩, hitem, rfl⟩
    obtain ⟨hin, hwaits⟩ := List.mem_filter.mp hitem
    have hfound := (h units hcap).orderly.distinct.get?_of_mem hin
    rw [hthere, Option.some.injEq] at hfound
    rw [← hfound] at hwaits
    exact hwaits
  · exact fun hwaits => ⟨_, List.mem_filter.mpr ⟨Table.mem_of_get? hthere, hwaits⟩, rfl⟩

/-- **A borrower that waits on** finds nothing and changes nothing. -/
theorem Ranked.poll_of_mem (h : p.Ranked) (hget : p.borrows.get? name = some (.waiting place))
    (hmem : name ∈ p.waiters) (made : Creations) : p.poll made name = (.pending, p) := by
  cases hcap : p.capacity with
  | none => simp [Exclusive.waiters, hcap] at hmem
  | some units =>
    obtain ⟨ticket, rfl, hnot⟩ := keepsWaiting_iff.mp ((h.mem_waiters_iff hcap hget).mp hmem)
    have hpoll : units.poll (.queued ticket) = (false, .queued ticket, units) := if_neg hnot
    unfold Exclusive.poll
    rw [hget, hcap]
    dsimp only [Exclusive.await]
    rw [hpoll, if_neg Bool.false_ne_true, Table.put_of_get?_eq_some hget, ← hcap]

/-- **A borrower whose unit is there** when it looks at a pool that was disposed is turned away, and its unit passes
on. -/
theorem Ranked.poll_of_notMem (h : p.Ranked) (hdisposed : p.disposed = true) (hcap : p.capacity = some units)
    (hget : p.borrows.get? name = some (.waiting place)) (hmem : name ∉ p.waiters) (made : Creations) :
    (p.poll made name).1 = .failed .disposed ∧ (p.poll made name).2.borrows = p.borrows.remove name ∧
      (p.poll made name).2.leases = p.leases ∧ PassesOn p (p.poll made name).2 := by
  have hwaits : units.keepsWaiting place = false := by
    rw [h.mem_waiters_iff hcap hget] at hmem
    exact Bool.eq_false_iff.mpr hmem
  have hthere : (p.callers units).holdings.get? name = some (.guarding place) := get?_callers hget
  -- the borrower has taken its unit, and is gone with it
  let gone : Exclusive := { p.without name with capacity := some (units.withdraw place) }
  have hpoll : p.poll made name = (.failed .disposed, gone.giveBack) := by
    unfold Exclusive.poll
    rw [hget, hcap]
    dsimp only [Exclusive.await]
    rw [poll_of_keepsWaiting_eq_false hwaits, if_pos rfl, serve, if_pos hdisposed]
    rfl
  have hcallers : gone.callers (units.withdraw place) =
      ⟨units.withdraw place, (p.callers units).holdings.remove name, []⟩ := callers_without p _ name
  have hgone : gone.Ranked := by
    refine .intro rfl ?_
    rw [hcallers]
    exact (h units hcap).withdraw hthere hwaits
  have hwaiters : gone.waiters = p.waiters := by
    rw [waiters_eq rfl, hcallers, waiters_eq hcap]
    exact (h units hcap).orderly.waiters_withdraw hthere hwaits
  obtain ⟨hdrop, hspare⟩ := hgone.passesOn_giveBack
  rw [hpoll]
  refine ⟨rfl, rfl, rfl, by rw [hdrop, hwaiters], fun others hothers => ?_⟩
  obtain rfl := Option.some.inj (hcap.symm.trans hothers)
  obtain ⟨units', hcap', havailable⟩ := hspare _ rfl
  refine ⟨units', hcap', ?_⟩
  rw [havailable, hwaiters]
  cases place <;> rfl

/-- A lease that ends passes its unit on. -/
theorem Ranked.passesOn_release (h : p.Ranked) (hlease : p.leases.has name = true) (accepts : ℕ → Bool) :
    PassesOn p (p.release accepts name).2 := by
  obtain ⟨lease, hget⟩ := Table.has_eq_true_iff.mp hlease
  rw [Exclusive.release, hget]
  dsimp only
  split
  · exact h.passesOn_giveBack.congr rfl rfl
  · exact h.passesOn_giveBack.congr rfl rfl

/-! ### After the last lease -/

/-- A pool of `k` units that was disposed, without a lease and without a borrower that runs a creation. -/
structure Emptying (k : ℕ) (p : Exclusive) : Prop where
  /-- The pool was disposed, and nobody runs a creation. -/
  closing : p.Closing
  /-- The borrowers are in order. -/
  ranked : p.Ranked
  /-- Units are to spare only while nobody waits. -/
  lined : Lined true p
  /-- The account of the units, and the places of the items. -/
  balanced : ∃ items, Placed items p .empty ∧ Balanced k p .empty
  /-- No lease is left. -/
  leases : p.leases = []

namespace Emptying

variable {k : ℕ} {rest : Table ExclusiveBorrow}

/-- There is a unit for the first borrower. -/
theorem first (h : Emptying k p) (hk : 0 < k) (hborrows : p.borrows = (name, borrower) :: rest) :
    ∃ units place, p.capacity = some units ∧ borrower = .waiting place ∧ name ∉ p.waiters := by
  obtain ⟨items, hplaced, hbalanced⟩ := h.balanced
  have hget : p.borrows.get? name = some borrower := by
    rw [hborrows, Table.get?_cons, if_pos rfl]
  have hcreating : ∀ other item, p.borrows.get? other ≠ some (.creating item) :=
    fun other item hother => h.closing.idle other ⟨item, hother⟩
  obtain ⟨units, other, place', hcap, hother, htaken⟩ :=
    exists_unit h.lined hbalanced hplaced hk hcreating h.leases ⟨name, borrower, hget⟩
  cases borrower with
  | creating item => exact absurd hget (hcreating name item)
  | waiting place =>
    refine ⟨units, place, hcap, rfl, fun hmem => ?_⟩
    -- if the first borrower waited, so would the one whose unit is there
    have hfirst : units.keepsWaiting place = true := (h.ranked.mem_waiters_iff hcap hget).mp hmem
    have hholdings : (p.callers units).holdings =
        (name, .guarding place) :: rest.map fun entry => (entry.1, entry.2.holding) := by
      rw [callers, hborrows]
      rfl
    have hthere : (p.callers units).holdings.get? other = some (.guarding place') := get?_callers hother
    have hin := Table.mem_of_get? hthere
    have hlast := (h.ranked units hcap).waits_of_first hholdings hfirst hin
    obtain ⟨ticket, rfl, hnot⟩ := keepsWaiting_iff.mp hlast
    have hquiet : units.poll (.queued ticket) = (false, .queued ticket, units) := if_neg hnot
    rw [hquiet] at htaken
    exact Bool.false_ne_true htaken

/-- **The first borrower is turned away** when it looks, and the same holds of those who are left. -/
theorem poll_first (h : Emptying k p) (hk : 0 < k) (hborrows : p.borrows = (name, borrower) :: rest)
    (made : Creations) : (p.poll made name).1 = .failed .disposed ∧ (p.poll made name).2.borrows = rest ∧
      Emptying k (p.poll made name).2 := by
  obtain ⟨units, place, hcap, rfl, hmem⟩ := h.first hk hborrows
  obtain ⟨items, hplaced, hbalanced⟩ := h.balanced
  have hget : p.borrows.get? name = some (.waiting place) := by
    rw [hborrows, Table.get?_cons, if_pos rfl]
  obtain ⟨hreport, hrest, hleases, -⟩ := h.ranked.poll_of_notMem h.closing.disposed hcap hget hmem made
  have hnew : name ∉ rest.map (·.1) := by
    have hdistinct := hplaced.borrows
    rw [hborrows, Table.distinct_cons] at hdistinct
    exact hdistinct.1
  refine ⟨hreport, ?_, (h.closing.step (.poll made name)).1, h.ranked.poll made name, h.lined.step (.poll made name),
    ⟨_, placed_step hplaced (.poll made name), balanced_step hbalanced hplaced (.poll made name)⟩,
    hleases.trans h.leases⟩
  rw [hrest, hborrows, Table.remove, List.filter_cons_of_neg (by simp), List.filter_eq_self]
  intro entry hentry
  have hne : entry.1 ≠ name := by
    rintro rfl
    exact hnew (List.mem_map_of_mem hentry)
  simpa using hne

/-- When nobody is left all units are available. -/
theorem free (h : Emptying k p) (hk : 0 < k) (hborrows : p.borrows = []) :
    ∃ units, p.capacity = some units ∧ units.available = k ∧ units.queue = [] := by
  obtain ⟨items, -, hbalanced⟩ := h.balanced
  obtain ⟨units, hcap, hserves, hunits⟩ := hbalanced.units
  have hholds := p.count_holdsUnit hserves
  simp only [hborrows, Table.count, List.countP_nil] at hholds hunits
  simp only [Semaphore.units, Hand.units, h.leases, List.length_nil] at hunits
  have havailable : units.available = k := by omega
  exact ⟨units, hcap, havailable, h.lined.spares units hcap (by omega)⟩

/-- **All who are left are turned away**, one after the other, and then all units are available. -/
theorem drain (h : Emptying k p) (hk : 0 < k) (made : String → Creations) :
    (∀ front name back, p.borrows.map (·.1) = front ++ name :: back →
      ((p.run (front.map fun other => .poll (made other) other)).poll (made name) name).1 = .failed .disposed) ∧
    (p.run (p.borrows.map fun entry => .poll (made entry.1) entry.1)).borrows = [] ∧
    Emptying k (p.run (p.borrows.map fun entry => .poll (made entry.1) entry.1)) := by
  generalize hborrows : p.borrows = borrows
  induction borrows generalizing p with
  | nil => exact ⟨fun front name back heq => by simp at heq, hborrows, h⟩
  | cons entry rest ih =>
    obtain ⟨first, borrower⟩ := entry
    obtain ⟨hreport, hrest, hnext⟩ := h.poll_first hk hborrows (made first)
    obtain ⟨hreports, hlast⟩ := ih hnext hrest
    refine ⟨fun front name back heq => ?_, hlast⟩
    cases front with
    | nil =>
      obtain ⟨rfl, -⟩ := List.cons.inj heq
      exact hreport
    | cons other front =>
      obtain ⟨rfl, hback⟩ := List.cons.inj heq
      exact hreports front name back hback

end Emptying

/-! ### From disposing on -/

/-- From `p` on nothing is created, nobody begins to run a creation, and only who ran one gets a lease. -/
structure Subsides (p q : Exclusive) : Prop where
  /-- The pool was disposed. -/
  disposed : q.disposed = true
  /-- Nothing is created. -/
  created : q.created = p.created
  /-- Who runs a creation ran it before. -/
  creating : ∀ name item, q.borrows.get? name = some (.creating item) → p.borrows.get? name = some (.creating item)
  /-- Who has a lease had one before, or ran a creation. -/
  leases : ∀ name, q.leases.has name = true → p.leases.has name = true ∨ p.Engaged name

namespace Subsides

variable {r : Exclusive}

theorem dispose (p : Exclusive) : Subsides p p.dispose := ⟨rfl, rfl, fun _ _ h => h, fun _ h => Or.inl h⟩

theorem trans (h : Subsides p q) (h' : Subsides q r) : Subsides p r where
  disposed := h'.disposed
  created := h'.created.trans h.created
  creating name item hget := h.creating name item (h'.creating name item hget)
  leases name hlease := by
    rcases h'.leases name hlease with hlease | ⟨item, hget⟩
    · exact h.leases name hlease
    · exact Or.inr ⟨item, h.creating name item hget⟩

/-- Borrowers and leases may go, and whatever else there is may change. -/
theorem of_fewer (hdisposed : q.disposed = true) (hcreated : q.created = p.created)
    (hborrows : ∀ name item, q.borrows.get? name = some (.creating item) → p.borrows.get? name = some (.creating item))
    (hleases : ∀ name, q.leases.has name = true → p.leases.has name = true) : Subsides p q :=
  ⟨hdisposed, hcreated, hborrows, fun name hlease => Or.inl (hleases name hlease)⟩

theorem refuse (hdisposed : p.disposed = true) (name : String) (cause : ClientError) :
    Subsides p (p.refuse name cause).2 :=
  of_fewer hdisposed rfl (fun _ _ hget => Table.get?_of_get?_remove hget) fun _ h => h

/-- A creation comes to an end, or goes on. -/
theorem proceed (hdisposed : p.disposed = true) (hget : p.borrows.get? name = some (.creating item))
    (made : Creations) : Subsides p (p.proceed made name item).2 := by
  unfold Exclusive.proceed
  split
  · rw [Table.put_of_get?_eq_some hget]
    exact ⟨hdisposed, rfl, fun _ _ h => h, fun _ h => Or.inl h⟩
  · refine ⟨hdisposed, rfl, fun _ _ h => Table.get?_of_get?_remove h, fun other hlease => ?_⟩
    obtain ⟨lease, hlease⟩ := Table.has_eq_true_iff.mp hlease
    rcases Table.eq_or_of_get?_put hlease with ⟨rfl, -⟩ | ⟨-, hlease⟩
    · exact Or.inr ⟨item, hget⟩
    · exact Or.inl (Table.has_eq_true_iff.mpr ⟨lease, hlease⟩)
  · exact refuse hdisposed name _

/-- Who waits for capacity waits on, or is turned away. -/
theorem await (hdisposed : p.disposed = true) (made : Creations) (name : String) (place : Handle) (units : Semaphore) :
    Subsides p (p.await made name place units).2 := by
  unfold Exclusive.await
  dsimp only
  split
  · rw [serve, if_pos hdisposed]
    exact of_fewer hdisposed rfl (fun _ _ hget => Table.get?_of_get?_remove hget) fun _ h => h
  · refine of_fewer hdisposed rfl (fun other item hget => ?_) fun _ h => h
    rcases Table.eq_or_of_get?_put hget with ⟨-, hwaits⟩ | ⟨-, hget⟩
    · exact ExclusiveBorrow.noConfusion hwaits
    · exact hget

/-- Whatever happens to a pool that was disposed. -/
theorem step (hdisposed : p.disposed = true) (event : Shared.Event) : Subsides p (p.step event) := by
  have hsame : Subsides p p := ⟨hdisposed, rfl, fun _ _ h => h, fun _ h => Or.inl h⟩
  cases event with
  | borrow made name =>
    have hquiet : (p.borrow made name).2 = p := by
      unfold Exclusive.borrow
      split <;> rfl
    rw [Exclusive.step, hquiet]
    exact hsame
  | poll made name =>
    rw [Exclusive.step, Exclusive.poll]
    split
    · exact hsame
    · next item hget => exact proceed hdisposed hget made
    · split
      · exact hsame
      · exact await hdisposed made name _ _
  | cancel name =>
    rw [Exclusive.step, cancel]
    split
    · exact hsame
    · exact of_fewer hdisposed rfl (fun _ _ hget => Table.get?_of_get?_remove hget) fun _ h => h
    · exact of_fewer hdisposed rfl (fun _ _ hget => Table.get?_of_get?_remove hget) fun _ h => h
  | release accepts name =>
    have hfewer : ∀ other, (p.leases.remove name).has other = true → p.leases.has other = true := by
      intro other hlease
      obtain ⟨lease, hlease⟩ := Table.has_eq_true_iff.mp hlease
      exact Table.has_eq_true_iff.mpr ⟨lease, Table.get?_of_get?_remove hlease⟩
    rw [Exclusive.step, Exclusive.release]
    split
    · exact hsame
    · dsimp only
      split
      · exact of_fewer hdisposed rfl (fun _ _ h => h) hfewer
      · exact of_fewer hdisposed rfl (fun _ _ h => h) hfewer
  | corrupt name =>
    rw [Exclusive.step, Exclusive.corrupt]
    split
    · exact hsame
    · next lease hget =>
      refine of_fewer hdisposed rfl (fun _ _ h => h) fun other hlease => ?_
      obtain ⟨found, hfound⟩ := Table.has_eq_true_iff.mp hlease
      rcases Table.eq_or_of_get?_put hfound with ⟨rfl, -⟩ | ⟨-, hfound⟩
      · exact Table.has_eq_true_iff.mpr ⟨lease, hget⟩
      · exact Table.has_eq_true_iff.mpr ⟨found, hfound⟩
  | dispose => exact ⟨rfl, rfl, fun _ _ h => h, fun _ h => Or.inl h⟩

theorem run (h : Subsides p q) (events : List Shared.Event) : Subsides p (q.run events) := by
  induction events generalizing q with
  | nil => exact h
  | cons event events ih => exact ih (h.trans (step h.disposed event))

end Subsides

/-- **A bounded pool that was disposed drains**, after any run and whatever happens then. Nothing is created any more,
and who waited for capacity when the pool was disposed never gets an item. Whoever still waits for a unit finds nothing
when it looks; whoever waited and has its unit there is turned away, and its unit passes on to the first of those who
wait, as does that of a lease that ends. Once no lease is left and nobody runs a creation, the borrowers are turned away
one after the other if they look in the order in which they came, and when all have looked nobody is left and all units
are available. -/
theorem drains (options : ExclusiveOptions) (hbounded : 0 < options.maxCount) (before after : List Shared.Event) :
    let p := (ofOptions options).run before
    let r := p.dispose.run after
    (r.created = p.created ∧ ∀ name place, p.borrows.get? name = some (.waiting place) →
      r.leases.has name = false ∧ ∀ item, r.borrows.get? name ≠ some (.creating item)) ∧
    (∀ name place made, r.borrows.get? name = some (.waiting place) →
      (name ∈ r.waiters → r.poll made name = (.pending, r)) ∧
      (name ∉ r.waiters → (r.poll made name).1 = .failed .disposed ∧
        (r.poll made name).2.borrows = r.borrows.remove name ∧ (r.poll made name).2.leases = r.leases ∧
        PassesOn r (r.poll made name).2)) ∧
    (∀ name accepts, r.leases.has name = true → PassesOn r (r.release accepts name).2) ∧
    (r.leases = [] → (∀ name item, r.borrows.get? name ≠ some (.creating item)) → ∀ made : String → Creations,
      (∀ front name back, r.borrows.map (·.1) = front ++ name :: back →
        ((r.run (front.map fun other => .poll (made other) other)).poll (made name) name).1 = .failed .disposed) ∧
      let last := r.run (r.borrows.map fun entry => .poll (made entry.1) entry.1)
      last.borrows = [] ∧ last.leases = [] ∧
        ∃ units, last.capacity = some units ∧ units.available = options.maxCount ∧ units.queue = []) := by
  intro p r
  have hsubsides : Subsides p r := (Subsides.dispose p).run after
  have hrun : r = (ofOptions options).run (before ++ .dispose :: after) := by
    rw [run, List.foldl_append]
    rfl
  obtain ⟨hranked, hlined⟩ : r.Ranked ∧ Lined true r := by
    have hnonzero : (options.maxCount != 0) = true := by simpa using Nat.pos_iff_ne_zero.mp hbounded
    rw [hrun]
    have hstart : (ofOptions options).Ranked ∧ Lined true (ofOptions options) :=
      ⟨.ofOptions options, hnonzero ▸ .ofOptions options⟩
    exact @run_induction (fun _ q => q.Ranked ∧ Lined true q) _ [] hstart
      (fun _ _ event h => ⟨h.1.step event, h.2.step event⟩) _
  have hplaced := placed_run options (before ++ .dispose :: after)
  have hbalanced := balanced_run hbounded (before ++ .dispose :: after)
  rw [← hrun] at hplaced hbalanced
  obtain ⟨units, hcap, -⟩ := hbalanced.units
  refine ⟨⟨hsubsides.created, fun name place hget => ?_⟩, fun name place made hget => ⟨fun hmem => ?_, fun hmem => ?_⟩,
    fun name accepts hlease => hranked.passesOn_release hlease accepts, fun hleases hcreating made => ?_⟩
  · have hidle : ∀ item, p.borrows.get? name ≠ some (.creating item) := fun item hitem => by simp [hget] at hitem
    refine ⟨?_, fun item hitem => hidle item (hsubsides.creating name item hitem)⟩
    -- who borrows has no lease, and gets none
    have hapart := (placed_run options before).apart name (Table.has_eq_true_iff.mpr ⟨_, hget⟩)
    rw [Bool.eq_false_iff]
    intro hlease
    rcases hsubsides.leases name hlease with hlease | ⟨item, hitem⟩
    · exact Bool.false_ne_true (hapart.symm.trans hlease)
    · exact hidle item hitem
  · exact hranked.poll_of_mem hget hmem made
  · exact hranked.poll_of_notMem hsubsides.disposed hcap hget hmem made
  · have hempty : Emptying options.maxCount r :=
      ⟨⟨hsubsides.disposed, fun name ⟨item, hget⟩ => hcreating name item hget⟩, hranked, hlined,
        ⟨_, hplaced, hbalanced⟩, hleases⟩
    obtain ⟨hreports, hnone, hlast⟩ := hempty.drain hbounded made
    exact ⟨hreports, hnone, hlast.leases, hlast.free hbounded hnone⟩

/-- The only item is on lease and three borrowers wait; the pool is disposed, the first of them gives up, and the lease
ends. -/
theorem drains_three : 0 < (⟨1⟩ : ExclusiveOptions).maxCount ∧
    let p := (ofOptions ⟨1⟩).run [.borrow (fun _ => some (.ok ())) "a", .borrow (fun _ => none) "b",
      .borrow (fun _ => none) "c", .borrow (fun _ => none) "d"]
    let r := p.dispose.run [.cancel "b", .release (fun _ => true) "a"]
    r.borrows.map (·.1) = ["c", "d"] ∧ r.waiters = ["d"] ∧
      let last := r.run [.poll (fun _ => none) "c", .poll (fun _ => none) "d"]
      last.borrows = [] ∧ last.leases = [] ∧
        ∃ units, last.capacity = some units ∧ units.available = 1 ∧ units.queue = [] := by
  refine ⟨by decide, by decide +kernel, by decide +kernel, ?_⟩
  have hdrains := drains ⟨1⟩ (by decide)
    [.borrow (fun _ => some (.ok ())) "a", .borrow (fun _ => none) "b", .borrow (fun _ => none) "c",
      .borrow (fun _ => none) "d"]
    [.cancel "b", .release (fun _ => true) "a"]
  obtain ⟨-, -, -, hlast⟩ := hdrains
  refine (hlast (by rfl) (fun name item hget => ?_) fun _ _ => none).2
  have hborrows : (((ofOptions ⟨1⟩).run [.borrow (fun _ => some (.ok ())) "a", .borrow (fun _ => none) "b",
      .borrow (fun _ => none) "c", .borrow (fun _ => none) "d"]).dispose.run
      [.cancel "b", .release (fun _ => true) "a"]).borrows =
      [("c", .waiting (.queued 1)), ("d", .waiting (.queued 2))] := by decide +kernel
  have hmem := Table.mem_of_get? hget
  rw [hborrows] at hmem
  simp at hmem

end Exclusive

end MemcachedClient.Pool
