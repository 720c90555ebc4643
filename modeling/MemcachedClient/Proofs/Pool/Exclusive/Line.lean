import MemcachedClient.Proofs.Pool.Leasing
import MemcachedClient.Proofs.Pool.Exclusive.Capacity
import MemcachedClient.Proofs.Semaphore.Line

/-!
# The line before an exclusive pool

The semaphore of an exclusive pool keeps no unit back while a borrower waits (`Lined`). So once no lease is left and no
creation is under way, a unit is on its way to one of the borrowers that still wait (`exists_unit`).
-/

namespace MemcachedClient.Pool.Exclusive

variable {p q : Exclusive} {made : Creations} {name : String} {items : List ℕ} {bounded : Bool}

/-- Units of capacity are to spare only while nobody waits for one, and nobody waits in a pool without a bound. -/
structure Lined (bounded : Bool) (p : Exclusive) : Prop where
  /-- The pool is bounded or not. -/
  capacity : p.capacity.isSome = bounded
  /-- Units are to spare only while nobody waits. -/
  spares : ∀ units, p.capacity = some units → units.Spares
  /-- Who waits does so in a pool that is bounded. -/
  waits : ∀ name place, p.borrows.get? name = some (.waiting place) → bounded = true

namespace Lined

theorem ofOptions (options : ExclusiveOptions) : Lined (options.maxCount != 0) (ofOptions options) where
  capacity := by
    simp only [Exclusive.ofOptions]
    split
    · next hzero => simp [hzero]
    · next hpos => simp [hpos]
  spares units hcap := by
    simp only [Exclusive.ofOptions] at hcap
    split at hcap
    · simp at hcap
    · rw [← Option.some.inj hcap]
      exact fun _ => rfl
  waits name place hget := by simp [Exclusive.ofOptions] at hget

/-- Borrowers may leave, or run creations. -/
theorem congr (h : Lined bounded p) (hcap : q.capacity = p.capacity)
    (hb : ∀ name place, q.borrows.get? name = some (.waiting place) → p.borrows.get? name = some (.waiting place)) :
    Lined bounded q :=
  ⟨hcap ▸ h.capacity, hcap ▸ h.spares, fun name place hget => h.waits name place (hb name place hget)⟩

/-- The units change, but not whether there is a bound. -/
theorem setUnits (h : Lined bounded p) {units units' : Semaphore} (hcap : p.capacity = some units)
    (hspares : units'.Spares) : Lined bounded { p with capacity := some units' } where
  capacity := by rw [← h.capacity, hcap]; rfl
  spares found hfound := Option.some.inj hfound ▸ hspares
  waits := h.waits

theorem giveBack (h : Lined bounded p) : Lined bounded p.giveBack := by
  cases hcap : p.capacity with
  | none => exact h.congr (by rw [Exclusive.giveBack, hcap]; rfl) fun _ _ hget => hget
  | some units =>
    have hsame : p.giveBack = { p with capacity := some units.signalOne } := by
      rw [Exclusive.giveBack, hcap]
      rfl
    rw [hsame]
    exact h.setUnits hcap (h.spares units hcap).signalOne

theorem without (h : Lined bounded p) (name : String) : Lined bounded (p.without name) := by
  exact h.congr rfl fun other place hget => Table.get?_of_get?_remove hget

theorem refuse (h : Lined bounded p) (name : String) (cause : ClientError) : Lined bounded (p.refuse name cause).2 :=
  h.giveBack.without name

theorem proceed (h : Lined bounded p) (made : Creations) (name : String) (item : ℕ) :
    Lined bounded (p.proceed made name item).2 := by
  rw [Exclusive.proceed]
  split
  · refine h.congr rfl fun other place hget => ?_
    rcases Table.eq_or_of_get?_put hget with ⟨-, hwaits⟩ | ⟨-, hget⟩
    · simp at hwaits
    · exact hget
  · exact (h.without name).congr rfl fun _ _ hget => hget
  · exact h.refuse name _

theorem serve (h : Lined bounded p) (made : Creations) (name : String) : Lined bounded (p.serve made name).2 := by
  rcases p.serve_cases made name with ⟨-, e⟩ | ⟨-, ⟨first, idle, -, e⟩ | ⟨-, e⟩⟩ <;> rw [e]
  · exact h.refuse name .disposed
  · exact (h.without name).congr rfl fun _ _ hget => hget
  · exact proceed (p := { p with created := p.created + 1 }) (h.congr rfl fun _ _ hget => hget) made name _

theorem await (h : Lined true p) (made : Creations) (name : String) (place : Handle) {units before : Semaphore}
    (hcap : p.capacity = some before) (hspares : units.Spares) : Lined true (p.await made name place units).2 := by
  have hset := h.setUnits hcap (hspares.poll place)
  simp only [Exclusive.await]
  split
  · exact hset.serve made name
  · exact ⟨hset.capacity, hset.spares, fun _ _ _ => rfl⟩

/-- Every operation keeps the line. -/
theorem step (h : Lined bounded p) (event : Shared.Event) : Lined bounded (p.step event) := by
  have hbounded : ∀ units, p.capacity = some units → bounded = true := fun units hcap => by
    rw [← h.capacity, hcap]
    rfl
  cases event with
  | borrow made name =>
    simp only [Exclusive.step, borrow]
    split
    · exact h
    split
    · exact h
    split
    · exact h.serve made name
    · next units hcap =>
      obtain rfl := hbounded units hcap
      exact h.await made name _ hcap (h.spares units hcap).wait
  | poll made name =>
    simp only [Exclusive.step, poll]
    split
    · exact h
    · exact h.proceed made name _
    · split
      · exact h
      · next units hcap =>
        obtain rfl := hbounded units hcap
        exact h.await made name _ hcap (h.spares units hcap)
  | cancel name =>
    simp only [Exclusive.step, cancel]
    split
    · exact h
    · exact h.giveBack.without name
    · next place hget =>
      cases hcap : p.capacity with
      | none => exact (h.without name).congr hcap.symm fun _ _ hget => hget
      | some units => exact (h.without name).setUnits hcap ((h.spares units hcap).drop place)
  | release accepts name =>
    simp only [Exclusive.step, release]
    split
    · exact h
    · split
      · exact giveBack (p := { p with leases := p.leases.remove name, closed := p.closed ++ [_] })
          (h.congr rfl fun _ _ hget => hget)
      · exact giveBack (p := { p with leases := p.leases.remove name, idle := _ :: p.idle })
          (h.congr rfl fun _ _ hget => hget)
  | corrupt name =>
    simp only [Exclusive.step, corrupt]
    split
    · exact h
    · exact h.congr rfl fun _ _ hget => hget
  | dispose => exact h.congr rfl fun _ _ hget => hget

end Lined

/-- While somebody waits, a unit is there for one of the borrowers, if no other has one and there is no lease. -/
theorem exists_unit {k : ℕ} (hl : Lined true p) (hb : Balanced k p .empty) (hp : Placed items p .empty) (hk : 0 < k)
    (hcreating : ∀ name item, p.borrows.get? name ≠ some (.creating item)) (hleases : p.leases = [])
    (hborrows : ∃ name borrow, p.borrows.get? name = some borrow) :
    ∃ units name place, p.capacity = some units ∧ p.borrows.get? name = some (.waiting place) ∧
      (units.poll place).1 = true := by
  obtain ⟨units, hcap, hserves, haccount⟩ := hb.units
  by_contra hnone
  -- whoever waits has queued, and no unit is on its way to it
  have hqueued : ∀ name borrow, p.borrows.get? name = some borrow →
      ∃ ticket, borrow = .waiting (.queued ticket) ∧ ticket ∉ units.delivered := by
    intro name borrow hget
    cases borrow with
    | creating item => exact absurd hget (hcreating name item)
    | waiting place =>
      have hpoll : (units.poll place).1 = false := by
        by_contra htaken
        exact hnone ⟨units, name, place, hcap, hget, by simpa using htaken⟩
      obtain ⟨ticket, rfl, hmem, -⟩ := Semaphore.poll_eq_false hpoll
      exact ⟨ticket, rfl, hmem⟩
  have hholds : p.borrows.count (·.holdsUnit units) = 0 := by
    by_contra hpos
    obtain ⟨name, borrow, hget, hholds⟩ := hp.borrows.count_pos_iff_get?.mp (Nat.pos_of_ne_zero hpos)
    obtain ⟨ticket, rfl, hmem⟩ := hqueued name borrow hget
    simp [ExclusiveBorrow.holdsUnit, ExclusiveBorrow.hasUnit, ExclusiveBorrow.ticket?, Handle.units, Handle.ticket?,
      hmem] at hholds
  rw [count_holdsUnit p hserves] at hholds
  simp only [Semaphore.units, Hand.units, hleases, List.length_nil] at haccount
  have hqueue := hl.spares units hcap (by omega)
  obtain ⟨name, borrow, hget⟩ := hborrows
  obtain ⟨ticket, rfl, -⟩ := hqueued name borrow hget
  have howed := hserves.owed ticket
  have hcalls : 0 < p.calls ticket := Table.count_pos_iff.mpr ⟨_, Table.mem_of_get? hget, beq_self_eq_true _⟩
  have hdelivered : units.delivered = [] := List.eq_nil_of_length_eq_zero (by omega)
  rw [Semaphore.owes, hqueue, hdelivered] at howed
  simp only [List.count_nil] at howed
  omega

end MemcachedClient.Pool.Exclusive
