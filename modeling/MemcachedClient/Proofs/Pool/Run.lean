import MemcachedClient.Pool.Shared
import MemcachedClient.Proofs.Table

/-!
# Runs of a shared pool

`Shared.step` is one operation on a shared pool, and any interleaving of the operations of any number
of borrowers is a list of events. An event carries what the pool is told at that moment: what became
of the creations so far, or which items may be used again. Nothing ties what one event says to what
another says, so whatever is proved of every run holds for every behaviour of the source of items
and of the validator.

The small laws of the operations stand here too: what `leastLoaded?`, `assign?` and `handOn` can
answer (`assign?_cases`, `handOn_cases`), and which parts of the pool `updateSlot` leaves alone.
-/

namespace MemcachedClient.Pool

/-- The slot of which a borrower has a unit. -/
def SharedBorrow.slot? : SharedBorrow → Option ℕ
  | queued _ => none
  | refused => none
  | assigned slot => some slot
  | awaiting slot _ => some slot
  | creating slot _ => some slot

/-- Whether a borrower waits in the queue. -/
def SharedBorrow.isQueued : SharedBorrow → Bool
  | queued _ => true
  | _ => false

/-- A borrower after it was turned away, if it waited. -/
def SharedBorrow.turnedAway : SharedBorrow → SharedBorrow
  | queued _ => refused
  | borrow => borrow

@[simp] theorem SharedBorrow.slot?_turnedAway (borrow : SharedBorrow) :
    borrow.turnedAway.slot? = borrow.slot? := by
  cases borrow <;> rfl

@[simp] theorem SharedBorrow.isQueued_turnedAway (borrow : SharedBorrow) :
    borrow.turnedAway.isQueued = false := by
  cases borrow <;> rfl

namespace Shared

/-- An operation on a shared pool. -/
inductive Event where
  /-- Starts a borrower and runs it until it has to wait or has ended. -/
  | borrow (made : Creations) (name : String)
  /-- Goes on with a borrower. -/
  | poll (made : Creations) (name : String)
  /-- Drops a borrower that has no lease yet. -/
  | cancel (name : String)
  /-- Ends a lease. -/
  | release (accepts : ℕ → Bool) (name : String)
  /-- Marks a lease corrupted. -/
  | corrupt (name : String)
  /-- Disposes the pool. -/
  | dispose

/-- One operation. -/
def step (p : Shared) : Event → Shared
  | .borrow made name => (p.borrow made name).2
  | .poll made name => (p.poll made name).2
  | .cancel name => (p.cancel name).2
  | .release accepts name => (p.release accepts name).2
  | .corrupt name => (p.corrupt name).2
  | .dispose => p.dispose

/-- The pool after some operations. -/
def run (p : Shared) (events : List Event) : Shared := events.foldl step p

@[simp] theorem run_nil (p : Shared) : p.run [] = p := rfl

theorem run_append (p : Shared) (events more : List Event) :
    p.run (events ++ more) = (p.run events).run more := List.foldl_append

theorem run_concat (p : Shared) (events : List Event) (event : Event) :
    p.run (events ++ [event]) = (p.run events).step event := by
  rw [run_append]
  rfl

/-- What holds at the start and is kept by every operation holds after every run. -/
theorem run_induction {P : Shared → Prop} {p : Shared} (start : P p)
    (step : ∀ q event, P q → P (q.step event)) (events : List Event) : P (p.run events) := by
  induction events generalizing p with
  | nil => exact start
  | cons event events ih => exact ih (step p event start)

/-- The pool without a borrower. -/
def without (p : Shared) (name : String) : Shared := { p with borrows := p.borrows.remove name }

theorem without_of_get?_eq_none {p : Shared} {name : String} (h : p.borrows.get? name = none) :
    p.without name = p := by
  rw [without, Table.remove_of_get?_eq_none h]

theorem dispose_borrows (p : Shared) :
    p.dispose.borrows = p.borrows.map fun item => (item.1, item.2.turnedAway) := by
  refine List.map_congr_left fun item _ => ?_
  rcases item with ⟨name, _ | _ | _ | _ | _⟩ <;> rfl

/-! ### What changing a slot leaves alone -/

section updateSlot

variable (p : Shared) (id : ℕ) (f : Slot → Slot)

@[simp] theorem updateSlot_borrows : (p.updateSlot id f).borrows = p.borrows := rfl

@[simp] theorem updateSlot_leases : (p.updateSlot id f).leases = p.leases := rfl

@[simp] theorem updateSlot_queue : (p.updateSlot id f).queue = p.queue := rfl

@[simp] theorem updateSlot_nextTicket : (p.updateSlot id f).nextTicket = p.nextTicket := rfl

@[simp] theorem updateSlot_nextSlot : (p.updateSlot id f).nextSlot = p.nextSlot := rfl

@[simp] theorem updateSlot_target : (p.updateSlot id f).target = p.target := rfl

@[simp] theorem updateSlot_depth : (p.updateSlot id f).depth = p.depth := rfl

@[simp] theorem updateSlot_disposed : (p.updateSlot id f).disposed = p.disposed := rfl

variable {p id f}

theorem mem_updateSlot {s : Slot} :
    s ∈ (p.updateSlot id f).slots ↔ ∃ old ∈ p.slots, (if old.id = id then f old else old) = s :=
  List.mem_map

/-- A change that keeps the numbers of slots keeps them all. -/
theorem map_id_updateSlot (p : Shared) (id : ℕ) {f : Slot → Slot} (hf : ∀ s, (f s).id = s.id) :
    (p.updateSlot id f).slots.map (·.id) = p.slots.map (·.id) := by
  rw [updateSlot, List.map_map]
  refine List.map_congr_left fun s _ => ?_
  simp only [Function.comp]
  split
  · exact hf s
  · rfl

end updateSlot

/-! ### Finding slots -/

theorem slot?_eq_some {p : Shared} {id : ℕ} {s : Slot} (h : p.slot? id = some s) :
    s ∈ p.slots ∧ s.id = id :=
  ⟨List.mem_of_find?_eq_some h, by simpa using List.find?_some h⟩

theorem exists_slot?_of_mem {p : Shared} {id : ℕ} (h : id ∈ p.slots.map (·.id)) :
    ∃ s, p.slot? id = some s := by
  obtain ⟨s, hs, rfl⟩ := List.mem_map.mp h
  rw [← Option.isSome_iff_exists, slot?, List.find?_isSome]
  exact ⟨s, hs, by simp⟩

/-- Slots with distinct numbers are known by them. -/
theorem eq_of_id_eq {p : Shared} (h : (p.slots.map (·.id)).Nodup) {s s' : Slot} (hs : s ∈ p.slots)
    (hs' : s' ∈ p.slots) (e : s.id = s'.id) : s = s' :=
  List.inj_on_of_nodup_map h hs hs' e

end Shared

namespace Slot

theorem leastLoaded?_eq_none_iff {depth : ℕ} {slots : List Slot} :
    leastLoaded? depth slots = none ↔ ∀ s ∈ slots, s.hasRoom depth = false := by
  induction slots with
  | nil => simp [leastLoaded?]
  | cons s rest ih =>
    simp only [leastLoaded?, List.forall_mem_cons, ← ih]
    cases leastLoaded? depth rest with
    | none => cases s.hasRoom depth <;> simp
    | some best =>
      simp only [reduceCtorEq, and_false, iff_false]
      split <;> simp

theorem leastLoaded?_eq_some {depth : ℕ} {slots : List Slot} {best : Slot}
    (h : leastLoaded? depth slots = some best) : best ∈ slots ∧ best.hasRoom depth = true := by
  induction slots generalizing best with
  | nil => simp [leastLoaded?] at h
  | cons s rest ih =>
    simp only [leastLoaded?] at h
    cases hrest : leastLoaded? depth rest with
    | none =>
      rw [hrest] at h
      by_cases hs : s.hasRoom depth = true
      · simp only [hs, if_true, Option.some.injEq] at h
        exact h ▸ ⟨List.mem_cons_self, hs⟩
      · simp [hs] at h
    | some other =>
      rw [hrest] at h
      obtain ⟨hmem, hroom⟩ := ih hrest
      dsimp only at h
      split at h
      · next hs =>
        rw [Option.some.injEq] at h
        rw [Bool.and_eq_true] at hs
        exact h ▸ ⟨List.mem_cons_self, hs.1⟩
      · rw [Option.some.injEq] at h
        exact h ▸ ⟨List.mem_cons_of_mem _ hmem, hroom⟩

/-- A change of a slot that leaves its number, its units and its retirement alone. -/
structure Keeps (f : Slot → Slot) : Prop where
  /-- The number stays. -/
  id : ∀ s, (f s).id = s.id
  /-- The units in flight stay. -/
  inFlight : ∀ s, (f s).inFlight = s.inFlight
  /-- A slot is neither retired nor taken back. -/
  retired : ∀ s, (f s).retired = s.retired

theorem keeps_made (made : Option (Except ClientError ℕ)) : Keeps fun s => { s with made } :=
  ⟨fun _ => rfl, fun _ => rfl, fun _ => rfl⟩

theorem keeps_turn (turn : Slot → Semaphore) : Keeps fun s => { s with turn := turn s } :=
  ⟨fun _ => rfl, fun _ => rfl, fun _ => rfl⟩

theorem hasRoom_iff {depth : ℕ} {s : Slot} :
    s.hasRoom depth = true ↔ s.retired = false ∧ s.inFlight < depth := by
  simp [hasRoom]

end Slot

namespace Shared

theorem mem_live {p : Shared} {s : Slot} : s ∈ p.live ↔ s ∈ p.slots ∧ s.retired = false := by
  simp [live]

/-- A unit is taken of a slot that has one to spare, or of a new slot below the target. -/
theorem assign?_cases {p q : Shared} {id : ℕ} (h : p.assign? = some (id, q)) :
    (∃ best ∈ p.slots, best.retired = false ∧ best.inFlight < p.depth ∧ id = best.id ∧
        q = p.updateSlot best.id .take) ∨
      (p.live.length < p.target ∧ id = p.nextSlot ∧
        q = { p with slots := p.slots ++ [.ofId p.nextSlot], nextSlot := p.nextSlot + 1 }) := by
  simp only [assign?] at h
  split at h
  · next best hbest =>
    rw [Option.some.injEq, Prod.mk.injEq] at h
    obtain ⟨hmem, hroom⟩ := Slot.leastLoaded?_eq_some hbest
    rw [Slot.hasRoom_iff] at hroom
    exact Or.inl ⟨best, hmem, hroom.1, hroom.2, h.1.symm, h.2.symm⟩
  · split at h
    · next hlt =>
      rw [Option.some.injEq, Prod.mk.injEq] at h
      exact Or.inr ⟨hlt, h.1.symm, h.2.symm⟩
    · simp at h

/-- Taking a unit concerns the slots only. -/
theorem assign?_parts {p q : Shared} {id : ℕ} (h : p.assign? = some (id, q)) :
    q.borrows = p.borrows ∧ q.leases = p.leases ∧ q.queue = p.queue ∧
      q.nextTicket = p.nextTicket ∧ q.disposed = p.disposed := by
  rcases assign?_cases h with ⟨_, -, -, -, -, rfl⟩ | ⟨-, -, rfl⟩ <;>
    exact ⟨rfl, rfl, rfl, rfl, rfl⟩

/-- No unit can be taken where every slot that takes borrowers is full and there are enough. -/
theorem assign?_eq_none_iff {p : Shared} :
    p.assign? = none ↔ (∀ s ∈ p.live, p.depth ≤ s.inFlight) ∧ p.target ≤ p.live.length := by
  have hfull : Slot.leastLoaded? p.depth p.slots = none ↔ ∀ s ∈ p.live, p.depth ≤ s.inFlight := by
    rw [Slot.leastLoaded?_eq_none_iff]
    constructor
    · intro h s hs
      obtain ⟨hmem, hret⟩ := mem_live.mp hs
      have := h s hmem
      by_contra hlt
      rw [Slot.hasRoom_iff.mpr ⟨hret, by omega⟩] at this
      simp at this
    · intro h s hs
      by_contra hroom
      rw [Bool.not_eq_false, Slot.hasRoom_iff] at hroom
      have := h s (mem_live.mpr ⟨hs, hroom.1⟩)
      omega
  rw [← hfull, assign?]
  cases hbest : Slot.leastLoaded? p.depth p.slots with
  | some best => simp
  | none =>
    by_cases hlt : p.live.length < p.target
    · simp [hlt]
    · simp only [hlt, if_false, true_and, true_iff]
      omega

/-! ### The queue -/

/-- A ticket is that of a borrower that waits with it. -/
theorem waiter?_eq_some {p : Shared} (hd : p.borrows.Distinct) {ticket : ℕ} {name : String}
    (h : p.waiter? ticket = some name) : p.borrows.get? name = some (.queued ticket) := by
  rw [waiter?, Option.map_eq_some_iff] at h
  obtain ⟨item, hfind, rfl⟩ := h
  have hq : item.2 = .queued ticket := by simpa using List.find?_some hfind
  rw [hd.get?_eq_some_iff, ← hq]
  exact List.mem_of_find?_eq_some hfind

theorem waiter?_eq_none {p : Shared} {ticket : ℕ} (h : p.waiter? ticket = none) (name : String) :
    p.borrows.get? name ≠ some (.queued ticket) := by
  rw [waiter?, Option.map_eq_none_iff, List.find?_eq_none] at h
  intro hget
  exact h _ (Table.mem_of_get? hget) (by simp)

/-- A unit that is handed on goes to the first ticket with a borrower, or back to its slot if there is
none. -/
theorem handOn_cases (p : Shared) (slot : ℕ) (queue : List ℕ) :
    (∃ passed ticket rest name, queue = passed ++ ticket :: rest ∧
        (∀ t ∈ passed, p.waiter? t = none) ∧ p.waiter? ticket = some name ∧
        p.handOn slot queue =
          { p with queue := rest, borrows := p.borrows.put name (.assigned slot) }) ∨
      ((∀ t ∈ queue, p.waiter? t = none) ∧
        p.handOn slot queue = { p with queue := [] }.updateSlot slot .give) := by
  induction queue with
  | nil => exact Or.inr ⟨by simp, rfl⟩
  | cons ticket rest ih =>
    cases hw : p.waiter? ticket with
    | some name => exact Or.inl ⟨[], ticket, rest, name, rfl, by simp, hw, by simp [handOn, hw]⟩
    | none =>
      have heq : p.handOn slot (ticket :: rest) = p.handOn slot rest := by simp [handOn, hw]
      rw [heq]
      rcases ih with ⟨passed, t, rest', name, rfl, hp, hn, e⟩ | ⟨hall, e⟩
      · refine Or.inl ⟨ticket :: passed, t, rest', name, rfl, ?_, hn, e⟩
        rintro u hu
        rcases List.mem_cons.mp hu with rfl | hu
        · exact hw
        · exact hp u hu
      · refine Or.inr ⟨?_, e⟩
        rintro u hu
        rcases List.mem_cons.mp hu with rfl | hu
        · exact hw
        · exact hall u hu

/-- A slot that takes no further borrower, with one unit less in flight. -/
def retireSlot (p : Shared) (s : Slot) : Shared :=
  (p.updateSlot s.id fun _ => { s.give with retired := true }).dropDrained
    { s.give with retired := true }

/-- Retiring a slot concerns the slots and the closed items only. -/
theorem retireSlot_parts (p : Shared) (s : Slot) :
    (p.retireSlot s).borrows = p.borrows ∧ (p.retireSlot s).leases = p.leases ∧
      (p.retireSlot s).queue = p.queue ∧ (p.retireSlot s).nextTicket = p.nextTicket ∧
      (p.retireSlot s).nextSlot = p.nextSlot ∧ (p.retireSlot s).disposed = p.disposed := by
  rw [retireSlot, dropDrained]
  split <;> exact ⟨rfl, rfl, rfl, rfl, rfl, rfl⟩

/-- A unit that is given back is handed on if its slot stays; otherwise the slot is retired, and the
first borrower in the queue may be assigned a unit elsewhere. -/
theorem giveUnit_eq {p : Shared} {slot : ℕ} {retire : Bool} {s : Slot} (h : p.slot? slot = some s) :
    p.giveUnit slot retire =
      if retire = false ∧ s.retired = false then p.handOn slot p.queue
      else if p.queue = [] then p.retireSlot s
      else
        match (p.retireSlot s).assign? with
        | none => p.retireSlot s
        | some (other, q) => q.handOn other q.queue := by
  have hid : s.id = slot := (slot?_eq_some h).2
  obtain ⟨-, -, hqueue, -⟩ := p.retireSlot_parts s
  subst hid
  have : (p.retireSlot s).queue.isEmpty = true ↔ p.queue = [] := by
    rw [hqueue, List.isEmpty_iff]
  simp only [giveUnit, h]
  by_cases hstay : retire = false ∧ s.retired = false
  · rw [if_pos hstay, hstay.1, hstay.2]
    rfl
  · have hcond : (!retire && !s.retired) = false := by
      cases retire <;> cases hr : s.retired <;> simp_all
    rw [if_neg hstay, hcond, if_neg Bool.false_ne_true]
    simp only [← this]
    rfl

theorem leases_handOn (p : Shared) (slot : ℕ) (queue : List ℕ) : (p.handOn slot queue).leases = p.leases := by
  rcases handOn_cases p slot queue with ⟨_, _, _, _, -, -, -, e⟩ | ⟨-, e⟩
  · rw [e]
  · rw [e]
    rfl

theorem leases_giveUnit (p : Shared) (slot : ℕ) (retire : Bool) : (p.giveUnit slot retire).leases = p.leases := by
  cases hs : p.slot? slot with
  | none => rw [giveUnit, hs]
  | some s =>
    have hretired := (p.retireSlot_parts s).2.1
    rw [giveUnit_eq hs]
    split
    · exact leases_handOn p slot p.queue
    split
    · exact hretired
    split
    · exact hretired
    · next q ha => rw [leases_handOn, (assign?_parts ha).2.1, hretired]

/-! ### The limits of a pool -/

/-- The limits within which a pool works. -/
def limits (p : Shared) : SharedOptions := ⟨p.target, p.depth⟩

section limits

variable (p : Shared)

theorem limits_eq_iff {p q : Shared} :
    q.limits = p.limits ↔ q.target = p.target ∧ q.depth = p.depth := by
  simp [limits]

theorem assign?_limits {p q : Shared} {slot : ℕ} (h : p.assign? = some (slot, q)) :
    q.limits = p.limits := by
  rcases assign?_cases h with ⟨_, -, -, -, -, rfl⟩ | ⟨-, -, rfl⟩ <;> rfl

theorem handOn_limits (slot : ℕ) (queue : List ℕ) : (p.handOn slot queue).limits = p.limits := by
  rcases handOn_cases p slot queue with ⟨_, _, _, _, -, -, -, e⟩ | ⟨-, e⟩ <;> rw [e] <;> rfl

theorem retireSlot_limits (s : Slot) : (p.retireSlot s).limits = p.limits := by
  rw [retireSlot, dropDrained]
  split <;> rfl

theorem giveUnit_limits (slot : ℕ) (retire : Bool) :
    (p.giveUnit slot retire).limits = p.limits := by
  cases hs : p.slot? slot with
  | none => rw [giveUnit, hs]
  | some s =>
    rw [giveUnit_eq hs]
    split
    · exact p.handOn_limits slot p.queue
    · split
      · exact p.retireSlot_limits s
      · split
        · exact p.retireSlot_limits s
        · next other q ha =>
          rw [q.handOn_limits, assign?_limits ha, p.retireSlot_limits]

theorem settle_limits (name : String) (slot : ℕ) (result : Except ClientError ℕ) :
    (p.settle name slot result).2.limits = p.limits := by
  cases result with
  | ok item => rfl
  | error cause => exact giveUnit_limits _ slot true

theorem proceed_limits (made : Creations) (name : String) (slot item : ℕ) :
    (p.proceed made name slot item).2.limits = p.limits := by
  simp only [proceed]
  split
  · rfl
  · exact settle_limits _ name slot _

theorem await_limits (made : Creations) (name : String) (slot : ℕ) (place : Handle)
    (turn : Semaphore) : (p.await made name slot place turn).2.limits = p.limits := by
  simp only [await]
  split
  · exact proceed_limits _ made name slot _
  · rfl

theorem enter_limits (made : Creations) (name : String) (slot : ℕ) :
    (p.enter made name slot).2.limits = p.limits := by
  simp only [enter]
  split
  · rfl
  · split
    · exact p.settle_limits name slot _
    · exact p.await_limits made name slot _ _

/-- No operation changes the limits of a pool. -/
theorem step_limits (event : Event) : (p.step event).limits = p.limits := by
  cases event with
  | borrow made name =>
    simp only [step, Shared.borrow]
    split
    · rfl
    split
    · rfl
    split
    · next slot q ha => exact (q.enter_limits made name slot).trans (assign?_limits ha)
    · rfl
  | poll made name =>
    simp only [step, Shared.poll]
    split
    · rfl
    · rfl
    · rfl
    · exact p.enter_limits made name _
    · exact p.proceed_limits made name _ _
    · split
      · rfl
      · split
        · exact p.settle_limits name _ _
        · exact p.await_limits made name _ _ _
  | cancel name =>
    simp only [step, Shared.cancel]
    split
    · rfl
    · split
      · rfl
      · rfl
      · exact giveUnit_limits _ _ false
      · exact giveUnit_limits _ _ false
      · exact giveUnit_limits _ _ false
  | release accepts name =>
    simp only [step, Shared.release]
    split
    · rfl
    · exact giveUnit_limits _ _ _
  | corrupt name =>
    simp only [step, Shared.corrupt]
    split <;> rfl
  | dispose => rfl

theorem run_limits (events : List Event) : (p.run events).limits = p.limits :=
  run_induction (P := fun q => q.limits = p.limits) rfl
    (fun q event h => (q.step_limits event).trans h) events

end limits

end Shared

end MemcachedClient.Pool
