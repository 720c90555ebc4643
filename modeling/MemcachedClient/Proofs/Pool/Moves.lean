import MemcachedClient.Proofs.Pool.Retirement

/-!
# What an operation does to the queue of a shared pool

Most of what an operation does concerns neither the queue nor what there is to hand out: leases are
made, creations start and end, a borrower that has a unit goes on. `Quiet p q` says that `q` differs
from `p` in such things only. Up to that, `Move p event q` lists all that an operation can do: a
borrower joins the queue or leaves it, a borrower that starts is assigned a unit, one unit is given
back, or the pool is disposed. `move_step` says that the list is complete; whatever is proved of the
queue is proved for each line of it.

`Queueing` is the invariant of the queue: its tickets are in order, and each borrower that waits has
one of them to itself.
-/

namespace MemcachedClient.Pool.Shared

/-- The borrower with this name waits in the queue with this ticket. -/
def Waits (p : Shared) (name : String) (ticket : ℕ) : Prop :=
  p.borrows.get? name = some (.queued ticket)

/-- A borrower or a lease under this name has a unit. -/
def Holds (p : Shared) (name : String) : Prop := ∃ slot, p.Has name slot

/-- Whether a borrower can start under this name. -/
def admits (p : Shared) (name : String) : Bool :=
  !(p.borrows.has name || p.leases.has name) && !p.disposed

/-- The borrower that an operation starts. -/
def starts? (p : Shared) : Event → Option String
  | .borrow _ name => if p.admits name then some name else none
  | _ => none

/-- No unit can be taken: the slots that take borrowers are full, and there are enough of them. -/
def Full (p : Shared) : Prop := (∀ s ∈ p.live, p.depth ≤ s.inFlight) ∧ p.target ≤ p.live.length

/-- What the queue and the handing out of units depend on is the same. -/
structure Quiet (p q : Shared) : Prop where
  /-- The limits are the same. -/
  limits : q.limits = p.limits
  /-- The pool is disposed in both or in neither. -/
  disposed : q.disposed = p.disposed
  /-- The queue is the same. -/
  queue : q.queue = p.queue
  /-- The next ticket is the same. -/
  nextTicket : q.nextTicket = p.nextTicket
  /-- The slots are the same up to their items. -/
  slots : (q.slots.map fun s => (s.id, s.inFlight, s.retired)) =
    p.slots.map fun s => (s.id, s.inFlight, s.retired)
  /-- The same borrowers wait. -/
  waits : ∀ name ticket, q.Waits name ticket ↔ p.Waits name ticket

namespace Quiet

variable {p q r : Shared} {name : String}

theorem refl (p : Shared) : Quiet p p := ⟨rfl, rfl, rfl, rfl, rfl, fun _ _ => Iff.rfl⟩

theorem trans (h : Quiet p q) (h' : Quiet q r) : Quiet p r :=
  ⟨h'.limits.trans h.limits, h'.disposed.trans h.disposed, h'.queue.trans h.queue,
    h'.nextTicket.trans h.nextTicket, h'.slots.trans h.slots,
    fun name ticket => (h'.waits name ticket).trans (h.waits name ticket)⟩

theorem updateSlot (p : Shared) (id : ℕ) {f : Slot → Slot} (hf : Slot.Keeps f) :
    Quiet p (p.updateSlot id f) := by
  refine ⟨rfl, rfl, rfl, rfl, ?_, fun _ _ => Iff.rfl⟩
  rw [Shared.updateSlot, List.map_map]
  refine List.map_congr_left fun s _ => ?_
  simp only [Function.comp]
  split
  · rw [hf.id, hf.inFlight, hf.retired]
  · rfl

/-- A borrower that does not wait goes on without waiting. -/
theorem put (hw : ∀ ticket, ¬ p.Waits name ticket) (borrow : SharedBorrow)
    (hb : borrow.isQueued = false) :
    Quiet p { p with borrows := p.borrows.put name borrow } := by
  refine ⟨rfl, rfl, rfl, rfl, rfl, fun other ticket => ?_⟩
  rw [Waits, Table.get?_put]
  split
  · next e =>
    constructor
    · rintro h
      rw [Option.some.inj h] at hb
      simp [SharedBorrow.isQueued] at hb
    · intro h
      exact absurd (e ▸ h) (hw ticket)
  · rfl

/-- A borrower that does not wait is gone. -/
theorem without (hw : ∀ ticket, ¬ p.Waits name ticket) : Quiet p (p.without name) := by
  refine ⟨rfl, rfl, rfl, rfl, rfl, fun other ticket => ?_⟩
  rw [Waits, Shared.without, Table.get?_remove]
  split
  · next e =>
    constructor
    · intro h
      simp at h
    · intro h
      exact absurd (e ▸ h) (hw ticket)
  · rfl

theorem live (h : Quiet p q) : (q.live.map fun s => (s.id, s.inFlight)) =
    p.live.map fun s => (s.id, s.inFlight) := by
  have hlive : ∀ p : Shared, (p.live.map fun s => (s.id, s.inFlight)) =
      ((p.slots.map fun s => (s.id, s.inFlight, s.retired)).filter fun s => !s.2.2).map
        fun s => (s.1, s.2.1) := by
    intro p
    rw [List.filter_map, List.map_map]
    rfl
  rw [hlive, hlive, h.slots]

/-- The slots that take borrowers are the same. -/
theorem live_ids (h : Quiet p q) : q.live.map (·.id) = p.live.map (·.id) := by
  have := congrArg (List.map Prod.fst) h.live
  rwa [List.map_map, List.map_map] at this

theorem full (h : Quiet p q) : q.Full ↔ p.Full := by
  have hfull : ∀ p : Shared, p.Full ↔
      (∀ n ∈ (p.live.map fun s => (s.id, s.inFlight)), p.limits.maxRequestsPerItem ≤ n.2) ∧
        p.limits.targetItemCount ≤ (p.live.map fun s => (s.id, s.inFlight)).length := by
    intro p
    rw [List.forall_mem_map, List.length_map]
    rfl
  rw [hfull, hfull, h.live, h.limits]

end Quiet

/-- All that an operation does about the unit of a borrower or a lease: nothing, or it gives the
unit back. -/
inductive Ends (p : Shared) : Shared → Prop where
  /-- The unit stays where it is. -/
  | quiet {q : Shared} (same : Quiet p q) : Ends p q
  /-- The unit is given back. -/
  | give {q : Shared} (same : Quiet p q) {slot : ℕ} (books : Accounted q (some slot))
    (retire : Bool) : Ends p (q.giveUnit slot retire)

/-- All that an operation does, up to what the queue does not depend on. -/
inductive Move (p : Shared) : Event → Shared → Prop where
  /-- A borrower or a lease that has a unit goes on or gives its unit back. -/
  | ends {event : Event} {q : Shared} (kept : event ≠ .dispose) (nobody : p.starts? event = none)
    (ends : Ends p q) : Move p event q
  /-- A borrower leaves the queue. -/
  | leave {name : String} {ticket : ℕ} (waits : p.Waits name ticket) :
    Move p (.cancel name) (p.without name)
  /-- A borrower starts and joins the queue. -/
  | join {made : Creations} {name : String} (starts : p.admits name = true) (full : p.Full) :
    Move p (.borrow made name)
      { p with
        queue := p.queue ++ [p.nextTicket]
        nextTicket := p.nextTicket + 1
        borrows := p.borrows.put name (.queued p.nextTicket) }
  /-- A borrower starts and is assigned a unit. -/
  | direct {made : Creations} {name : String} {slot : ℕ} {q r : Shared}
    (starts : p.admits name = true) (assigned : p.assign? = some (slot, q)) (ends : Ends q r) :
    Move p (.borrow made name) r
  /-- The pool is disposed. -/
  | dispose : Move p .dispose p.dispose

theorem admits_iff {p : Shared} {name : String} : p.admits name = true ↔
    p.borrows.get? name = none ∧ p.leases.get? name = none ∧ p.disposed = false := by
  rw [← Table.has_eq_false_iff, ← Table.has_eq_false_iff, admits]
  simp [and_assoc]

/-- A borrower that has a unit does not wait. -/
theorem not_waits_of_slot? {p : Shared} {name : String} {borrow : SharedBorrow} {slot : ℕ}
    (hget : p.borrows.get? name = some borrow) (hslot : borrow.slot? = some slot) (ticket : ℕ) :
    ¬ p.Waits name ticket := by
  intro hw
  rw [Waits, hget, Option.some.injEq] at hw
  rw [hw] at hslot
  simp [SharedBorrow.slot?] at hslot

theorem assign?_eq_none_iff_full {p : Shared} : p.assign? = none ↔ p.Full := assign?_eq_none_iff

/-- What becomes of a borrower that has a unit in hand: it keeps the unit, or gives it back. -/
inductive Yields (p : Shared) (name : String) : Shared → Prop where
  /-- The borrower has its unit still, as a borrower or with a lease. -/
  | keeps {q : Shared} (same : Quiet p q) (holds : q.Holds name) : Yields p name q
  /-- The unit is given back. -/
  | gives {q : Shared} (same : Quiet p q) {slot : ℕ} (books : Accounted q (some slot))
    (retire : Bool) : Yields p name (q.giveUnit slot retire)

section yields

variable {p q r : Shared} {name : String} {slot : ℕ}

theorem Ends.trans (h : Quiet p q) (h' : Ends q r) : Ends p r := by
  cases h' with
  | quiet same => exact .quiet (h.trans same)
  | give same books retire => exact .give (h.trans same) books retire

theorem Yields.ends (h : Yields p name q) : Ends p q := by
  cases h with
  | keeps same holds => exact .quiet same
  | gives same books retire => exact .give same books retire

theorem Yields.trans (h : Quiet p q) (h' : Yields q name r) : Yields p name r := by
  cases h' with
  | keeps same holds => exact .keeps (h.trans same) holds
  | gives same books retire => exact .gives (h.trans same) books retire

/-- A borrower that has a unit keeps it as long as it stays a borrower. -/
theorem Yields.put (hw : ∀ ticket, ¬ p.Waits name ticket) {borrow : SharedBorrow}
    (hslot : borrow.slot? = some slot) (hqueued : borrow.isQueued = false) :
    Yields p name { p with borrows := p.borrows.put name borrow } :=
  .keeps (.put hw borrow hqueued) ⟨slot, Or.inl ⟨borrow, Table.get?_put_self _ _ _, hslot⟩⟩

variable (h : Running p name slot) (hw : ∀ ticket, ¬ p.Waits name ticket)
include h hw

theorem yields_settle (result : Except ClientError ℕ) :
    Yields p name (p.settle name slot result).2 := by
  have hquiet := Quiet.without hw
  cases result with
  | ok item =>
    refine .keeps (hquiet.trans ⟨rfl, rfl, rfl, rfl, rfl, fun _ _ => Iff.rfl⟩) ⟨slot, Or.inr ?_⟩
    exact ⟨⟨slot, item, false⟩, Table.get?_put_self _ _ _, rfl⟩
  | error cause => exact .gives hquiet h.books true

theorem yields_proceed (made : Creations) (item : ℕ) :
    Yields p name (p.proceed made name slot item).2 := by
  simp only [Shared.proceed]
  split
  · exact .put hw rfl rfl
  · next result _ =>
    have hf : Slot.Keeps fun s => { s with made := some (result.map fun () => item) } :=
      Slot.keeps_made _
    exact .trans (.updateSlot p slot hf) (yields_settle (h.updateSlot slot hf) hw _)

theorem yields_await (made : Creations) (place : Handle) (turn : Semaphore) :
    Yields p name (p.await made name slot place turn).2 := by
  have hf : Slot.Keeps fun s => { s with turn := (turn.poll place).2.2 } :=
    Slot.keeps_turn fun _ => _
  have hquiet := Quiet.updateSlot p slot hf
  have hrun := h.updateSlot slot hf
  simp only [Shared.await]
  split
  · refine .trans hquiet (.trans ?_ (yields_proceed (hrun.created _) hw made _))
    exact ⟨rfl, rfl, rfl, rfl, rfl, fun _ _ => Iff.rfl⟩
  · exact .trans hquiet (.put (p := p.updateSlot slot _) hw rfl rfl)

theorem yields_enter (made : Creations) : Yields p name (p.enter made name slot).2 := by
  obtain ⟨s, hs⟩ := h.books.exists_slot?
  have hs' : p.slot? slot = some s := hs
  simp only [Shared.enter, hs']
  split
  · exact yields_settle h hw _
  · exact yields_await h hw made _ _

end yields

namespace Accounted

variable {p : Shared} (h : Accounted p none)
include h

theorem move_borrow (made : Creations) (name : String) :
    Move p (.borrow made name) (p.borrow made name).2 := by
  simp only [Shared.borrow]
  split
  · next hused => exact .ends (by simp) (by simp [starts?, admits, hused]) (.quiet (.refl p))
  next hfree =>
  rw [Bool.not_eq_true] at hfree
  split
  · next hdisposed => exact .ends (by simp) (by simp [starts?, admits, hdisposed]) (.quiet (.refl p))
  next hopen =>
  rw [Bool.not_eq_true] at hopen
  have hstarts : p.admits name = true := by
    rw [admits, hfree, hopen]
    rfl
  obtain ⟨hb, hl, -⟩ := admits_iff.mp hstarts
  split
  · next slot q ha =>
    obtain ⟨hborrows, hleases, -⟩ := assign?_parts ha
    refine .direct hstarts ha (yields_enter (.of_new (h.assign? ha) ?_ ?_) ?_ made).ends
    · rw [hborrows, Table.has_eq_false_iff]
      exact hb
    · rw [hleases, Table.has_eq_false_iff]
      exact hl
    · intro ticket hw
      rw [Waits, hborrows, hb] at hw
      simp at hw
  · next ha => exact .join hstarts (assign?_eq_none_iff_full.mp ha)

/-- A borrower that has a unit and goes on keeps it or gives it back. -/
theorem yields_poll (made : Creations) {name : String} {borrow : SharedBorrow} {slot : ℕ}
    (hget : p.borrows.get? name = some borrow) (hslot : borrow.slot? = some slot) :
    Yields p name (p.poll made name).2 := by
  have hw := not_waits_of_slot? hget hslot
  have hrun : Running p name slot := .of_get? h hget hslot
  cases borrow with
  | queued | refused => simp [SharedBorrow.slot?] at hslot
  | assigned =>
    obtain rfl := Option.some.inj hslot
    simp only [Shared.poll, hget]
    exact yields_enter hrun hw made
  | creating _ item =>
    obtain rfl := Option.some.inj hslot
    simp only [Shared.poll, hget]
    exact yields_proceed hrun hw made item
  | awaiting _ place =>
    obtain rfl := Option.some.inj hslot
    obtain ⟨s, hs⟩ := hrun.books.exists_slot?
    have hs' : p.slot? _ = some s := hs
    simp only [Shared.poll, hget, hs']
    split
    · exact yields_settle hrun hw _
    · exact yields_await hrun hw made _ _

theorem move_poll (made : Creations) (name : String) :
    Move p (.poll made name) (p.poll made name).2 := by
  cases hget : p.borrows.get? name with
  | none =>
    simp only [Shared.poll, hget]
    exact .ends (by simp) rfl (.quiet (.refl p))
  | some borrow =>
    cases hslot : borrow.slot? with
    | some slot => exact .ends (by simp) rfl (h.yields_poll made hget hslot).ends
    | none =>
      cases borrow with
      | queued =>
        simp only [Shared.poll, hget]
        exact .ends (by simp) rfl (.quiet (.refl p))
      | refused =>
        simp only [Shared.poll, hget]
        refine .ends (by simp) rfl (.quiet (.without fun ticket hw => ?_))
        simp [Waits, hget] at hw
      | _ => simp [SharedBorrow.slot?] at hslot

/-- A borrower that has a unit and is dropped gives it back. -/
theorem gives_cancel {name : String} {borrow : SharedBorrow} {slot : ℕ}
    (hget : p.borrows.get? name = some borrow) (hslot : borrow.slot? = some slot) :
    ∃ q, Quiet p q ∧ Accounted q (some slot) ∧ q.borrows = p.borrows.remove name ∧
      q.leases = p.leases ∧ p.cancel name = (true, q.giveUnit slot false) := by
  have hquiet := Quiet.without (not_waits_of_slot? hget hslot)
  have hbooks := h.without hget (Or.inl rfl)
  cases borrow with
  | queued | refused => simp [SharedBorrow.slot?] at hslot
  | assigned =>
    obtain rfl := Option.some.inj hslot
    exact ⟨_, hquiet, hbooks, rfl, rfl, by simp [Shared.cancel, hget, Shared.without]⟩
  | awaiting own place =>
    obtain rfl := Option.some.inj hslot
    have hf : Slot.Keeps fun s => { s with turn := s.turn.drop place } := Slot.keeps_turn _
    exact ⟨_, hquiet.trans (.updateSlot _ own hf), hbooks.updateSlot own hf, rfl, rfl,
      by simp [Shared.cancel, hget, Shared.without]⟩
  | creating own item =>
    obtain rfl := Option.some.inj hslot
    have hf : Slot.Keeps fun s => { s with turn := s.turn.signalOne } := Slot.keeps_turn _
    exact ⟨_, hquiet.trans (.updateSlot _ own hf), hbooks.updateSlot own hf, rfl, rfl,
      by simp [Shared.cancel, hget, Shared.without]⟩

theorem move_cancel (name : String) : Move p (.cancel name) (p.cancel name).2 := by
  cases hget : p.borrows.get? name with
  | none =>
    simp only [Shared.cancel, hget]
    exact .ends (by simp) rfl (.quiet (.refl p))
  | some borrow =>
    cases hslot : borrow.slot? with
    | some slot =>
      obtain ⟨q, hquiet, hbooks, -, -, e⟩ := h.gives_cancel hget hslot
      rw [e]
      exact .ends (by simp) rfl (.give hquiet hbooks false)
    | none =>
      cases borrow with
      | queued ticket =>
        simp only [Shared.cancel, hget]
        exact .leave hget
      | refused =>
        simp only [Shared.cancel, hget]
        refine .ends (by simp) rfl (.quiet (.without fun ticket hw => ?_))
        simp [Waits, hget] at hw
      | _ => simp [SharedBorrow.slot?] at hslot

/-- A lease that ends gives its unit back. -/
theorem gives_release {name : String} {lease : SharedLease} (hget : p.leases.get? name = some lease)
    (accepts : ℕ → Bool) : ∃ q, Quiet p q ∧ Accounted q (some lease.slot) ∧ q.borrows = p.borrows ∧
      q.leases = p.leases.remove name ∧
      p.release accepts name = (true, q.giveUnit lease.slot (lease.corrupted || !accepts lease.item)) := by
  refine ⟨_, ?_, h.removeLease hget, rfl, rfl, by simp [Shared.release, hget]⟩
  exact ⟨rfl, rfl, rfl, rfl, rfl, fun _ _ => Iff.rfl⟩

/-- **Every operation is one of the moves.** -/
theorem move_step (event : Event) : Move p event (p.step event) := by
  cases event with
  | borrow made name => exact h.move_borrow made name
  | poll made name => exact h.move_poll made name
  | cancel name => exact h.move_cancel name
  | release accepts name =>
    cases hget : p.leases.get? name with
    | none =>
      simp only [Shared.step, Shared.release, hget]
      exact .ends (by simp) rfl (.quiet (.refl p))
    | some lease =>
      obtain ⟨q, hquiet, hbooks, -, -, e⟩ := h.gives_release hget accepts
      rw [Shared.step, e]
      exact .ends (by simp) rfl (.give hquiet hbooks _)
  | corrupt name =>
    simp only [Shared.step, Shared.corrupt]
    split
    · exact .ends (by simp) rfl (.quiet (.refl p))
    · exact .ends (by simp) rfl (.quiet ⟨rfl, rfl, rfl, rfl, rfl, fun _ _ => Iff.rfl⟩)
  | dispose => exact .dispose

end Accounted

/-! ### The queue -/

/-- The tickets in the queue are in order, and each borrower that waits has one to itself. -/
structure Queueing (p : Shared) : Prop where
  /-- The older tickets stand first. -/
  sorted : p.queue.Pairwise (· < ·)
  /-- The tickets to come are later than those in the queue. -/
  lt : ∀ ticket ∈ p.queue, ticket < p.nextTicket
  /-- A borrower that waits has its ticket in the queue. -/
  mem : ∀ name ticket, p.Waits name ticket → ticket ∈ p.queue
  /-- No two borrowers wait with one ticket. -/
  alone : ∀ name other ticket, p.Waits name ticket → p.Waits other ticket → name = other
  /-- Nobody waits in a pool that was disposed. -/
  dismissed : p.disposed = true → ∀ name ticket, ¬ p.Waits name ticket

/-- A unit goes to the borrower that has waited longest, or to nobody that waits. -/
inductive Hands (p q : Shared) : Prop where
  /-- The same borrowers wait as before. -/
  | nobody (same : ∀ name ticket, q.Waits name ticket ↔ p.Waits name ticket)
  /-- The borrower with the oldest ticket is handed a unit, and the others wait on. -/
  | oldest {name : String} {ticket slot : ℕ} (waits : p.Waits name ticket)
    (first : ∀ other t, p.Waits other t → ticket ≤ t)
    (gets : q.borrows.get? name = some (.assigned slot))
    (rest : ∀ other t, q.Waits other t ↔ other ≠ name ∧ p.Waits other t)

section queue

variable {p q r : Shared} {slot : ℕ}

theorem waits_congr (hb : q.borrows = p.borrows) : q.Waits = p.Waits := by
  funext name ticket
  rw [Waits, hb]
  rfl

theorem Hands.congr (hb : q.borrows = p.borrows) (h : Hands q r) : Hands p r := by
  have hw := waits_congr hb
  cases h with
  | nobody same => exact .nobody (hw ▸ same)
  | oldest waits first gets rest => exact .oldest (hw ▸ waits) (hw ▸ first) gets (hw ▸ rest)

/-- Nobody waits in a pool that was just disposed. -/
theorem not_waits_dispose (p : Shared) (name : String) (ticket : ℕ) :
    ¬ p.dispose.Waits name ticket := by
  rw [Waits, dispose_borrows, Table.get?_map]
  intro hw
  rw [Option.map_eq_some_iff] at hw
  obtain ⟨borrow, -, e⟩ := hw
  have := borrow.isQueued_turnedAway
  rw [e] at this
  simp [SharedBorrow.isQueued] at this

/-- Who waits when a borrower is gone waited before. -/
theorem Waits.of_without {name other : String} {ticket : ℕ}
    (h : (p.without name).Waits other ticket) : p.Waits other ticket := by
  rw [Waits, without, Table.get?_remove] at h
  split at h
  · simp at h
  · exact h

namespace Queueing

/-- Borrowers may leave the queue without a trace. -/
theorem of_imp (hb : ∀ name ticket, q.Waits name ticket → p.Waits name ticket)
    (hq : q.queue = p.queue) (hn : q.nextTicket = p.nextTicket) (hd : q.disposed = p.disposed)
    (h : Queueing p) : Queueing q where
  sorted := hq ▸ h.sorted
  lt := hq ▸ hn ▸ h.lt
  mem name ticket hw := hq ▸ h.mem name ticket (hb name ticket hw)
  alone name other ticket hw hw' :=
    h.alone name other ticket (hb name ticket hw) (hb other ticket hw')
  dismissed hdisposed name ticket hw := h.dismissed (hd ▸ hdisposed) name ticket (hb name ticket hw)

theorem congr (hb : ∀ name ticket, q.Waits name ticket ↔ p.Waits name ticket)
    (hq : q.queue = p.queue) (hn : q.nextTicket = p.nextTicket) (hd : q.disposed = p.disposed)
    (h : Queueing p) : Queueing q :=
  h.of_imp (fun name ticket => (hb name ticket).mp) hq hn hd

theorem retireSlot (h : Queueing p) (s : Slot) : Queueing (p.retireSlot s) := by
  obtain ⟨hb, -, hq, hn, -, hd⟩ := p.retireSlot_parts s
  refine h.congr ?_ hq hn hd
  rw [waits_congr hb]
  exact fun _ _ => Iff.rfl

theorem assign? (h : Queueing p) (ha : p.assign? = some (slot, q)) : Queueing q := by
  obtain ⟨hb, -, hq, hn, hd⟩ := assign?_parts ha
  refine h.congr ?_ hq hn hd
  rw [waits_congr hb]
  exact fun _ _ => Iff.rfl

theorem ofOptions (kind : String) (options : SharedOptions) :
    Queueing (.ofOptions kind options) := by
  have hnone : ∀ name ticket, ¬ (Shared.ofOptions kind options).Waits name ticket := by
    intro name ticket hw
    simp [Waits, Shared.ofOptions, Table.get?] at hw
  exact ⟨.nil, by simp [Shared.ofOptions], fun name ticket hw => absurd hw (hnone name ticket),
    fun name _ ticket hw => absurd hw (hnone name ticket), fun _ => hnone⟩

/-- Handing a unit on serves the oldest ticket whose borrower still waits. -/
theorem handOn (hd : p.borrows.Distinct) (h : Queueing p) (slot : ℕ) :
    Hands p (p.handOn slot p.queue) ∧ Queueing (p.handOn slot p.queue) := by
  rcases handOn_cases p slot p.queue with
    ⟨passed, ticket, rest, name, hqueue, hpassed, hname, e⟩ | ⟨hall, e⟩
  · have hwaits := waiter?_eq_some hd hname
    have hsorted := hqueue ▸ h.sorted
    have hlater : ∀ t ∈ rest, ticket < t := fun t ht =>
      List.rel_of_pairwise_cons (List.pairwise_append.mp hsorted).2.1 ht
    -- a borrower that waits has no ticket among those passed over
    have hplace : ∀ other t, p.Waits other t → t = ticket ∨ t ∈ rest := by
      intro other t hw
      have hmem := hqueue ▸ h.mem other t hw
      rcases List.mem_append.mp hmem with hmem | hmem
      · exact absurd hw (waiter?_eq_none (hpassed t hmem) other)
      · exact List.mem_cons.mp hmem
    have hrest : ∀ other t, (p.handOn slot p.queue).Waits other t ↔
        other ≠ name ∧ p.Waits other t := by
      intro other t
      rw [e, Waits, Table.get?_put]
      split
      · next he => simp [he]
      · next hne => exact ⟨fun hw => ⟨hne, hw⟩, fun hw => hw.2⟩
    have hqueue' : (p.handOn slot p.queue).queue = rest := by rw [e]
    have hgets : (p.handOn slot p.queue).borrows.get? name = some (.assigned slot) := by
      rw [e, Table.get?_put_self]
    refine ⟨.oldest hwaits ?_ hgets hrest, ?_, ?_, ?_, ?_, ?_⟩
    · intro other t hw
      rcases hplace other t hw with rfl | hmem
      · exact Nat.le_refl _
      · exact Nat.le_of_lt (hlater t hmem)
    · rw [hqueue']
      exact (List.pairwise_cons.mp (List.pairwise_append.mp hsorted).2.1).2
    · rw [hqueue', e]
      intro t ht
      refine h.lt t ?_
      rw [hqueue]
      exact List.mem_append_right _ (List.mem_cons_of_mem _ ht)
    · intro other t hw
      rw [hrest] at hw
      rw [hqueue']
      rcases hplace other t hw.2 with rfl | hmem
      · exact absurd (h.alone other name t hw.2 hwaits) hw.1
      · exact hmem
    · intro a b t ha hb
      exact h.alone a b t ((hrest a t).mp ha).2 ((hrest b t).mp hb).2
    · intro hdisposed other t hw
      rw [e] at hdisposed
      exact h.dismissed hdisposed other t ((hrest other t).mp hw).2
  · have hnobody : ∀ name ticket, ¬ p.Waits name ticket := fun name ticket hw =>
      waiter?_eq_none (hall ticket (h.mem name ticket hw)) name hw
    have hsame : ∀ name ticket, (p.handOn slot p.queue).Waits name ticket ↔
        p.Waits name ticket := by
      rw [e]
      exact fun _ _ => Iff.rfl
    refine ⟨.nobody hsame, ?_, ?_, ?_, ?_, ?_⟩
    · rw [e]
      exact .nil
    · rw [e]
      simp
    · exact fun name ticket hw => absurd ((hsame name ticket).mp hw) (hnobody name ticket)
    · exact fun name _ ticket hw => absurd ((hsame name ticket).mp hw) (hnobody name ticket)
    · exact fun _ name ticket hw => hnobody name ticket ((hsame name ticket).mp hw)

theorem giveUnit (hd : p.borrows.Distinct) (h : Queueing p) {s : Slot}
    (hs : p.slot? slot = some s) (retire : Bool) :
    Hands p (p.giveUnit slot retire) ∧ Queueing (p.giveUnit slot retire) := by
  have hb : (p.retireSlot s).borrows = p.borrows := (p.retireSlot_parts s).1
  have hsame : ∀ name ticket, (p.retireSlot s).Waits name ticket ↔ p.Waits name ticket := by
    rw [waits_congr hb]
    exact fun _ _ => Iff.rfl
  have hretired := h.retireSlot s
  rw [giveUnit_eq hs]
  split
  · exact h.handOn hd slot
  split
  · exact ⟨.nobody hsame, hretired⟩
  split
  · exact ⟨.nobody hsame, hretired⟩
  · next other q ha =>
    have hborrows : q.borrows = p.borrows := (assign?_parts ha).1.trans hb
    obtain ⟨hands, hq⟩ := (hretired.assign? ha).handOn (hborrows ▸ hd) other
    exact ⟨hands.congr hborrows, hq⟩

/-- A unit that a borrower or a lease gives back goes to the borrower that has waited longest. -/
theorem ends (h : Queueing p) (he : Ends p q) : Hands p q ∧ Queueing q := by
  cases he with
  | quiet same => exact ⟨.nobody same.waits, h.congr same.waits same.queue same.nextTicket same.disposed⟩
  | @give q' same slot books retire =>
    obtain ⟨s, hs⟩ := books.exists_slot?
    have hq := h.congr same.waits same.queue same.nextTicket same.disposed
    obtain ⟨hands, hq'⟩ := hq.giveUnit books.borrows hs retire
    refine ⟨?_, hq'⟩
    cases hands with
    | nobody same' => exact .nobody fun name t => (same' name t).trans (same.waits name t)
    | oldest waits first gets rest =>
      refine .oldest ((same.waits _ _).mp waits) ?_ gets ?_
      · exact fun other t hw => first other t ((same.waits other t).mpr hw)
      · exact fun other t => (rest other t).trans (and_congr_right fun _ => same.waits other t)

/-- A borrower that joins the queue stands last. -/
theorem join (h : Queueing p) (hopen : p.disposed = false) (name : String) :
    Queueing { p with
      queue := p.queue ++ [p.nextTicket]
      nextTicket := p.nextTicket + 1
      borrows := p.borrows.put name (.queued p.nextTicket) } := by
  have hwaits : ∀ {other t}, (p.borrows.put name (.queued p.nextTicket)).get? other =
      some (.queued t) → other = name ∧ t = p.nextTicket ∨ p.Waits other t := by
    intro other t hw
    rw [Table.get?_put] at hw
    split at hw
    · next e =>
      rw [Option.some.injEq, SharedBorrow.queued.injEq] at hw
      exact Or.inl ⟨e, hw.symm⟩
    · exact Or.inr hw
  have hlt : ∀ {other t}, p.Waits other t → t < p.nextTicket := fun hw => h.lt _ (h.mem _ _ hw)
  refine ⟨?_, ?_, ?_, ?_, fun hdisposed => absurd hdisposed (by simp [hopen])⟩
  · refine List.pairwise_append.mpr ⟨h.sorted, List.pairwise_singleton _ _, ?_⟩
    intro t ht t' ht'
    rw [List.mem_singleton.mp ht']
    exact h.lt t ht
  · intro t ht
    rcases List.mem_append.mp ht with ht | ht
    · exact Nat.lt_succ_of_lt (h.lt t ht)
    · rw [List.mem_singleton.mp ht]
      exact Nat.lt_succ_self _
  · intro other t hw
    rcases hwaits hw with ⟨-, rfl⟩ | hw
    · exact List.mem_append_right _ (List.mem_singleton_self _)
    · exact List.mem_append_left _ (h.mem other t hw)
  · intro a b t ha hb
    rcases hwaits ha with ⟨e, et⟩ | ha' <;> rcases hwaits hb with ⟨e', et'⟩ | hb'
    · exact e.trans e'.symm
    · exact absurd (hlt hb') (et ▸ Nat.lt_irrefl _)
    · exact absurd (hlt ha') (et' ▸ Nat.lt_irrefl _)
    · exact h.alone a b t ha' hb'

/-- Every operation keeps the queue in order. -/
theorem move (h : Queueing p) {event : Event} (hm : Move p event q) : Queueing q := by
  cases hm with
  | ends kept nobody ends => exact (h.ends ends).2
  | @leave name ticket waits =>
    have hleave : ∀ other t, (p.without name).Waits other t → p.Waits other t := fun _ _ =>
      Waits.of_without
    exact h.of_imp hleave rfl rfl rfl
  | join starts full => exact h.join (admits_iff.mp starts).2.2 _
  | direct starts assigned ends =>
    exact ((h.assign? assigned).ends ends).2
  | dispose =>
    have hnone := not_waits_dispose p
    exact ⟨.nil, by simp [dispose], fun name t hw => absurd hw (hnone name t),
      fun name _ t hw => absurd hw (hnone name t), fun _ => hnone⟩

/-- The queue of a pool is in order after every run. -/
theorem run (kind : String) (options : SharedOptions) (events : List Event) :
    Queueing ((Shared.ofOptions kind options).run events) := by
  refine (run_induction (P := fun p => Accounted p none ∧ Queueing p)
    ⟨.ofOptions kind options, .ofOptions kind options⟩ ?_ events).2
  rintro p event ⟨hbooks, h⟩
  exact ⟨hbooks.step event, h.move (hbooks.move_step event)⟩

end Queueing

end queue

end MemcachedClient.Pool.Shared
