import MemcachedClient.Proofs.Pool.Moves

/-!
# Passing a unit on, one waiter at a time

A unit that is given back may be offered to a borrower that has stopped waiting. It comes back at once then,
and is given back anew. `pass` is one offer: the unit goes to the first ticket of the queue, or another unit
goes to it in place of one whose slot is retired, or there is nobody to offer anything to. `passes` repeats
that for as long as an offer comes back, but a given number of times at most.

However many tickets of dropped borrowers stand in the queue, one pass more than the queue is long suffices,
and what comes out is the pool with its unit given back (`passes_giveUnit`).
-/

namespace MemcachedClient.Pool.Shared

/-- Offers a unit that is given back to the first ticket of the queue, without a look at its borrower.
Answers the ticket and the slot of the unit that it is offered. -/
def pass (p : Shared) (slot : ℕ) (retire : Bool) : Option (ℕ × ℕ) × Shared :=
  match p.slot? slot with
  | none => (none, p)
  | some s =>
    if retire = false ∧ s.retired = false then
      match p.queue with
      | [] => (none, p.updateSlot slot .give)
      | ticket :: rest => (some (ticket, slot), { p with queue := rest })
    else
      match p.queue, (p.retireSlot s).assign? with
      | ticket :: rest, some (other, q) => (some (ticket, other), { q with queue := rest })
      | _, _ => (none, p.retireSlot s)

/-- Gives a unit back, and anew as often as its borrower turns out to be gone; `none` if more than this
many passes are needed. -/
def passes (p : Shared) (slot : ℕ) (retire : Bool) : ℕ → Option Shared
  | 0 => none
  | n + 1 =>
    match p.pass slot retire with
    | (none, q) => some q
    | (some (ticket, other), q) =>
      match q.waiter? ticket with
      | some name => some { q with borrows := q.borrows.put name (.assigned other) }
      | none => q.passes other false n

section passing

variable {p q : Shared} {slot : ℕ} {s : Slot}

/-- Handing a unit on puts the rest of the queue in place of the queue. -/
theorem handOn_queue (p : Shared) (slot : ℕ) (queue tickets : List ℕ) :
    { p with queue := queue }.handOn slot tickets = p.handOn slot tickets := by
  induction tickets with
  | nil => rfl
  | cons ticket rest ih =>
    have hwaiter : { p with queue := queue }.waiter? ticket = p.waiter? ticket := rfl
    simp only [handOn, hwaiter, ih]

/-- A unit of a slot that stays goes from one ticket to the next until a borrower takes it. -/
theorem passes_handOn (hs : p.slot? slot = some s) (hr : s.retired = false) :
    p.passes slot false (p.queue.length + 1) = some (p.handOn slot p.queue) := by
  -- the queue gets shorter from pass to pass
  generalize hqueue : p.queue = queue
  induction queue generalizing p with
  | nil =>
    have hgive : p.updateSlot slot .give = p.handOn slot [] := by
      rw [handOn, ← hqueue]
    simp [passes, pass, hs, hr, hqueue, hgive]
  | cons ticket rest ih =>
    have hpass : p.pass slot false = (some (ticket, slot), { p with queue := rest }) := by
      simp [pass, hs, hr, hqueue]
    have hwaiter : { p with queue := rest }.waiter? ticket = p.waiter? ticket := rfl
    rw [List.length_cons, passes, hpass, handOn]
    dsimp only
    rw [hwaiter]
    cases hw : p.waiter? ticket with
    | some name => rfl
    | none =>
      have hrest := ih (p := { p with queue := rest }) hs rfl
      rw [handOn_queue] at hrest
      exact hrest

/-- **Giving a unit back comes to an end.** However many tickets of the queue are those of borrowers that
were dropped, one pass more than there are tickets suffices, and what comes out is the pool with the unit
given back. -/
theorem passes_giveUnit (h : Accounted p (some slot)) (retire : Bool) :
    p.passes slot retire (p.queue.length + 1) = some (p.giveUnit slot retire) := by
  obtain ⟨s, hs⟩ := h.exists_slot?
  rw [giveUnit_eq hs]
  by_cases hstay : retire = false ∧ s.retired = false
  · rw [if_pos hstay, hstay.1]
    exact passes_handOn hs hstay.2
  rw [if_neg hstay]
  cases hqueue : p.queue with
  | nil => simp [passes, pass, hs, hstay, hqueue]
  | cons ticket rest =>
    rw [if_neg (List.cons_ne_nil ticket rest)]
    cases ha : (p.retireSlot s).assign? with
    | none => simp [passes, pass, hs, hstay, hqueue, ha]
    | some pair =>
      obtain ⟨other, q⟩ := pair
      have hpass : p.pass slot retire = (some (ticket, other), { q with queue := rest }) := by
        simp [pass, hs, hstay, hqueue, ha]
      have hretired := h.retireSlot hs
      obtain ⟨s', hs'⟩ := (hretired.assign? ha).exists_slot?
      obtain ⟨hmem', hid'⟩ := slot?_eq_some hs'
      have hr' := hretired.retired_eq_false_of_assign? ha s' hmem' hid'
      have hqueue' : q.queue = ticket :: rest := by
        rw [(assign?_parts ha).2.2.1, (p.retireSlot_parts s).2.2.1, hqueue]
      have hwaiter : { q with queue := rest }.waiter? ticket = q.waiter? ticket := rfl
      rw [List.length_cons, passes, hpass]
      dsimp only
      rw [hqueue', handOn, hwaiter]
      cases q.waiter? ticket with
      | some name => rfl
      | none =>
        have hrest := passes_handOn (p := { q with queue := rest }) hs' hr'
        rw [handOn_queue] at hrest
        exact hrest

end passing

end MemcachedClient.Pool.Shared
