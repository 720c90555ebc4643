/-!
# Counting semaphores

A number of units that callers take and give back. A caller that finds no unit joins a queue at the
moment it asks, not when it first looks at the answer; a unit that is given back goes straight to
the oldest caller that still waits, and the count of available units grows only when nobody does.

A caller holds a `Handle`. Dropping a handle gives back any unit that it was granted or handed and
has not taken. The queue keeps the place of a caller that gave up until a unit passes over it, so
`waiting` counts such places too.
-/

namespace MemcachedClient

/-- A place in the queue. -/
structure Place where
  /-- The ticket of the caller. -/
  ticket : Nat
  /-- Whether the caller gave up. -/
  abandoned : Bool
  deriving DecidableEq, Repr

/-- A counting semaphore. -/
structure Semaphore where
  /-- The units that nobody holds. -/
  available : Nat
  /-- The places in the queue, the oldest first. -/
  queue : List Place
  /-- The tickets that were handed a unit and have not taken it. -/
  delivered : List Nat
  /-- The ticket of the next caller that queues. -/
  nextTicket : Nat
  deriving DecidableEq, Repr

/-- What a caller has of the unit that it asked for. -/
inductive Handle where
  /-- A unit was available when it asked; the caller has not taken it. -/
  | granted
  /-- The caller queued with this ticket. -/
  | queued (ticket : Nat)
  /-- The caller has taken its unit. -/
  | acquired
  deriving DecidableEq, Repr

/-- Whether the unit was available when the handle asked for it and is not taken yet. -/
def Handle.isReady : Handle → Bool
  | granted => true
  | _ => false

namespace Semaphore

/-- A semaphore with `count` units and an empty queue. -/
def ofCount (count : Nat) : Semaphore := ⟨count, [], [], 0⟩

/-- The number of places in the queue. -/
def waiting (s : Semaphore) : Nat := s.queue.length

/-- Asks for a unit. -/
def wait (s : Semaphore) : Handle × Semaphore :=
  if 0 < s.available then (.granted, { s with available := s.available - 1 })
  else
    (.queued s.nextTicket,
      { s with
        queue := s.queue ++ [⟨s.nextTicket, false⟩]
        nextTicket := s.nextTicket + 1 })

/-- Gives one unit to the first place in `queue` that is not abandoned, or makes it available. The
places before it leave the queue. -/
def handOver (s : Semaphore) : List Place → Semaphore
  | [] => { s with queue := [], available := s.available + 1 }
  | place :: rest =>
    if place.abandoned then s.handOver rest
    else { s with queue := rest, delivered := place.ticket :: s.delivered }

/-- Gives one unit back. -/
def signalOne (s : Semaphore) : Semaphore := s.handOver s.queue

/-- Gives units back, one after another. -/
def signal (s : Semaphore) : Nat → Semaphore
  | 0 => s
  | count + 1 => s.signalOne.signal count

/-- Looks whether a handle has its unit, and takes it. -/
def poll (s : Semaphore) : Handle → Bool × Handle × Semaphore
  | .granted => (true, .acquired, s)
  | .acquired => (true, .acquired, s)
  | .queued ticket =>
    if ticket ∈ s.delivered then
      (true, .acquired, { s with delivered := s.delivered.erase ticket })
    else (false, .queued ticket, s)

/-- Drops a handle. A unit that was granted or handed to it and not taken is given back; a caller
that still waits gives up its place. -/
def drop (s : Semaphore) : Handle → Semaphore
  | .granted => s.signalOne
  | .acquired => s
  | .queued ticket =>
    if ticket ∈ s.delivered then { s with delivered := s.delivered.erase ticket }.signalOne
    else
      { s with
        queue := s.queue.map fun place =>
          if place.ticket = ticket then { place with abandoned := true } else place }

/-- Asks for a unit and takes it if it is there at once. -/
def enter (s : Semaphore) : Bool × Handle × Semaphore :=
  let (handle, s) := s.wait
  s.poll handle

@[simp] theorem signal_zero (s : Semaphore) : s.signal 0 = s := rfl

end Semaphore

end MemcachedClient
