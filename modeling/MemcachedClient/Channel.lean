/-!
# Bounded channels

A channel between one producer and one consumer: a queue that holds at most `capacity` elements, at
least one. An element is refused once the consumer is gone; while the queue is full the producer
has to wait. The consumer sees the end once the producer is gone and the queue is empty.
-/

namespace MemcachedClient

/-- A queue between a producer and a consumer. -/
structure Channel (α : Type) where
  /-- The most elements that are queued. -/
  capacity : Nat
  /-- The elements that were accepted and not received, the oldest first. -/
  queue : List α
  /-- Whether a producer is left. -/
  producing : Bool
  /-- Whether the consumer is left. -/
  consuming : Bool

namespace Channel

variable {α : Type}

/-- An empty channel with room for at least one element. -/
def ofCapacity (capacity : Nat) : Channel α := ⟨max capacity 1, [], true, true⟩

/-- What became of an element that was offered. -/
inductive Offer (α : Type) where
  /-- It is queued. -/
  | accepted (channel : Channel α)
  /-- The consumer is gone. -/
  | refused
  /-- The queue is full. -/
  | full

/-- Offers an element. -/
def offer (channel : Channel α) (element : α) : Offer α :=
  if ¬ channel.consuming then .refused
  else if channel.capacity ≤ channel.queue.length then .full
  else .accepted { channel with queue := channel.queue ++ [element] }

/-- What the consumer sees. -/
inductive Received (α : Type) where
  /-- The oldest element. -/
  | element (value : α)
  /-- Nothing yet. -/
  | pending
  /-- Nothing any more. -/
  | ended
  deriving DecidableEq, Repr

/-- Receives the oldest element, if there is one. -/
def receive (channel : Channel α) : Received α × Channel α :=
  match channel.queue with
  | element :: queue => (.element element, { channel with queue })
  | [] => (if channel.producing then .pending else .ended, channel)

/-- The producer leaves. -/
def finish (channel : Channel α) : Channel α := { channel with producing := false }

/-- The consumer leaves; the elements that it did not receive are lost. -/
def abandon (channel : Channel α) : Channel α :=
  { channel with queue := [], consuming := false }

/-- Something that happens to a channel. -/
inductive Event (α : Type) where
  /-- An element is offered; it is lost unless it is accepted. -/
  | offer (element : α)
  /-- The oldest element is received. -/
  | receive
  /-- Every element is received. -/
  | drain
  /-- The producer leaves. -/
  | finish
  /-- The consumer leaves. -/
  | abandon

/-- One event. -/
def handle (channel : Channel α) : Event α → Channel α
  | .offer element =>
    match channel.offer element with
    | .accepted channel => channel
    | .refused => channel
    | .full => channel
  | .receive => channel.receive.2
  | .drain => { channel with queue := [] }
  | .finish => channel.finish
  | .abandon => channel.abandon

/-- A queue within its capacity stays within it. -/
theorem length_le_of_accepted {channel after : Channel α} {element : α}
    (h : channel.offer element = .accepted after) : after.queue.length ≤ after.capacity := by
  simp only [offer] at h
  split at h
  · simp at h
  · split at h
    · simp at h
    · simp only [Offer.accepted.injEq] at h
      rw [← h]
      simp only [List.length_append, List.length_singleton]
      omega

end Channel

end MemcachedClient
