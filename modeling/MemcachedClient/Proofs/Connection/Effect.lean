import MemcachedClient.Connection
import MemcachedClient.Proofs.Semaphore

/-!
# What the effects of a call change

A call that ends leaves effects behind. None of them writes to the stream or reads from it; what they
do to the halves and to the lifecycle state goes one way: the receive half may be dropped, and the
connection may fault, but neither is undone.
-/

namespace MemcachedClient.Connection

variable {c : Connection} {effect : Effect} {effects : List Effect}

/-- The bytes that have arrived and are not read, as long as the receive half is there. -/
def unread? (c : Connection) : Option Bytes := c.receiveHalf.map (· ++ c.socket.feed.bytes)

/-- Nothing happens to the turns, to the stream or to the lifecycle state, but what is not read may be
given up. -/
structure Calm (c c' : Connection) : Prop where
  /-- The lifecycle state stays. -/
  lifecycle : c'.lifecycle = c.lifecycle
  /-- The turns stay. -/
  turns : c'.turns = c.turns
  /-- The stream stays. -/
  feed : c'.socket.feed = c.socket.feed
  /-- What is not read is given up or stays. -/
  unread : c'.unread? = none ∨ c'.unread? = c.unread?

/-- What each of the effects keeps, all of them keep. -/
theorem applyAll_induction {P : Connection → Prop}
    (hP : ∀ c effect, effect ∈ effects → P c → P (c.apply effect)) (h : P c) :
    P (c.applyAll effects) := by
  induction effects generalizing c with
  | nil => exact h
  | cons effect effects ih =>
    exact ih (fun c other hmem => hP c other (List.mem_cons_of_mem _ hmem))
      (hP c effect List.mem_cons_self h)

@[simp] theorem socket_apply (c : Connection) (effect : Effect) :
    (c.apply effect).socket = c.socket := by
  cases effect <;> rfl

@[simp] theorem socket_applyAll (c : Connection) (effects : List Effect) :
    (c.applyAll effects).socket = c.socket :=
  applyAll_induction (P := fun after => after.socket = c.socket)
    (fun _ _ _ h => (socket_apply _ _).trans h) rfl

theorem receiveHalf_apply (c : Connection) (effect : Effect) :
    (c.apply effect).receiveHalf = none ∨ (c.apply effect).receiveHalf = c.receiveHalf := by
  cases effect with
  | fault =>
    simp only [apply, releaseHalves]
    split
    · exact Or.inl rfl
    · exact Or.inr rfl
  | dropReceiveIfOver =>
    simp only [apply]
    split
    · exact Or.inl rfl
    · exact Or.inr rfl
  | dropReceive => exact Or.inl rfl
  | _ => exact Or.inr rfl

/-- The receive half is dropped, or nothing is changed in it. -/
theorem receiveHalf_applyAll (c : Connection) (effects : List Effect) :
    (c.applyAll effects).receiveHalf = none ∨ (c.applyAll effects).receiveHalf = c.receiveHalf := by
  refine applyAll_induction (P := fun after => after.receiveHalf = none ∨
    after.receiveHalf = c.receiveHalf) (fun after effect _ h => ?_) (Or.inr rfl)
  rcases receiveHalf_apply after effect with hnone | hsame
  · exact Or.inl hnone
  · rwa [hsame]

/-- Nothing is read by effects, but what is not read may be given up. -/
theorem unread?_applyAll (c : Connection) (effects : List Effect) :
    (c.applyAll effects).unread? = none ∨ (c.applyAll effects).unread? = c.unread? := by
  rw [unread?, unread?, socket_applyAll]
  rcases c.receiveHalf_applyAll effects with h | h
  · exact Or.inl (by rw [h]; rfl)
  · exact Or.inr (by rw [h])

theorem unread?_eq_none_iff : c.unread? = none ↔ c.receiveHalf = none := Option.map_eq_none_iff

/-- Closing gives up what is not read, or leaves it to one who reads. -/
theorem unread?_close (c : Connection) : c.close.unread? = none ∨ c.close.unread? = c.unread? := by
  rw [close]
  split
  · exact Or.inr rfl
  · simp only [releaseHalves, unread?]
    split
    · exact Or.inl rfl
    · exact Or.inr rfl

theorem socket_close (c : Connection) : c.close.socket = c.socket := by
  rw [close]
  split <;> rfl

theorem sendLock_close (c : Connection) : c.close.sendLock = c.sendLock := by
  rw [close]
  split <;> rfl

theorem isOver_close (c : Connection) : c.close.lifecycle.isOver = true := by
  rw [close]
  split
  · next hclosed =>
    rw [hclosed]
    rfl
  · rfl

/-- Effects that are not about the lock of the send half leave it alone. -/
theorem sendLock_applyAll (c : Connection)
    (h : ∀ effect ∈ effects, effect ≠ .unlockSend ∧ ∀ place, effect ≠ .leaveSend place) :
    (c.applyAll effects).sendLock = c.sendLock := by
  refine applyAll_induction (P := fun after => after.sendLock = c.sendLock)
    (fun after effect hmem hafter => ?_) rfl
  obtain ⟨hunlock, hleave⟩ := h effect hmem
  cases effect with
  | unlockSend => exact absurd rfl hunlock
  | leaveSend place => exact absurd rfl (hleave place)
  | _ => exact hafter

/-- A connection that is over stays so. -/
theorem isOver_applyAll (h : c.lifecycle.isOver = true) (effects : List Effect) :
    (c.applyAll effects).lifecycle.isOver = true := by
  refine applyAll_induction (P := fun after => after.lifecycle.isOver = true)
    (fun after effect _ h => ?_) h
  by_cases hfault : effect = .fault
  · rw [hfault]
    exact isOver_apply_fault after
  · rwa [lifecycle_apply_of_ne_fault after hfault]

/-- After a fault among the effects the connection is over. -/
theorem isOver_applyAll_of_mem (c : Connection) (h : .fault ∈ effects) :
    (c.applyAll effects).lifecycle.isOver = true := by
  induction effects generalizing c with
  | nil => simp at h
  | cons effect effects ih =>
    rw [applyAll_cons]
    rcases List.mem_cons.mp h with rfl | hmem
    · exact isOver_applyAll c.isOver_apply_fault effects
    · exact ih _ hmem

/-- Without a fault the lifecycle state stays. -/
theorem lifecycle_applyAll (c : Connection) (h : .fault ∉ effects) :
    (c.applyAll effects).lifecycle = c.lifecycle := by
  refine applyAll_induction (P := fun after => after.lifecycle = c.lifecycle)
    (fun after effect hmem hafter => ?_) rfl
  rw [lifecycle_apply_of_ne_fault after fun heq => h (heq ▸ hmem), hafter]

end MemcachedClient.Connection
