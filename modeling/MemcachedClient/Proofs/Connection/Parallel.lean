import MemcachedClient.Proofs.Connection.Faulting
import MemcachedClient.Proofs.Connection.Sending

/-!
# What does not depend on the line for the send half

The lock of the send half decides when an exchange may write, and nothing else. An exchange that has the lock, or is
past it, does the same on two connections that have everything in common but that lock (`Connection.Parallel`), and
leaves them with everything in common; so does an opening, and whoever closes the connection. Whether the send half is
still there is not looked at once a connection is over, so there the connections may differ.
-/

namespace MemcachedClient

open Response

namespace Connection

/-- The second connection has everything in common with the first but the lock of the send half, and the half itself
once they are over; the locks are related. -/
inductive Parallel (R : Semaphore → Semaphore → Prop) (c : Connection) : Connection → Prop where
  /-- Another lock, and perhaps the half of a connection that is over. -/
  | intro (half : Bool) (lock : Semaphore) (agree : c.lifecycle.isOver = false → half = c.sendHalf)
    (related : R c.sendLock lock) : Parallel R c { c with sendHalf := half, sendLock := lock }

namespace Parallel

variable {R R' : Semaphore → Semaphore → Prop} {c d : Connection} {effect : Effect} {effects : List Effect}

theorem lifecycle (h : Parallel R c d) : d.lifecycle = c.lifecycle := by cases h; rfl

theorem socket (h : Parallel R c d) : d.socket = c.socket := by cases h; rfl

theorem turns (h : Parallel R c d) : d.turns = c.turns := by cases h; rfl

theorem receiveLock (h : Parallel R c d) : d.receiveLock = c.receiveLock := by cases h; rfl

theorem receiveHalf (h : Parallel R c d) : d.receiveHalf = c.receiveHalf := by cases h; rfl

theorem lock (h : Parallel R c d) : R c.sendLock d.sendLock := by
  cases h with
  | intro half lock agree related => exact related

/-- Something happens to both locks. -/
theorem relock (h : Parallel R c d) {lock lock' : Semaphore} (hlock : R' lock lock') :
    Parallel R' { c with sendLock := lock } { d with sendLock := lock' } := by
  cases h with
  | intro half _ agree _ => exact .intro half lock' agree hlock

/-- What is not about the lock of the send half keeps everything else in common. -/
theorem apply (h : Parallel R c d) (heffect : effect ≠ .unlockSend ∧ ∀ place, effect ≠ .leaveSend place) :
    Parallel R (c.apply effect) (d.apply effect) := by
  cases h with
  | intro half lock agree related =>
    cases effect with
    | unlockSend => exact absurd rfl heffect.1
    | leaveSend place => exact absurd rfl (heffect.2 place)
    | fault => exact .intro _ lock (fun hover => by simp [Connection.apply, releaseHalves] at hover) related
    | dropSend => exact .intro false lock (fun _ => rfl) related
    | dropSendIfOver =>
      refine .intro (half && !c.lifecycle.isOver) lock (fun hover => ?_) related
      exact congrArg (· && !c.lifecycle.isOver) (agree hover)
    | _ => exact .intro half lock agree related

theorem applyAll (h : Parallel R c d)
    (heffects : ∀ effect ∈ effects, effect ≠ .unlockSend ∧ ∀ place, effect ≠ .leaveSend place) :
    Parallel R (c.applyAll effects) (d.applyAll effects) := by
  induction effects generalizing c d with
  | nil => exact h
  | cons effect effects ih =>
    exact ih (h.apply (heffects effect List.mem_cons_self)) fun other hmem => heffects other (List.mem_cons_of_mem _ hmem)

theorem close (h : Parallel R c d) : Parallel R c.close d.close := by
  by_cases hclosed : c.lifecycle = .closed
  · rw [Connection.close, Connection.close, if_pos hclosed, if_pos (h.lifecycle.trans hclosed)]
    exact h
  · rw [Connection.close, Connection.close, if_neg hclosed, if_neg fun e => hclosed (h.lifecycle.symm.trans e)]
    cases h with
    | intro half lock agree related =>
      exact .intro _ lock (fun hover => by simp [releaseHalves, Lifecycle.isOver] at hover) related

/-- The network does something. -/
theorem network (h : Parallel R c d) (event : NetworkEvent) :
    Parallel R { c with socket := c.socket.handle event } { d with socket := d.socket.handle event } := by
  cases h with
  | intro half lock agree related => exact .intro half lock agree related

end Parallel

end Connection

open Connection

variable {R : Semaphore → Semaphore → Prop} {c d : Connection}

/-- An opening does the same on both connections. -/
theorem Opening.parallel_poll (o : Opening) (h : Parallel R c d) (elapsed : Duration) :
    (o.poll d elapsed).1 = (o.poll c elapsed).1 ∧ Parallel R (o.poll c elapsed).2 (o.poll d elapsed).2 := by
  cases h with
  | intro half lock agree related =>
    have hawait : ∀ {c : Connection} (since : Duration), (c.lifecycle.isOver = false → half = c.sendHalf) → R c.sendLock lock →
        (o.await { c with sendHalf := half, sendLock := lock } elapsed since).1 = (o.await c elapsed since).1 ∧
          Parallel R (o.await c elapsed since).2
            (o.await { c with sendHalf := half, sendLock := lock } elapsed since).2 := by
      intro c since agree related
      have hfail : ∀ cause, Parallel R (o.fail c cause).2 (o.fail { c with sendHalf := half, sendLock := lock } cause).2 :=
        fun cause => .intro half lock (fun hover => by simp [fail] at hover) related
      rw [await, await]
      cases c.socket.dial with
      | established =>
        dsimp only
        rw [complete, complete]
        by_cases hopening : c.lifecycle = .opening
        · rw [if_pos hopening, if_pos hopening]
          exact ⟨rfl, .intro true lock (fun _ => rfl) related⟩
        · rw [if_neg hopening, if_neg hopening]
          exact ⟨rfl, .intro false lock (fun _ => rfl) related⟩
      | failed cause => exact ⟨rfl, hfail _⟩
      | pending =>
        dsimp only
        split
        · exact ⟨rfl, hfail _⟩
        · exact ⟨rfl, .intro half lock agree related⟩
    obtain ⟨limit, phase⟩ := o
    cases phase with
    | ready =>
      dsimp only [poll]
      by_cases hunopened : c.lifecycle = .unopened
      · rw [if_pos hunopened, if_pos hunopened]
        refine hawait (c := { c with lifecycle := .opening, attempts := c.attempts + 1 }) elapsed (fun _ => ?_) related
        exact agree (by rw [hunopened]; rfl)
      · rw [if_neg hunopened, if_neg hunopened]
        exact ⟨rfl, .intro half lock agree related⟩
    | connecting since => exact hawait since agree related
    | finished result => exact ⟨rfl, .intro half lock agree related⟩
    | dropped => exact ⟨rfl, .intro half lock agree related⟩

namespace Exchange

variable (x : Exchange) (clocks : Clocks)

theorem parallel_read (h : Parallel R c d) (buffer : Bytes) (reply : Reply) (since : Option Duration) :
    (x.read d clocks buffer reply since).1 = (x.read c clocks buffer reply since).1 ∧
      Parallel R (x.read c clocks buffer reply since).2 (x.read d clocks buffer reply since).2 := by
  cases h with
  | intro half lock agree related =>
    rw [read, read]
    dsimp only
    generalize (Reader.mk buffer c.socket.feed none 0).readReply x.command (reply, x.channel) = outcome
    obtain ⟨progress, r⟩ := outcome
    have hafter : Parallel R (c.after r) { c.after r with sendHalf := half, sendLock := lock } :=
      .intro half lock agree related
    have hfail : ∀ (x : Exchange) cause, Parallel R (x.failReading (c.after r) cause).2
        (x.failReading { c.after r with sendHalf := half, sendLock := lock } cause).2 :=
      fun x cause => hafter.applyAll (by simp)
    cases progress with
    | done answer =>
      obtain ⟨result, channel⟩ := answer
      cases result with
      | ok outcome => exact ⟨rfl, hafter.applyAll (by simp)⟩
      | error cause => exact ⟨rfl, hfail _ _⟩
    | held state => exact ⟨rfl, hafter⟩
    | waiting state =>
      dsimp only
      generalize (if ¬ c.socket.feed.events.isEmpty = true then clocks.elapsed
        else since.getD clocks.elapsed) = since'
      split
      · exact ⟨rfl, hfail _ _⟩
      · exact ⟨rfl, hafter⟩
    | ended state => exact ⟨rfl, hfail _ _⟩
    | failed state cause => exact ⟨rfl, hfail _ _⟩
    | timedOut state => exact ⟨rfl, hfail _ _⟩

theorem parallel_holdReceive (h : Parallel R c d) :
    (x.holdReceive d clocks).1 = (x.holdReceive c clocks).1 ∧
      Parallel R (x.holdReceive c clocks).2 (x.holdReceive d clocks).2 := by
  rw [holdReceive, holdReceive, isOpened, isOpened, h.lifecycle, h.receiveHalf]
  split
  · cases c.receiveHalf with
    | some buffer => exact x.parallel_read clocks h buffer _ none
    | none => exact ⟨rfl, h.applyAll (by simp)⟩
  · exact ⟨rfl, h.applyAll (by simp)⟩

theorem parallel_awaitReceive (h : Parallel R c d) (place : Handle) :
    (x.awaitReceive d clocks place).1 = (x.awaitReceive c clocks place).1 ∧
      Parallel R (x.awaitReceive c clocks place).2 (x.awaitReceive d clocks place).2 := by
  have hlook : Parallel R { c with receiveLock := (c.receiveLock.poll place).2.2 }
      { d with receiveLock := (c.receiveLock.poll place).2.2 } := by
    cases h with
    | intro half lock agree related => exact .intro half lock agree related
  rw [awaitReceive, awaitReceive]
  dsimp only
  rw [h.receiveLock]
  split
  · exact x.parallel_holdReceive clocks hlook
  · exact ⟨rfl, hlook⟩

theorem parallel_awaitTurn (h : Parallel R c d) (turn : Handle) :
    (x.awaitTurn d clocks turn).1 = (x.awaitTurn c clocks turn).1 ∧
      Parallel R (x.awaitTurn c clocks turn).2 (x.awaitTurn d clocks turn).2 := by
  rw [awaitTurn, awaitTurn]
  dsimp only
  rw [h.turns, h.receiveLock]
  split
  · refine x.parallel_awaitReceive clocks ?_ _
    cases h with
    | intro half lock agree related => exact .intro half lock agree related
  · refine ⟨rfl, ?_⟩
    cases h with
    | intro half lock agree related => exact .intro half lock agree related

/-- Who writes gives the lock back when its request is written, or when it fails. -/
theorem parallel_send (h : Parallel R c d) (hnext : R c.sendLock.signalOne d.sendLock.signalOne) (bytes : Bytes)
    (turn : Handle) :
    (x.send d clocks bytes turn).1 = (x.send c clocks bytes turn).1 ∧
      Parallel R (x.send c clocks bytes turn).2 (x.send d clocks bytes turn).2 := by
  rw [send, send, h.socket]
  cases c.socket.write bytes with
  | failed cause =>
    have hfaulted : Parallel R (c.applyAll [.dropSend, .fault, .leaveTurn turn])
        (d.applyAll [.dropSend, .fault, .leaveTurn turn]) := h.applyAll (by simp)
    exact ⟨rfl, hfaulted.relock hnext⟩
  | wrote rest socket =>
    have hwrote : Parallel R { c with socket } { d with socket } := by
      cases h with
      | intro half lock agree related => exact .intro half lock agree related
    cases rest with
    | nil =>
      have hleft : Parallel R ({ c with socket }.apply .dropSendIfOver) ({ d with socket }.apply .dropSendIfOver) :=
        hwrote.apply (by simp)
      exact x.parallel_awaitTurn clocks (hleft.relock hnext) turn
    | cons byte rest => exact ⟨rfl, hwrote⟩

/-- Who has the lock of the send half joins the turns and writes, or is refused. -/
theorem parallel_holdSend (h : Parallel R c d) (hnext : R c.sendLock.signalOne d.sendLock.signalOne) :
    (x.holdSend d clocks).1 = (x.holdSend c clocks).1 ∧
      Parallel R (x.holdSend c clocks).2 (x.holdSend d clocks).2 := by
  cases h with
  | intro half lock agree related =>
    have hsame : isOpened { c with sendHalf := half, sendLock := lock } = c.isOpened := rfl
    have hall : Parallel R c { c with sendHalf := half, sendLock := lock } := .intro half lock agree related
    rw [holdSend, holdSend, hsame]
    split
    · next hopened =>
      have hhalf : half = c.sendHalf := agree (by rw [isOpened_iff.mp hopened]; rfl)
      have hjoin : Parallel R { c with turns := c.turns.wait.2 }
          { c with turns := c.turns.wait.2, sendHalf := half, sendLock := lock } := .intro half lock agree related
      subst hhalf
      split
      · exact x.parallel_send clocks hjoin hnext (x.command.request clocks.wall) c.turns.wait.1
      · exact ⟨rfl, hall.relock hnext⟩
    · have hleft : Parallel R (c.apply .dropSendIfOver) (apply { c with sendHalf := half, sendLock := lock }
          .dropSendIfOver) := hall.apply (by simp)
      exact ⟨rfl, hleft.relock hnext⟩

/-- Past the lock of the send half, an exchange does the same on both connections. -/
theorem parallel_poll (h : Parallel R c d) (hjoined : x.phase.hasJoined = true)
    (hnext : x.phase.isSending = true → R c.sendLock.signalOne d.sendLock.signalOne) :
    (x.poll d clocks).1 = (x.poll c clocks).1 ∧ Parallel R (x.poll c clocks).2 (x.poll d clocks).2 := by
  obtain ⟨command, phase, channel⟩ := x
  cases phase with
  | ready | awaitingSend => simp [Phase.hasJoined] at hjoined
  | sending rest turn => exact parallel_send _ clocks h (hnext rfl) rest turn
  | awaitingTurn turn => exact parallel_awaitTurn _ clocks h turn
  | awaitingReceive place => exact parallel_awaitReceive _ clocks h place
  | reading reply since =>
    dsimp only [poll]
    rw [h.receiveHalf]
    cases c.receiveHalf with
    | some buffer => exact parallel_read _ clocks h buffer reply since
    | none => exact ⟨rfl, h⟩
  | finished result => exact ⟨rfl, h⟩
  | dropped => exact ⟨rfl, h⟩

/-- Past the lock of the send half, an exchange is dropped alike on both connections. -/
theorem parallel_drop (h : Parallel R c d) (hjoined : x.phase.hasJoined = true)
    (hnext : x.phase.isSending = true → R c.sendLock.signalOne d.sendLock.signalOne) :
    (x.drop d).1 = (x.drop c).1 ∧ Parallel R (x.drop c).2 (x.drop d).2 := by
  obtain ⟨command, phase, channel⟩ := x
  cases phase with
  | ready | awaitingSend => simp [Phase.hasJoined] at hjoined
  | sending rest turn =>
    have hleft : Parallel R (c.apply (.leaveTurn turn)) (d.apply (.leaveTurn turn)) := h.apply (by simp)
    have hunlocked : Parallel R ((c.apply (.leaveTurn turn)).apply .unlockSend)
        ((d.apply (.leaveTurn turn)).apply .unlockSend) := hleft.relock (hnext rfl)
    have hfaulted : Parallel R (((c.apply (.leaveTurn turn)).apply .unlockSend).apply .fault)
        (((d.apply (.leaveTurn turn)).apply .unlockSend).apply .fault) := hunlocked.apply (by simp)
    exact ⟨rfl, hfaulted⟩
  | awaitingTurn turn =>
    have hfaulted : Parallel R (c.applyAll [.leaveTurn turn, .fault]) (d.applyAll [.leaveTurn turn, .fault]) :=
      h.applyAll (by simp)
    exact ⟨rfl, hfaulted⟩
  | awaitingReceive place =>
    have hfaulted : Parallel R (c.applyAll [.leaveReceive place, .fault, .passTurn])
        (d.applyAll [.leaveReceive place, .fault, .passTurn]) := h.applyAll (by simp)
    exact ⟨rfl, hfaulted⟩
  | reading reply since =>
    have hfaulted : Parallel R (c.applyAll [.unlockReceive, .fault, .passTurn])
        (d.applyAll [.unlockReceive, .fault, .passTurn]) := h.applyAll (by simp)
    exact ⟨rfl, hfaulted⟩
  | finished result => exact ⟨rfl, h⟩
  | dropped => exact ⟨rfl, h⟩

end Exchange

end MemcachedClient
