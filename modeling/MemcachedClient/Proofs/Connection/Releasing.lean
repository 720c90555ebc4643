import MemcachedClient.Proofs.Connection.Course
import MemcachedClient.Proofs.Connection.Locking

/-!
# When the halves of a connection are released

Who closes or faults a connection drops the halves whose locks are free, and leaves a half whose lock is taken to the
holder of the lock. So once the connection is over a half should be there only while its lock is taken
(`ReceiveReleased`, `SendReleased`).

For the receive half this is so after every event. For the send half there is one exception. A lock that is given back
goes straight to the oldest exchange in line, which is then responsible for the half; but if the exchange is dropped
before it was polled again, it gives the lock back and leaves the half where it is. The event *forsakes* the half if
nobody else stands in line to inherit it (`Session.forsakes`). The send half is released along a run exactly if no
event of the run forsakes it (`halves_released`), and `not_released_of_forsaken` is a run with such an event.
-/

namespace MemcachedClient

open Response Semaphore

namespace Semaphore

theorem available_wait_le (s : Semaphore) : s.wait.2.available ≤ s.available := by
  rw [wait]
  split
  · exact Nat.sub_le _ _
  · exact Nat.le_refl _

@[simp] theorem available_poll (s : Semaphore) (place : Handle) : (s.poll place).2.2.available = s.available := by
  cases place with
  | granted => rfl
  | acquired => rfl
  | queued ticket =>
    rw [poll]
    split <;> rfl

end Semaphore

namespace Connection

variable {c c' : Connection}

/-- Once the connection is over, the send half is there only while its lock is taken. -/
def SendReleased (c : Connection) : Prop :=
  c.lifecycle.isOver = true → isFree c.sendLock = true → c.sendHalf = false

/-- Once the connection is over, the receive half is there only while its lock is taken. -/
def ReceiveReleased (c : Connection) : Prop :=
  c.lifecycle.isOver = true → isFree c.receiveLock = true → c.receiveHalf = none

theorem isFree_of_le {lock lock' : Semaphore} (h : lock'.available ≤ lock.available) (hfree : isFree lock' = true) :
    isFree lock = true := by
  simp only [isFree, decide_eq_true_eq] at hfree ⊢
  omega

theorem sendReleased_releaseHalves (c : Connection) : c.releaseHalves.SendReleased := fun _ hfree => by
  simp only [releaseHalves] at hfree ⊢
  rw [hfree]
  simp

theorem receiveReleased_releaseHalves (c : Connection) : c.releaseHalves.ReceiveReleased := fun _ hfree => by
  simp only [releaseHalves] at hfree ⊢
  rw [if_pos hfree]

/-- After a fault what is free is released. -/
theorem sendReleased_fault (c : Connection) : (c.apply .fault).SendReleased := sendReleased_releaseHalves _

theorem receiveReleased_fault (c : Connection) : (c.apply .fault).ReceiveReleased := receiveReleased_releaseHalves _

/-- Who gives the lock of the send half back looks after the half. -/
theorem sendReleased_unlock (c : Connection) : (c.applyAll [.dropSendIfOver, .unlockSend]).SendReleased := by
  intro hover _
  have hover : c.lifecycle.isOver = true := hover
  simp [apply, hover]

theorem SendReleased.close (h : c.SendReleased) : c.close.SendReleased := by
  rw [Connection.close]
  split
  · exact h
  · exact sendReleased_releaseHalves _

theorem ReceiveReleased.close (h : c.ReceiveReleased) : c.close.ReceiveReleased := by
  rw [Connection.close]
  split
  · exact h
  · exact receiveReleased_releaseHalves _

end Connection

namespace Exchange

variable {clocks : Clocks} {a b : Exchange × Connection} {joins : ℕ} {new : List Item}

/-- Every hop leaves the send half to somebody: who gives its lock back drops the half of a connection that is over. -/
theorem Hop.sendReleased (h : Hop clocks a joins new b) (hbefore : a.2.SendReleased) : b.2.SendReleased := by
  cases h with
  | askSend => exact fun hover hfree => hbefore hover (Connection.isFree_of_le (available_wait_le _) hfree)
  | waitSend =>
    exact fun hover hfree => hbefore hover (Connection.isFree_of_le (Nat.le_of_eq (available_poll _ _)) hfree)
  | refuse _ _ shut =>
    rcases shut with ⟨-, hhalf, rfl⟩ | ⟨-, rfl⟩
    · exact fun _ _ => hhalf
    · exact Connection.sendReleased_unlock _
  | join _ _ opened =>
    intro hover
    rw [show Lifecycle.isOver _ = _ from congrArg _ opened] at hover
    exact absurd hover Bool.false_ne_true
  | sendFail => exact fun _ _ => rfl
  | sendAll => exact Connection.sendReleased_unlock _
  | refuseReceive _ _ shut =>
    rcases shut with ⟨-, -, rfl⟩ | ⟨-, rfl⟩ <;> exact Connection.sendReleased_fault _
  | @read x c reply since buffer _ _ _ reads =>
    rw [← reads]
    rcases x.read_cases c clocks buffer reply since rfl with
      ⟨_, _, -, h⟩ | ⟨_, _, -, h⟩ | ⟨_, _, h⟩ <;> rw [h]
    · exact hbefore
    · exact hbefore
    · exact Connection.sendReleased_fault _
  | _ => exact hbefore

theorem Hops.sendReleased (h : Hops clocks a joins new b) (hbefore : a.2.SendReleased) : b.2.SendReleased := by
  induction h with
  | refl => exact hbefore
  | head hop _ ih => exact ih (hop.sendReleased hbefore)

/-- Every hop leaves the receive half to somebody. -/
theorem Hop.receiveReleased (h : Hop clocks a joins new b) (hbefore : a.2.ReceiveReleased) : b.2.ReceiveReleased := by
  cases h with
  | refuse _ _ shut => rcases shut with ⟨-, -, rfl⟩ | ⟨-, rfl⟩ <;> exact hbefore
  | sendFail => exact Connection.receiveReleased_fault _
  | takeTurn => exact fun hover hfree => hbefore hover (Connection.isFree_of_le (available_wait_le _) hfree)
  | waitReceive =>
    exact fun hover hfree => hbefore hover (Connection.isFree_of_le (Nat.le_of_eq (available_poll _ _)) hfree)
  | refuseReceive _ _ shut =>
    rcases shut with ⟨-, -, rfl⟩ | ⟨-, rfl⟩ <;> exact Connection.receiveReleased_fault _
  | startReading _ _ opened =>
    intro hover
    rw [show Lifecycle.isOver _ = _ from congrArg _ opened] at hover
    exact absurd hover Bool.false_ne_true
  | @read x c reply since buffer _ half _ reads =>
    rw [← reads]
    rcases x.read_cases c clocks buffer reply since rfl with
      ⟨_, _, -, h⟩ | ⟨_, _, -, h⟩ | ⟨_, _, h⟩ <;> rw [h]
    · exact fun hover _ => if_pos hover
    · -- who reads has the lock
      intro hover hfree
      rw [show c.receiveHalf = none from hbefore hover hfree] at half
      simp at half
    · exact fun _ _ => ite_self none
  | _ => exact hbefore

theorem receiveReleased_drop (x : Exchange) {c : Connection} (hbefore : c.ReceiveReleased) :
    (x.drop c).2.ReceiveReleased := by
  rw [drop]
  split
  · exact hbefore
  · cases x.phase with
    | ready | awaitingSend | finished | dropped => exact hbefore
    | sending | awaitingTurn | awaitingReceive | reading => exact Connection.receiveReleased_fault _

/-- Whether the lock of the send half was passed on to an exchange that has not taken it. -/
def wasHandedSend (sendLock : Semaphore) (x : Exchange) : Bool :=
  match x.phase with
  | .awaitingSend place => sendLock.isReadyFor place
  | _ => false

end Exchange

namespace Connection.Session

variable {s : Session} {name : String}

/-- An opening takes the halves of a connection that is over away, or leaves them where they were. -/
theorem Sound.released_opening (h : s.Sound) {o : Opening} (hget : s.openings.get? name = some o) :
    (s.connection.SendReleased → (o.poll s.connection s.clocks.elapsed).2.SendReleased) ∧
      (s.connection.ReceiveReleased → (o.poll s.connection s.clocks.elapsed).2.ReceiveReleased) := by
  by_cases hopened : s.connection.lifecycle = .opened
  · -- nobody connects on an open connection
    have hsame : (o.poll s.connection s.clocks.elapsed).2 = s.connection := by
      obtain ⟨limit, phase⟩ := o
      cases phase with
      | ready =>
        have hstarted : s.connection.lifecycle ≠ .unopened := by simp [hopened]
        dsimp only [Opening.poll]
        rw [if_neg hstarted]
      | connecting since => exact absurd hopened (h.whole.connecting name _ hget rfl).2
      | finished result => rfl
      | dropped => rfl
    rw [hsame]
    exact ⟨id, id⟩
  · have hbefore : s.connection.lifecycle.isOver = false →
        s.connection.sendHalf = false ∧ s.connection.receiveHalf.isSome = false := by
      intro hover
      refine h.early ?_
      cases hstate : s.connection.lifecycle <;> simp_all [Lifecycle.isOver, Lifecycle.isEarly]
    have hchanges := o.changes_poll s.connection s.clocks.elapsed
    generalize (o.poll s.connection s.clocks.elapsed).2 = after at hchanges
    cases hchanges with
    | nothing => exact ⟨id, id⟩
    | begin => exact ⟨fun _ hover => absurd hover Bool.false_ne_true, fun _ hover => absurd hover Bool.false_ne_true⟩
    | fail ended attempts =>
      cases hover : s.connection.lifecycle.isOver with
      | true => exact ⟨fun hreleased _ => hreleased hover, fun hreleased _ => hreleased hover⟩
      | false =>
        obtain ⟨hsend, hreceive⟩ := hbefore hover
        exact ⟨fun _ _ _ => hsend, fun _ _ _ => by simpa using hreceive⟩
    | complete =>
      exact ⟨fun _ hover => absurd hover Bool.false_ne_true, fun _ hover => absurd hover Bool.false_ne_true⟩
    | discard => exact ⟨fun _ _ _ => rfl, fun _ _ _ => rfl⟩

/-! ### The receive half -/

/-- Whatever happens, the receive half is there only while its lock is taken. -/
theorem kept_receiveReleased : Kept fun s => s.Sound ∧ s.connection.ReceiveReleased where
  hop h hget hop := ⟨kept_sound.hop h.1 hget hop, hop.receiveReleased h.2⟩
  start command capacity h hget := ⟨kept_sound.start command capacity h.1 hget, h.2⟩
  drop {_ _ x} h hget := ⟨kept_sound.drop h.1 hget, x.receiveReleased_drop h.2⟩
  channel channel h hget := ⟨kept_sound.channel channel h.1 hget, h.2⟩
  opening h hget := ⟨kept_sound.opening h.1 hget, (h.1.released_opening hget).2 h.2⟩
  idle h ho := ⟨kept_sound.idle h.1 ho, h.2⟩
  close h := ⟨kept_sound.close h.1, h.2.close⟩
  advance clocks h := ⟨kept_sound.advance clocks h.1, h.2⟩
  network socket h := ⟨kept_sound.network socket h.1, h.2⟩

/-! ### The send half -/

/-- Whether an event drops an exchange to which the lock of the send half was passed on and that has not taken it, when
the connection is over with its send half there, and nobody else stands in line for the lock. -/
def forsakes (s : Session) : Event → Bool
  | .dropExchange name =>
    (s.exchanges.get? name).any (·.wasHandedSend s.connection.sendLock) &&
      (s.connection.lifecycle.isOver && s.connection.sendHalf && s.connection.sendLock.line.isEmpty)
  | _ => false

/-- Whether one of some events forsakes the send half. -/
def forsaken (s : Session) : List Event → Bool
  | [] => false
  | event :: events => s.forsakes event || (s.step event).forsaken events

/-- Dropping an exchange that waits for the lock of the send half. -/
theorem Locked.sendReleased_leave (h : s.Locked) {x : Exchange} (hget : s.exchanges.get? name = some x)
    {place : Handle} (hphase : x.phase = .awaitingSend place) (hreleased : s.connection.SendReleased) :
    (s.connection.apply (.leaveSend place)).SendReleased ↔ s.forsakes (.dropExchange name) = false := by
  have hforsakes : s.forsakes (.dropExchange name) = (s.connection.sendLock.isReadyFor place &&
      (s.connection.lifecycle.isOver && s.connection.sendHalf && s.connection.sendLock.line.isEmpty)) := by
    simp [forsakes, hget, Exchange.wasHandedSend, hphase]
  rw [hforsakes]
  cases hready : s.connection.sendLock.isReadyFor place with
  | false =>
    -- it gives up its place in line, and the lock stays where it is
    have hsame : (s.connection.sendLock.drop place).available = s.connection.sendLock.available := by
      cases place with
      | granted => simp [isReadyFor] at hready
      | acquired => rfl
      | queued ticket => exact (line_drop_queued (by simpa [isReadyFor] using hready)).2.2
    refine iff_of_true (fun hover hfree => hreleased hover ?_) (Bool.false_and _)
    exact isFree_of_le (Nat.le_of_eq hsame) hfree
  | true =>
    rw [Bool.true_and]
    have hwith : (x.phase.sendPlace?).any s.connection.sendLock.isWith = true := by
      rw [hphase]
      cases place <;> simp_all [Exchange.Phase.sendPlace?, isReadyFor, isWith]
    have hnone : s.connection.sendLock.available = 0 := h.send.available_eq_zero h.distinct hget hwith
    have hdrop := drop_of_isReadyFor hready
    have hline : (s.connection.sendLock.withdraw place).line = s.connection.sendLock.line := by cases place <;> rfl
    have havailable : (s.connection.sendLock.withdraw place).available = 0 := by
      cases place <;> exact hnone
    cases hrest : s.connection.sendLock.line with
    | nil =>
      -- the lock is free then, and so the half has to be gone already
      have hfree : isFree (s.connection.apply (.leaveSend place)).sendLock = true := by
        change isFree (s.connection.sendLock.drop place) = true
        rw [hdrop, signalOne_of_line_eq_nil (hline.trans hrest)]
        simp [isFree]
      have hiff : (s.connection.apply (.leaveSend place)).SendReleased ↔
          (s.connection.lifecycle.isOver = true → s.connection.sendHalf = false) :=
        ⟨fun hreleased hover => hreleased hover hfree, fun hgone hover _ => hgone hover⟩
      rw [hiff]
      cases s.connection.lifecycle.isOver <;> cases s.connection.sendHalf <;> simp
    | cons ticket rest =>
      -- the next in line inherits the half
      refine iff_of_true (fun _ hfree => ?_) (by simp)
      change isFree (s.connection.sendLock.drop place) = true at hfree
      rw [hdrop, isFree, (signalOne_of_line_eq_cons (hline.trans hrest)).2.2, havailable] at hfree
      simp at hfree

/-- **The send half stays released exactly if the event does not forsake it.** -/
theorem sendReleased_step (hsound : s.Sound) (hlocked : s.Locked) (h : s.connection.SendReleased) (event : Event) :
    (s.step event).connection.SendReleased ↔ s.forsakes event = false := by
  cases event with
  | dropExchange name =>
    rw [step]
    cases hget : s.exchanges.get? name with
    | none =>
      rw [updateExchange_eq_self hget]
      exact iff_of_true h (by simp [forsakes, hget])
    | some x =>
      rw [updateExchange_eq_put hget, connection_put]
      cases hphase : x.phase with
      | awaitingSend place =>
        rw [Exchange.drop, if_neg (by simp [hphase, Exchange.Phase.isOver]), hphase]
        exact hlocked.sendReleased_leave hget hphase h
      | ready | finished | dropped =>
        have hsame : (x.drop s.connection).2 = s.connection := by
          rw [Exchange.drop]
          split
          · rfl
          · rw [hphase]
            rfl
        rw [hsame]
        exact iff_of_true h (by simp [forsakes, hget, Exchange.wasHandedSend, hphase])
      | sending | awaitingTurn | awaitingReceive | reading =>
        refine iff_of_true ?_ (by simp [forsakes, hget, Exchange.wasHandedSend, hphase])
        rw [Exchange.drop, if_neg (by simp [hphase, Exchange.Phase.isOver]), hphase]
        exact sendReleased_fault _
  | pollExchange name =>
    refine iff_of_true ?_ rfl
    rw [step, updateExchange]
    split
    · exact h
    · next x _ => exact (x.hops_poll s.connection s.clocks).sendReleased h
  | pollOpening name =>
    refine iff_of_true ?_ rfl
    rw [step, updateOpening]
    split
    · exact h
    · next o hget => exact (hsound.released_opening hget).1 h
  | close => exact iff_of_true h.close rfl
  | startOpening | startExchange =>
    refine iff_of_true ?_ rfl
    rw [step]
    split <;> exact h
  | dropOpening =>
    refine iff_of_true ?_ rfl
    rw [step, updateOpening]
    split <;> exact h
  | channel =>
    refine iff_of_true ?_ rfl
    rw [step, updateExchange]
    split <;> exact h
  | advance | network => exact iff_of_true h rfl

/-- Along a run the send half is released after every event exactly if no event forsakes it. -/
theorem sendReleased_run (hsound : s.Sound) (hlocked : s.Locked) (h : s.connection.SendReleased)
    (events : List Event) :
    (∀ before, before <+: events → (s.run before).connection.SendReleased) ↔ s.forsaken events = false := by
  induction events generalizing s with
  | nil => exact iff_of_true (fun before hbefore => List.prefix_nil.mp hbefore ▸ h) rfl
  | cons event events ih =>
    have hstep := sendReleased_step hsound hlocked h event
    rw [forsaken, Bool.or_eq_false_iff, ← hstep]
    constructor
    · intro hall
      have hnow := hall [event] (List.prefix_append [event] events)
      have hlater := ih (kept_sound.step hsound event) (kept_locked.step hlocked event) hnow
      refine ⟨hnow, hlater.mp fun before hbefore => ?_⟩
      exact hall (event :: before) (List.cons_prefix_cons.mpr ⟨rfl, hbefore⟩)
    · rintro ⟨hnow, hmore⟩ before hbefore
      have hlater := (ih (kept_sound.step hsound event) (kept_locked.step hlocked event) hnow).mpr hmore
      cases before with
      | nil => exact h
      | cons other before =>
        obtain ⟨rfl, hrest⟩ := List.cons_prefix_cons.mp hbefore
        exact hlater before hrest

/-! ### Both halves -/

/-- While no exchange is in progress both locks are free. -/
theorem Locked.free_of_over (h : s.Locked)
    (hover : ∀ name x, s.exchanges.get? name = some x → x.phase.isOver = true) :
    isFree s.connection.sendLock = true ∧ isFree s.connection.receiveLock = true := by
  have hplaces := fun name x hget => Exchange.Phase.places_of_isOver (hover name x hget)
  have hsend := (h.send.available_of_nobody h.distinct fun name x hget => by
    rw [(hplaces name x hget).2.1, Option.any_none]).1
  have hreceive := (h.receive.available_of_nobody h.distinct fun name x hget => by
    rw [(hplaces name x hget).2.2, Option.any_none]).1
  exact ⟨by simp [isFree, hsend], by simp [isFree, hreceive]⟩

/-- **The halves of a connection that is over are released**, along every run. Once no exchange is in progress, the
receive half is gone, and so is the send half unless an event of the run forsook it. And that is the only exception:
the send half is there only while its lock is taken, all along the run, exactly if no event of the run forsakes it. -/
theorem halves_released (dial : Dial) (receiveLimit : Option Duration) (clocks : Clocks) (events : List Event) :
    let first := start dial receiveLimit clocks
    let s := first.run events
    (s.connection.lifecycle.isOver = true →
      (∀ name x, s.exchanges.get? name = some x → x.phase.isOver = true) →
        s.connection.receiveHalf = none ∧ (first.forsaken events = false → s.connection.sendHalf = false)) ∧
    ((∀ before, before <+: events → (first.run before).connection.SendReleased) ↔ first.forsaken events = false) := by
  intro first s
  have hsound := sound_start dial receiveLimit clocks
  have hlocked := locked_start dial receiveLimit clocks
  have hsend : first.connection.SendReleased := fun hover => absurd hover Bool.false_ne_true
  have hreceive : first.connection.ReceiveReleased := fun hover => absurd hover Bool.false_ne_true
  have hiff := sendReleased_run hsound hlocked hsend events
  refine ⟨fun hover hnobody => ?_, hiff⟩
  obtain ⟨hfreeSend, hfreeReceive⟩ := (kept_locked.run hlocked events).free_of_over hnobody
  refine ⟨(kept_receiveReleased.run ⟨hsound, hreceive⟩ events).2 hover hfreeReceive, fun hfaithful => ?_⟩
  exact hiff.mpr hfaithful events List.prefix_rfl hover hfreeSend

/-- A deletion waits for the lock of the send half while another one writes; the other one is dropped, and then the
first, before it has run again. -/
def twoDropped : List Event :=
  [.startOpening "o" none, .pollOpening "o", .network (.makeRoom (some 0)),
    .startExchange "a" (.delete "k") 1, .startExchange "b" (.delete "k") 1, .pollExchange "a", .pollExchange "b",
    .dropExchange "a", .dropExchange "b"]

/-- The connection is faulted and no call is in progress, but nobody drops the send half. -/
theorem not_released_of_forsaken :
    let s := (start .established none ⟨0, .ofParts 0 0⟩).run twoDropped
    s.connection.lifecycle = .faulted ∧
      (∀ entry ∈ s.openings, entry.2.phase.isOver = true) ∧ (∀ entry ∈ s.exchanges, entry.2.phase.isOver = true) ∧
      s.connection.receiveHalf = none ∧ s.connection.sendHalf = true := by
  decide +kernel

end Connection.Session

end MemcachedClient
