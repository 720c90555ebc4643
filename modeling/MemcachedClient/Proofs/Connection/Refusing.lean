import MemcachedClient.Proofs.Connection.Lasting
import MemcachedClient.Proofs.Connection.Releasing
import MemcachedClient.Proofs.Connection.Withdrawing

/-!
# Who comes when the connection is over

A connection that was closed or has faulted refuses whoever comes: the exchange writes nothing and ends with an error
that names the state of the connection. But the state is looked at under the lock of the send half. If another exchange
has the lock, because it is in the middle of its request or because the lock was passed on to it and it has not run
since, then who comes stands in line like everybody else, and is refused only when the lock comes to it.

So an exchange that comes is refused by its first poll exactly if the lock is with nobody (`refused_at_once_iff`), and
`waits_behind_sending` is a run in which it is not. An exchange that reads its reply, or waits for its turn, is in
nobody's way.
-/

namespace MemcachedClient

open Response Semaphore

namespace Semaphore

variable {s : Semaphore} {place : Handle} {calls : ℕ → ℕ}

/-- Who has not taken its unit finds it if it is there. -/
theorem poll_fst_eq (hplace : place ≠ .acquired) : (s.poll place).1 = s.isReadyFor place := by
  cases hready : s.isReadyFor place with
  | true => rw [poll_of_isReadyFor hready]
  | false =>
    cases place with
    | granted => simp [isReadyFor] at hready
    | acquired => exact absurd rfl hplace
    | queued ticket =>
      have hnot : ticket ∉ s.delivered := by simpa [isReadyFor] using hready
      rw [poll, if_neg hnot]

/-- Who asks and looks has a unit exactly if one is available. -/
theorem Serves.enter_fst (h : s.Serves calls) : s.enter.1 = decide (0 < s.available) := by
  by_cases hpos : 0 < s.available
  · rw [enter_eq, wait_of_available hpos, decide_eq_true hpos]
    rfl
  · obtain ⟨hhandle, -, hdelivered, -⟩ := wait_of_none (Nat.eq_zero_of_not_pos hpos)
    have hnot : s.nextTicket ∉ s.wait.2.delivered := hdelivered ▸ h.nextTicket_notMem
    rw [enter_eq, hhandle, decide_eq_false hpos, Semaphore.poll, if_neg hnot]

end Semaphore

namespace Exchange

variable {x : Exchange} {c : Connection} {clocks : Clocks} {a b : Exchange × Connection} {joins : ℕ} {new : List Item}

/-- Whether the lock of the send half is with an exchange: granted, on its way or held. -/
def ownsSend (sendLock : Semaphore) (x : Exchange) : Bool := x.phase.sendPlace?.any sendLock.isWith

/-- The lock is with who writes its request, and with who was passed it and has not run since. -/
theorem ownsSend_eq (hpending : x.phase.IsPending) (sendLock : Semaphore) :
    x.ownsSend sendLock = (x.phase.isSending || x.wasHandedSend sendLock) := by
  cases hphase : x.phase with
  | awaitingSend place =>
    have hplace : place ≠ .acquired := hpending place (by rw [hphase]; rfl)
    cases place with
    | acquired => exact absurd rfl hplace
    | granted | queued =>
      simp [ownsSend, wasHandedSend, hphase, Phase.sendPlace?, Phase.isSending, isWith, isReadyFor]
  | sending rest turn => simp [ownsSend, hphase, Phase.sendPlace?, Phase.isSending, isWith]
  | _ => simp [ownsSend, wasHandedSend, hphase, Phase.sendPlace?, Phase.isSending]

/-- Who gets the lock of the send half of a connection that is over is refused. -/
theorem holdSend_of_isOver (hover : c.lifecycle.isOver = true) :
    x.holdSend c clocks =
      x.conclude c [.dropSendIfOver, .unlockSend] (.error (.invalidState c.lifecycle)) := by
  have hclosed : c.isOpened = false := by
    cases hstate : c.lifecycle <;> simp_all [Lifecycle.isOver, Connection.isOpened]
  unfold holdSend
  rw [hclosed, if_neg Bool.false_ne_true]

namespace Phase

/-- Whether an exchange stands before the lock of the send half, was refused there, or is gone. -/
def isOutside : Phase → Bool
  | awaitingSend _ => true
  | finished _ => true
  | dropped => true
  | _ => false

end Phase

/-- **Who looks for the lock of the send half of a connection that is over** writes nothing. If the lock is there for it
it is refused, and otherwise it waits. -/
theorem poll_of_isOver (hover : c.lifecycle.isOver = true) (hjoined : x.phase.hasJoined = false) :
    (x.poll c clocks).1.result? =
        (if (x.phase.look c.sendLock).1 then some (.error (.invalidState c.lifecycle)) else none) ∧
      (x.poll c clocks).1.phase.isOutside = true ∧ (x.poll c clocks).2.socket = c.socket ∧
      (x.poll c clocks).2.lifecycle = c.lifecycle := by
  rw [poll_eq_look hjoined]
  split
  · next htaken =>
    have hafter : ({ c with sendLock := (x.phase.look c.sendLock).2.2 } : Connection).lifecycle.isOver = true := hover
    rw [holdSend_of_isOver hafter]
    refine ⟨rfl, rfl, ?_, ?_⟩
    · exact Connection.socket_applyAll _ _
    · exact Connection.lifecycle_applyAll _ (by simp)
  · exact ⟨rfl, rfl, rfl, rfl⟩

/-- Nobody gets past the lock of the send half of a connection that is over. -/
theorem Hop.isOutside (h : Hop clocks a joins new b) (hover : a.2.lifecycle.isOver = true)
    (hbefore : a.1.phase.isOutside = true) : b.1.phase.isOutside = true := by
  cases h with
  | waitSend | refuse => rfl
  | join _ _ opened =>
    rw [opened] at hover
    exact absurd hover Bool.false_ne_true
  | askSend phase | sendFail phase | sendAll phase | sendSome phase | waitTurn phase | takeTurn phase
  | waitReceive phase | refuseReceive phase | startReading phase | read phase =>
    simp [phase, Phase.isOutside] at hbefore

theorem isOutside_drop (hbefore : x.phase.isOutside = true) : (x.drop c).1.phase.isOutside = true := by
  unfold drop
  split
  · exact hbefore
  · rfl

/-- A poll of who stands outside: it is refused if the lock was passed on to it. -/
theorem poll_of_isOutside (hover : c.lifecycle.isOver = true) (houtside : x.phase.isOutside = true)
    (hpending : x.phase.IsPending) :
    (x.poll c clocks).2.socket = c.socket ∧
      (x.result? = none → (x.poll c clocks).1.result? =
        if x.wasHandedSend c.sendLock then some (.error (.invalidState c.lifecycle)) else none) := by
  cases hphase : x.phase with
  | awaitingSend place =>
    have hjoined : x.phase.hasJoined = false := by rw [hphase]; rfl
    obtain ⟨hresult, -, hsocket, -⟩ := @poll_of_isOver x c clocks hover hjoined
    have hplace : place ≠ .acquired := hpending place (by rw [hphase]; rfl)
    have hready : (x.phase.look c.sendLock).1 = x.wasHandedSend c.sendLock := by
      simp only [wasHandedSend, hphase]
      exact poll_fst_eq hplace
    rw [hready] at hresult
    exact ⟨hsocket, fun _ => hresult⟩
  | finished result =>
    have hdone : x.result? = some result := by
      unfold result?
      rw [hphase]
    rw [poll_of_result? hdone]
    exact ⟨rfl, fun hnone => absurd (hdone.symm.trans hnone) (by simp)⟩
  | dropped =>
    have hsame : x.poll c clocks = (x, c) := by
      unfold poll
      rw [hphase]
    rw [hsame]
    refine ⟨rfl, fun hnone => ?_⟩
    simp [wasHandedSend, hphase, hnone]
  | ready | sending | awaitingTurn | awaitingReceive | reading => simp [hphase, Phase.isOutside] at houtside

end Exchange

namespace Connection.Session

variable {s : Session} {name : String}

/-- The lock of the send half is free exactly if it is with nobody. -/
theorem Locked.available_sendLock_iff (h : s.Locked) :
    0 < s.connection.sendLock.available ↔
      ∀ other x, s.exchanges.get? other = some x → x.ownsSend s.connection.sendLock = false := by
  constructor
  · intro hfree other x hget
    cases howns : x.ownsSend s.connection.sendLock with
    | false => rfl
    | true =>
      have hnone := h.send.available_eq_zero h.distinct hget howns
      omega
  · intro hnobody
    have hone := (h.send.available_of_nobody h.distinct hnobody).1
    omega

/-- An exchange is started under a name, and runs for the first time. -/
def attempt (s : Session) (name : String) (command : Command) (capacity : ℕ) : Session :=
  s.run [.startExchange name command capacity, .pollExchange name]

theorem attempt_eq_put (hnew : s.exchanges.get? name = none) (command : Command) (capacity : ℕ) :
    s.attempt name command capacity =
      s.put name ((Exchange.start command capacity).poll s.connection s.clocks).1
        ((Exchange.start command capacity).poll s.connection s.clocks).2 := by
  have hstart : s.step (.startExchange name command capacity) =
      s.put name (.start command capacity) s.connection := by
    rw [step, if_neg (by rw [Table.has_eq_false_iff.mpr hnew]; exact Bool.false_ne_true)]
    rfl
  unfold attempt
  rw [run_cons, hstart, run_cons, run_nil, step, updateExchange_eq_put (Table.get?_put_self _ _ _), put_put]
  rfl

/-- The exchange under a name stands before the lock of the send half of a connection that is over, was refused there,
or is gone. -/
def Excluded (name : String) (s : Session) : Prop :=
  s.connection.lifecycle.isOver = true ∧ ∃ x, s.exchanges.get? name = some x ∧ x.phase.isOutside = true

/-- An exchange changes on a connection that is over. -/
theorem Excluded.put (h : s.Excluded name) {other : String} {x x' : Exchange} {c : Connection}
    (hget : s.exchanges.get? other = some x) (hover : c.lifecycle.isOver = true)
    (hx : x.phase.isOutside = true → x'.phase.isOutside = true) : (s.put other x' c).Excluded name := by
  obtain ⟨-, y, hy, houtside⟩ := h
  by_cases hname : name = other
  · subst hname
    obtain rfl : x = y := Option.some.inj (hget.symm.trans hy)
    exact ⟨hover, x', Table.get?_put_self _ _ _, hx houtside⟩
  · exact ⟨hover, y, (Table.get?_put_of_ne _ _ hname).trans hy, houtside⟩

/-- Whatever happens, who stands outside comes no further. -/
theorem kept_excluded (name : String) : Kept (Excluded name) where
  hop h hget hop := h.put hget (hop.isOver h.1) (hop.isOutside h.1)
  start {s other} command capacity h hget := by
    obtain ⟨hover, y, hy, houtside⟩ := h
    have hname : name ≠ other := by
      rintro rfl
      simp [hget] at hy
    exact ⟨hover, y, (Table.get?_put_of_ne _ _ hname).trans hy, houtside⟩
  drop {s other x} h hget := h.put hget (x.isOver_drop_of_isOver _ h.1) Exchange.isOutside_drop
  channel _ h hget := h.put hget h.1 id
  opening {s other o} h _ := ⟨(o.changes_poll s.connection s.clocks.elapsed).isOver h.1, h.2⟩
  idle h _ := h
  close {s} h := ⟨s.connection.isOver_close, h.2⟩
  advance _ h := h
  network _ h := h

/-- Who comes when the connection is over. -/
theorem excluded_attempt (hover : s.connection.lifecycle.isOver = true) (hnew : s.exchanges.get? name = none)
    (command : Command) (capacity : ℕ) : (s.attempt name command capacity).Excluded name := by
  have hafter := isOver_run hover [.startExchange name command capacity, .pollExchange name]
  refine ⟨hafter, ?_⟩
  rw [attempt_eq_put hnew]
  exact ⟨_, Table.get?_put_self _ _ _, (Exchange.poll_of_isOver hover rfl).2.1⟩

/-- Whoever came too late is refused when it runs on and the lock was passed on to it, and writes nothing. -/
theorem Excluded.poll (h : s.Excluded name) (hlocked : s.Locked) :
    (s.step (.pollExchange name)).connection.socket = s.connection.socket ∧
      (s.exchanged? name = none → (s.step (.pollExchange name)).exchanged? name =
        if (s.exchanges.get? name).any (·.wasHandedSend s.connection.sendLock)
        then some (.error (.invalidState s.connection.lifecycle)) else none) := by
  obtain ⟨hover, x, hget, houtside⟩ := h
  have hpoll := @Exchange.poll_of_isOutside x s.connection s.clocks hover houtside (hlocked.pending name x hget)
  rw [step, updateExchange_eq_put hget, exchanged?, exchanged?, exchanges_put, Table.get?_put_self, hget]
  exact hpoll

/-- Who comes when the connection is over and the lock of the send half is with somebody stands at the end of the
line. -/
theorem Locked.attempt_of_none (h : s.Locked) (hnew : s.exchanges.get? name = none)
    (hnone : s.connection.sendLock.available = 0) (command : Command) (capacity : ℕ) :
    ∃ x ticket, (s.attempt name command capacity).exchanges.get? name = some x ∧
      x.phase = .awaitingSend (.queued ticket) ∧
      (s.attempt name command capacity).connection.sendLock.line = s.connection.sendLock.line ++ [ticket] := by
  have henter : s.connection.sendLock.enter.1 = false := by
    rw [h.send.serves.enter_fst]
    exact decide_eq_false (by omega)
  obtain ⟨-, hqueued⟩ := enter_of_false henter
  obtain ⟨-, hline, -⟩ := wait_of_none hnone
  have hpoll : (Exchange.start command capacity).poll s.connection s.clocks =
      ({ Exchange.start command capacity with phase := .awaitingSend (.queued s.connection.sendLock.nextTicket) },
        { s.connection with sendLock := s.connection.sendLock.wait.2 }) := by
    rw [Exchange.poll_eq_look rfl]
    have hlook : (Exchange.start command capacity).phase.look s.connection.sendLock = s.connection.sendLock.enter := rfl
    rw [hlook, hqueued]
    rfl
  rw [attempt_eq_put hnew, hpoll]
  exact ⟨_, _, Table.get?_put_self _ _ _, rfl, hline⟩

/-- **Who comes when the connection is over is refused at once exactly if the lock of the send half is with nobody**:
no exchange is in the middle of its request, and none was passed the lock and has not run since. Otherwise it stands at
the end of the line. It writes nothing in either case, and whatever happens afterwards it never does: whenever it runs
on, it is refused with the state that the connection is in if the lock was passed on to it, and waits if it was not. -/
theorem refused_at_once_iff (dial : Dial) (receiveLimit : Option Duration) (clocks : Clocks) (events : List Event)
    (name : String) (command : Command) (capacity : ℕ)
    (hover : ((start dial receiveLimit clocks).run events).connection.lifecycle.isOver = true)
    (hnew : ((start dial receiveLimit clocks).run events).exchanges.get? name = none) :
    let s := (start dial receiveLimit clocks).run events
    let after := s.attempt name command capacity
    (after.exchanged? name = some (.error (.invalidState s.connection.lifecycle)) ↔
      ∀ other x, s.exchanges.get? other = some x →
        x.phase.isSending = false ∧ x.wasHandedSend s.connection.sendLock = false) ∧
    (after.exchanged? name ≠ some (.error (.invalidState s.connection.lifecycle)) →
      after.exchanged? name = none ∧
        ∃ x ticket, after.exchanges.get? name = some x ∧ x.phase = .awaitingSend (.queued ticket) ∧
          after.connection.sendLock.line = s.connection.sendLock.line ++ [ticket]) ∧
    after.connection.socket = s.connection.socket ∧ after.connection.lifecycle = s.connection.lifecycle ∧
    ∀ more, let t := after.run more
      let next := t.step (.pollExchange name)
      next.connection.socket = t.connection.socket ∧
        (t.exchanged? name = none → next.exchanged? name =
          if (t.exchanges.get? name).any (·.wasHandedSend t.connection.sendLock)
          then some (.error (.invalidState t.connection.lifecycle)) else none) := by
  intro s after
  have hlocked : s.Locked := kept_locked.run (locked_start dial receiveLimit clocks) events
  have hafter : after = s.put name _ _ := attempt_eq_put hnew command capacity
  obtain ⟨hresult, -, hsocket, hlifecycle⟩ :=
    @Exchange.poll_of_isOver (.start command capacity) s.connection s.clocks hover rfl
  have hexchanged : after.exchanged? name =
      if decide (0 < s.connection.sendLock.available) then some (.error (.invalidState s.connection.lifecycle))
      else none := by
    rw [hafter, exchanged?, exchanges_put, Table.get?_put_self, ← hlocked.send.serves.enter_fst]
    exact hresult
  have hfree : (∀ other x, s.exchanges.get? other = some x →
      x.phase.isSending = false ∧ x.wasHandedSend s.connection.sendLock = false) ↔
      0 < s.connection.sendLock.available := by
    rw [hlocked.available_sendLock_iff]
    refine forall_congr' fun other => forall_congr' fun x => forall_congr' fun hget => ?_
    rw [Exchange.ownsSend_eq (hlocked.pending other x hget), Bool.or_eq_false_iff]
  rw [hfree, hexchanged]
  refine ⟨?_, fun hnot => ?_, ?_, ?_, fun more => ?_⟩
  · by_cases hpos : 0 < s.connection.sendLock.available <;> simp [hpos]
  · have hnone : s.connection.sendLock.available = 0 := by
      by_contra hsome
      simp [Nat.pos_of_ne_zero hsome] at hnot
    refine ⟨by simp [hnone], hlocked.attempt_of_none hnew hnone command capacity⟩
  · rw [hafter]
    exact hsocket
  · rw [hafter]
    exact hlifecycle
  · have hlater : (after.run more).Locked := by
      refine kept_locked.run ?_ more
      exact kept_locked.run hlocked [.startExchange name command capacity, .pollExchange name]
    exact ((kept_excluded name).run (excluded_attempt hover hnew command capacity) more).poll hlater

/-- A retrieval reads its reply when the connection is closed. -/
def closedWhileReading : List Event :=
  [.startOpening "o" none, .pollOpening "o", .startExchange "a" (.retrieve .get "k") 1, .pollExchange "a", .close]

/-- A deletion that comes then is refused at once: the retrieval has passed the lock of the send half on. -/
theorem refused_at_once_of_closed :
    let s := (start .established none ⟨0, .ofParts 0 0⟩).run closedWhileReading
    (s.exchanges.get? "a").any (·.phase.isReading) = true ∧
      (s.attempt "b" (.delete "k") 1).exchanged? "b" = some (.error (.invalidState .closed)) := by
  intro s
  have hrefused := refused_at_once_iff .established none ⟨0, .ofParts 0 0⟩ closedWhileReading "b" (.delete "k") 1
    (by decide +kernel) (by decide +kernel)
  have hclosed : s.connection.lifecycle = .closed := by decide +kernel
  have hnobody : ∀ item ∈ s.exchanges,
      item.2.phase.isSending = false ∧ item.2.wasHandedSend s.connection.sendLock = false := by decide +kernel
  refine ⟨by decide +kernel, ?_⟩
  rw [← hclosed]
  exact hrefused.1.mpr fun other x hget => hnobody (other, x) (Table.mem_of_get? hget)

/-- A deletion is in the middle of its request when the connection is closed. -/
def closedWhileSending : List Event :=
  [.startOpening "o" none, .pollOpening "o", .network (.makeRoom (some 0)), .startExchange "a" (.delete "k") 1,
    .pollExchange "a", .close]

/-- Another one that comes then is not refused, but waits. -/
theorem waits_behind_sending :
    let s := (start .established none ⟨0, .ofParts 0 0⟩).run closedWhileSending
    s.connection.lifecycle = .closed ∧ s.exchanges.get? "b" = none ∧
      (s.attempt "b" (.delete "k") 1).exchanged? "b" = none := by
  decide +kernel

end Connection.Session

end MemcachedClient
