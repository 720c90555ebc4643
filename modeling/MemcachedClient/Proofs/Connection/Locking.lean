import MemcachedClient.Proofs.Connection.Keeping
import MemcachedClient.Proofs.Connection.Reading
import MemcachedClient.Proofs.Semaphore.Guarding

/-!
# The locks and the turns of a connection

The two locks of a connection and its turns are semaphores of one unit, and it is the exchanges that use them: the
phase of an exchange says which place it has before each. Every hop is a shift before each of the three
(`Hop.shifts`), and so is every drop (`shifts_drop`), so the unit of each is in one place at any time
(`Session.Locked`).

An exchange asks for the lock of the receive half only once it has its turn, and gives the lock back with it. So the
lock is free when it asks, and nobody ever waits for that lock (`Locked.granted`).
-/

namespace MemcachedClient

open Response Semaphore

namespace Exchange

namespace Phase

/-- The place of an exchange before the lock of the send half. -/
def sendPlace? : Phase → Option Handle
  | awaitingSend place => some place
  | sending .. => some .acquired
  | _ => none

/-- The place of an exchange before the lock of the receive half. -/
def receivePlace? : Phase → Option Handle
  | awaitingReceive place => some place
  | reading .. => some .acquired
  | _ => none

/-- The handle whose unit an exchange has not taken. -/
def awaited? : Phase → Option Handle
  | awaitingSend place => some place
  | sending _ turn => some turn
  | awaitingTurn turn => some turn
  | awaitingReceive place => some place
  | _ => none

/-- The unit of such a handle is not taken. -/
def IsPending (phase : Phase) : Prop := ∀ handle, phase.awaited? = some handle → handle ≠ .acquired

variable {phase : Phase}

theorem isInFlight_iff : phase.isInFlight = true ↔ phase.turn?.isSome = true := by
  cases phase <;> simp [isInFlight, turn?]

/-- Who uses the lock of the receive half has its turn. -/
theorem turn?_of_receivePlace? (h : phase.receivePlace?.isSome = true) : phase.turn? = some .acquired := by
  cases phase <;> simp_all [receivePlace?, turn?]

/-- Who is over has no place. -/
theorem places_of_isOver (h : phase.isOver = true) :
    phase.turn? = none ∧ phase.sendPlace? = none ∧ phase.receivePlace? = none := by
  cases phase <;> simp_all [isOver, turn?, sendPlace?, receivePlace?]

theorem isPending_of_isOver (h : phase.isOver = true) : phase.IsPending := by
  cases phase <;> simp_all [IsPending, awaited?, isOver]

end Phase

theorem wait_ne_acquired (s : Semaphore) : s.wait.1 ≠ .acquired := by
  rw [wait]
  split <;> simp

theorem ne_acquired_of_quiet {s : Semaphore} {place : Handle} (h : (s.poll place).1 = false) :
    (s.poll place).2.1 ≠ .acquired := by
  obtain ⟨ticket, rfl, -, hsame⟩ := poll_eq_false h
  simp [hsame]

/-- What becomes of the places of an exchange and of what it has places before. -/
structure Shifts (a b : Exchange × Connection) : Prop where
  /-- Before the turns. -/
  turns : Shift a.2.turns a.1.phase.turn? b.2.turns b.1.phase.turn?
  /-- Before the lock of the send half. -/
  send : Shift a.2.sendLock a.1.phase.sendPlace? b.2.sendLock b.1.phase.sendPlace?
  /-- Before the lock of the receive half. -/
  receive : Shift a.2.receiveLock a.1.phase.receivePlace? b.2.receiveLock b.1.phase.receivePlace?

variable {clocks : Clocks} {a b : Exchange × Connection} {joins : ℕ} {new : List Item}

theorem Shifts.congr {x x' : Exchange} {c c' : Connection} (hphase : x'.phase = x.phase) (hturns : c'.turns = c.turns)
    (hsend : c'.sendLock = c.sendLock) (hreceive : c'.receiveLock = c.receiveLock) : Shifts (x, c) (x', c') := by
  constructor
  · exact hphase ▸ hturns ▸ .stay _ _
  · exact hphase ▸ hsend ▸ .stay _ _
  · exact hphase ▸ hreceive ▸ .stay _ _

/-- **Every hop is a shift** before the turns and before each lock. -/
theorem Hop.shifts (h : Hop clocks a joins new b) (hpending : a.1.phase.IsPending) : Shifts a b := by
  cases h with
  | @askSend x c phase =>
    obtain ⟨command, _, channel⟩ := x
    subst phase
    exact ⟨.stay _ _, .ask _, .stay _ _⟩
  | @waitSend x c place phase quiet =>
    obtain ⟨command, _, channel⟩ := x
    subst phase
    exact ⟨.stay _ _, .look _ _, .stay _ _⟩
  | @refuse x c place phase taken effects shut =>
    obtain ⟨command, _, channel⟩ := x
    subst phase
    rcases shut with ⟨-, -, rfl⟩ | ⟨-, rfl⟩ <;> exact ⟨.stay _ _, .serve taken, .stay _ _⟩
  | @join x c place phase taken opened =>
    obtain ⟨command, _, channel⟩ := x
    subst phase
    have hlook := Shift.look c.sendLock place
    rw [poll_eq_acquired taken] at hlook
    exact ⟨.ask _, hlook, .stay _ _⟩
  | @sendFail x c bytes turn cause phase failed =>
    obtain ⟨command, _, channel⟩ := x
    subst phase
    exact ⟨.leave _ (hpending turn rfl), .pass _, .stay _ _⟩
  | @sendAll x c bytes turn socket phase wrote =>
    obtain ⟨command, _, channel⟩ := x
    subst phase
    exact ⟨.stay _ _, .pass _, .stay _ _⟩
  | @sendSome x c bytes rest turn socket phase wrote =>
    obtain ⟨command, _, channel⟩ := x
    subst phase
    exact ⟨.stay _ _, .stay _ _, .stay _ _⟩
  | @waitTurn x c turn phase quiet =>
    obtain ⟨command, _, channel⟩ := x
    subst phase
    exact ⟨.look _ _, .stay _ _, .stay _ _⟩
  | @takeTurn x c turn phase taken =>
    obtain ⟨command, _, channel⟩ := x
    subst phase
    have hlook := Shift.look c.turns turn
    rw [poll_eq_acquired taken] at hlook
    exact ⟨hlook, .stay _ _, .ask _⟩
  | @waitReceive x c place phase quiet =>
    obtain ⟨command, _, channel⟩ := x
    subst phase
    exact ⟨.stay _ _, .stay _ _, .look _ _⟩
  | @refuseReceive x c place phase taken effects shut =>
    obtain ⟨command, _, channel⟩ := x
    subst phase
    rcases shut with ⟨-, -, rfl⟩ | ⟨-, rfl⟩ <;> exact ⟨.pass _, .stay _ _, .serve taken⟩
  | @startReading x c place phase taken opened =>
    obtain ⟨command, _, channel⟩ := x
    subst phase
    have hlook := Shift.look c.receiveLock place
    rw [poll_eq_acquired taken] at hlook
    exact ⟨.stay _ _, .stay _ _, hlook⟩
  | @read x c reply since buffer phase half result reads =>
    obtain ⟨command, _, channel⟩ := x
    subst phase
    rw [← reads]
    rcases read_cases _ c clocks buffer reply since rfl with
      ⟨_, _, -, h⟩ | ⟨_, _, -, h⟩ | ⟨_, _, h⟩ <;> rw [h]
    · exact ⟨.pass _, .stay _ _, .pass _⟩
    · exact ⟨.stay _ _, .stay _ _, .stay _ _⟩
    · exact ⟨.pass _, .stay _ _, .pass _⟩

/-- An exchange that has not taken a unit has not taken it after a hop. -/
theorem Hop.isPending (h : Hop clocks a joins new b) (hpending : a.1.phase.IsPending) : b.1.phase.IsPending := by
  cases h with
  | askSend => exact fun _ hsome => Option.some.inj hsome ▸ wait_ne_acquired _
  | waitSend _ quiet | waitTurn _ quiet | waitReceive _ quiet =>
    exact fun _ hsome => Option.some.inj hsome ▸ ne_acquired_of_quiet quiet
  | join => exact fun _ hsome => Option.some.inj hsome ▸ wait_ne_acquired _
  | sendAll phase | sendSome phase => exact fun turn hsome => hpending turn (by rw [phase]; exact hsome)
  | takeTurn => exact fun _ hsome => Option.some.inj hsome ▸ wait_ne_acquired _
  | @read x c reply since buffer phase half result reads =>
    rw [← reads]
    rcases x.read_cases c clocks buffer reply since rfl with
      ⟨_, _, -, h⟩ | ⟨_, _, -, h⟩ | ⟨_, _, h⟩ <;> rw [h] <;> exact fun _ hsome => absurd hsome (by simp [Phase.awaited?])
  | refuse | sendFail | refuseReceive | startReading => exact fun _ hsome => absurd hsome (by simp [Phase.awaited?])

/-- **Every drop is a shift** before the turns and before each lock. -/
theorem shifts_drop (x : Exchange) (c : Connection) (hpending : x.phase.IsPending) : Shifts (x, c) (x.drop c) := by
  obtain ⟨command, phase, channel⟩ := x
  cases phase with
  | ready => exact ⟨.stay _ _, .stay _ _, .stay _ _⟩
  | awaitingSend place => exact ⟨.stay _ _, .leave _ (hpending place rfl), .stay _ _⟩
  | sending rest turn => exact ⟨.leave _ (hpending turn rfl), .pass _, .stay _ _⟩
  | awaitingTurn turn => exact ⟨.leave _ (hpending turn rfl), .stay _ _, .stay _ _⟩
  | awaitingReceive place => exact ⟨.pass _, .stay _ _, .leave _ (hpending place rfl)⟩
  | reading reply since => exact ⟨.pass _, .stay _ _, .pass _⟩
  | finished result => exact ⟨.stay _ _, .stay _ _, .stay _ _⟩
  | dropped => exact ⟨.stay _ _, .stay _ _, .stay _ _⟩

end Exchange

namespace Connection.Session

/-- The unit of each lock and of the turns is in one place. -/
structure Locked (s : Session) : Prop where
  /-- Every name is there once. -/
  distinct : s.exchanges.Distinct
  /-- What an exchange waits for it has not taken. -/
  pending : ∀ name x, s.exchanges.get? name = some x → x.phase.IsPending
  /-- Nobody waits for the lock of the receive half. -/
  granted : ∀ name x place, s.exchanges.get? name = some x → x.phase = .awaitingReceive place → place = .granted
  /-- The turns. -/
  turns : s.connection.turns.Guarded s.exchanges (·.phase.turn?)
  /-- The lock of the send half. -/
  send : s.connection.sendLock.Guarded s.exchanges (·.phase.sendPlace?)
  /-- The lock of the receive half. -/
  receive : s.connection.receiveLock.Guarded s.exchanges (·.phase.receivePlace?)

namespace Locked

variable {s : Session} {name : String} {x x' : Exchange} {c : Connection}

theorem congr (h : s.Locked) {s' : Session} (hexchanges : s'.exchanges = s.exchanges)
    (hturns : s'.connection.turns = s.connection.turns) (hsend : s'.connection.sendLock = s.connection.sendLock)
    (hreceive : s'.connection.receiveLock = s.connection.receiveLock) : s'.Locked := by
  obtain ⟨hdistinct, hpending, hgranted, hturns', hsend', hreceive'⟩ := h
  rw [← hexchanges] at hdistinct hpending hgranted hturns' hsend' hreceive'
  exact ⟨hdistinct, hpending, hgranted, hturns ▸ hturns', hsend ▸ hsend', hreceive ▸ hreceive'⟩

/-- One exchange moves on. -/
theorem put (h : s.Locked) (hget : s.exchanges.get? name = some x)
    (hshifts : Exchange.Shifts (x, s.connection) (x', c)) (hpending : x'.phase.IsPending)
    (hgranted : ∀ place, x'.phase = .awaitingReceive place → place = .granted) : (s.put name x' c).Locked where
  distinct := h.distinct.put name x'
  pending other y hy := by
    rcases Table.eq_or_of_get?_put hy with ⟨-, rfl⟩ | ⟨-, hy⟩
    · exact hpending
    · exact h.pending other y hy
  granted other y place hy := by
    rcases Table.eq_or_of_get?_put hy with ⟨-, rfl⟩ | ⟨-, hy⟩
    · exact hgranted place
    · exact h.granted other y place hy
  turns := h.turns.put h.distinct hget hshifts.turns
  send := h.send.put h.distinct hget hshifts.send
  receive := h.receive.put h.distinct hget hshifts.receive

/-- Who takes its turn finds the lock of the receive half free: those before it gave the lock back with the turn. -/
theorem wait_receiveLock (h : s.Locked) (hget : s.exchanges.get? name = some x) {turn : Handle}
    (hphase : x.phase = .awaitingTurn turn) (htaken : (s.connection.turns.poll turn).1 = true) :
    s.connection.receiveLock.wait.1 = .granted := by
  have hwith : x.phase.turn?.any s.connection.turns.isWith = true := by
    rw [hphase]
    exact isWith_of_poll htaken
  have hnobody : ∀ other y, s.exchanges.get? other = some y →
      y.phase.receivePlace?.any s.connection.receiveLock.isWith = false := by
    intro other y hy
    cases hplace : y.phase.receivePlace? with
    | none => rfl
    | some place =>
      have hturn := Exchange.Phase.turn?_of_receivePlace? (by rw [hplace]; rfl)
      obtain rfl := h.turns.eq_of_isWith h.distinct hget hwith hy (by rw [hturn]; rfl)
      rw [hget, Option.some.injEq] at hy
      rw [← hy, hphase] at hplace
      simp [Exchange.Phase.receivePlace?] at hplace
  have hfree := (h.receive.available_of_nobody h.distinct hnobody).1
  rw [wait, if_pos (by omega)]

theorem hop (h : s.Locked) (hget : s.exchanges.get? name = some x) {joins : ℕ} {new : List Item}
    (hop : Exchange.Hop s.clocks (x, s.connection) joins new (x', c)) : (s.put name x' c).Locked := by
  have hpending := h.pending name x hget
  refine h.put hget (hop.shifts hpending) (hop.isPending hpending) fun place hplace => ?_
  cases hop with
  | takeTurn phase taken => exact Exchange.Phase.awaitingReceive.inj hplace ▸ h.wait_receiveLock hget phase taken
  | waitReceive phase quiet =>
    rw [h.granted name x _ hget phase] at quiet
    exact absurd quiet (by simp [poll])
  | @read _ _ reply since buffer phase half _ reads =>
    obtain rfl : (x.read s.connection s.clocks buffer reply since).1 = x' := congrArg Prod.fst reads
    rcases x.read_cases s.connection s.clocks buffer reply since rfl with
      ⟨_, _, -, h⟩ | ⟨_, _, -, h⟩ | ⟨_, _, h⟩ <;> simp [h] at hplace
  | _ => simp at hplace

end Locked

/-- Whatever happens, the unit of each lock and of the turns is in one place. -/
theorem kept_locked : Kept Locked where
  hop h hget hop := h.hop hget hop
  start {s name} _ _ h hget :=
    { distinct := h.distinct.put _ _
      pending := fun other y hy => by
        rcases Table.eq_or_of_get?_put hy with ⟨-, rfl⟩ | ⟨-, hy⟩
        · exact fun _ hsome => by simp [Exchange.start, Exchange.Phase.awaited?] at hsome
        · exact h.pending other y hy
      granted := fun other y place hy hplace => by
        rcases Table.eq_or_of_get?_put hy with ⟨-, rfl⟩ | ⟨-, hy⟩
        · simp [Exchange.start] at hplace
        · exact h.granted other y place hy hplace
      turns := h.turns.start h.distinct hget rfl
      send := h.send.start h.distinct hget rfl
      receive := h.receive.start h.distinct hget rfl }
  drop {s name x} h hget := by
    have hpending := h.pending name x hget
    refine h.put hget (x.shifts_drop s.connection hpending) ?_ ?_
    · rw [Exchange.drop]
      split
      · exact hpending
      · exact Exchange.Phase.isPending_of_isOver rfl
    · rw [Exchange.drop]
      split
      · exact fun place => h.granted name x place hget
      · exact fun place hplace => by simp at hplace
  channel {s name x} _ h hget :=
    h.put hget (.congr rfl rfl rfl rfl) (h.pending name x hget) fun place => h.granted name x place hget
  opening {s name o} h _ := by
    have hchanges := o.changes_poll s.connection s.clocks.elapsed
    exact h.congr rfl hchanges.turns hchanges.sendLock hchanges.receiveLock
  idle h _ := h.congr rfl rfl rfl rfl
  close {s} h := by
    refine h.congr rfl ?_ s.connection.sendLock_close ?_ <;>
    · dsimp only
      rw [close]
      split <;> rfl
  advance _ h := h.congr rfl rfl rfl rfl
  network _ h := h.congr rfl rfl rfl rfl

theorem locked_start (dial : Dial) (receiveLimit : Option Duration) (clocks : Clocks) :
    (start dial receiveLimit clocks).Locked where
  distinct := Table.distinct_nil
  pending _ _ hget := by simp [start] at hget
  granted _ _ _ hget := by simp [start] at hget
  turns := guarded_ofCount _
  send := guarded_ofCount _
  receive := guarded_ofCount _

end Connection.Session

end MemcachedClient
