import MemcachedClient.Proofs.Connection.Locking

/-!
# The turn is never lost

Replies are read in turns, and there is one turn. It is granted or handed to an exchange that has joined the line, it
is taken when its reply is due, and it passes on when the exchange ends, with its reply, with an error before or after
its turn, or because it was dropped. Whatever happens to the exchanges, the turn is available or with exactly one of
them (`turn_conserved`); so an exchange waits for its turn only as long as another one that is in progress has it.
-/

namespace MemcachedClient

open Response Semaphore

namespace Exchange

/-- Whether the turn is with an exchange: granted, on its way or taken. -/
def ownsTurn (turns : Semaphore) (x : Exchange) : Bool := x.phase.turn?.any turns.isWith

/-- Whether an exchange has taken its turn, and its reply is not read. -/
def Phase.isPastTurn (phase : Phase) : Bool := phase.turn? == some .acquired

variable (x : Exchange) (c : Connection) (clocks : Clocks)

theorem isInFlight_of_ownsTurn {turns : Semaphore} {x : Exchange} (h : x.ownsTurn turns = true) :
    x.phase.isInFlight = true := by
  rw [Phase.isInFlight_iff]
  cases hturn : x.phase.turn? with
  | none => simp [ownsTurn, hturn] at h
  | some turn => rfl

theorem phase_read_ne_awaitingReceive (buffer : Bytes) (reply : Reply) (since : Option Duration) (place : Handle) :
    (x.read c clocks buffer reply since).1.phase ≠ .awaitingReceive place := by
  rcases x.read_cases c clocks buffer reply since rfl with
    ⟨_, _, -, h⟩ | ⟨_, _, -, h⟩ | ⟨_, _, h⟩ <;> simp [h]

/-- Who was granted the lock of the receive half goes on at once. -/
theorem phase_awaitReceive (place : Handle) : (x.awaitReceive c clocks place).1.phase ≠ .awaitingReceive .granted := by
  cases htaken : (c.receiveLock.poll place).1 with
  | false =>
    obtain ⟨ticket, rfl, -, hsame⟩ := poll_eq_false htaken
    simp [awaitReceive, hsame]
  | true =>
    simp only [awaitReceive, htaken, if_true, holdReceive]
    split
    · split
      · exact phase_read_ne_awaitingReceive _ _ _ _ _ _ _
      · simp [conclude]
    · simp [conclude]

theorem phase_awaitTurn (turn : Handle) : (x.awaitTurn c clocks turn).1.phase ≠ .awaitingReceive .granted := by
  cases htaken : (c.turns.poll turn).1 with
  | false => simp [awaitTurn, htaken]
  | true =>
    simp only [awaitTurn, htaken, if_true]
    exact phase_awaitReceive _ _ _ _

theorem phase_send (bytes : Bytes) (turn : Handle) :
    (x.send c clocks bytes turn).1.phase ≠ .awaitingReceive .granted := by
  rw [send]
  split
  · simp [conclude]
  · exact phase_awaitTurn _ _ _ _
  · simp

theorem phase_awaitSend (place : Handle) : (x.awaitSend c clocks place).1.phase ≠ .awaitingReceive .granted := by
  cases htaken : (c.sendLock.poll place).1 with
  | false => simp [awaitSend, htaken]
  | true =>
    simp only [awaitSend, htaken, if_true, holdSend]
    split
    · split
      · exact phase_send _ _ _ _ _
      · simp [conclude]
    · simp [conclude]

/-- No poll stops where the lock of the receive half was granted. -/
theorem phase_poll : (x.poll c clocks).1.phase ≠ .awaitingReceive .granted := by
  rw [poll]
  split
  · exact phase_awaitSend _ _ _ _
  · exact phase_awaitSend _ _ _ _
  · exact phase_send _ _ _ _ _
  · exact phase_awaitTurn _ _ _ _
  · exact phase_awaitReceive _ _ _ _
  · next hphase =>
    split
    · exact phase_read_ne_awaitingReceive _ _ _ _ _ _ _
    · simp [hphase]
  · next hphase => simp [hphase]
  · next hphase => simp [hphase]

end Exchange

namespace Connection.Session

variable {s : Session} {name : String}

/-- Nobody stops where the lock of the receive half was granted. -/
def Unstopped (s : Session) : Prop :=
  ∀ name x, s.exchanges.get? name = some x → x.phase ≠ .awaitingReceive .granted

theorem Unstopped.put (h : s.Unstopped) {x : Exchange} (hx : x.phase ≠ .awaitingReceive .granted) (c : Connection) :
    (s.put name x c).Unstopped := by
  intro other y hy
  rcases Table.eq_or_of_get?_put hy with ⟨-, rfl⟩ | ⟨-, hy⟩
  · exact hx
  · exact h other y hy

theorem Unstopped.update (h : s.Unstopped) (name : String) {f : Exchange → Connection → Exchange × Connection}
    (hf : ∀ x c, x.phase ≠ .awaitingReceive .granted → (f x c).1.phase ≠ .awaitingReceive .granted) :
    (s.updateExchange name f).Unstopped := by
  cases hget : s.exchanges.get? name with
  | none => rwa [updateExchange_eq_self hget]
  | some x =>
    rw [updateExchange_eq_put hget]
    exact h.put (hf x _ (h name x hget)) _

theorem Unstopped.step (h : s.Unstopped) (event : Event) : (s.step event).Unstopped := by
  cases event with
  | startExchange name command capacity =>
    rw [Session.step]
    split
    · exact h
    · exact h.put (by simp [Exchange.start]) _
  | pollExchange name => exact h.update name fun x c _ => x.phase_poll c s.clocks
  | dropExchange name =>
    refine h.update name fun x c hx => ?_
    rw [Exchange.drop]
    split
    · exact hx
    · simp
  | channel name event => exact h.update name fun x c hx => hx
  | startOpening =>
    rw [Session.step]
    split <;> exact h
  | pollOpening | dropOpening =>
    rw [Session.step, updateOpening]
    split <;> exact h
  | close | advance | network => exact h

theorem Unstopped.run (h : s.Unstopped) (events : List Event) : (s.run events).Unstopped := by
  induction events generalizing s with
  | nil => exact h
  | cons event events ih => exact ih (h.step event)

namespace Locked

variable {x : Exchange}

/-- The turn is available or with exactly one exchange. -/
theorem available_or_owned (h : s.Locked) :
    s.connection.turns.available = 1 ∧ s.exchanges.count (·.ownsTurn s.connection.turns) = 0 ∨
      s.connection.turns.available = 0 ∧ s.exchanges.count (·.ownsTurn s.connection.turns) = 1 := by
  have hone : s.connection.turns.available + s.exchanges.count (·.ownsTurn s.connection.turns) = 1 :=
    h.turns.available_add_count
  omega

/-- Who is past its turn owns it, so there is one at most. -/
theorem count_isPastTurn (h : s.Locked) : s.exchanges.count (·.phase.isPastTurn) ≤ 1 := by
  have hle : s.exchanges.count (·.phase.isPastTurn) ≤ s.exchanges.count (·.ownsTurn s.connection.turns) := by
    refine List.countP_mono_left fun item _ hpast => ?_
    have hturn : item.2.phase.turn? = some .acquired := by simpa [Exchange.Phase.isPastTurn] using hpast
    simp only [Exchange.ownsTurn, hturn]
    rfl
  rcases h.available_or_owned with ⟨-, hnone⟩ | ⟨-, hone⟩ <;> omega

/-- If nobody is in flight, the turn is available and nobody stands in line. -/
theorem available_of_grounded (h : s.Locked)
    (hover : ∀ name x, s.exchanges.get? name = some x → x.phase.isInFlight = false) :
    s.connection.turns.available = 1 ∧ s.connection.turns.line = [] := by
  refine h.turns.available_of_nobody h.distinct fun name x hget => ?_
  cases howns : x.phase.turn?.any s.connection.turns.isWith with
  | false => rfl
  | true =>
    have hflight := @Exchange.isInFlight_of_ownsTurn s.connection.turns x howns
    rw [hover name x hget] at hflight
    exact absurd hflight Bool.false_ne_true

/-- Who is in flight and does not own the turn stands in line, and another one owns the turn. -/
theorem waits_for_owner (h : s.Locked) (hget : s.exchanges.get? name = some x) (hflight : x.phase.isInFlight = true)
    (howns : x.ownsTurn s.connection.turns = false) :
    (∃ ticket, x.phase.turn? = some (.queued ticket) ∧ ticket ∈ s.connection.turns.line) ∧
      ∃ other y, other ≠ name ∧ s.exchanges.get? other = some y ∧ y.phase.isInFlight = true ∧
        y.ownsTurn s.connection.turns = true := by
  obtain ⟨turn, hturn⟩ := Option.isSome_iff_exists.mp (Exchange.Phase.isInFlight_iff.mp hflight)
  have hwith : s.connection.turns.isWith turn = false := by
    rw [Exchange.ownsTurn, hturn] at howns
    exact howns
  cases turn with
  | granted => simp [isWith] at hwith
  | acquired => simp [isWith] at hwith
  | queued ticket =>
    have hline := h.turns.mem_line h.distinct hget hturn (by simpa [isWith] using hwith)
    obtain ⟨other, y, hy, hyowns⟩ := h.turns.exists_of_line h.distinct (List.ne_nil_of_mem hline)
    refine ⟨⟨ticket, hturn, hline⟩, other, y, ?_, hy, Exchange.isInFlight_of_ownsTurn hyowns, hyowns⟩
    rintro rfl
    rw [hget, Option.some.injEq] at hy
    rw [← hy, show x.phase.turn?.any _ = false from howns] at hyowns
    exact Bool.false_ne_true hyowns

end Locked

/-- **The turn is never lost or doubled**, along every run.
 * It is available, or exactly one exchange owns it, which is in progress.
 * At most one exchange is past its turn, and it reads: nobody waits for the lock of the receive half.
 * While no exchange is in progress the turn is available, and nobody stands in line.
 * Nobody is stranded: an exchange that is in flight owns the turn, or it stands in line and another one that is in
   flight owns the turn; and everybody in line is an exchange in flight. -/
theorem turn_conserved (dial : Dial) (receiveLimit : Option Duration) (clocks : Clocks) (events : List Event) :
    let s := (start dial receiveLimit clocks).run events
    let turns := s.connection.turns
    (turns.available = 1 ∧ s.exchanges.count (·.ownsTurn turns) = 0 ∨
      turns.available = 0 ∧ s.exchanges.count (·.ownsTurn turns) = 1) ∧
    (∀ name x, s.exchanges.get? name = some x → x.ownsTurn turns = true → x.phase.isInFlight = true) ∧
    s.exchanges.count (·.phase.isPastTurn) ≤ 1 ∧
    (∀ name x, s.exchanges.get? name = some x → x.phase.isPastTurn = true → x.phase.isReading = true) ∧
    ((∀ name x, s.exchanges.get? name = some x → x.phase.isOver = true) →
      turns.available = 1 ∧ turns.line = []) ∧
    (∀ name x, s.exchanges.get? name = some x → x.phase.isInFlight = true →
      x.ownsTurn turns = true ∨
        (∃ ticket, x.phase.turn? = some (.queued ticket) ∧ ticket ∈ turns.line) ∧
        ∃ other y, other ≠ name ∧ s.exchanges.get? other = some y ∧ y.phase.isInFlight = true ∧
          y.ownsTurn turns = true) ∧
    ∀ ticket ∈ turns.line, ∃ name x, s.exchanges.get? name = some x ∧ x.phase.isInFlight = true ∧
      x.phase.turn? = some (.queued ticket) := by
  intro s turns
  have hlocked : s.Locked := kept_locked.run (locked_start dial receiveLimit clocks) events
  have hunstopped : s.Unstopped := Unstopped.run (fun _ _ hget => by simp [start] at hget) events
  refine ⟨hlocked.available_or_owned, fun _ _ _ => Exchange.isInFlight_of_ownsTurn, hlocked.count_isPastTurn,
    fun name x hget hpast => ?_, fun hover => ?_, fun name x hget hflight => ?_, fun ticket hmem => ?_⟩
  · cases hphase : x.phase with
    | reading reply since => rfl
    | awaitingReceive place =>
      -- it was granted the lock, and so it has not stopped here
      obtain rfl := hlocked.granted name x place hget hphase
      exact absurd hphase (hunstopped name x hget)
    | sending rest turn | awaitingTurn turn =>
      have hacquired : turn ≠ .acquired := hlocked.pending name x hget turn (by rw [hphase]; rfl)
      simp [hphase, Exchange.Phase.isPastTurn, Exchange.Phase.turn?, hacquired] at hpast
    | _ => simp [hphase, Exchange.Phase.isPastTurn, Exchange.Phase.turn?] at hpast
  · refine hlocked.available_of_grounded fun name x hget => ?_
    have hnone := (Exchange.Phase.places_of_isOver (hover name x hget)).1
    rw [Bool.eq_false_iff, ne_eq, Exchange.Phase.isInFlight_iff, hnone]
    exact Bool.false_ne_true
  · cases howns : x.ownsTurn turns with
    | true => exact Or.inl rfl
    | false => exact Or.inr (hlocked.waits_for_owner hget hflight howns)
  · obtain ⟨name, x, hget, hplace⟩ := hlocked.turns.exists_of_mem_line hlocked.distinct hmem
    exact ⟨name, x, hget, Exchange.Phase.isInFlight_iff.mpr (by rw [hplace]; rfl), hplace⟩

end Connection.Session

end MemcachedClient
