import MemcachedClient.Proofs.Connection.Course
import MemcachedClient.Proofs.Connection.Locking

/-!
# Who reads has the receive half

The receive half of a connection is taken away by who has its lock, by anybody who faults or closes the connection while
the lock is free, and by an opening whose connect is under way. An exchange that reads its reply has the lock, and it is
in flight, which nobody is while a connect is under way. So the half is there as long as it reads (`Session.Equipped`).
-/

namespace MemcachedClient

open Response Semaphore

/-- While its lock is taken, the receive half stays when others release what is free. -/
theorem Connection.receiveHalf_releaseHalves {c : Connection} (h : c.receiveLock.available = 0) :
    c.releaseHalves.receiveHalf = c.receiveHalf := by
  rw [releaseHalves]
  exact if_neg (by simp [isFree, h])

namespace Exchange

variable {clocks : Clocks} {a b : Exchange × Connection} {joins : ℕ} {new : List Item}

/-- Who has no unit of the lock leaves the receive half where it is, if somebody else has it. -/
theorem Hop.receiveHalf (h : Hop clocks a joins new b) (hlock : a.2.receiveLock.available = 0)
    (hout : a.1.phase.receivePlace?.any a.2.receiveLock.isWith = false) : b.2.receiveHalf = a.2.receiveHalf := by
  cases h with
  | refuse phase taken shut => rcases shut with ⟨-, -, rfl⟩ | ⟨-, rfl⟩ <;> rfl
  | sendFail => exact Connection.receiveHalf_releaseHalves hlock
  | refuseReceive phase taken =>
    rw [phase] at hout
    exact Bool.noConfusion (hout.symm.trans (isWith_of_poll taken))
  | read phase =>
    rw [phase] at hout
    exact Bool.noConfusion hout
  | _ => rfl

/-- Nor does it take the half away when it is dropped. -/
theorem receiveHalf_drop {x : Exchange} {c : Connection} (hlock : c.receiveLock.available = 0)
    (hout : x.phase.receivePlace?.any c.receiveLock.isWith = false)
    (hgranted : ∀ place, x.phase = .awaitingReceive place → place = .granted) :
    (x.drop c).2.receiveHalf = c.receiveHalf := by
  rw [drop]
  split
  · rfl
  · cases hphase : x.phase with
    | ready | awaitingSend | finished | dropped => rfl
    | sending | awaitingTurn => exact Connection.receiveHalf_releaseHalves hlock
    | awaitingReceive place =>
      rw [hphase, hgranted place hphase] at hout
      exact Bool.noConfusion hout
    | reading =>
      rw [hphase] at hout
      exact Bool.noConfusion hout

end Exchange

namespace Connection.Session

/-- Who reads has the receive half. -/
structure Equipped (s : Session) : Prop where
  /-- The calls can rely on the connection. -/
  sound : s.Sound
  /-- The unit of the lock is in one place. -/
  locked : s.Locked
  /-- While a connect is under way nobody is in flight. -/
  grounded : ∀ name o, s.openings.get? name = some o → o.isConnecting = true →
    ∀ other x, s.exchanges.get? other = some x → x.phase.isInFlight = false
  /-- The half is there. -/
  half : ∀ name x, s.exchanges.get? name = some x → x.phase.isReading = true → s.connection.receiveHalf.isSome = true

variable {s : Session} {name : String} {x after : Exchange} {c : Connection}

/-- While somebody reads, the lock is not free, and nobody else has a unit of it. -/
theorem Locked.of_isReading (h : s.Locked) (hget : s.exchanges.get? name = some x) (hreading : x.phase.isReading = true) :
    s.connection.receiveLock.available = 0 ∧ ∀ other y, s.exchanges.get? other = some y → other ≠ name →
      y.phase.receivePlace?.any s.connection.receiveLock.isWith = false := by
  have hwith : x.phase.receivePlace?.any s.connection.receiveLock.isWith = true := by
    obtain ⟨reply, since, hphase⟩ := Exchange.Phase.exists_of_isReading hreading
    rw [hphase]
    rfl
  refine ⟨h.receive.available_eq_zero h.distinct hget hwith, fun other y hy hne => ?_⟩
  by_contra hother
  exact hne (h.receive.eq_of_isWith h.distinct hget hwith hy (by simpa using hother))

/-- One exchange moves on, and the halves stay for those who read. -/
theorem Equipped.put (h : s.Equipped) (hsound : (s.put name after c).Sound) (hlocked : (s.put name after c).Locked)
    (hflight : (∃ other o, s.openings.get? other = some o ∧ o.isConnecting = true) → after.phase.isInFlight = false)
    (hown : after.phase.isReading = true → c.receiveHalf.isSome = true)
    (hothers : ∀ other y, other ≠ name → s.exchanges.get? other = some y → y.phase.isReading = true →
      c.receiveHalf = s.connection.receiveHalf) : (s.put name after c).Equipped where
  sound := hsound
  locked := hlocked
  grounded opening o ho hconnecting other y hy := by
    rcases Table.eq_or_of_get?_put hy with ⟨-, rfl⟩ | ⟨-, hy⟩
    · exact hflight ⟨opening, o, ho, hconnecting⟩
    · exact h.grounded opening o ho hconnecting other y hy
  half other y hy hreading := by
    rcases Table.eq_or_of_get?_put hy with ⟨-, rfl⟩ | ⟨hne, hy⟩
    · exact hown hreading
    · rw [connection_put, hothers other y hne hy hreading]
      exact h.half other y hy hreading

/-- Who reads after a hop has the half. -/
theorem Equipped.hop (h : s.Equipped) (hget : s.exchanges.get? name = some x) {joins : ℕ} {new : List Item}
    (hop : Exchange.Hop s.clocks (x, s.connection) joins new (after, c)) : (s.put name after c).Equipped := by
  refine h.put (h.sound.hop hget hop) (h.locked.hop hget hop) ?_ ?_ ?_
  · rintro ⟨other, o, ho, hconnecting⟩
    exact hop.isInFlight (h.sound.whole.connecting other o ho hconnecting).2 (h.grounded other o ho hconnecting name x hget)
  · intro hreading
    cases hop with
    | startReading phase taken opened => exact (h.sound.whole.halves opened).2
    | @read _ _ reply since buffer phase half _ reads =>
      rcases x.read_cases s.connection s.clocks buffer reply since rfl with
        ⟨_, _, -, heq⟩ | ⟨_, _, -, heq⟩ | ⟨_, _, heq⟩
      · obtain ⟨rfl, rfl⟩ := Prod.mk.inj (reads.symm.trans heq)
        exact Bool.noConfusion hreading
      · obtain ⟨rfl, rfl⟩ := Prod.mk.inj (reads.symm.trans heq)
        rfl
      · obtain ⟨rfl, rfl⟩ := Prod.mk.inj (reads.symm.trans heq)
        exact Bool.noConfusion hreading
    | _ => exact Bool.noConfusion hreading
  · intro other y hne hy hreading
    obtain ⟨hlock, hout⟩ := h.locked.of_isReading hy hreading
    exact hop.receiveHalf hlock (hout name x hget (Ne.symm hne))

/-- Openings leave who reads its half. -/
theorem Equipped.opening (h : s.Equipped) {o : Opening} (hget : s.openings.get? name = some o) :
    Equipped { s with
      connection := (o.poll s.connection s.clocks.elapsed).2
      openings := s.openings.put name (o.poll s.connection s.clocks.elapsed).1 } := by
  refine ⟨kept_sound.opening h.sound hget, kept_locked.opening h.locked hget, ?_, ?_⟩
  · intro other o' ho' hconnecting another y hy
    rcases Table.eq_or_of_get?_put ho' with ⟨rfl, rfl⟩ | ⟨-, ho'⟩
    · obtain ⟨limit, phase⟩ := o
      cases phase with
      | ready =>
        rw [Opening.poll] at hconnecting
        dsimp only at hconnecting
        split at hconnecting
        · next hunopened => exact h.sound.grounded (by rw [hunopened]; rfl) another y hy
        · exact Bool.noConfusion hconnecting
      | connecting since => exact h.grounded _ _ hget rfl another y hy
      | finished result => exact Bool.noConfusion hconnecting
      | dropped => exact Bool.noConfusion hconnecting
    · exact h.grounded other o' ho' hconnecting another y hy
  · intro other y hy hreading
    have hflight : y.phase.isInFlight = true := by
      obtain ⟨reply, since, hphase⟩ := Exchange.Phase.exists_of_isReading hreading
      rw [hphase]
      rfl
    -- nobody connects, and nobody begins to
    have hsame : (o.poll s.connection s.clocks.elapsed).2 = s.connection := by
      obtain ⟨limit, phase⟩ := o
      cases phase with
      | ready =>
        have hstarted : s.connection.lifecycle ≠ .unopened := by
          intro hunopened
          have hnot := h.sound.grounded (by rw [hunopened]; rfl) other y hy
          exact Bool.noConfusion (hflight.symm.trans hnot)
        dsimp only [Opening.poll]
        rw [if_neg hstarted]
      | connecting since => exact Bool.noConfusion (hflight.symm.trans (h.grounded name _ hget rfl other y hy))
      | finished result => rfl
      | dropped => rfl
    dsimp only
    rw [hsame]
    exact h.half other y hy hreading

/-- **Whatever happens, who reads has the receive half.** -/
theorem kept_equipped : Kept Equipped where
  hop h hget hop := h.hop hget hop
  start command capacity h hget := h.put (kept_sound.start command capacity h.sound hget)
    (kept_locked.start command capacity h.locked hget) (fun _ => rfl) (fun hreading => Bool.noConfusion hreading)
    fun _ _ _ _ _ => rfl
  drop {s name x} h hget := by
    have hdropped : (x.drop s.connection).1.phase.isInFlight = false ∧ (x.drop s.connection).1.phase.isReading = false := by
      rw [Exchange.drop]
      cases hphase : x.phase <;> simp [Exchange.Phase.isOver, Exchange.Phase.isInFlight, Exchange.Phase.isReading, hphase]
    refine h.put (kept_sound.drop h.sound hget) (kept_locked.drop h.locked hget) (fun _ => hdropped.1) ?_ ?_
    · intro hreading
      exact Bool.noConfusion (hreading.symm.trans hdropped.2)
    · intro other y hne hy hreading
      obtain ⟨hlock, hout⟩ := h.locked.of_isReading hy hreading
      exact Exchange.receiveHalf_drop hlock (hout name x hget (Ne.symm hne)) fun place => h.locked.granted name x place hget
  channel {s name x} channel h hget := h.put (kept_sound.channel channel h.sound hget)
    (kept_locked.channel channel h.locked hget) (fun ⟨other, o, ho, hconnecting⟩ => h.grounded other o ho hconnecting name x hget)
    (h.half name x hget) fun _ _ _ _ _ => rfl
  opening h hget := h.opening hget
  idle {s name o} h ho := by
    refine ⟨kept_sound.idle h.sound ho, kept_locked.idle h.locked ho, fun other o' ho' hconnecting => ?_, h.half⟩
    rcases Table.eq_or_of_get?_put ho' with ⟨-, rfl⟩ | ⟨-, ho'⟩
    · exact Bool.noConfusion (ho.symm.trans hconnecting)
    · exact h.grounded other o' ho' hconnecting
  close {s} h := by
    refine ⟨kept_sound.close h.sound, kept_locked.close h.locked, h.grounded, fun name x hget hreading => ?_⟩
    obtain ⟨hlock, -⟩ := h.locked.of_isReading hget hreading
    have hsame : s.connection.close.receiveHalf = s.connection.receiveHalf := by
      rw [Connection.close]
      split
      · rfl
      · exact receiveHalf_releaseHalves hlock
    dsimp only
    rw [hsame]
    exact h.half name x hget hreading
  advance clocks h := ⟨kept_sound.advance clocks h.sound, kept_locked.advance clocks h.locked, h.grounded, h.half⟩
  network socket h := ⟨kept_sound.network socket h.sound, kept_locked.network socket h.locked, h.grounded, h.half⟩

theorem equipped_start (dial : Dial) (receiveLimit : Option Duration) (clocks : Clocks) :
    (start dial receiveLimit clocks).Equipped where
  sound := sound_start dial receiveLimit clocks
  locked := locked_start dial receiveLimit clocks
  grounded _ _ hget := by simp [start] at hget
  half _ _ hget := by simp [start] at hget

end Connection.Session

end MemcachedClient
