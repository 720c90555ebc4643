import MemcachedClient.Proofs.Connection.Answering
import MemcachedClient.Proofs.Connection.Faulting

/-!
# Where the requests on a stream are cut off

What stands on the stream of a connection is complete requests, one after another in the order of the turns, and then
perhaps the beginning of one more (`CutOff`). As long as the connection is not over, whoever is in the middle of its
request goes on with it. When it ends there, the connection is over, and nobody is left who writes: nothing is written
behind the beginning of a request (`Stopped`).
-/

namespace MemcachedClient

/-- On a connection that is over an exchange that does not write writes nothing. -/
theorem Exchange.Hop.sent_of_isOver {clocks : Clocks} {a b : Exchange × Connection} {joins : ℕ} {new : List Item}
    (h : Exchange.Hop clocks a joins new b) (hover : a.2.lifecycle.isOver = true)
    (hquiet : a.1.phase.isSending = false) :
    b.1.phase.isSending = false ∧ b.2.socket.sent = a.2.socket.sent := by
  cases h with
  | join _ _ opened =>
    rw [opened] at hover
    simp [Lifecycle.isOver] at hover
  | sendFail phase => simp [phase, Phase.isSending] at hquiet
  | sendAll phase => simp [phase, Phase.isSending] at hquiet
  | sendSome phase => simp [phase, Phase.isSending] at hquiet
  | @read x c reply since buffer _ _ _ reads =>
    rcases x.read_cases c clocks buffer reply since rfl with
      ⟨_, _, -, h⟩ | ⟨_, _, -, h⟩ | ⟨_, _, h⟩
    · rw [← reads, h, Connection.socket_applyAll]
      exact ⟨rfl, rfl⟩
    · rw [← reads, h]
      exact ⟨rfl, rfl⟩
    · rw [← reads, h, Connection.socket_applyAll]
      exact ⟨rfl, rfl⟩
  | refuse =>
    rw [Connection.socket_applyAll]
    exact ⟨rfl, rfl⟩
  | refuseReceive =>
    rw [Connection.socket_applyAll]
    exact ⟨rfl, rfl⟩
  | _ => exact ⟨rfl, rfl⟩

namespace Connection.Transcript

/-- The bytes are these requests, in their order, all of them complete, or all but the last, of which there is a proper
beginning. -/
def CutOff (asked : Table Request) (sent : Bytes) : Prop :=
  ∃ done cut, sent = requests done ++ cut ∧ (asked = done ∧ cut = [] ∨
    ∃ last, asked = done ++ [last] ∧ cut <+: last.2.bytes ∧ cut ≠ last.2.bytes)

variable {t : Transcript} {name : String} {x : Exchange}

theorem Sends.cutOff (h : Sends t) : CutOff t.asked t.session.connection.socket.sent := by
  have hwritten := h.written
  have hbefore := h.before
  rcases List.eq_nil_or_concat t.asked with hnil | ⟨done, last, hconcat⟩
  · rw [hnil] at hwritten
    exact ⟨[], [], List.prefix_nil.mp hwritten, Or.inl ⟨hnil, rfl⟩⟩
  · rw [hconcat, List.concat_eq_append] at hwritten hbefore
    rw [List.dropLast_concat] at hbefore
    rw [requests_concat] at hwritten
    obtain ⟨cut, hcut⟩ := hbefore
    rw [← hcut, List.prefix_append_right_inj] at hwritten
    rw [← hcut, hconcat, List.concat_eq_append]
    by_cases hall : cut = last.2.bytes
    · -- the last request is complete, too
      refine ⟨done ++ [last], [], ?_, Or.inl ⟨rfl, rfl⟩⟩
      rw [requests_concat, hall, List.append_nil]
    · exact ⟨done, cut, rfl, Or.inr ⟨last, rfl, hwritten, hall⟩⟩

/-- The connection is over, nobody writes, and these bytes were written. -/
structure Stopped (sent : Bytes) (t : Transcript) : Prop where
  /-- The connection is over. -/
  isOver : t.session.connection.lifecycle.isOver = true
  /-- Nobody writes. -/
  quiet : ∀ name x, t.session.exchanges.get? name = some x → x.phase.isSending = false
  /-- What was written. -/
  sent : t.session.connection.socket.sent = sent

/-- When the one who was in the middle of its request has ended, the connection has stopped. -/
theorem Sends.stopped (h : Sends t) {command : Command} (hlast : t.senders.getLast? = some (name, command))
    (hget : t.session.exchanges.get? name = some x) (hended : x.phase.isOver = true)
    (hcut : t.session.connection.socket.sent ≠ requests t.asked) :
    Stopped t.session.connection.socket.sent t := by
  have hquiet : ∀ other y, t.session.exchanges.get? other = some y → y.phase.isSending = false := by
    intro other y hother
    by_contra hsends
    obtain ⟨rest, turn, hphase⟩ : ∃ rest turn, y.phase = .sending rest turn := by
      cases hphase : y.phase with
      | sending rest turn => exact ⟨rest, turn, rfl⟩
      | _ => simp [hphase, Exchange.Phase.isSending] at hsends
    -- who writes is the last
    have hlast' := (h.sending other y rest turn hother hphase).1
    rw [hlast, Option.some.injEq, Prod.mk.injEq] at hlast'
    rw [← hlast'.1, hget, Option.some.injEq] at hother
    rw [hother, hphase] at hended
    simp [Exchange.Phase.isOver] at hended
  refine ⟨?_, hquiet, rfl⟩
  by_contra hopen
  rw [Bool.not_eq_true] at hopen
  exact hcut (h.still hopen hquiet)

namespace Stopped

variable {sent : Bytes} {x' : Exchange} {c' : Connection} {joins : ℕ} {new : List Item}

/-- An exchange moves on, and does not write. -/
theorem put (h : Stopped sent t) (hover : c'.lifecycle.isOver = true) (hquiet : x'.phase.isSending = false)
    (hsent : c'.socket.sent = t.session.connection.socket.sent) :
    Stopped sent (t.put name x' c' joins new) := by
  refine ⟨hover, fun other y hother => ?_, hsent.trans h.sent⟩
  rcases Table.eq_or_of_get?_put hother with ⟨-, rfl⟩ | ⟨-, hother⟩
  · exact hquiet
  · exact h.quiet other y hother

/-- An event that leaves the exchanges and what was written alone, and the connection over. -/
theorem session (h : Stopped sent t) {s' : Session} {received' : Bytes}
    (hexchanges : s'.exchanges = t.session.exchanges) (hover : s'.connection.lifecycle.isOver = true)
    (hsent : s'.connection.socket.sent = t.session.connection.socket.sent) :
    Stopped sent { t with session := s', received := received' } :=
  ⟨hover, hexchanges ▸ h.quiet, hsent.trans h.sent⟩

end Stopped

/-- Whatever happens, nothing more is written. -/
theorem kept_stopped (sent : Bytes) : Kept (Stopped sent) where
  hop h hget hop := by
    obtain ⟨hquiet, hsent⟩ := hop.sent_of_isOver h.isOver (h.quiet _ _ hget)
    exact h.put (hop.isOver h.isOver) hquiet hsent
  start _ _ h _ := h.put h.isOver rfl rfl
  drop {t name x} h hget := by
    refine h.put (x.isOver_drop_of_isOver _ h.isOver) ?_ (congrArg Socket.sent (x.socket_drop _))
    rw [Exchange.drop]
    split
    · exact h.quiet name x hget
    · rfl
  channel {t name x} _ h hget := h.put h.isOver (h.quiet name x hget) rfl
  opening _ h hchanges := h.session rfl (hchanges.isOver h.isOver) (congrArg Socket.sent hchanges.socket)
  openings _ h := h.session rfl h.isOver rfl
  close {t} h :=
    h.session rfl t.session.connection.isOver_close (congrArg Socket.sent t.session.connection.socket_close)
  advance _ _ h := h.session rfl h.isOver rfl
  network event h := h.session rfl h.isOver (Socket.sent_handle _ event)

end Connection.Transcript

end MemcachedClient
