import MemcachedClient.Proofs.Connection.Effect
import MemcachedClient.Proofs.Connection.Transcript

/-!
# Whose request is written

An exchange joins the turns under the lock of the send half and keeps the lock while it writes, so the
requests stand on the stream in the order of the turns (`Transcript.Sends`): all of them are there, one
after another, but the last one may be cut off where its writing was given up or goes on. An exchange
that gives up in the middle faults the connection, and nothing is written after what it left.
-/

namespace MemcachedClient

open Response

namespace Exchange.Phase

/-- Whether the exchange has the lock of the send half, or was granted it. -/
def holdsSend : Phase → Bool
  | awaitingSend place => place.units == 1
  | sending .. => true
  | _ => false

/-- Whether the exchange writes its request. -/
def isSending : Phase → Bool
  | sending .. => true
  | _ => false

/-- Whether the exchange has written its request, and waits for its reply or reads it. -/
def hasSent : Phase → Bool
  | awaitingTurn _ => true
  | awaitingReceive _ => true
  | reading .. => true
  | _ => false

theorem holdsSend_of_isSending {phase : Phase} (h : phase.isSending = true) :
    phase.holdsSend = true := by
  cases phase <;> simp_all [isSending, holdsSend]

theorem toNat_holdsSend_awaitingSend (place : Handle) :
    (awaitingSend place).holdsSend.toNat = place.units := by
  cases place <;> rfl

end Exchange.Phase

/-- A hop adds to what was written before. -/
theorem Exchange.Hop.sent_grows {clocks : Clocks} {a b : Exchange × Connection} {joins : ℕ}
    {new : List Item} (h : Exchange.Hop clocks a joins new b) :
    a.2.socket.sent <+: b.2.socket.sent := by
  cases h with
  | sendAll phase wrote =>
    rw [Connection.socket_applyAll]
    exact Socket.sent_prefix_of_wrote wrote
  | sendSome phase wrote => exact Socket.sent_prefix_of_wrote wrote
  | @read x c reply since buffer phase half result reads =>
    rcases x.read_cases c clocks buffer reply since rfl with
      ⟨outcome, channel, -, heq⟩ | ⟨state, since', -, heq⟩ | ⟨cause, channel, heq⟩
    · rw [← reads, heq, Connection.socket_applyAll]
      exact List.prefix_rfl
    · rw [← reads, heq]
      exact List.prefix_rfl
    · rw [← reads, heq, Connection.socket_applyAll]
      exact List.prefix_rfl
  | _ =>
    first
    | exact List.prefix_rfl
    | simp only [Connection.socket_applyAll, List.prefix_rfl]

/-- Dropping an exchange writes nothing. -/
theorem Exchange.socket_drop (x : Exchange) (c : Connection) : (x.drop c).2.socket = c.socket := by
  rw [drop]
  split
  · rfl
  · exact c.socket_applyAll _

namespace Connection.Transcript

theorem requests_concat (asked : Table Request) (entry : String × Request) :
    requests (asked ++ [entry]) = requests asked ++ entry.2.bytes := by
  rw [requests_append]
  simp [requests]

theorem requests_take (asked : Table Request) (count : ℕ) :
    requests (asked.take count) <+: requests asked := by
  have hsplit := requests_append (asked.take count) (asked.drop count)
  rw [List.take_append_drop] at hsplit
  rw [hsplit]
  exact List.prefix_append _ _

/-- What was written is the requests of those who joined the turns, in that order, all but the last
in full. -/
structure Sends (t : Transcript) : Prop where
  /-- Every name is there once. -/
  names : t.session.exchanges.Distinct
  /-- One exchange has the lock of the send half. -/
  locked : t.session.connection.sendLock.units +
    t.session.exchanges.count (fun x => x.phase.holdsSend) ≤ 1
  /-- Who writes is the one who joined last, and has the rest of its request to write. -/
  sending : ∀ name x rest turn, t.session.exchanges.get? name = some x →
    x.phase = .sending rest turn → t.senders.getLast? = some (name, x.command) ∧
      t.session.connection.socket.sent ++ rest = requests t.asked
  /-- Who waits for its reply has its request written in full. -/
  complete : ∀ name x i, t.session.exchanges.get? name = some x → x.phase.hasSent = true →
    t.senders[i]? = some (name, x.command) → t.Complete i
  /-- Nothing but the requests is written. -/
  written : t.session.connection.socket.sent <+: requests t.asked
  /-- Those before the last are written in full. -/
  before : requests t.asked.dropLast <+: t.session.connection.socket.sent
  /-- While the connection is not over and nobody writes, the last one is written in full too. -/
  still : t.session.connection.lifecycle.isOver = false →
    (∀ name x, t.session.exchanges.get? name = some x → x.phase.isSending = false) →
    t.session.connection.socket.sent = requests t.asked

variable {t : Transcript} {name : String} {x x' : Exchange} {c' : Connection} {new : List Item}

namespace Sends

/-- Two exchanges that write are the same. -/
theorem name_eq_of_sending (h : Sends t) {other : String} {y : Exchange} {rest rest' : Bytes}
    {turn turn' : Handle} (hget : t.session.exchanges.get? name = some x)
    (hx : x.phase = .sending rest turn) (hother : t.session.exchanges.get? other = some y)
    (hy : y.phase = .sending rest' turn') : other = name := by
  have hlast := (h.sending name x rest turn hget hx).1
  rw [(h.sending other y rest' turn' hother hy).1, Option.some.injEq, Prod.mk.injEq] at hlast
  exact hlast.1

theorem locked_put (h : Sends t) (hget : t.session.exchanges.get? name = some x)
    (hlock : c'.sendLock.units + x'.phase.holdsSend.toNat ≤
      t.session.connection.sendLock.units + x.phase.holdsSend.toNat) :
    c'.sendLock.units + (t.session.exchanges.put name x').count (fun x => x.phase.holdsSend) ≤ 1 := by
  have hlocked := h.locked
  rw [h.names.count_eq_remove _ hget] at hlocked
  rw [h.names.count_put]
  omega

/-- An exchange that neither joins the turns nor writes. -/
theorem stay (h : Sends t) (hget : t.session.exchanges.get? name = some x)
    (hlock : c'.sendLock.units + x'.phase.holdsSend.toNat ≤
      t.session.connection.sendLock.units + x.phase.holdsSend.toNat)
    (hsent : c'.socket.sent = t.session.connection.socket.sent)
    (hcommand : x'.command = x.command)
    (hsending : x'.phase.isSending = true → x'.phase = x.phase)
    (hcomplete : x'.phase.hasSent = true → x.phase.hasSent = true)
    (hover : c'.lifecycle.isOver = false → t.session.connection.lifecycle.isOver = false ∧
      (x.phase.isSending = true → x'.phase.isSending = true)) :
    Sends (t.put name x' c' 0 new) where
  names := h.names.put name x'
  locked := h.locked_put hget hlock
  sending other y rest turn hother hphase := by
    rw [senders_put_zero, asked_put_zero, connection_put, hsent]
    rcases Table.eq_or_of_get?_put hother with ⟨rfl, rfl⟩ | ⟨-, hother⟩
    · have hphase' := hsending (by rw [hphase]; rfl)
      rw [hcommand]
      exact h.sending other x rest turn hget (hphase' ▸ hphase)
    · exact h.sending other y rest turn hother hphase
  complete other y i hother hphase hi := by
    rw [senders_put_zero] at hi
    rw [Complete, asked_put_zero, connection_put, hsent]
    rcases Table.eq_or_of_get?_put hother with ⟨rfl, rfl⟩ | ⟨-, hother⟩
    · rw [hcommand] at hi
      exact h.complete other x i hget (hcomplete hphase) hi
    · exact h.complete other y i hother hphase hi
  written := by
    rw [asked_put_zero, connection_put, hsent]
    exact h.written
  before := by
    rw [asked_put_zero, connection_put, hsent]
    exact h.before
  still hopen hstill := by
    rw [asked_put_zero, connection_put, hsent]
    obtain ⟨hopen', hkeep⟩ := hover hopen
    refine h.still hopen' fun other y hother => ?_
    by_cases hname : other = name
    · subst hname
      rw [hget, Option.some.injEq] at hother
      subst hother
      have := hstill other x' (Table.get?_put_self _ _ _)
      by_contra hsends
      rw [Bool.not_eq_false] at hsends
      rw [hkeep hsends] at this
      simp at this
    · exact hstill other y (by rwa [exchanges_put, Table.get?_put_of_ne _ _ hname])

/-- While one exchange takes the lock of the send half, nobody writes. -/
theorem isSending_eq_false_of_taken (h : Sends t) (hget : t.session.exchanges.get? name = some x)
    {place : Handle} (hphase : x.phase = .awaitingSend place)
    (htaken : (t.session.connection.sendLock.poll place).1 = true) :
    ∀ other y, t.session.exchanges.get? other = some y → y.phase.isSending = false := by
  intro other y hother
  by_contra hsends
  rw [Bool.not_eq_false] at hsends
  have hholds := Exchange.Phase.holdsSend_of_isSending hsends
  have hname : other ≠ name := by
    rintro rfl
    rw [hget, Option.some.injEq] at hother
    subst hother
    simp [hphase, Exchange.Phase.isSending] at hsends
  -- the unit that is taken and the one that is held would be two
  have hpos : 0 < (t.session.exchanges.remove name).count (fun x => x.phase.holdsSend) :=
    (h.names.remove name).count_pos_iff_get?.mpr
      ⟨other, y, by rwa [Table.get?_remove, if_neg hname], hholds⟩
  have hunits := Semaphore.units_poll_of_taken htaken
  have hlocked := h.locked
  rw [h.names.count_eq_remove _ hget, hphase, Exchange.Phase.toNat_holdsSend_awaitingSend] at hlocked
  omega

/-- An exchange joins the turns: everything before its request is written. -/
theorem join (h : Sends t) (hget : t.session.exchanges.get? name = some x) {place turn : Handle}
    (hphase : x.phase = .awaitingSend place)
    (htaken : (t.session.connection.sendLock.poll place).1 = true)
    (hopened : t.session.connection.lifecycle = .opened)
    (hlock : c'.sendLock = (t.session.connection.sendLock.poll place).2.2)
    (hsent : c'.socket.sent = t.session.connection.socket.sent) :
    Sends (t.put name { x with phase := .sending (x.command.request t.session.clocks.wall) turn } c'
      1 new) := by
  have hstill := h.isSending_eq_false_of_taken hget hphase htaken
  have hall := h.still (by rw [hopened]; rfl) hstill
  have hasked : (t.put name { x with phase := .sending (x.command.request t.session.clocks.wall) turn } c' 1
      new).asked = t.asked ++ [(name, ⟨x.command, t.session.clocks.wall⟩)] := rfl
  have hsenders := senders_put t name
    { x with phase := .sending (x.command.request t.session.clocks.wall) turn } c' 1 new
  rw [show List.replicate 1 (name, x.command) = [(name, x.command)] from rfl] at hsenders
  refine ⟨h.names.put name _, ?_, fun other y rest turn' hother hphase' => ?_,
    fun other y i hother hphase' hi => ?_, ?_, ?_, fun _ hquiet => ?_⟩
  · have hunits := Semaphore.units_poll_of_taken htaken
    refine h.locked_put hget ?_
    rw [connection_put, hlock, hphase, Exchange.Phase.toNat_holdsSend_awaitingSend]
    exact Nat.le_of_eq hunits
  · rcases Table.eq_or_of_get?_put hother with ⟨rfl, rfl⟩ | ⟨-, hother⟩
    · obtain ⟨rfl, -⟩ := Exchange.Phase.sending.inj hphase'
      rw [hsenders, hasked, connection_put, hsent, hall]
      exact ⟨by simp, by rw [requests_concat, Request.bytes]⟩
    · have := hstill other y hother
      rw [hphase'] at this
      simp [Exchange.Phase.isSending] at this
  · -- whoever waits for its reply joined before
    rcases Table.eq_or_of_get?_put hother with ⟨rfl, rfl⟩ | ⟨hname, hother⟩
    · simp [Exchange.Phase.hasSent] at hphase'
    · rw [hsenders] at hi
      have hlt : i < t.senders.length := by
        by_contra hge
        rw [List.getElem?_append_right (by omega)] at hi
        have hlast := List.mem_of_getElem? hi
        rw [List.mem_singleton, Prod.mk.injEq] at hlast
        exact hname hlast.1
      rw [List.getElem?_append_left hlt] at hi
      rw [senders, List.length_map] at hlt
      rw [Complete, hasked, connection_put, hsent, List.take_append_of_le_length hlt]
      exact h.complete other y i hother hphase' hi
  · rw [hasked, connection_put, hsent, hall, requests_concat]
    exact List.prefix_append _ _
  · rw [hasked, List.dropLast_concat, connection_put, hsent]
    exact hall ▸ List.prefix_rfl
  · have := hquiet name _ (Table.get?_put_self _ _ _)
    simp [Exchange.Phase.isSending] at this

/-- An exchange writes some bytes of its request, or all that is left. -/
theorem write (h : Sends t) (hget : t.session.exchanges.get? name = some x) {bytes rest : Bytes}
    {turn : Handle} {socket : Socket} (hphase : x.phase = .sending bytes turn)
    (hwrote : t.session.connection.socket.write bytes = .wrote rest socket)
    (hlock : c'.sendLock.units + x'.phase.holdsSend.toNat ≤
      t.session.connection.sendLock.units + x.phase.holdsSend.toNat)
    (hsent : c'.socket.sent = socket.sent) (hcommand : x'.command = x.command)
    (hphase' : x'.phase = .sending rest turn ∨ rest = [] ∧ x'.phase.isSending = false) :
    Sends (t.put name x' c' 0 new) := by
  obtain ⟨hlast, hrest⟩ := h.sending name x bytes turn hget hphase
  rw [← Socket.sent_of_wrote hwrote, ← hsent] at hrest
  have hgrew : t.session.connection.socket.sent <+: c'.socket.sent :=
    hsent ▸ Socket.sent_prefix_of_wrote hwrote
  refine ⟨h.names.put name x', h.locked_put hget hlock, fun other y rest' turn' hother hy => ?_,
    fun other y i hother hphase'' hi => ?_, ?_, ?_, fun _ hquiet => ?_⟩
  · rw [senders_put_zero, asked_put_zero]
    rcases Table.eq_or_of_get?_put hother with ⟨rfl, rfl⟩ | ⟨hname, hother⟩
    · rcases hphase' with hphase' | ⟨-, hphase'⟩
      · obtain ⟨rfl, -⟩ := Exchange.Phase.sending.inj (hphase'.symm.trans hy)
        exact ⟨hcommand ▸ hlast, hrest⟩
      · rw [hy] at hphase'
        simp [Exchange.Phase.isSending] at hphase'
    · exact absurd (h.name_eq_of_sending hget hphase hother hy) hname
  · rw [senders_put_zero] at hi
    rw [Complete, asked_put_zero, connection_put]
    rcases Table.eq_or_of_get?_put hother with ⟨rfl, rfl⟩ | ⟨-, hother⟩
    · rcases hphase' with hphase' | ⟨rfl, -⟩
      · simp [hphase', Exchange.Phase.hasSent] at hphase''
      · rw [List.append_nil] at hrest
        rw [hrest]
        exact requests_take _ _
    · exact (h.complete other y i hother hphase'' hi).trans hgrew
  · rw [asked_put_zero]
    exact ⟨rest, hrest⟩
  · rw [asked_put_zero]
    exact h.before.trans hgrew
  · rw [asked_put_zero]
    rcases hphase' with hphase' | ⟨rfl, -⟩
    · have := hquiet name x' (Table.get?_put_self _ _ _)
      rw [hphase'] at this
      simp [Exchange.Phase.isSending] at this
    · rwa [List.append_nil] at hrest

/-- An exchange that has nothing to do with the lock of the send half, or does not need it any more. -/
theorem idle (h : Sends t) (hget : t.session.exchanges.get? name = some x)
    (hphase : x.phase.isSending = false) (hholds : x'.phase.holdsSend = false)
    (hcommand : x'.command = x.command)
    (hcomplete : x'.phase.hasSent = true → x.phase.hasSent = true)
    (hlock : c'.sendLock = t.session.connection.sendLock)
    (hsent : c'.socket.sent = t.session.connection.socket.sent)
    (hover : c'.lifecycle.isOver = false → t.session.connection.lifecycle.isOver = false) :
    Sends (t.put name x' c' 0 new) := by
  refine h.stay hget ?_ hsent hcommand (fun hsends => ?_) hcomplete fun hopen => ⟨hover hopen, ?_⟩
  · rw [hlock, hholds]
    exact Nat.le_add_right _ _
  · rw [Exchange.Phase.holdsSend_of_isSending hsends] at hholds
    simp at hholds
  · intro hsends
    rw [hphase] at hsends
    simp at hsends

/-- An exchange reads on: however it ends, nothing is written, and the lock of the send half is left
alone. -/
theorem read (h : Sends t) (hget : t.session.exchanges.get? name = some x) {place : Reply}
    {since : Option Duration} (hphase : x.phase = .reading place since) (buffer : Bytes) :
    Sends (t.put name (x.read t.session.connection t.session.clocks buffer place since).1
      (x.read t.session.connection t.session.clocks buffer place since).2 0 new) := by
  have hsending : x.phase.isSending = false := by
    rw [hphase]
    rfl
  have hnot : ∀ {p : Prop}, false = true → p := fun h => by simp at h
  rcases x.read_cases t.session.connection t.session.clocks buffer place since rfl with
    ⟨outcome, channel, -, heq⟩ | ⟨state, since', -, heq⟩ | ⟨cause, channel, heq⟩
  · rw [heq]
    refine h.idle hget hsending rfl rfl hnot (sendLock_applyAll _ (by simp))
      (by rw [socket_applyAll]; rfl) ?_
    rw [lifecycle_applyAll _ (by simp)]
    exact id
  · rw [heq]
    exact h.idle hget hsending rfl rfl (fun _ => by rw [hphase]; rfl) rfl rfl id
  · rw [heq]
    refine h.idle hget hsending rfl rfl hnot (sendLock_applyAll _ (by simp))
      (by rw [socket_applyAll]; rfl) fun hopen => ?_
    rw [isOver_applyAll_of_mem _ (by simp)] at hopen
    simp at hopen

/-- An exchange hops. -/
theorem hop (h : Sends t) (hget : t.session.exchanges.get? name = some x) {after : Exchange}
    {c : Connection} {joins : ℕ}
    (hop : Exchange.Hop t.session.clocks (x, t.session.connection) joins new (after, c)) :
    Sends (t.put name after c joins new) := by
  have hnot : ∀ {p : Prop}, false = true → p := fun h => by simp at h
  cases hop with
  | askSend phase =>
    refine h.stay hget ?_ rfl rfl hnot hnot
      fun hopen => ⟨hopen, fun hsends => by simp [phase, Exchange.Phase.isSending] at hsends⟩
    have hunits := t.session.connection.sendLock.units_wait
    rw [Exchange.Phase.toNat_holdsSend_awaitingSend]
    dsimp only
    omega
  | waitSend phase quiet =>
    obtain ⟨ticket, rfl, -, hpoll⟩ := Semaphore.poll_eq_false quiet
    rw [hpoll]
    refine h.stay hget ?_ rfl rfl hnot hnot
      fun hopen => ⟨hopen, fun hsends => by simp [phase, Exchange.Phase.isSending] at hsends⟩
    exact Nat.le_of_eq (by rw [phase])
  | @refuse x c place phase taken effects shut =>
    have hunits := (Semaphore.units_signalOne _).trans (Semaphore.units_poll_of_taken taken)
    have hholds := Exchange.Phase.toNat_holdsSend_awaitingSend place
    rw [← phase] at hholds
    refine h.stay hget ?_ (by rw [socket_applyAll]) rfl hnot hnot fun hopen => ⟨?_, ?_⟩
    · rcases shut with ⟨-, -, rfl⟩ | ⟨-, rfl⟩
      · exact Nat.le_of_eq (hunits.trans (by rw [hholds]))
      · exact Nat.le_of_eq (hunits.trans (by rw [hholds]))
    · rcases shut with ⟨-, -, rfl⟩ | ⟨-, rfl⟩ <;> exact hopen
    · rw [phase]
      exact hnot
  | join phase taken opened => exact h.join hget phase taken opened rfl rfl
  | sendFail phase failed =>
    refine h.stay hget ?_ (by rw [socket_applyAll]) rfl hnot hnot fun hopen => ?_
    · rw [phase]
      exact Nat.le_of_eq (Semaphore.units_signalOne _)
    · rw [isOver_applyAll_of_mem _ (by simp)] at hopen
      simp at hopen
  | sendAll phase wrote =>
    refine h.write hget phase wrote ?_ (by rw [socket_applyAll]) rfl (Or.inr ⟨rfl, rfl⟩)
    rw [phase]
    exact Nat.le_of_eq (Semaphore.units_signalOne _)
  | sendSome phase wrote =>
    refine h.write hget phase wrote ?_ rfl rfl (Or.inl rfl)
    rw [phase]
    exact Nat.le_refl _
  | waitTurn phase quiet =>
    exact h.idle hget (by rw [phase]; rfl) rfl rfl (fun _ => by rw [phase]; rfl) rfl rfl id
  | takeTurn phase taken =>
    exact h.idle hget (by rw [phase]; rfl) rfl rfl (fun _ => by rw [phase]; rfl) rfl rfl id
  | waitReceive phase quiet =>
    exact h.idle hget (by rw [phase]; rfl) rfl rfl (fun _ => by rw [phase]; rfl) rfl rfl id
  | refuseReceive phase taken shut =>
    obtain ⟨hfault, hreceiving⟩ := Exchange.faults_of_shut shut
    refine h.idle hget (by rw [phase]; rfl) rfl rfl hnot ?_ (by rw [socket_applyAll])
      fun hopen => ?_
    · exact sendLock_applyAll _ fun effect hmem => (hreceiving effect hmem).2
    · rw [isOver_applyAll_of_mem _ hfault] at hopen
      simp at hopen
  | startReading phase taken opened =>
    exact h.idle hget (by rw [phase]; rfl) rfl rfl (fun _ => by rw [phase]; rfl) rfl rfl id
  | @read _ _ place since buffer phase half result reads =>
    have hread : Sends (t.put name _ _ 0 (Exchange.added x.channel after.channel)) :=
      h.read hget phase buffer
    rwa [reads] at hread

/-- An exchange is started. -/
theorem start (h : Sends t) (hget : t.session.exchanges.get? name = none) (command : Command)
    (capacity : ℕ) :
    Sends (t.put name (.start command capacity) t.session.connection 0 new) := by
  refine ⟨h.names.put name _, ?_, fun other y rest turn hother hphase => ?_,
    fun other y i hother hphase hi => ?_, ?_, ?_, fun hopen hquiet => ?_⟩
  · rw [connection_put, exchanges_put, h.names.count_put, Table.remove_of_get?_eq_none hget]
    exact h.locked
  · rw [senders_put_zero, asked_put_zero]
    rcases Table.eq_or_of_get?_put hother with ⟨rfl, rfl⟩ | ⟨-, hother⟩
    · simp [Exchange.start] at hphase
    · exact h.sending other y rest turn hother hphase
  · rw [senders_put_zero] at hi
    rw [Complete, asked_put_zero]
    rcases Table.eq_or_of_get?_put hother with ⟨rfl, rfl⟩ | ⟨-, hother⟩
    · simp [Exchange.start, Exchange.Phase.hasSent] at hphase
    · exact h.complete other y i hother hphase hi
  · rw [asked_put_zero]
    exact h.written
  · rw [asked_put_zero]
    exact h.before
  · rw [asked_put_zero]
    refine h.still hopen fun other y hother => hquiet other y ?_
    rwa [exchanges_put, Table.get?_put_of_ne]
    rintro rfl
    rw [hget] at hother
    simp at hother

/-- An exchange is dropped. -/
theorem drop (h : Sends t) (hget : t.session.exchanges.get? name = some x) :
    Sends (t.put name (x.drop t.session.connection).1 (x.drop t.session.connection).2 0 []) := by
  rw [Exchange.drop]
  by_cases hend : x.phase.isOver = true
  · rw [if_pos hend, put_self hget]
    exact h
  rw [if_neg hend]
  have hover : .fault ∈ x.phase.abandonment →
      (t.session.connection.applyAll x.phase.abandonment).lifecycle.isOver = false → False :=
    fun hfault hopen => by
      rw [isOver_applyAll_of_mem _ hfault] at hopen
      simp at hopen
  refine h.stay hget ?_ (by rw [socket_applyAll]) rfl
    (fun hsends => by simp [Exchange.Phase.isSending] at hsends)
    (fun hsent => by simp [Exchange.Phase.hasSent] at hsent) fun hopen => ?_
  · cases hphase : x.phase with
    | awaitingSend place =>
      rw [Exchange.Phase.toNat_holdsSend_awaitingSend]
      exact Semaphore.units_drop_le _ place
    | sending rest turn => exact Nat.le_of_eq (Semaphore.units_signalOne _)
    | finished result => simp [hphase, Exchange.Phase.isOver] at hend
    | dropped => simp [hphase, Exchange.Phase.isOver] at hend
    | _ => exact Nat.le_refl _
  · cases hphase : x.phase with
    | ready =>
      rw [hphase] at hopen
      exact ⟨hopen, fun hsends => by simp [Exchange.Phase.isSending] at hsends⟩
    | awaitingSend place =>
      rw [hphase] at hopen
      exact ⟨hopen, fun hsends => by simp [Exchange.Phase.isSending] at hsends⟩
    | finished result => simp [hphase, Exchange.Phase.isOver] at hend
    | dropped => simp [hphase, Exchange.Phase.isOver] at hend
    | _ => exact (hover (by simp [hphase, Exchange.Phase.abandonment]) hopen).elim

/-- An event that leaves the exchanges alone, and writes nothing. -/
theorem session (h : Sends t) {s' : Session} {received' : Bytes}
    (hexchanges : s'.exchanges = t.session.exchanges)
    (hlock : s'.connection.sendLock = t.session.connection.sendLock)
    (hsent : s'.connection.socket.sent = t.session.connection.socket.sent)
    (hover : s'.connection.lifecycle.isOver = false →
      t.session.connection.lifecycle.isOver = false) :
    Sends { t with session := s', received := received' } where
  names := hexchanges ▸ h.names
  locked := by
    rw [show Session.exchanges _ = t.session.exchanges from hexchanges, hlock]
    exact h.locked
  sending name x rest turn hget hphase := by
    rw [hsent]
    exact h.sending name x rest turn (hexchanges ▸ hget) hphase
  complete name x i hget hphase hi := by
    rw [Complete, hsent]
    exact h.complete name x i (hexchanges ▸ hget) hphase hi
  written := by
    rw [hsent]
    exact h.written
  before := by
    rw [hsent]
    exact h.before
  still hopen hquiet := by
    rw [hsent]
    exact h.still (hover hopen) fun name x hget => hquiet name x (hexchanges ▸ hget)

end Sends

/-- Whatever happens, the requests stand on the stream in the order of the turns. -/
theorem kept_sends : Kept Sends where
  hop h hget hop := h.hop hget hop
  start command capacity h hget := h.start hget command capacity
  drop h hget := h.drop hget
  channel event h hget :=
    h.stay hget (Nat.le_refl _) rfl rfl (fun _ => rfl) id fun hopen => ⟨hopen, id⟩
  opening openings h hchanges :=
    h.session rfl hchanges.sendLock (congrArg Socket.sent hchanges.socket)
      hchanges.isOver_eq_false
  openings openings h := h.session rfl rfl rfl id
  close {t} h :=
    h.session rfl t.session.connection.sendLock_close
      (congrArg Socket.sent t.session.connection.socket_close) fun hopen =>
        absurd (t.session.connection.isOver_close.symm.trans hopen) (by simp)
  advance _ _ h := h.session rfl rfl rfl id
  network event h := h.session rfl rfl (Socket.sent_handle _ event) id

end Connection.Transcript

end MemcachedClient
