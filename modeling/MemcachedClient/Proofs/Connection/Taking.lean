import MemcachedClient.Proofs.Connection.Reading
import MemcachedClient.Proofs.Response.Telling

/-!
# The bytes that an exchange takes

A poll of an exchange reads its reply if it finds the exchange reading, or takes it there: over the lock of the send
half, through the whole request, to its turn and the lock of the receive half (`Exchange.reading?`). The bytes that it
takes from the stream then are `Exchange.taken`, and what is left behind them is not read yet (`Exchange.unread?_poll`);
a poll that does not come so far takes none.

A retrieval of several keys hands over the items that these bytes tell (`Exchange.Tells`). Its result says how they
end: an outcome comes of the end line only, and an error of a block that is refused, or of a reply that breaks off
(`Exchange.comes_poll`). A poll stops where the exchange has ended, where an item waits for room, or where it waits for
the connection (`Exchange.Awaits`), which is to say for other exchanges, for room on the stream, or for bytes of a
stream that is quiet but goes on.
-/

namespace MemcachedClient

open Connection (unread?_applyAll)
open Response

/-- Whether some bytes can be written at once. -/
def Socket.accepts (s : Socket) (bytes : Bytes) : Bool :=
  match s.write bytes with
  | .wrote [] _ => true
  | _ => false

namespace Exchange

/-- Whether a poll takes an exchange to the lock of the receive half. -/
def arrives (x : Exchange) (c : Connection) (clocks : Clocks) : Bool :=
  match x.phase with
  | .ready =>
    x.joins c && (c.socket.accepts (x.command.request clocks.wall) && (c.turns.enter.1 && c.receiveLock.enter.1))
  | .awaitingSend _ =>
    x.joins c && (c.socket.accepts (x.command.request clocks.wall) && (c.turns.enter.1 && c.receiveLock.enter.1))
  | .sending rest turn => c.socket.accepts rest && ((c.turns.poll turn).1 && c.receiveLock.enter.1)
  | .awaitingTurn turn => (c.turns.poll turn).1 && c.receiveLock.enter.1
  | .awaitingReceive place => (c.receiveLock.poll place).1
  | _ => false

/-- What an exchange begins to read from, if it has arrived: the bytes in the buffer, and the reply at its start. -/
def begins? (x : Exchange) (c : Connection) (arrived : Bool) : Option (Bytes × Reply) :=
  if arrived && c.isOpened then c.receiveHalf.map (·, .start x.command) else none

/-- What a poll reads from, if it reads: the bytes in the buffer, and how far the reply is read. -/
def reading? (x : Exchange) (c : Connection) (clocks : Clocks) : Option (Bytes × Reply) :=
  match x.phase with
  | .reading reply _ => c.receiveHalf.map (·, reply)
  | _ => x.begins? c (x.arrives c clocks)

/-- The bytes that a poll takes from the stream. -/
def taken (x : Exchange) (c : Connection) (clocks : Clocks) : Bytes :=
  match x.reading? c clocks with
  | some (buffer, reply) =>
    let reader : Reader := ⟨buffer, c.socket.feed, none, 0⟩
    reader.taken (reader.readReply x.command (reply, x.channel)).2
  | none => []

/-- A poll reads, from what is said, or stops before its reply; then what is not read stays, or is given up. -/
def Reads (x : Exchange) (c : Connection) (clocks : Clocks) (result : Exchange × Connection) :
    Option (Bytes × Reply) → Prop
  | some (buffer, reply) => ∃ d since, d.socket.feed = c.socket.feed ∧ result = x.read d clocks buffer reply since
  | none => result.1.command = x.command ∧ result.1.channel = x.channel ∧
      (result.1.phase.isWaiting = true ∨ ∃ cause, result.1.phase = .finished (.error cause)) ∧
      (result.2.unread? = none ∨ result.2.unread? = c.unread?)

section reads

variable (x : Exchange) (c : Connection) (clocks : Clocks)

theorem reads_holdReceive : x.Reads c clocks (x.holdReceive c clocks) (x.begins? c true) := by
  rw [holdReceive, begins?, Bool.true_and]
  split
  · cases c.receiveHalf with
    | none => exact ⟨rfl, rfl, .inr ⟨_, rfl⟩, unread?_applyAll _ _⟩
    | some buffer => exact ⟨c, none, rfl, rfl⟩
  · exact ⟨rfl, rfl, .inr ⟨_, rfl⟩, unread?_applyAll _ _⟩

theorem reads_awaitReceive (place : Handle) :
    x.Reads c clocks (x.awaitReceive c clocks place) (x.begins? c (c.receiveLock.poll place).1) := by
  cases htaken : (c.receiveLock.poll place).1 with
  | false =>
    simp only [awaitReceive, htaken, Bool.false_eq_true, if_false]
    exact ⟨rfl, rfl, .inl rfl, .inr rfl⟩
  | true =>
    simp only [awaitReceive, htaken, if_true]
    exact reads_holdReceive x { c with receiveLock := (c.receiveLock.poll place).2.2 } clocks

theorem reads_awaitTurn (turn : Handle) : x.Reads c clocks (x.awaitTurn c clocks turn)
    (x.begins? c ((c.turns.poll turn).1 && c.receiveLock.enter.1)) := by
  cases htaken : (c.turns.poll turn).1 with
  | false =>
    simp only [awaitTurn, htaken, Bool.false_eq_true, if_false]
    exact ⟨rfl, rfl, .inl rfl, .inr rfl⟩
  | true =>
    simp only [awaitTurn, htaken, if_true]
    exact reads_awaitReceive x
      { c with turns := (c.turns.poll turn).2.2, receiveLock := c.receiveLock.wait.2 } clocks c.receiveLock.wait.1

theorem reads_send (bytes : Bytes) (turn : Handle) : x.Reads c clocks (x.send c clocks bytes turn)
    (x.begins? c (c.socket.accepts bytes && ((c.turns.poll turn).1 && c.receiveLock.enter.1))) := by
  rw [send, Socket.accepts]
  cases hwrite : c.socket.write bytes with
  | failed cause => exact ⟨rfl, rfl, .inr ⟨_, rfl⟩, unread?_applyAll _ _⟩
  | wrote rest socket =>
    -- writing takes nothing from what arrives
    have hfeed : socket.feed = c.socket.feed := Socket.feed_of_wrote hwrite
    have hunread : ({ c with socket } : Connection).unread? = c.unread? := by
      rw [Connection.unread?, Connection.unread?, hfeed]
    cases rest with
    | cons byte rest => exact ⟨rfl, rfl, .inl rfl, .inr hunread⟩
    | nil =>
      have hreads := reads_awaitTurn x ({ c with socket }.applyAll [.dropSendIfOver, .unlockSend]) clocks turn
      dsimp only at hreads ⊢
      rw [Bool.true_and]
      generalize hfrom : x.begins? c ((c.turns.poll turn).1 && c.receiveLock.enter.1) = start?
      have hsame : x.begins? ({ c with socket }.applyAll [.dropSendIfOver, .unlockSend])
          ((c.turns.poll turn).1 && c.receiveLock.enter.1) = start? := hfrom
      rw [show (({ c with socket } : Connection).applyAll [.dropSendIfOver, .unlockSend]).turns = c.turns from rfl,
        show (({ c with socket } : Connection).applyAll [.dropSendIfOver, .unlockSend]).receiveLock = c.receiveLock
          from rfl, hsame] at hreads
      cases start? with
      | none =>
        obtain ⟨hcommand, hchannel, hphase, hrest⟩ := hreads
        exact ⟨hcommand, hchannel, hphase, hrest.imp_right fun hsame => hsame.trans hunread⟩
      | some start =>
        obtain ⟨d, since, hd, hresult⟩ := hreads
        exact ⟨d, since, hd.trans hfeed, hresult⟩

theorem reads_awaitSend (place : Handle) : x.Reads c clocks (x.awaitSend c clocks place)
    (x.begins? c (((c.sendLock.poll place).1 && (c.isOpened && c.sendHalf)) &&
      (c.socket.accepts (x.command.request clocks.wall) && (c.turns.enter.1 && c.receiveLock.enter.1)))) := by
  cases htaken : (c.sendLock.poll place).1 with
  | false =>
    simp only [awaitSend, htaken, Bool.false_eq_true, if_false]
    exact ⟨rfl, rfl, .inl rfl, .inr rfl⟩
  | true =>
    have hsame : Connection.isOpened { c with sendLock := (c.sendLock.poll place).2.2 } = c.isOpened := rfl
    simp only [awaitSend, htaken, if_true, holdSend, hsame]
    cases hopened : c.isOpened with
    | false => exact ⟨rfl, rfl, .inr ⟨_, rfl⟩, unread?_applyAll _ _⟩
    | true =>
      rw [if_pos rfl]
      by_cases hhalf : c.sendHalf = true
      · have harrives : ∀ rest, (true && (true && c.sendHalf) && rest) = rest := by simp [hhalf]
        rw [if_pos hhalf, harrives]
        exact reads_send x { c with sendLock := (c.sendLock.poll place).2.2, turns := c.turns.wait.2 } clocks
          (x.command.request clocks.wall) c.turns.wait.1
      · have hnot : ∀ rest, (true && (true && c.sendHalf) && rest) = false := by simp [hhalf]
        rw [if_neg hhalf, hnot]
        exact ⟨rfl, rfl, .inr ⟨_, rfl⟩, unread?_applyAll _ _⟩

end reads

/-- **A poll reads where it should, or stops before its reply**, unless the exchange is over. -/
theorem reads_poll {x : Exchange} (h : x.phase.isWaiting = true) (c : Connection) (clocks : Clocks) :
    x.Reads c clocks (x.poll c clocks) (x.reading? c clocks) := by
  obtain ⟨command, phase, channel⟩ := x
  cases phase with
  | ready =>
    exact reads_awaitSend ⟨command, .ready, channel⟩ { c with sendLock := c.sendLock.wait.2 } clocks c.sendLock.wait.1
  | awaitingSend place => exact reads_awaitSend ⟨command, .awaitingSend place, channel⟩ c clocks place
  | sending rest turn => exact reads_send ⟨command, .sending rest turn, channel⟩ c clocks rest turn
  | awaitingTurn turn => exact reads_awaitTurn ⟨command, .awaitingTurn turn, channel⟩ c clocks turn
  | awaitingReceive place => exact reads_awaitReceive ⟨command, .awaitingReceive place, channel⟩ c clocks place
  | reading | finished | dropped => simp [Phase.isWaiting] at h

/-- An exchange that is over takes nothing. -/
theorem taken_of_isOver {x : Exchange} (h : x.phase.isOver = true) (c : Connection) (clocks : Clocks) :
    x.taken c clocks = [] := by
  have hreading : x.reading? c clocks = none := by
    obtain ⟨command, phase, channel⟩ := x
    cases phase with
    | finished | dropped => rfl
    | _ => simp [Phase.isOver] at h
  rw [taken, hreading]

/-- Reading leaves what it has not taken, or gives it up. -/
theorem unread?_read (x : Exchange) (c : Connection) (clocks : Clocks) (buffer : Bytes) (reply : Reply)
    (since : Option Duration) : (x.read c clocks buffer reply since).2.unread? = none ∨
      (x.read c clocks buffer reply since).2.unread? =
        some ((Reader.mk buffer c.socket.feed none 0).readReply x.command (reply, x.channel)).2.bytes := by
  rcases x.read_cases c clocks buffer reply since rfl with ⟨_, _, -, heq⟩ | ⟨_, _, -, heq⟩ | ⟨_, _, heq⟩
  · rw [heq]
    exact unread?_applyAll _ _
  · rw [heq]
    exact .inr rfl
  · rw [heq]
    exact unread?_applyAll _ _

theorem begins?_eq_some {x : Exchange} {c : Connection} {arrived : Bool} {buffer : Bytes} {reply : Reply}
    (h : x.begins? c arrived = some (buffer, reply)) : c.receiveHalf = some buffer ∧ reply = .start x.command := by
  rw [begins?] at h
  split at h
  · obtain ⟨_, hhalf, heq⟩ := Option.map_eq_some_iff.mp h
    obtain ⟨rfl, rfl⟩ := Prod.mk.inj heq
    exact ⟨hhalf, rfl⟩
  · simp at h

theorem receiveHalf_of_reading? {x : Exchange} {c : Connection} {clocks : Clocks} {buffer : Bytes} {reply : Reply}
    (h : x.reading? c clocks = some (buffer, reply)) : c.receiveHalf = some buffer := by
  rw [reading?] at h
  split at h
  · obtain ⟨_, hhalf, heq⟩ := Option.map_eq_some_iff.mp h
    rw [hhalf, (Prod.mk.inj heq).1]
  · exact (begins?_eq_some h).1

/-- **What a poll takes goes off the front of what is not read**, and the rest stays, or is given up. -/
theorem unread?_poll (x : Exchange) (c : Connection) (clocks : Clocks) {rest : Bytes}
    (h : (x.poll c clocks).2.unread? = some rest) : c.unread? = some (x.taken c clocks ++ rest) := by
  have hread : ∀ {buffer : Bytes} {reply : Reply} {d : Connection} {since : Option Duration},
      x.reading? c clocks = some (buffer, reply) → d.socket.feed = c.socket.feed →
      (x.read d clocks buffer reply since).2.unread? = some rest → c.unread? = some (x.taken c clocks ++ rest) := by
    intro buffer reply d since hreading hfeed hleft
    have hparts := (Reader.mk buffer c.socket.feed none 0).bytes_readReply x.command (reply, x.channel)
    rcases x.unread?_read d clocks buffer reply since with hnone | hsome
    · simp [hleft] at hnone
    · rw [hleft, Option.some.injEq, hfeed] at hsome
      rw [Connection.unread?, receiveHalf_of_reading? hreading, taken, hreading, hsome]
      exact congrArg some hparts
  cases hwaiting : x.phase.isWaiting with
  | true =>
    have hreads := reads_poll hwaiting c clocks
    cases hreading : x.reading? c clocks with
    | some start =>
      rw [hreading] at hreads
      obtain ⟨d, since, hfeed, heq⟩ := hreads
      rw [heq] at h
      exact hread hreading hfeed h
    | none =>
      rw [hreading] at hreads
      obtain ⟨-, -, -, hnone | hsame⟩ := hreads
      · simp [h] at hnone
      · rw [taken, hreading, ← hsame, h]
        rfl
  | false =>
    obtain ⟨command, phase, channel⟩ := x
    cases phase with
    | ready | awaitingSend | sending | awaitingTurn | awaitingReceive => simp [Phase.isWaiting] at hwaiting
    | reading reply since =>
      cases hhalf : c.receiveHalf with
      | none => simp [poll, Connection.unread?, hhalf] at h
      | some buffer =>
        simp only [poll, hhalf] at h
        refine hread ?_ rfl h
        rw [reading?, hhalf]
        rfl
    | finished | dropped =>
      rw [taken_of_isOver rfl]
      exact h

/-! ### What is told -/

/-- A retrieval of several keys that has taken these bytes, and handed over these items. -/
inductive Tells (seen : Bytes) (handed : List Item) (x : Exchange) : Prop where
  /-- It has not begun to read. -/
  | waiting (starts : Reply.start x.command = .many 0 .start) (phase : x.phase.isWaiting = true) (seen_eq : seen = [])
    (handed_eq : handed = [])
  /-- It reads. -/
  | reading {reply : Reply} {since : Option Duration} (phase : x.phase = .reading reply since)
    (told : Reply.Told seen handed reply)
  /-- It has ended, and the result is one that the end of the bytes allows. -/
  | ended {result : Except ClientError Outcome} {tail : Tail} (phase : x.phase = .finished result)
    (decoded : ItemState.decode .start seen = (handed, tail)) (allows : tail.Allows result)

/-- What was handed over is told. -/
theorem Tells.prefix_decoded {seen : Bytes} {handed : List Item} {x : Exchange} (h : x.Tells seen handed) :
    handed <+: (ItemState.decode .start seen).1 := by
  cases h with
  | waiting starts phase seen_eq handed_eq =>
    rw [handed_eq]
    exact List.nil_prefix
  | reading phase told =>
    cases told with
    | block decoded => simp [decoded]
    | room decoded => simp [decoded]
  | ended phase decoded => simp [decoded]

/-- When it has ended, everything that is told was handed over. -/
theorem Tells.of_result? {seen : Bytes} {handed : List Item} {x : Exchange} (h : x.Tells seen handed)
    {result : Except ClientError Outcome} (hresult : x.result? = some result) :
    (ItemState.decode .start seen).1 = handed ∧ (ItemState.decode .start seen).2.Allows result := by
  cases h with
  | waiting starts phase =>
    rw [result?] at hresult
    split at hresult
    · next hphase => simp [hphase, Phase.isWaiting] at phase
    · simp at hresult
  | reading phase =>
    rw [result?, phase] at hresult
    simp at hresult
  | ended phase decoded allows =>
    rw [result?, phase, Option.some.injEq] at hresult
    rw [decoded, ← hresult]
    exact ⟨rfl, allows⟩

/-- An exchange waits for its connection: before its reply for other exchanges or for room on the stream, and in it for
bytes, in time and of a stream that is quiet and has not ended. -/
def Awaits (x : Exchange) (c : Connection) (elapsed : Duration) : Prop :=
  match x.phase with
  | .reading reply since => reply.isOffering = false ∧ c.receiveHalf = some [] ∧ c.socket.feed = ⟨[], false⟩ ∧
      ∃ began, since = some began ∧ Deadline.hasPassed c.receiveLimit began elapsed = false
  | .finished _ => False
  | .dropped => False
  | _ => True

/-- Where a retrieval stops: it waits for its connection, or has ended, or an item waits for room. -/
def Stops (x : Exchange) (c : Connection) (elapsed : Duration) : Prop :=
  x.Awaits c elapsed ∨ x.result?.isSome = true ∨
    x.channel.consuming = true ∧ x.channel.capacity ≤ x.channel.queue.length

variable {x : Exchange} {seen : Bytes} {handed : List Item} {reply : Reply}

/-- A retrieval of several keys that has come to this place with a connection, after it had handed over some items. -/
def Comes (channel : ItemChannel) (handed : List Item) (seen : Bytes) (elapsed : Duration) (result : Exchange × Connection) :
    Prop :=
  ∃ new, result.1.Tells seen (handed ++ new) ∧ Reply.Handed channel result.1.channel new ∧
    result.1.Stops result.2 elapsed

/-- A reply that is not read to its end breaks off where the exchange stands in it. -/
theorem comes_of_runs {state : Reply.State} (h : Reply.Runs x.channel handed seen state) (cause : ClientError)
    (c : Connection) (elapsed : Duration) : Comes x.channel handed seen elapsed
      (failReading { x with channel := state.2 } c cause) := by
  obtain ⟨_, channel⟩ := state
  obtain ⟨new, htold, hhanded, hfree⟩ := h
  cases htold with
  | room decoded => simp [Reply.isOffering] at hfree
  | block decoded => exact ⟨new, .ended rfl decoded trivial, hhanded, .inr (.inl rfl)⟩

theorem comes_read (h : Reply.Told seen handed reply) (c : Connection) (clocks : Clocks) (buffer : Bytes)
    (since : Option Duration) {taken : Bytes} (htaken : taken = Reader.taken ⟨buffer, c.socket.feed, none, 0⟩
      ((Reader.mk buffer c.socket.feed none 0).readReply x.command (reply, x.channel)).2) :
    Comes x.channel handed (seen ++ taken) clocks.elapsed (x.read c clocks buffer reply since) := by
  generalize hreader : Reader.mk buffer c.socket.feed none 0 = reader at htaken
  obtain ⟨bytes, hbytes, hlead⟩ := reader.leads_readReply x.command h x.channel
  have hquiet : ∀ state, (reader.readReply x.command (reply, x.channel)).1 = .waiting state →
      (reader.readReply x.command (reply, x.channel)).2.Quiet :=
    fun state hwaiting => reader.quiet_readReply x.command (reply, x.channel) hwaiting
  rw [Reader.taken_eq hbytes] at htaken
  rw [← htaken] at hlead
  rw [read, hreader]
  generalize reader.readReply x.command (reply, x.channel) = reading at hlead hquiet ⊢
  obtain ⟨progress, r⟩ := reading
  cases progress with
  | done answer =>
    obtain ⟨found, channel⟩ := answer
    obtain ⟨new, tail, hdecoded, hallows, hhanded⟩ := hlead
    cases found with
    | ok outcome => exact ⟨new, .ended rfl hdecoded hallows, hhanded, .inr (.inl rfl)⟩
    | error cause => exact ⟨new, .ended rfl hdecoded hallows, hhanded, .inr (.inl rfl)⟩
  | held state =>
    obtain ⟨new, htold, hhanded, -, hconsuming, hfull⟩ := hlead
    exact ⟨new, .reading rfl htold, hhanded, .inr (.inr ⟨hconsuming, hfull⟩)⟩
  | waiting state =>
    dsimp only
    generalize (if ¬c.socket.feed.events.isEmpty = true then clocks.elapsed else since.getD clocks.elapsed) = began
    by_cases hlate : Deadline.hasPassed c.receiveLimit began clocks.elapsed = true
    · rw [if_pos hlate]
      exact comes_of_runs hlead _ _ _
    · rw [if_neg hlate]
      obtain ⟨new, htold, hhanded, hfree⟩ := hlead
      obtain ⟨hbuffer, hfeed⟩ := hquiet state rfl
      refine ⟨new, .reading rfl htold, hhanded, .inl ⟨hfree, ?_, hfeed, _, rfl, ?_⟩⟩
      · exact congrArg some hbuffer
      · exact Bool.eq_false_iff.mpr hlate
  | ended state => exact comes_of_runs hlead _ _ _
  | failed state cause => exact comes_of_runs hlead _ _ _
  | timedOut state => exact comes_of_runs hlead _ _ _

/-- **A poll** hands over what the bytes tell that it takes. Who reads has the receive half. -/
theorem comes_poll (h : x.Tells seen handed) {c : Connection}
    (hhalf : x.phase.isReading = true → c.receiveHalf.isSome = true) (clocks : Clocks) :
    Comes x.channel handed (seen ++ x.taken c clocks) clocks.elapsed (x.poll c clocks) := by
  cases h with
  | waiting starts phase seen_eq handed_eq =>
    have hreads := reads_poll phase c clocks
    have hbegins : x.reading? c clocks = x.begins? c (x.arrives c clocks) := by
      rw [reading?]
      split
      · next hreading => simp [hreading, Phase.isWaiting] at phase
      · rfl
    cases hreading : x.reading? c clocks with
    | some start =>
      obtain ⟨buffer, reply⟩ := start
      rw [hreading] at hreads
      obtain ⟨d, since, hfeed, heq⟩ := hreads
      -- it has arrived at its reply, which begins with the first block
      obtain rfl : reply = .many 0 .start := (begins?_eq_some (hbegins.symm.trans hreading)).2.trans starts
      have htold : Reply.Told seen handed (.many 0 .start) := by
        rw [seen_eq, handed_eq]
        exact Reply.told_start 0
      rw [heq]
      refine comes_read htold d clocks buffer since ?_
      rw [taken, hreading, hfeed]
    | none =>
      rw [hreading] at hreads
      obtain ⟨hcommand, hchannel, hphase, -⟩ := hreads
      have hhanded : Reply.Handed x.channel (x.poll c clocks).1.channel [] := by
        rw [hchannel]
        exact .refl _
      rw [taken, hreading]
      refine ⟨[], ?_, hhanded, ?_⟩
      · rw [List.append_nil]
        rcases hphase with hphase | ⟨cause, hphase⟩
        · rw [List.append_nil]
          exact .waiting (hcommand ▸ starts) hphase seen_eq handed_eq
        · have hdecoded : ItemState.decode .start seen = (handed ++ [], .cut .start) := by
            rw [seen_eq, handed_eq]
            rfl
          exact .ended hphase hdecoded trivial
      · rcases hphase with hphase | ⟨cause, hphase⟩
        · refine .inl ?_
          rw [Awaits]
          cases hstate : (x.poll c clocks).1.phase <;> simp_all [Phase.isWaiting]
        · refine .inr (.inl ?_)
          rw [result?, hphase]
          rfl
  | @reading reply since phase told =>
    obtain ⟨command, _, channel⟩ := x
    obtain rfl := phase
    obtain ⟨buffer, hbuffer⟩ := Option.isSome_iff_exists.mp (hhalf rfl)
    have hreading : reading? ⟨command, .reading reply since, channel⟩ c clocks = some (buffer, reply) := by
      rw [reading?, hbuffer]
      rfl
    have heq : poll ⟨command, .reading reply since, channel⟩ c clocks =
        read ⟨command, .reading reply since, channel⟩ c clocks buffer reply since := by
      simp only [poll, hbuffer]
    rw [heq]
    refine comes_read told c clocks buffer since ?_
    rw [taken, hreading]
  | @ended result tail phase decoded allows =>
    obtain ⟨command, _, channel⟩ := x
    obtain rfl := phase
    rw [taken_of_isOver rfl, List.append_nil]
    refine ⟨[], ?_, .refl _, .inr (.inl rfl)⟩
    rw [List.append_nil]
    exact .ended rfl decoded allows

end Exchange

end MemcachedClient
