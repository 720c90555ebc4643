import MemcachedClient.Proofs.Connection.Answering

/-!
# Replies come to their callers

Any number of exchanges on one connection, in any interleaving of their polls, their drops, what the
network does and a close: the requests stand on the stream in the order in which the exchanges joined
the turns, and an exchange that comes to an outcome comes to the one that the reply to its own request
means (`Transcript.answered_in_order`). Nothing is assumed of the network. Of the server it is assumed
that it answers the complete requests in their order, each with one reply to its command
(`Transcript.Served`).
-/

namespace MemcachedClient.Connection.Transcript

open Response

/-- **An outcome is what the reply to the exchange's own request means**, after any run in which the
server answers in order. The exchanges that joined the turns wrote their requests in that order, each
in full but for the last one and by the time of day at which it joined; every exchange joined once, so
the number of its request is its own; and if it has an outcome, then the outcome, with the items that it
handed to its channel, is what the reply with that number means. -/
theorem answered_in_order (dial : Dial) (receiveLimit : Option Duration) (clocks : Clocks)
    (events : List Event) (reply : ℕ → Bytes)
    (hserved : ((start dial receiveLimit clocks).run events).Served reply) :
    let t := (start dial receiveLimit clocks).run events
    t.session = (Session.start dial receiveLimit clocks).run events ∧
    t.senders.Distinct ∧
    t.session.connection.socket.sent <+: requests t.asked ∧
    requests t.asked.dropLast <+: t.session.connection.socket.sent ∧
    ∀ name outcome, t.session.exchanged? name = some (.ok outcome) →
      ∃ i x, t.session.exchanges.get? name = some x ∧ t.senders[i]? = some (name, x.command) ∧
        Reply.Answers x.command (reply i) outcome (t.handed name) x.channel.consuming := by
  intro t
  obtain ⟨hsends, hfollows⟩ := follows_run reply dial receiveLimit clocks events
  obtain ⟨done, rest, h⟩ := hfollows hserved
  refine ⟨session_run _ events, h.distinct, hsends.written, hsends.before, fun name outcome hok => ?_⟩
  obtain ⟨x, hget, hresult⟩ := Option.bind_eq_some_iff.mp hok
  have hphase : x.phase = .finished (.ok outcome) := by
    cases hphase : x.phase <;> simp_all [Exchange.result?]
  obtain ⟨i, hi, hanswers⟩ := (h.inPlace name x hget).answered outcome hphase
  exact ⟨i, x, hget, hi, hanswers⟩

/-- Two exchanges: the second one writes its request, at another time of day, before the first one is answered, and is
polled again before the first one has read. -/
def twoExchanges : List Event :=
  [.startOpening "o" none, .pollOpening "o", .startExchange "a" (.touch "x" (.after (.ofSecs 3000000))) 1,
    .startExchange "b" (.touch "y" (.after (.ofSecs 3000000))) 1, .pollExchange "a",
    .advance (.ofMillis 1) (.ofParts 5 0), .pollExchange "b",
    .network (.arrive (Bytes.ofText "TOUCHED" ++ Bytes.crlf ++ Bytes.ofText "NOT_")),
    .pollExchange "b", .pollExchange "a",
    .network (.arrive (Bytes.ofText "FOUND" ++ Bytes.crlf)), .pollExchange "b"]

/-- The replies to them. -/
def twoReplies : ℕ → Bytes
  | 0 => Bytes.ofText "TOUCHED" ++ Bytes.crlf
  | _ => Bytes.ofText "NOT_FOUND" ++ Bytes.crlf

theorem served_twoExchanges :
    ((start .established none ⟨0, ⟨0⟩⟩).run twoExchanges).Served twoReplies where
  framed i name command hi _ := by
    rw [show ((start .established none ⟨0, ⟨0⟩⟩).run twoExchanges).senders =
      [("a", .touch "x" (.after (.ofSecs 3000000))), ("b", .touch "y" (.after (.ofSecs 3000000)))] by
        decide +kernel] at hi
    rcases i with _ | _ | i
    · obtain ⟨rfl, rfl⟩ := Prod.mk.inj (Option.some.inj hi)
      exact Reply.framed_of_line rfl (by decide)
    · obtain ⟨rfl, rfl⟩ := Prod.mk.inj (Option.some.inj hi)
      exact Reply.framed_of_line rfl (by decide)
    · simp at hi
  stream := ⟨2, by decide +kernel⟩

/-- The second of two exchanges gets the second reply, and each request was made at its own time of day. -/
theorem second_answered_in_order :
    let t := (start .established none ⟨0, ⟨0⟩⟩).run twoExchanges
    t.session.connection.socket.sent = Bytes.ofText "touch x 3000000\r\ntouch y 3000005\r\n" ∧
      t.Served twoReplies ∧ t.session.exchanged? "b" = some (.ok (.changed false)) ∧
      ∃ i x, t.session.exchanges.get? "b" = some x ∧ t.senders[i]? = some ("b", x.command) ∧
        Reply.Answers x.command (twoReplies i) (.changed false) (t.handed "b") x.channel.consuming :=
  ⟨by decide +kernel, served_twoExchanges, rfl,
    (answered_in_order .established none ⟨0, ⟨0⟩⟩ twoExchanges twoReplies
      served_twoExchanges).2.2.2.2 "b" (.changed false) rfl⟩

end MemcachedClient.Connection.Transcript
