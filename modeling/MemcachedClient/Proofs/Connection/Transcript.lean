import MemcachedClient.Connection.Session
import MemcachedClient.Proofs.Connection.Hop
import MemcachedClient.Proofs.Connection.Opening
import MemcachedClient.Proofs.Table
import Mathlib.Logic.Function.Basic

/-!
# Sessions with their past

Which reply belongs to which exchange is not in the state of a session: it is the past that says in
which order the exchanges joined the turns, what has arrived from the server, and which items an
exchange has put into its channel. Nor does the state say at which time of day a request was made, which its
bytes may depend on. A `Transcript` is a session together with that past. It takes the
same steps (`Transcript.session_run`), and since a poll is a chain of hops, a property is kept by every
event if it is kept by every hop of an exchange, and by whatever else happens (`Transcript.Kept`).

The server is taken to answer the requests in the order in which they stand on the stream, each with
one reply (`Transcript.Served`). Nothing is said of when the bytes of its replies arrive, how they are
cut, or whether all of them do, nor of what it does with a request that is not complete.
-/

namespace MemcachedClient

open Response

namespace Socket

/-- The bytes that an event of the network brings. -/
def arrived (s : Socket) : NetworkEvent → Bytes
  | .arrive bytes => if s.dial = .established ∧ ¬ s.feed.ended then bytes else []
  | _ => []

theorem bytes_handle (s : Socket) (event : NetworkEvent) :
    (s.handle event).feed.bytes = s.feed.bytes ++ s.arrived event := by
  cases event with
  | arrive bytes =>
    rw [handle, arrived]
    by_cases h : s.dial = .established ∧ ¬ s.feed.ended
    · by_cases hnil : bytes = []
      · rw [if_neg (by simp [hnil]), if_pos h, hnil, List.append_nil]
      · rw [if_pos ⟨h.1, h.2, hnil⟩, if_pos h]
        simp [Feed.arrive, Feed.bytes, FeedEvent.bytes]
    · rw [if_neg fun hall => h ⟨hall.1, hall.2.1⟩, if_neg h, List.append_nil]
  | reset =>
    simp only [handle, arrived, List.append_nil]
    split
    · simp [Feed.bytes, FeedEvent.bytes]
    · rfl
  | establish =>
    simp only [handle, arrived, List.append_nil]
    split <;> rfl
  | refuse cause =>
    simp only [handle, arrived, List.append_nil]
    split <;> rfl
  | finish =>
    simp only [handle, arrived, List.append_nil]
    split <;> rfl
  | makeRoom room => simp only [handle, arrived, List.append_nil]

/-- Writing takes nothing from what arrives. -/
theorem feed_of_wrote {s after : Socket} {bytes rest : Bytes}
    (h : s.write bytes = .wrote rest after) : after.feed = s.feed := by
  simp only [write] at h
  split at h
  · simp at h
  · split at h <;>
    · rw [Written.wrote.injEq] at h
      rw [← h.2]

/-- What is written is added to what was written before. -/
theorem sent_prefix_of_wrote {s after : Socket} {bytes rest : Bytes}
    (h : s.write bytes = .wrote rest after) : s.sent <+: after.sent := by
  simp only [write] at h
  split at h
  · simp at h
  · split at h <;>
    · rw [Written.wrote.injEq] at h
      rw [← h.2]
      exact List.prefix_append _ _

/-- What the network does to a stream does not change what was written. -/
theorem sent_handle (s : Socket) (event : NetworkEvent) : (s.handle event).sent = s.sent := by
  cases event <;> simp only [handle] <;> split <;> rfl

end Socket

namespace Connection

/-- A request, made when an exchange joined the turns. -/
structure Request where
  /-- The command. -/
  command : Command
  /-- The time of day at which it was made. -/
  moment : Instant

/-- The bytes of a request. -/
def Request.bytes (request : Request) : Bytes := request.command.request request.moment

/-- A session with its past. -/
structure Transcript where
  /-- The session. -/
  session : Session
  /-- The requests of the exchanges that joined the turns, in the order of joining. -/
  asked : Table Request
  /-- The bytes that arrived. -/
  received : Bytes
  /-- The items that an exchange put into its channel. -/
  handed : String → List Item

namespace Transcript

/-- A connection without calls. -/
def start (dial : Dial) (receiveLimit : Option Duration) (clocks : Clocks) : Transcript :=
  ⟨.start dial receiveLimit clocks, [], [], fun _ => []⟩

/-- The exchanges that joined the turns, in the order of joining, with their commands. -/
def senders (t : Transcript) : Table Command := t.asked.map fun entry => (entry.1, entry.2.command)

/-- Puts an exchange under its name together with the connection; it has joined the turns `joins`
times, and put some new items into its channel. -/
def put (t : Transcript) (name : String) (x : Exchange) (c : Connection) (joins : ℕ)
    (new : List Item) : Transcript where
  session := { t.session with connection := c, exchanges := t.session.exchanges.put name x }
  asked := t.asked ++ List.replicate joins (name, ⟨x.command, t.session.clocks.wall⟩)
  received := t.received
  handed := Function.update t.handed name (t.handed name ++ new)

/-- One event. -/
def step (t : Transcript) : Event → Transcript
  | .pollExchange name =>
    match t.session.exchanges.get? name with
    | none => t
    | some x =>
      let (after, connection) := x.poll t.session.connection t.session.clocks
      t.put name after connection (x.joins t.session.connection).toNat
        (Exchange.added x.channel after.channel)
  | .network event =>
    { t with
      session := t.session.step (.network event)
      received := t.received ++ t.session.connection.socket.arrived event }
  | event => { t with session := t.session.step event }

/-- The transcript after some events. -/
def run (t : Transcript) (events : List Event) : Transcript := events.foldl step t

@[simp] theorem senders_start (dial : Dial) (receiveLimit : Option Duration) (clocks : Clocks) :
    (start dial receiveLimit clocks).senders = [] := rfl

variable {t : Transcript} {name : String} {x : Exchange}

section put

variable (t : Transcript) (name : String) (x : Exchange) (c : Connection) (joins : ℕ)
  (new : List Item)

@[simp] theorem connection_put : (t.put name x c joins new).session.connection = c := rfl

@[simp] theorem exchanges_put :
    (t.put name x c joins new).session.exchanges = t.session.exchanges.put name x := rfl

@[simp] theorem received_put : (t.put name x c joins new).received = t.received := rfl

theorem asked_put : (t.put name x c joins new).asked =
    t.asked ++ List.replicate joins (name, ⟨x.command, t.session.clocks.wall⟩) := rfl

@[simp] theorem asked_put_zero : (t.put name x c 0 new).asked = t.asked := List.append_nil _

theorem senders_put : (t.put name x c joins new).senders =
    t.senders ++ List.replicate joins (name, x.command) := by
  rw [senders, asked_put, List.map_append, List.map_replicate]
  rfl

@[simp] theorem senders_put_zero : (t.put name x c 0 new).senders = t.senders := by
  rw [senders, asked_put_zero]
  rfl

@[simp] theorem handed_put_self : (t.put name x c joins new).handed name = t.handed name ++ new :=
  Function.update_self _ _ _

theorem handed_put_of_ne {other : String} (h : other ≠ name) :
    (t.put name x c joins new).handed other = t.handed other :=
  Function.update_of_ne h _ _

end put

theorem session_step (t : Transcript) (event : Event) :
    (t.step event).session = t.session.step event := by
  cases event with
  | pollExchange name =>
    simp only [step, Session.step, Session.updateExchange]
    cases t.session.exchanges.get? name <;> rfl
  | _ => rfl

/-- A transcript is a record: the session goes its own way. -/
theorem session_run (t : Transcript) (events : List Event) :
    (t.run events).session = t.session.run events := by
  induction events generalizing t with
  | nil => rfl
  | cons event events ih => exact (ih _).trans (by rw [session_step]; rfl)

/-- Changing an exchange together with the connection is putting it back. -/
theorem update_eq_put (hget : t.session.exchanges.get? name = some x)
    (f : Exchange → Connection → Exchange × Connection) :
    { t with session := t.session.updateExchange name f } =
      t.put name (f x t.session.connection).1 (f x t.session.connection).2 0 [] := by
  rw [Session.updateExchange, hget, put, List.replicate_zero, List.append_nil, List.append_nil,
    Function.update_eq_self]

/-- Where there is no exchange, none is changed. -/
theorem update_eq_self (hget : t.session.exchanges.get? name = none)
    (f : Exchange → Connection → Exchange × Connection) :
    { t with session := t.session.updateExchange name f } = t := by
  rw [Session.updateExchange, hget]

/-! ### Hops -/

theorem put_self (hget : t.session.exchanges.get? name = some x) :
    t.put name x t.session.connection 0 [] = t := by
  rw [put, Table.put_of_get?_eq_some hget, List.replicate_zero, List.append_nil, List.append_nil,
    Function.update_eq_self]

theorem put_put (t : Transcript) (name : String) {x after : Exchange} (c c' : Connection)
    (joins more : ℕ) (new rest : List Item) (hcommand : after.command = x.command) :
    (t.put name x c joins new).put name after c' more rest =
      t.put name after c' (joins + more) (new ++ rest) := by
  simp only [put, Table.put_put_self, Function.update_self, Function.update_idem, hcommand,
    List.append_assoc, List.replicate_append_replicate]

/-- A property that every hop of an exchange keeps, and everything else that happens in a session. -/
structure Kept (P : Transcript → Prop) : Prop where
  /-- An exchange hops. -/
  hop : ∀ {t : Transcript} {name : String} {x after : Exchange} {c : Connection} {joins : ℕ}
    {new : List Item}, P t → t.session.exchanges.get? name = some x →
    Exchange.Hop t.session.clocks (x, t.session.connection) joins new (after, c) →
    P (t.put name after c joins new)
  /-- An exchange is started. -/
  start : ∀ {t : Transcript} {name : String} (command : Command) (capacity : ℕ), P t →
    t.session.exchanges.get? name = none →
    P (t.put name (.start command capacity) t.session.connection 0 [])
  /-- An exchange is dropped. -/
  drop : ∀ {t : Transcript} {name : String} {x : Exchange}, P t →
    t.session.exchanges.get? name = some x →
    P (t.put name (x.drop t.session.connection).1 (x.drop t.session.connection).2 0 [])
  /-- Something happens to the channel of an exchange. -/
  channel : ∀ {t : Transcript} {name : String} {x : Exchange}
    (event : Channel.Event (Except ClientError Item)), P t →
    t.session.exchanges.get? name = some x →
    P (t.put name { x with channel := x.channel.handle event } t.session.connection 0 [])
  /-- An opening runs on. -/
  opening : ∀ {t : Transcript} {c : Connection} (openings : Table Opening), P t →
    Opening.Changes t.session.connection c →
    P { t with session := { t.session with connection := c, openings } }
  /-- An opening is started or dropped. -/
  openings : ∀ {t : Transcript} (openings : Table Opening), P t →
    P { t with session := { t.session with openings } }
  /-- The connection is closed. -/
  close : ∀ {t : Transcript}, P t → P (t.step .close)
  /-- Time passes. -/
  advance : ∀ {t : Transcript} (time : Duration) (wall : Instant), P t →
    P (t.step (.advance time wall))
  /-- The network does something. -/
  network : ∀ {t : Transcript} (event : NetworkEvent), P t → P (t.step (.network event))

namespace Kept

variable {P : Transcript → Prop}

theorem hops (hP : Kept P) {a b : Exchange × Connection} {joins : ℕ} {new : List Item}
    (hhops : Exchange.Hops t.session.clocks a joins new b)
    (hget : t.session.exchanges.get? name = some a.1) (hc : t.session.connection = a.2) (h : P t) :
    P (t.put name b.1 b.2 joins new) := by
  generalize hclocks : t.session.clocks = clocks at hhops
  induction hhops generalizing t with
  | refl a => rwa [← hc, put_self hget]
  | @head a b d joins more new rest hop hops ih =>
    obtain ⟨x, c⟩ := a
    obtain ⟨after, c'⟩ := b
    subst hc hclocks
    have hput := ih (t := t.put name after c' joins new) (Table.get?_put_self _ _ _) rfl
      (hP.hop h hget hop) rfl
    rwa [put_put _ _ _ _ _ _ _ _ (Exchange.Hops.command hops)] at hput

/-- **What is kept by every hop, and by everything else that happens, is kept by every event.** -/
theorem step (hP : Kept P) (h : P t) (event : Event) : P (t.step event) := by
  cases event with
  | pollExchange name =>
    rw [Transcript.step]
    split
    · exact h
    · next x hget => exact hP.hops (Exchange.hops_poll x _ _) hget rfl h
  | startOpening name limit =>
    simp only [Transcript.step, Session.step]
    split
    · exact h
    · exact hP.openings _ h
  | pollOpening name =>
    simp only [Transcript.step, Session.step, Session.updateOpening]
    split
    · exact h
    · next o hget => exact hP.opening _ h (o.changes_poll _ _)
  | dropOpening name =>
    simp only [Transcript.step, Session.step, Session.updateOpening]
    split
    · exact h
    · exact hP.openings _ h
  | startExchange name command capacity =>
    simp only [Transcript.step, Session.step]
    by_cases hhas : t.session.exchanges.has name = true
    · rw [if_pos hhas]
      exact h
    · rw [if_neg hhas]
      rw [Bool.not_eq_true, Table.has_eq_false_iff] at hhas
      have hstart := hP.start command capacity h hhas
      rwa [put, List.replicate_zero, List.append_nil, List.append_nil, Function.update_eq_self]
        at hstart
  | dropExchange name =>
    simp only [Transcript.step, Session.step]
    cases hget : t.session.exchanges.get? name with
    | none => rwa [update_eq_self hget]
    | some x =>
      rw [update_eq_put hget]
      exact hP.drop h hget
  | channel name event =>
    simp only [Transcript.step, Session.step]
    cases hget : t.session.exchanges.get? name with
    | none => rwa [update_eq_self hget]
    | some x =>
      rw [update_eq_put hget]
      exact hP.channel event h hget
  | close => exact hP.close h
  | advance time wall => exact hP.advance time wall h
  | network event => exact hP.network event h

/-- It holds after any events. -/
theorem run (hP : Kept P) (h : P t) (events : List Event) : P (t.run events) := by
  induction events generalizing t with
  | nil => exact h
  | cons event events ih => exact ih (hP.step h event)

end Kept

/-! ### The server -/

/-- The first replies, one after another. -/
def replies (reply : ℕ → Bytes) (count : ℕ) : Bytes := (List.range count).flatMap reply

theorem replies_succ (reply : ℕ → Bytes) (count : ℕ) :
    replies reply (count + 1) = replies reply count ++ reply count := by
  rw [replies, List.range_succ, List.flatMap_append, List.flatMap_singleton]
  rfl

theorem replies_mono (reply : ℕ → Bytes) {count more : ℕ} (h : count ≤ more) :
    replies reply count <+: replies reply more := by
  induction h with
  | refl => exact List.prefix_rfl
  | @step more _ ih =>
    rw [replies_succ]
    exact ih.trans (List.prefix_append _ _)

/-- The bytes of some requests, one after another. -/
def requests (asked : Table Request) : Bytes := asked.flatMap fun entry => entry.2.bytes

theorem requests_append (asked more : Table Request) :
    requests (asked ++ more) = requests asked ++ requests more :=
  List.flatMap_append

/-- The request with this number, and everything before it, is written in full. -/
def Complete (t : Transcript) (i : ℕ) : Prop :=
  requests (t.asked.take (i + 1)) <+: t.session.connection.socket.sent

/-- The server answers the requests in their order, each with one reply to its command: so far
some of the bytes of its replies have arrived. -/
structure Served (t : Transcript) (reply : ℕ → Bytes) : Prop where
  /-- The reply to a complete request is one to its command. -/
  framed : ∀ i name command, t.senders[i]? = some (name, command) → t.Complete i →
    Reply.Framed command (reply i)
  /-- The replies come in order, and nothing else comes. -/
  stream : ∃ count, t.received <+: replies reply count

/-- What the server does to the end of a run, it does all along. -/
theorem Served.mono {t' : Transcript} {reply : ℕ → Bytes} (h : t'.Served reply)
    (hasked : t.asked <+: t'.asked) (hreceived : t.received <+: t'.received)
    (hsent : t.session.connection.socket.sent <+: t'.session.connection.socket.sent) :
    t.Served reply := by
  obtain ⟨count, hstream⟩ := h.stream
  refine ⟨fun i name command hi hcomplete => ?_, count, hreceived.trans hstream⟩
  obtain ⟨hlt, -⟩ := List.getElem?_eq_some_iff.mp hi
  obtain ⟨more, hmore⟩ := hasked
  refine h.framed i name command ?_ ?_
  · rw [senders, ← hmore, List.map_append]
    exact (List.getElem?_append_left hlt).trans hi
  · rw [senders, List.length_map] at hlt
    rw [Complete, ← hmore, List.take_append_of_le_length hlt]
    exact hcomplete.trans hsent

/-- What has arrived and is not read begins with what is left of the reply that is due. -/
theorem Served.unread_within {reply : ℕ → Bytes} (h : t.Served reply) {taken unread left : Bytes}
    {count : ℕ} (hreceived : t.received = taken ++ unread)
    (hleft : taken ++ left = replies reply count) : ∃ more, unread <+: left ++ more := by
  obtain ⟨served, hstream⟩ := h.stream
  obtain ⟨more, hmore⟩ := replies_mono reply (Nat.le_max_right served count)
  refine ⟨more, (List.prefix_append_right_inj taken).mp ?_⟩
  rw [← List.append_assoc, hleft, hmore, ← hreceived]
  exact hstream.trans (replies_mono reply (Nat.le_max_left served count))

end Transcript

end Connection

end MemcachedClient
