import MemcachedClient.Proofs.Connection.Begun
import MemcachedClient.Proofs.Response.Producing

/-!
# What lasts on a connection

Whatever happens on a connection, an exchange that was started is there for good (`Session.has_step`), and an opening
that has ended keeps its result (`Session.opened?_step`). The channel of an exchange has its producer, and no error in
it, until the producer offers something itself or leaves (`Session.Produces.step`): to read the reply, to fail or to be
dropped does not end it.
-/

namespace MemcachedClient

open Response

namespace Exchange

variable {x : Exchange} {clocks : Clocks}

theorem flowing_read (h : x.channel.Flowing) (c : Connection) (clocks : Clocks) (buffer : Bytes)
    (reply : Response.Reply) (since : Option Duration) : (x.read c clocks buffer reply since).1.channel.Flowing := by
  have hkeeps := Reader.flowing_readReply ⟨buffer, c.socket.feed, none, 0⟩ x.command
    (show (reply, x.channel).2.Flowing from h)
  rw [read]
  generalize (Reader.mk buffer c.socket.feed none 0).readReply x.command (reply, x.channel) = result at hkeeps
  obtain ⟨progress, r⟩ := result
  cases progress with
  | done answer => obtain ⟨result | result, channel⟩ := answer <;> exact hkeeps
  | waiting state =>
    dsimp only
    generalize (if ¬ c.socket.feed.events.isEmpty = true then clocks.elapsed else since.getD clocks.elapsed) = since'
    split <;> exact hkeeps
  | held | ended | failed | timedOut => exact hkeeps

theorem Hop.flowing {a b : Exchange × Connection} {joins : ℕ} {new : List Item} (hop : Hop clocks a joins new b)
    (h : a.1.channel.Flowing) : b.1.channel.Flowing := by
  cases hop with
  | read phase half reads =>
    rw [← reads]
    exact flowing_read h ..
  | _ => exact h

theorem Hops.flowing {a b : Exchange × Connection} {joins : ℕ} {new : List Item} (hops : Hops clocks a joins new b)
    (h : a.1.channel.Flowing) : b.1.channel.Flowing := by
  induction hops with
  | refl => exact h
  | head hop _ ih => exact ih (hop.flowing h)

theorem flowing_poll (h : x.channel.Flowing) (c : Connection) (clocks : Clocks) :
    (x.poll c clocks).1.channel.Flowing :=
  (x.hops_poll c clocks).flowing h

theorem flowing_drop (h : x.channel.Flowing) (c : Connection) : (x.drop c).1.channel.Flowing := by
  rw [drop]
  split <;> exact h

end Exchange

/-- The name of the exchange whose producer offers an element itself, or leaves. -/
def Connection.Event.producer? : Connection.Event → Option String
  | .channel name .finish => some name
  | .channel name (.offer _) => some name
  | _ => none

/-- What the consumer does takes no producer away and puts nothing in. -/
theorem Response.ItemChannel.Flowing.handle {channel : ItemChannel} (h : channel.Flowing)
    {event : Channel.Event (Except ClientError Item)} (hfinish : event ≠ .finish)
    (hoffer : ∀ element, event ≠ .offer element) : ItemChannel.Flowing (channel.handle event) := by
  cases event with
  | finish => exact absurd rfl hfinish
  | offer element => exact absurd rfl (hoffer element)
  | receive =>
    have hitems := h.items
    rw [Channel.handle, Channel.receive]
    split
    · next element queue hqueue =>
      rw [hqueue] at hitems
      exact ⟨h.producing, fun other hmem => hitems other (List.mem_cons_of_mem _ hmem)⟩
    · exact h
  | drain | abandon => exact ⟨h.producing, fun element hmem => by simp [Channel.handle, Channel.abandon] at hmem⟩

namespace Connection.Session

variable {s : Session} {name : String}

/-- The channel of an exchange under this name has its producer, and no error in it. -/
def Produces (s : Session) (name : String) : Prop := ∀ x, s.exchanges.get? name = some x → x.channel.Flowing

/-- Changing exchanges takes none away. -/
theorem has_updateExchange (h : s.exchanges.has name = true) (other : String)
    (f : Exchange → Connection → Exchange × Connection) : (s.updateExchange other f).exchanges.has name = true := by
  rw [updateExchange]
  split
  · exact h
  · exact Table.has_put h other _

/-- An exchange that was started is there for good. -/
theorem has_step (h : s.exchanges.has name = true) (event : Event) : (s.step event).exchanges.has name = true := by
  cases event with
  | startExchange other command capacity =>
    rw [step]
    split
    · exact h
    · exact Table.has_put h other _
  | pollExchange other | dropExchange other | channel other event => exact has_updateExchange h other _
  | startOpening other limit =>
    rw [step]
    split <;> exact h
  | pollOpening other | dropOpening other =>
    rw [step, updateOpening]
    split <;> exact h
  | close | advance | network => exact h

theorem has_run (h : s.exchanges.has name = true) (events : List Event) : (s.run events).exchanges.has name = true := by
  induction events generalizing s with
  | nil => exact h
  | cons event events ih => exact ih (has_step h event)

/-- Changing openings keeps the results of those that have ended, if the changes do. -/
theorem opened?_updateOpening {result : Except ClientError Unit} (h : s.opened? name = some result) (other : String)
    {f : Opening → Connection → Opening × Connection}
    (hf : ∀ o c result, o.result? = some result → (f o c).1.result? = some result) :
    (s.updateOpening other f).opened? name = some result := by
  rw [updateOpening]
  split
  · exact h
  · next o hget =>
    rw [opened?, Table.get?_put]
    split
    · next hname =>
      rw [opened?, hname, hget] at h
      exact hf o s.connection result h
    · exact h

/-- An opening that has ended keeps its result. -/
theorem opened?_step {result : Except ClientError Unit} (h : s.opened? name = some result) (event : Event) :
    (s.step event).opened? name = some result := by
  cases event with
  | startOpening other limit =>
    rw [step]
    split
    · exact h
    · next hnew =>
      have hne : name ≠ other := by
        rintro rfl
        rw [Bool.not_eq_true, Table.has_eq_false_iff] at hnew
        rw [opened?, hnew] at h
        simp at h
      rw [opened?, Table.get?_put_of_ne _ _ hne]
      exact h
  | pollOpening other =>
    exact opened?_updateOpening h other fun o c result hresult => by rw [Opening.poll_of_result? hresult, hresult]
  | dropOpening other =>
    exact opened?_updateOpening h other fun o c result hresult => by rw [Opening.drop_of_result? hresult, hresult]
  | startExchange other command capacity =>
    rw [step]
    split <;> exact h
  | pollExchange other | dropExchange other | channel other event =>
    rw [step, updateExchange]
    split <;> exact h
  | close | advance | network => exact h

theorem opened?_run {result : Except ClientError Unit} (h : s.opened? name = some result) (events : List Event) :
    (s.run events).opened? name = some result := by
  induction events generalizing s with
  | nil => exact h
  | cons event events ih => exact ih (opened?_step h event)

theorem Produces.updateExchange (h : s.Produces name) (other : String)
    {f : Exchange → Connection → Exchange × Connection}
    (hf : other = name → ∀ x c, x.channel.Flowing → (f x c).1.channel.Flowing) :
    (s.updateExchange other f).Produces name := by
  intro x hget
  rw [Session.updateExchange] at hget
  split at hget
  · exact h x hget
  · next y hy =>
    rcases Table.eq_or_of_get?_put hget with ⟨hname, rfl⟩ | ⟨-, hget⟩
    · exact hf hname.symm y s.connection (h y (hname ▸ hy))
    · exact h x hget

/-- A channel has its producer, and no error in it, until the producer offers something itself or leaves. -/
theorem Produces.step (h : s.Produces name) {event : Event} (hevent : event.producer? ≠ some name) :
    (s.step event).Produces name := by
  cases event with
  | startExchange other command capacity =>
    rw [Session.step]
    split
    · exact h
    · intro x hget
      rcases Table.eq_or_of_get?_put hget with ⟨-, rfl⟩ | ⟨-, hget⟩
      · exact ⟨rfl, fun element hmem => by simp [Exchange.start, Channel.ofCapacity] at hmem⟩
      · exact h x hget
  | pollExchange other => exact h.updateExchange other fun _ x c hx => Exchange.flowing_poll hx c s.clocks
  | dropExchange other => exact h.updateExchange other fun _ x c hx => Exchange.flowing_drop hx c
  | channel other event =>
    refine h.updateExchange other fun hname x c hx => hx.handle ?_ ?_
    · rintro rfl
      exact hevent (congrArg some hname)
    · rintro element rfl
      exact hevent (congrArg some hname)
  | startOpening other limit =>
    rw [Session.step]
    split <;> exact h
  | pollOpening other | dropOpening other =>
    rw [Session.step, updateOpening]
    split <;> exact h
  | close | advance | network => exact h

theorem Produces.run (h : s.Produces name) {events : List Event} (hevents : ∀ e ∈ events, e.producer? ≠ some name) :
    (s.run events).Produces name := by
  induction events generalizing s with
  | nil => exact h
  | cons event events ih =>
    rw [List.forall_mem_cons] at hevents
    exact ih (h.step hevents.1) hevents.2

end Connection.Session

end MemcachedClient
