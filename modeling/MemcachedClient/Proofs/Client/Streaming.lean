import MemcachedClient.Proofs.Client.Sheltering
import MemcachedClient.Proofs.Client.Standing
import MemcachedClient.Proofs.Connection.Equipping
import MemcachedClient.Proofs.Connection.Taking
import MemcachedClient.Proofs.MultiGet.Drawing

/-!
# Relays and their streams

A call that answers with a stream leaves its exchange to a relay. From then on three things stand under its name: the
exchange, which has handed over the items of the bytes that it has taken; the relay, which puts the error of the exchange
behind them, if it fails, and ends (`Puts`); and the stream, whose consumer draws what was put (`Serves`). What happens
under another name touches none of them (`Serves.of_ne`), and what happens under this name is a step of the relay
(`Serves.pollRelay`) or of the consumer. Before there is a stream, there is no relay and nothing has been taken
(`Pending`). Of its connection a relay takes bytes off the front of what is not read, and no others
(`unread?_pollRelay`).
-/

namespace MemcachedClient

open Connection (Session)
open Pool Response

namespace Connection.Session

/-- Events on other exchanges leave an exchange alone. -/
theorem get?_run_of_ne {name : String} (s : Session) {events : List Event}
    (h : ∀ e ∈ events, e.exchange? ≠ some name) : (s.run events).exchanges.get? name = s.exchanges.get? name := by
  induction events generalizing s with
  | nil => rfl
  | cons event events ih =>
    obtain ⟨hevent, hevents⟩ := List.forall_mem_cons.mp h
    exact (ih (s.step event) hevents).trans (s.get?_step_of_ne hevent)

/-- A poll of an exchange takes bytes off the front of what is not read. -/
theorem unread?_pollExchange {s : Session} {name : String} {x : Exchange} {rest : Bytes}
    (hget : s.exchanges.get? name = some x) (h : (s.step (.pollExchange name)).connection.unread? = some rest) :
    s.connection.unread? = some (x.taken s.connection s.clocks ++ rest) := by
  rw [step, updateExchange_eq_put hget] at h
  exact x.unread?_poll s.connection s.clocks h

/-- Closing gives up what is not read, or leaves it. -/
theorem unread?_run_close (s : Session) (count : ℕ) :
    (s.run (List.replicate count .close)).connection.unread? = none ∨
      (s.run (List.replicate count .close)).connection.unread? = s.connection.unread? := by
  induction count generalizing s with
  | zero => exact .inr rfl
  | succ count ih =>
    have hclose : (s.step .close).connection.unread? = none ∨ _ := s.connection.unread?_close
    rw [List.replicate_succ, run_cons]
    rcases ih (s.step .close) with hnone | hsame
    · exact .inl hnone
    · exact hclose.imp hsame.trans hsame.trans

end Connection.Session

namespace Exchange

variable {x : Exchange} {seen : Bytes} {handed : List Item}

/-- What happens to the channel is not told by the reply. -/
theorem Tells.withChannel (h : x.Tells seen handed) (channel : ItemChannel) : Tells seen handed { x with channel } := by
  cases h with
  | waiting starts phase seen_eq handed_eq => exact .waiting starts phase seen_eq handed_eq
  | reading phase told => exact .reading phase told
  | ended phase decoded allows => exact .ended phase decoded allows

end Exchange

namespace Client

/-- The exchange of a call on a connection. -/
def exchange? (c : Client) (item : ℕ) (name : String) : Option Exchange :=
  c.connections[item]?.bind fun s => s.exchanges.get? name

/-- The bytes that a relay takes in its next step. -/
def takes (c : Client) (name : String) : Bytes :=
  match c.relays.get? name with
  | some (.exchanging item) =>
    match c.connections[item]? with
    | some s =>
      match s.exchanges.get? name with
      | some x => x.taken s.connection s.clocks
      | none => []
    | none => []
  | _ => []

/-- The exchange of a relay waits for its connection. -/
def Awaits (c : Client) (name : String) : Prop :=
  ∃ item s x, c.relays.get? name = some (.exchanging item) ∧ c.connections[item]? = some s ∧
    s.exchanges.get? name = some x ∧ x.Awaits s.connection s.clocks.elapsed

/-- What a stream brings: the items of the reply, and behind them the error, if the retrieval failed. -/
def elements (items : List Item) : Except ClientError Outcome → List (Except ClientError Item)
  | .ok _ => items.map .ok
  | .error cause => items.map .ok ++ [.error cause]

/-- Without an error the items are all of it. -/
theorem elements_of_items {items more : List Item} {result : Except ClientError Outcome}
    (h : elements items result = more.map .ok) : (∃ outcome, result = .ok outcome) ∧ items = more := by
  cases result with
  | ok outcome =>
    refine ⟨⟨outcome, rfl⟩, List.map_injective_iff.mpr ?_ h⟩
    intro item other hsame
    exact Except.ok.inj hsame
  | error cause =>
    have hmem : Except.error cause ∈ more.map (Except.ok : Item → Except ClientError Item) := by
      rw [← h, elements]
      simp
    simp at hmem

/-- An error is that of the command, and stands behind all items. -/
theorem elements_of_error {items more : List Item} {result : Except ClientError Outcome} {cause : ClientError}
    (h : more.map .ok ++ [.error cause] <+: elements items result) : result = .error cause ∧ items = more := by
  cases result with
  | ok outcome =>
    have hmem := h.subset (List.mem_append_right _ (List.mem_singleton_self _))
    simp [elements] at hmem
  | error found =>
    rw [elements] at h
    induction more generalizing items with
    | nil =>
      cases items with
      | nil => simpa [eq_comm] using h
      | cons item items => simp at h
    | cons item more ih =>
      cases items with
      | nil => simp at h
      | cons other items =>
        simp only [List.map_cons, List.cons_append, List.cons_prefix_cons] at h
        obtain ⟨hsame, hrest⟩ := h
        obtain ⟨hresult, hitems⟩ := ih hrest
        exact ⟨hresult, by rw [hitems, Except.ok.inj hsame]⟩

variable {c mid c' : Client} {name : String} {item : ℕ} {x : Exchange}

/-! ### Exchanges of a client -/

theorem exchange?_eq_some_iff : c.exchange? item name = some x ↔
    ∃ s, c.connections[item]? = some s ∧ s.exchanges.get? name = some x := Option.bind_eq_some_iff

theorem exchanged?_of_exchange? (h : c.exchange? item name = some x) : c.exchanged? item name = x.result? := by
  obtain ⟨s, hs, hx⟩ := exchange?_eq_some_iff.mp h
  rw [exchanged?, hs, Option.bind_some, Session.exchanged?, hx]
  rfl

theorem channel?_of_exchange? (h : c.exchange? item name = some x) : c.channel? item name = some x.channel := by
  obtain ⟨s, hs, hx⟩ := exchange?_eq_some_iff.mp h
  rw [channel?, hs, Option.bind_some, Session.channel?, hx]
  rfl

/-- An exchange is where it was, if nothing happened on it. -/
theorem Advances.exchange? {P : ℕ → Connection.Event → Prop} (h : Advances P c c')
    (hP : ∀ e, P item e → e.exchange? ≠ some name) (hx : c.exchange? item name = some x) :
    c'.exchange? item name = some x := by
  obtain ⟨s, hs, hx⟩ := exchange?_eq_some_iff.mp hx
  obtain ⟨new, hnew, hafter⟩ := h.goesOn item s hs
  refine exchange?_eq_some_iff.mpr ⟨_, hafter, ?_⟩
  rw [s.get?_run_of_ne fun e he => hP e (hnew e he)]
  exact hx

theorem exchange?_withPool (pool : Pool) (hx : c.exchange? item name = some x) :
    (c.withPool pool).exchange? item name = some x := by
  have hadvances : Advances (fun _ e => e.exchange? = none) c (c.withPool pool) :=
    .withPool c pool (fun _ _ _ => rfl) (fun _ _ => rfl) fun _ => rfl
  refine hadvances.exchange? (fun e he => ?_) hx
  rw [he]
  simp

theorem exchange?_giveBack (hx : c.exchange? item name = some x) :
    (c.giveBack name).exchange? item name = some x :=
  exchange?_withPool _ hx

theorem exchange?_on_channel (hx : c.exchange? item name = some x) (event : Channel.Event (Except ClientError Item)) :
    (c.on item (.channel name event)).exchange? item name = some { x with channel := x.channel.handle event } := by
  obtain ⟨s, hs, hx⟩ := exchange?_eq_some_iff.mp hx
  refine exchange?_eq_some_iff.mpr ⟨s.step (.channel name event), ?_, ?_⟩
  · rw [connections_on, if_pos rfl, hs]
    rfl
  · rw [Session.step, Session.updateExchange_eq_put hx]
    exact Table.get?_put_self _ _ _

/-! ### Steady clients -/

/-- A steady client: every lease has its holder, every lent connection is there, and who reads has the receive half. -/
structure Steady (k : ℕ) (c : Client) : Prop where
  /-- Every lease has its holder. -/
  holding : c.Holding none
  /-- The pool and the connections fit. -/
  sheltered : Sheltered k c
  /-- Who reads has the receive half. -/
  equipped : ∀ s ∈ c.connections, s.Equipped

/-- **A client stays steady.** -/
theorem Steady.step {k : ℕ} (h : Steady k c) (event : Event) : Steady k (c.step event) where
  holding := holding_step h.holding event
  sheltered := (kept_sheltered k).step h.sheltered h.holding event
  equipped s hs := by
    obtain ⟨first, new, hfirst, -, rfl⟩ := (goes_step c event).exists_before hs
    refine Session.kept_equipped.run ?_ new
    rcases hfirst with hfirst | ⟨dial, limit, clocks, rfl⟩
    · exact h.equipped first hfirst
    · exact Session.equipped_start dial limit clocks

theorem Steady.run {k : ℕ} (h : Steady k c) (events : List Event) : Steady k (c.run events) := by
  induction events generalizing c with
  | nil => exact h
  | cons event events ih => exact ih (h.step event)

theorem steady_ofConfig {config : Config} {dial : Dial} {wall : Instant}
    (hclient : ofConfig config dial wall = .ok c) : Steady config.maxConnections c where
  holding := holding_ofConfig hclient
  sheltered := sheltered_ofConfig hclient
  equipped s hs := by
    rw [(parts_ofConfig hclient).2.1] at hs
    simp at hs

/-! ### What a relay takes -/

/-- On every connection what is not read stays, or is given up. -/
def Untaken (c c' : Client) : Prop :=
  ∀ (i : ℕ) (s : Session), c.connections[i]? = some s → ∃ s', c'.connections[i]? = some s' ∧
    (s'.connection.unread? = none ∨ s'.connection.unread? = s.connection.unread?)

namespace Untaken

theorem refl (c : Client) : Untaken c c := fun _ s hs => ⟨s, hs, .inr rfl⟩

theorem trans (h : Untaken c mid) (h' : Untaken mid c') : Untaken c c' := by
  intro i s hs
  obtain ⟨s', hs', hunread⟩ := h i s hs
  obtain ⟨s'', hs'', hunread'⟩ := h' i s' hs'
  refine ⟨s'', hs'', ?_⟩
  rcases hunread' with hnone | hsame
  · exact .inl hnone
  · exact hunread.imp hsame.trans hsame.trans

theorem on_channel (c : Client) (item : ℕ) (name : String) (event : Channel.Event (Except ClientError Item)) :
    Untaken c (c.on item (.channel name event)) := by
  intro i s hs
  rw [connections_on, hs]
  split
  · refine ⟨s.step (.channel name event), rfl, .inr ?_⟩
    rw [Session.step, Session.updateExchange]
    split <;> rfl
  · exact ⟨s, rfl, .inr rfl⟩

theorem giveBack (c : Client) (name : String) : Untaken c (c.giveBack name) := by
  intro i s hs
  have hthere := (List.getElem?_eq_some_iff.mp hs).1
  rw [giveBack_eq, connections_withPool]
  split
  · rw [List.getElem?_append_left hthere, hs]
    exact ⟨_, rfl, s.unread?_run_close _⟩
  · rw [hs]
    exact ⟨_, rfl, s.unread?_run_close _⟩

theorem corrupt (c : Client) (name : String) : Untaken c (c.corrupt name) := refl c

theorem endRelay (c : Client) (name : String) (item : ℕ) : Untaken c (c.endRelay name item) :=
  (on_channel c item name .finish).trans (giveBack _ name)

theorem report (c : Client) (name : String) (item : ℕ) (cause : ClientError) : Untaken c (c.report name item cause) := by
  rw [Client.report]
  split
  · exact refl c
  · split
    · exact (on_channel c item name _).trans (endRelay _ name item)
    · exact endRelay c name item
    · exact refl c

end Untaken

/-- **What a relay takes goes off the front of what its connection has not read**, and the rest stays there, or is given
up. -/
theorem unread?_pollRelay {before after : Session} {rest : Bytes} (hrelay : c.relays.get? name = some (.exchanging item))
    (hbefore : c.connections[item]? = some before)
    (hafter : (c.step (.pollRelay name)).connections[item]? = some after)
    (hrest : after.connection.unread? = some rest) : before.connection.unread? = some (c.takes name ++ rest) := by
  have hpolled : (c.on item (.pollExchange name)).connections[item]? = some (before.step (.pollExchange name)) := by
    rw [connections_on, if_pos rfl, hbefore]
    rfl
  -- nothing is taken behind the poll of the exchange
  have huntaken : Untaken (c.on item (.pollExchange name)) (c.step (.pollRelay name)) := by
    rw [step, hrelay]
    simp only [pollRelay]
    split
    · exact .refl _
    · exact .endRelay _ name item
    · exact (Untaken.corrupt _ name).trans (.report _ name item _)
  obtain ⟨found, hfound, hunread⟩ := huntaken item _ hpolled
  obtain rfl : found = after := Option.some.inj (hfound.symm.trans hafter)
  have hleft : (before.step (.pollExchange name)).connection.unread? = some rest := by
    rcases hunread with hnone | hsame
    · simp [hrest] at hnone
    · exact hsame.symm.trans hrest
  rw [takes, hrelay]
  simp only [hbefore]
  cases hget : before.exchanges.get? name with
  | some x => exact Session.unread?_pollExchange hget hleft
  | none => rwa [Session.step, Session.updateExchange_eq_self hget] at hleft

/-! ### Relays and consumers -/

/-- What a relay has put into the channel, and how far it is. -/
inductive Puts (x : Exchange) (handed : List Item) (item : ℕ) : Relay → List (Except ClientError Item) → Prop where
  /-- The exchange goes on. -/
  | exchanging (producing : x.channel.producing = true) : Puts x handed item (.exchanging item) (handed.map .ok)
  /-- The exchange has failed, and the error waits for room. -/
  | reporting {cause : ClientError} (producing : x.channel.producing = true)
    (failed : x.result? = some (.error cause)) : Puts x handed item (.reporting item cause) (handed.map .ok)
  /-- The exchange has ended, and so has the relay. -/
  | done {result : Except ClientError Outcome} (producing : x.channel.producing = false)
    (ended : x.result? = some result) : Puts x handed item .over (elements handed result)

/-- A call has answered with a stream, and its exchange, which has taken these bytes, has handed over these items. -/
structure Supplies (c : Client) (name : String) (taken : Bytes) (stream : Stream) (x : Exchange) (handed : List Item) :
    Prop where
  /-- The call has answered. -/
  answered : c.answered? name = some (.ok .stream)
  /-- There is the stream. -/
  found : c.streams.get? name = some stream
  /-- Its items come from the exchange. -/
  exchange : c.exchange? stream.item name = some x
  /-- The exchange has handed over what the bytes tell. -/
  tells : x.Tells taken handed
  /-- The channel has room for an element. -/
  capacity : 0 < x.channel.capacity

/-- A stream is served: its relay puts elements into the channel, and its consumer draws them. -/
structure Serves (c : Client) (name : String) (taken : Bytes) (received : List (Except ClientError Item)) (ended : Bool)
    (relay : Relay) (stream : Stream) (x : Exchange) (handed : List Item) (put : List (Except ClientError Item)) :
    Prop extends Supplies c name taken stream x handed where
  /-- There is the relay. -/
  runs : c.relays.get? name = some relay
  /-- It has put these elements into the channel. -/
  puts : Puts x handed stream.item relay put
  /-- The consumer has drawn them. -/
  drawn : Drawn x.channel put received ended stream.consumer stream.collected

/-- A call has not answered with a stream. -/
structure Pending (c : Client) (name : String) : Prop where
  /-- It has no relay. -/
  relay : c.relays.get? name = none
  /-- It has no stream. -/
  stream : c.streams.get? name = none
  /-- It has not answered so. -/
  answered : c.answered? name ≠ some (.ok .stream)
  /-- Until it has a connection it has no exchange. -/
  fresh : (∀ call, c.calls.get? name = some call → call.phase = .ready ∨ call.phase = .borrowing) →
    c.hasExchanged name = false

variable {taken : Bytes} {received : List (Except ClientError Item)} {ended : Bool} {relay : Relay} {stream : Stream}
  {handed : List Item} {put : List (Except ClientError Item)}

/-- An error is put last. -/
theorem Puts.producing_of_error (h : Puts x handed item relay put) (cause : ClientError) (hmem : .error cause ∈ put) :
    x.channel.producing = false := by
  cases h with
  | exchanging | reporting => simp at hmem
  | done producing => exact producing

/-- What the consumer does with the channel is nothing to the relay. -/
theorem Puts.withChannel (h : Puts x handed item relay put) {channel : ItemChannel}
    (hproducing : channel.producing = x.channel.producing) : Puts { x with channel } handed item relay put := by
  cases h with
  | exchanging producing => exact .exchanging (hproducing.trans producing)
  | reporting producing failed => exact .reporting (hproducing.trans producing) failed
  | done producing ended => exact .done (hproducing.trans producing) ended

theorem Supplies.congr (h : Supplies c name taken stream x handed) (hcalls : c'.calls.get? name = c.calls.get? name)
    (hstreams : c'.streams.get? name = c.streams.get? name)
    (hexchange : ∀ item y, c.exchange? item name = some y → c'.exchange? item name = some y) :
    Supplies c' name taken stream x handed where
  answered := (answered?_congr hcalls).trans h.answered
  found := hstreams.trans h.found
  exchange := hexchange _ _ h.exchange
  tells := h.tells
  capacity := h.capacity

/-- Something happens to the channel. -/
theorem Supplies.channel (h : Supplies c name taken stream x handed) (event : Channel.Event (Except ClientError Item))
    (hcapacity : (x.channel.handle event).capacity = x.channel.capacity) :
    Supplies (c.on stream.item (.channel name event)) name taken stream { x with channel := x.channel.handle event }
      handed where
  answered := h.answered
  found := h.found
  exchange := exchange?_on_channel h.exchange event
  tells := h.tells.withChannel _
  capacity := by
    rw [hcapacity]
    exact h.capacity

/-- The lease of the relay is given back. -/
theorem Supplies.giveBack (h : Supplies c name taken stream x handed) :
    Supplies (c.giveBack name) name taken stream x handed := by
  refine h.congr ?_ ?_ fun item y => exchange?_giveBack
  · rw [calls_giveBack]
  · rw [giveBack_eq, withPool_eq]

/-- The stream is in another state. -/
theorem Supplies.putStream (h : Supplies c name taken stream x handed) (after : Stream)
    (hitem : after.item = stream.item) :
    Supplies { c with streams := c.streams.put name after } name taken after x handed where
  answered := h.answered
  found := Table.get?_put_self _ _ _
  exchange := by
    rw [hitem]
    exact h.exchange
  tells := h.tells
  capacity := h.capacity

namespace Serves

/-- **What happens under another name** does not concern the stream. -/
theorem of_ne {k : ℕ} (h : Serves c name taken received ended relay stream x handed put) (hc : Steady k c)
    {event : Event} (hname : event.name? ≠ some name) :
    Serves (c.step event) name taken received ended relay stream x handed put := by
  have hgoes := goes_step c event
  have hadvances := (advances_step hc.holding event).1
  -- what is permitted on the exchange of a call is permitted under its name only
  have hexchange : ∀ item e, (c.step event).Permits event item e → e.exchange? ≠ some name := by
    intro item e he hsame
    cases e with
    | startExchange other command capacity =>
      obtain rfl := Option.some.inj hsame
      exact hname he.1
    | pollExchange other | dropExchange other | channel other event =>
      obtain rfl := Option.some.inj hsame
      exact hname he
    | startOpening | pollOpening | dropOpening | close | advance | network => simp [Connection.Event.exchange?] at hsame
  refine ⟨h.congr (hgoes.calls name hname) (hgoes.streams name hname) fun item y => ?_, ?_, h.puts, h.drawn⟩
  · exact hadvances.exchange? (hexchange item)
  · exact (hgoes.relays name hname).trans h.runs

/-! ### The relay -/

/-- The relay ends, when everything is put. -/
theorem endRelay (h : Supplies c name taken stream x handed) {result : Except ClientError Outcome}
    (hresult : x.result? = some result)
    (hdrawn : Drawn x.channel (elements handed result) received ended stream.consumer stream.collected) :
    Serves (c.endRelay name stream.item) name taken received ended .over stream
      { x with channel := x.channel.finish } handed (elements handed result) := by
  have hfinished := (h.channel .finish rfl).giveBack
  refine { hfinished.congr rfl rfl fun _ _ => id with runs := ?_, puts := ?_, drawn := ?_ }
  · exact Table.get?_put_self _ _ _
  · exact .done rfl hresult
  · exact hdrawn.finish

/-- The relay reports the error of its exchange, or waits for room. -/
theorem report (h : Supplies c name taken stream x handed) {cause : ClientError}
    (hresult : x.result? = some (.error cause)) (hproducing : x.channel.producing = true)
    (hdrawn : Drawn x.channel (handed.map .ok) received ended stream.consumer stream.collected) :
    ∃ relay x' put, Serves (c.report name stream.item cause) name taken received ended relay stream x' handed put ∧
      (relay = .over ∨ x'.channel.queue ≠ []) := by
  rw [Client.report, channel?_of_exchange? h.exchange]
  dsimp only
  cases hoffer : x.channel.offer (.error cause) with
  | accepted after =>
    obtain ⟨hput, -, hcapacity⟩ := hdrawn.accepted hproducing hoffer
    have hafter : x.channel.handle (.offer (.error cause)) = after := by
      rw [Channel.handle, hoffer]
    have hsupplies := h.channel (.offer (.error cause)) (hafter.symm ▸ hcapacity)
    rw [hafter] at hsupplies
    exact ⟨_, _, _, endRelay hsupplies (x := { x with channel := after }) hresult hput, .inl rfl⟩
  | refused => exact ⟨_, _, _, endRelay h hresult (hdrawn.refused hproducing hoffer), .inl rfl⟩
  | full =>
    refine ⟨.reporting stream.item cause, x, handed.map .ok, ?_, .inr fun hempty => ?_⟩
    · exact { h.congr rfl rfl fun _ _ => id with
        runs := Table.get?_put_self _ _ _
        puts := .reporting hproducing hresult
        drawn := hdrawn }
    · have hcapacity := h.capacity
      have hfull : x.channel.capacity ≤ x.channel.queue.length := by
        by_contra hroom
        rw [Channel.offer, if_neg hroom] at hoffer
        split at hoffer <;> simp at hoffer
      rw [hempty, List.length_nil] at hfull
      omega

/-- **The relay runs on.** When it stops, it has ended, or something is queued, or it waits for its connection. -/
theorem pollRelay {k : ℕ} (h : Serves c name taken received ended relay stream x handed put) (hc : Steady k c) :
    ∃ relay' x' handed' put', Serves (c.step (.pollRelay name)) name (taken ++ c.takes name) received ended relay' stream
        x' handed' put' ∧
      (relay' = .over ∨ x'.channel.queue ≠ [] ∨ (c.step (.pollRelay name)).Awaits name) := by
  rw [step, h.runs, takes, h.runs]
  dsimp only
  cases h.puts with
  | done =>
    rw [Client.pollRelay, List.append_nil]
    exact ⟨.over, x, handed, _, h, .inl rfl⟩
  | reporting producing failed =>
    rw [Client.pollRelay, List.append_nil]
    obtain ⟨relay', x', put', hserves, hready⟩ := report h.toSupplies failed producing h.drawn
    exact ⟨relay', x', handed, put', hserves, hready.imp_right .inl⟩
  | exchanging producing =>
    obtain ⟨s, hs, hx⟩ := exchange?_eq_some_iff.mp h.exchange
    simp only [hs, hx]
    have hhalf := (hc.equipped s (List.mem_of_getElem? hs)).half name x hx
    obtain ⟨new, htells, hhanded, hstops⟩ := Exchange.comes_poll h.tells hhalf s.clocks
    generalize hpoll : x.poll s.connection s.clocks = polled at htells hhanded hstops
    have hdrawn := h.drawn.handed producing hhanded
    rw [← List.map_append] at hdrawn
    have hgrew := hhanded.grew
    rw [Reply.Grew] at hgrew
    have hafter : (c.on stream.item (.pollExchange name)).connections[stream.item]? =
        some (s.put name polled.1 polled.2) := by
      rw [connections_on, if_pos rfl, hs, Option.map_some, Session.step, Session.updateExchange_eq_put hx, hpoll]
    have hexchange : (c.on stream.item (.pollExchange name)).exchange? stream.item name = some polled.1 :=
      exchange?_eq_some_iff.mpr ⟨_, hafter, Table.get?_put_self _ _ _⟩
    have hsupplies : Supplies (c.on stream.item (.pollExchange name)) name
        (taken ++ x.taken s.connection s.clocks) stream polled.1 (handed ++ new) := by
      refine ⟨h.answered, h.found, hexchange, htells, ?_⟩
      rw [hgrew]
      exact h.capacity
    have hproducing : polled.1.channel.producing = true := by
      rw [hgrew]
      exact producing
    simp only [Client.pollRelay, exchanged?_of_exchange? hexchange]
    cases hresult : polled.1.result? with
    | none =>
      refine ⟨.exchanging stream.item, polled.1, handed ++ new, _, ⟨hsupplies, h.runs, .exchanging hproducing, hdrawn⟩, ?_⟩
      rcases hstops with hawaits | hended | ⟨-, hfull⟩
      · exact .inr (.inr ⟨stream.item, _, polled.1, h.runs, hafter, Table.get?_put_self _ _ _, hawaits⟩)
      · rw [hresult] at hended
        exact Bool.noConfusion hended
      · refine .inr (.inl fun hempty => ?_)
        have hcapacity := hsupplies.capacity
        rw [hempty, List.length_nil] at hfull
        omega
    | some result =>
      cases result with
      | ok outcome => exact ⟨_, _, _, _, endRelay hsupplies hresult hdrawn, .inl rfl⟩
      | error cause =>
        have hcorrupt : Supplies ((c.on stream.item (.pollExchange name)).corrupt name) name
            (taken ++ x.taken s.connection s.clocks) stream polled.1 (handed ++ new) :=
          hsupplies.congr rfl rfl fun _ _ => id
        obtain ⟨relay', x', put', hserves, hready⟩ := report hcorrupt hresult hproducing hdrawn
        exact ⟨relay', x', handed ++ new, put', hserves, hready.imp_right .inl⟩

/-! ### The consumer -/

/-- The consumer does something with the channel, and the stream is in another state. -/
theorem draw (h : Serves c name taken received ended relay stream x handed put)
    (event : Channel.Event (Except ClientError Item))
    (hcapacity : (x.channel.handle event).capacity = x.channel.capacity)
    (hproducing : (x.channel.handle event).producing = x.channel.producing) (after : Stream)
    (hitem : after.item = stream.item)
    (hdrawn : Drawn (x.channel.handle event) put received ended after.consumer after.collected) :
    let c' := c.on stream.item (.channel name event)
    Serves { c' with streams := c'.streams.put name after } name taken received ended relay after
      { x with channel := x.channel.handle event } handed put :=
  { (h.channel event hcapacity).putStream after hitem with
    runs := h.runs
    puts := by
      rw [hitem]
      exact h.puts.withChannel hproducing
    drawn := hdrawn }

/-- The consumer receives one element. -/
theorem next (h : Serves c name taken received ended relay stream x handed put) (hconsumer : stream.consumer = .stream) :
    (c.next name).1 = some (Consumer.stream.next x.channel).1 ∧
      Serves (c.next name).2 name taken (received ++ (Consumer.stream.next x.channel).1.element?.toList)
        (ended || (Consumer.stream.next x.channel).1.isEnd) relay stream
        { x with channel := x.channel.handle .receive } handed put := by
  have hstream : c.stream? name = some stream := by
    rw [stream?, h.found]
    simp only [hconsumer]
  have hsame : (x.channel.handle .receive).capacity = x.channel.capacity ∧
      (x.channel.handle .receive).producing = x.channel.producing := by
    rw [Channel.handle, Channel.receive]
    split <;> exact ⟨rfl, rfl⟩
  have hnone : stream.collected = none := h.drawn.collected_eq_none (by simp [hconsumer])
  have hdrawn := h.drawn
  rw [hconsumer, hnone] at hdrawn
  rw [Client.next, hstream]
  dsimp only
  rw [channel?_of_exchange? h.exchange, hconsumer]
  refine ⟨rfl, { h.channel .receive hsame.1 with runs := h.runs, puts := h.puts.withChannel hsame.2, drawn := ?_ }⟩
  rw [hconsumer, hnone]
  exact hdrawn.next

/-- A consumer that does not receive one element at a time is not asked. -/
theorem next_of_ne (h : Serves c name taken received ended relay stream x handed put)
    (hconsumer : stream.consumer ≠ .stream) : c.next name = (none, c) ∧ c.collect name = c := by
  have hstream : c.stream? name = none := by
    rw [stream?, h.found]
    dsimp only
    split
    · next hsame => exact absurd hsame hconsumer
    · rfl
  rw [Client.next, Client.collect, hstream]
  exact ⟨rfl, rfl⟩

/-- The consumer begins to collect. -/
theorem collect (h : Serves c name taken received ended relay stream x handed put) (hconsumer : stream.consumer = .stream) :
    Serves (c.collect name) name taken received ended relay { stream with consumer := .collecting [] } x handed put := by
  have hstream : c.stream? name = some stream := by
    rw [stream?, h.found]
    simp only [hconsumer]
  have hnone : stream.collected = none := h.drawn.collected_eq_none (by simp [hconsumer])
  have hdrawn := h.drawn
  rw [hconsumer, hnone] at hdrawn
  rw [Client.collect, hstream]
  refine { h.putStream { stream with consumer := .collecting [] } rfl with runs := h.runs, puts := h.puts, drawn := ?_ }
  rw [hnone]
  exact hdrawn.collect

/-- A consumer that collects runs on: it has everything, or an error, or what was queued. -/
theorem pollCollect (h : Serves c name taken received ended relay stream x handed put) {items : List Item}
    (hconsumer : stream.consumer = .collecting items) : ∃ stream' x',
      Serves (c.pollCollect name) name taken received ended relay stream' x' handed put ∧
        (stream'.collected.isSome = true ∨ ∃ more : List Item, stream'.consumer = .collecting (items ++ more) ∧
          x.channel.queue = more.map .ok ∧ x.channel.producing = true) := by
  have hnone : stream.collected = none := h.drawn.collected_eq_none (by simp [hconsumer])
  have hdrawn := h.drawn
  rw [hconsumer, hnone] at hdrawn
  simp only [Client.pollCollect, h.found, channel?_of_exchange? h.exchange, hconsumer]
  rcases hdrawn.drain h.puts.producing_of_error with ⟨answer, heq, hafter⟩ | ⟨more, hqueue, hproducing, heq, hafter⟩
  · rw [heq]
    refine ⟨{ stream with consumer := .gone, collected := some answer },
      { x with channel := x.channel.handle .abandon }, ?_, .inl rfl⟩
    exact h.draw .abandon rfl rfl { stream with consumer := .gone, collected := some answer } rfl hafter
  · rw [heq]
    refine ⟨{ stream with consumer := .collecting (items ++ more) }, { x with channel := x.channel.handle .drain }, ?_,
      .inr ⟨more, rfl, hqueue, hproducing⟩⟩
    rw [← hnone] at hafter
    exact h.draw .drain rfl rfl { stream with consumer := .collecting (items ++ more) } rfl hafter

/-- A consumer that does not collect has nothing to run. -/
theorem pollCollect_of_ne (h : Serves c name taken received ended relay stream x handed put)
    (hconsumer : ∀ items, stream.consumer ≠ .collecting items) : c.pollCollect name = c := by
  rw [Client.pollCollect, h.found]
  dsimp only
  split
  · next items channel hsame hchannel => exact absurd hsame (hconsumer items)
  · rfl

/-- The consumer leaves. -/
theorem leave (h : Serves c name taken received ended relay stream x handed put) :
    Serves (c.leave name) name taken received ended relay { stream with consumer := .gone }
      { x with channel := x.channel.handle .abandon } handed put := by
  rw [Client.leave, h.found]
  exact h.draw .abandon rfl rfl { stream with consumer := .gone } rfl h.drawn.leave

/-- A call that has answered does not run any more. -/
theorem of_call (h : Serves c name taken received ended relay stream x handed put) :
    (∀ command, c.step (.start name command) = c) ∧ c.step (.poll name) = c ∧ c.step (.drop name) = c := by
  obtain ⟨found, hget⟩ := answered?_eq_some h.answered
  refine ⟨fun command => ?_, ?_, ?_⟩
  · rw [step, if_pos (Table.has_eq_true_iff.mpr ⟨_, hget⟩)]
  · rw [step, hget]
    rfl
  · rw [step, hget]
    rfl

end Serves

/-! ### Before there is a stream -/

/-- A stream is served in some way. -/
def Streams (c : Client) (name : String) (taken : Bytes) (received : List (Except ClientError Item)) (ended : Bool) :
    Prop :=
  ∃ relay stream x handed put, Serves c name taken received ended relay stream x handed put

namespace Pending

/-- **What happens under another name**, or to the connections, does not let the call answer. -/
theorem goes {name? : Option String} {starts finishes : Bool} (h : c.Pending name)
    (hgoes : Goes name? starts finishes c c') (hname : name? ≠ some name) : c'.Pending name where
  relay := (hgoes.relays name hname).trans h.relay
  stream := (hgoes.streams name hname).trans h.stream
  answered := by
    rw [answered?_congr (hgoes.calls name hname)]
    exact h.answered
  fresh hphase := by
    rw [hgoes.calls name hname] at hphase
    rw [hgoes.hasExchanged_eq (.inl hname)]
    exact h.fresh hphase

/-- The call moves on. -/
theorem setPhase (hrelay : c.relays.get? name = none) (hstream : c.streams.get? name = none) (call : Call) {phase : Phase}
    (hphase : phase ≠ .answered (.ok .stream))
    (hfresh : phase = .ready ∨ phase = .borrowing → c.hasExchanged name = false) :
    (c.setPhase name call phase).Pending name where
  relay := hrelay
  stream := hstream
  answered hanswered := by
    obtain ⟨command, hget⟩ := answered?_eq_some hanswered
    exact hphase (congrArg Call.phase (Option.some.inj ((Table.get?_put_self _ _ _).symm.trans hget)))
  fresh hcall := hfresh (hcall _ (Table.get?_put_self _ _ _))

/-- A call that exchanges its command does not answer with a stream. -/
theorem exchange (hrelay : c.relays.get? name = none) (hstream : c.streams.get? name = none) (call : Call) (item : ℕ) :
    (c.exchange name call item).Pending name := by
  have hmoves : ∀ {c : Client} {phase : Phase}, c.relays.get? name = none ∧ c.streams.get? name = none →
      phase ≠ .answered (.ok .stream) → phase ≠ .ready ∧ phase ≠ .borrowing → (c.setPhase name call phase).Pending name :=
    fun hnone hphase hmoved => setPhase hnone.1 hnone.2 call hphase
      fun hopen => absurd hopen (not_or.mpr hmoved)
  have hback : ∀ c : Client, c.relays.get? name = none → c.streams.get? name = none →
      (c.giveBack name).relays.get? name = none ∧ (c.giveBack name).streams.get? name = none := by
    intro c hrelay hstream
    rw [giveBack_eq, withPool_eq]
    exact ⟨hrelay, hstream⟩
  rw [Client.exchange]
  split
  · exact hmoves ⟨hrelay, hstream⟩ (by simp) (by simp)
  · exact hmoves (hback _ hrelay hstream) (by simp) (by simp)
  · exact hmoves (hback _ hrelay hstream) (by simp) (by simp)

/-- The call uses the connection that it was lent: it leaves a retrieval of several keys to its relay. -/
theorem useConnection (h : c.Pending name) (hfresh : c.hasExchanged name = false) (call : Call)
    (hitem : item < c.connections.length) : (c.useConnection name call item).Pending name ∨
      (c.useConnection name call item).Streams name [] [] false := by
  obtain ⟨s, hs⟩ : ∃ s, c.connections[item]? = some s := ⟨_, List.getElem?_eq_getElem hitem⟩
  have hnone : s.exchanges.has name = false := by
    rw [hasExchanged, List.any_eq_false] at hfresh
    exact Bool.eq_false_iff.mpr (hfresh s (List.mem_of_getElem? hs))
  rw [Client.useConnection]
  split
  · next verb keys hcommand =>
    right
    refine ⟨.exchanging item, ⟨item, .stream, none⟩, .start call.command streamCapacity, [], [], ?_⟩
    have hexchange : (c.on item (.startExchange name call.command streamCapacity)).exchange? item name =
        some (.start call.command streamCapacity) := by
      refine exchange?_eq_some_iff.mpr ⟨s.step (.startExchange name call.command streamCapacity), ?_, ?_⟩
      · rw [connections_on, if_pos rfl, hs]
        rfl
      · rw [Session.step, hnone]
        exact Table.get?_put_self _ _ _
    exact {
      answered := by
        rw [answered?, answer, Client.setPhase]
        simp only [Table.get?_put_self]
      found := Table.get?_put_self _ _ _
      exchange := hexchange
      tells := .waiting (by rw [Exchange.start, hcommand]; rfl) rfl rfl rfl
      capacity := show 0 < max streamCapacity 1 by decide
      runs := Table.get?_put_self _ _ _
      puts := .exchanging rfl
      drawn := .start streamCapacity }
  · left
    exact exchange (c := c.on item (.startExchange name call.command 1)) h.relay h.stream call item

/-- The call goes on after a step of its borrower. -/
theorem proceed (h : c.Pending name) (hfresh : c.hasExchanged name = false) (call : Call) {report : Report}
    (hleased : ∀ item, report = .leased item → item < c.connections.length) :
    (c.proceed name call report).Pending name ∨ (c.proceed name call report).Streams name [] [] false := by
  cases report with
  | pending => exact .inl (setPhase h.relay h.stream call (by simp) fun _ => hfresh)
  | leased item => exact h.useConnection hfresh call (hleased item rfl)
  | failed cause => exact .inl (setPhase h.relay h.stream call (by simp) (by simp))
  | absent => exact .inl h

/-- Nothing is lent but a connection that there is. -/
theorem lt_of_leased {k : ℕ} (h : Sheltered k c) (hlease : c.pool.Leased name item) : item < c.connections.length := by
  rw [h.created]
  exact h.pool.lt_created (h.pool.made_of_leased hlease)

/-- The call runs on. -/
theorem pollCall {k : ℕ} (h : c.Pending name) (hc : Steady k c) {call : Call} (hget : c.calls.get? name = some call) :
    (c.pollCall name call).Pending name ∨ (c.pollCall name call).Streams name [] [] false := by
  have hfresh : call.phase = .ready ∨ call.phase = .borrowing → c.hasExchanged name = false := by
    refine fun hphase => h.fresh fun found hfound => ?_
    rw [hget, Option.some.injEq] at hfound
    rwa [← hfound]
  obtain ⟨command, phase⟩ := call
  cases phase with
  | ready =>
    rw [Client.pollCall]
    dsimp only
    split
    · exact .inl (setPhase h.relay h.stream _ (by simp) (by simp))
    · next hok =>
      have hgoes : Goes none false false c (c.withPool (c.pool.step (.borrow c.creations name))) := .withPool c _
      have hsheltered := (kept_sheltered k).act hc.sheltered (.borrow ⟨_, exists_issued hget hok⟩)
      rw [borrow_eq]
      refine (h.goes hgoes (by simp)).proceed ?_ _ fun item hleased => ?_
      · rw [hgoes.hasExchanged_eq (.inr rfl)]
        exact hfresh (.inl rfl)
      · have hlease : (c.withPool (c.pool.step (.borrow c.creations name))).pool.Leased name item := by
          rw [withPool_eq, ← borrow_snd]
          exact leased_borrow hleased
        exact lt_of_leased hsheltered hlease
  | borrowing =>
    have hissued := exists_issued hget (hc.holding.checked name _ hget (.inl rfl))
    have hopening : Goes none false false c (c.onOpening name (.pollOpening openingName)) := by
      rw [onOpening]
      split
      · exact .on c _ (by trivial)
      · exact .refl c
    have hsheltered := (kept_sheltered k).act hc.sheltered (.poll ⟨_, hissued⟩ rfl)
    rw [Client.pollCall, pollBorrow_eq]
    generalize c.onOpening name (.pollOpening openingName) = d at hopening hsheltered ⊢
    have hgoes := hopening.trans (.withPool d (d.pool.step (.poll d.creations name)))
    refine (h.goes hgoes (by simp)).proceed ?_ _ fun item hleased => ?_
    · rw [hgoes.hasExchanged_eq (.inr rfl)]
      exact hfresh (.inr rfl)
    · have hlease : (d.withPool (d.pool.step (.poll d.creations name))).pool.Leased name item := by
        rw [withPool_eq, ← poll_snd]
        exact leased_poll hleased
      exact lt_of_leased hsheltered hlease
  | exchanging item => exact .inl (exchange h.relay h.stream _ item)
  | answered answer => exact .inl h
  | dropped => exact .inl h

/-- The call is dropped. -/
theorem dropCall (h : c.Pending name) (call : Call) : (c.dropCall name call).Pending name := by
  have hdropped : ∀ c : Client, c.relays.get? name = none ∧ c.streams.get? name = none →
      (c.setPhase name call .dropped).Pending name :=
    fun c hnone => setPhase hnone.1 hnone.2 call (by simp) (by simp)
  have hnone : (c.dropCall name call).relays.get? name = none ∧ (c.dropCall name call).streams.get? name = none := by
    obtain ⟨hrelays, hstreams⟩ := c.tables_dropCall name call
    rw [hrelays, hstreams]
    exact ⟨h.relay, h.stream⟩
  rw [Client.dropCall] at hnone ⊢
  split at hnone
  · exact hdropped _ hnone
  · exact hdropped _ hnone
  · exact hdropped _ hnone
  · exact h
  · exact h

/-- **Until the call answers with a stream** there is none, and then it is served from its start. -/
theorem step {k : ℕ} (h : c.Pending name) (hc : Steady k c) (event : Event) :
    (c.step event).Pending name ∨ (c.step event).Streams name [] [] false := by
  by_cases hname : event.name? = some name
  · have hstream : c.stream? name = none := by
      rw [stream?, h.stream]
    cases event with
    | start other command =>
      obtain rfl := Option.some.inj hname
      rw [Client.step]
      split
      · exact .inl h
      · next hnew =>
        rw [Bool.not_eq_true, Table.has_eq_false_iff] at hnew
        refine .inl (setPhase h.relay h.stream ⟨command, .ready⟩ (by simp) fun _ => h.fresh fun call hget => ?_)
        rw [hnew] at hget
        simp at hget
    | poll other =>
      obtain rfl := Option.some.inj hname
      rw [Client.step]
      split
      · next hget => exact h.pollCall hc hget
      · exact .inl h
    | drop other =>
      obtain rfl := Option.some.inj hname
      rw [Client.step]
      split
      · next call hget => exact .inl (h.dropCall call)
      · exact .inl h
    | pollRelay other =>
      obtain rfl := Option.some.inj hname
      rw [Client.step, h.relay]
      exact .inl h
    | next other =>
      obtain rfl := Option.some.inj hname
      rw [Client.step, next, hstream]
      exact .inl h
    | collect other =>
      obtain rfl := Option.some.inj hname
      rw [Client.step, collect, hstream]
      exact .inl h
    | pollCollect other =>
      obtain rfl := Option.some.inj hname
      rw [Client.step, pollCollect, h.stream]
      exact .inl h
    | leave other =>
      obtain rfl := Option.some.inj hname
      rw [Client.step, leave, h.stream]
      exact .inl h
    | dispose | advance | network => simp [Event.name?] at hname
  · exact .inl (h.goes (goes_step c event) hname)

end Pending

end Client

end MemcachedClient
