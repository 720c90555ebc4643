import MemcachedClient.Proofs.Client.Beside

/-!
# How calls and streams stand

A call that has no connection yet has no exchange; and one that has failed did so on its connection, or because a
connection failed to open, or for a reason for which none does (`Stands`). So one can tell from a client which of its
calls failed because their connection could not be opened.

The stream of a relay that has not ended is on the connection of the relay, and its channel has its producer and no
error in it (`Flows`). So a stream that was collected, or whose consumer has come to the end, has no relay any more
(`Flows.isDrained_eq_false`).
-/

namespace MemcachedClient

namespace Response.ItemChannel

/-- While there is a producer and no error, more items may follow. -/
theorem drain_of_items (items : List Item) {queue : List (Except ClientError Item)}
    (h : ∀ element ∈ queue, ∃ item, element = .ok item) : ∃ items', drain items true queue = (items', none) := by
  induction queue generalizing items with
  | nil => exact ⟨items, rfl⟩
  | cons element queue ih =>
    obtain ⟨⟨item, rfl⟩, hrest⟩ := List.forall_mem_cons.mp h
    exact ih (items ++ [item]) hrest

/-- A consumer that collects has to wait. -/
theorem Flowing.collect {channel : ItemChannel} (h : channel.Flowing) (items : List Item) :
    ((Consumer.collecting items).collect channel).1 = .pending := by
  obtain ⟨items', hitems'⟩ := drain_of_items items h.items
  simp only [Consumer.collect, h.producing, hitems']

end Response.ItemChannel

namespace Client

open Connection (Session)
open Pool

/-- Whether a stream is drained to its end: it was collected, or its consumer sees the end. -/
def isDrained (c : Client) (name : String) : Bool :=
  match c.streams.get? name with
  | none => false
  | some stream =>
    stream.collected.isSome ||
      match c.channel? stream.item name with
      | none => false
      | some channel =>
        match channel.receive.1 with
        | .ended => true
        | _ => false

/-- How the call under a name stands. -/
structure Stands (c : Client) (name : String) : Prop where
  /-- Until it has a connection it has no exchange. -/
  fresh : (∀ call, c.calls.get? name = some call → call.phase = .ready ∨ call.phase = .borrowing) →
    c.hasExchanged name = false
  /-- It has failed in its exchange, or when a connection was opened, or otherwise. -/
  failed : ∀ cause, c.answered? name = some (.error cause) →
    c.hasExchanged name = true ∨ c.hasFailedToOpen cause = true ∨ ¬ cause.FailsOpening

/-- How the relay under a name stands. -/
structure Flows (c : Client) (name : String) : Prop where
  /-- Until it has ended, the channel has its producer, and no error in it. -/
  produces : (∀ relay, c.relays.get? name = some relay → relay ≠ .over) → ∀ s ∈ c.connections, s.Produces name
  /-- Its stream is on its connection, and was not collected. -/
  stream : ∀ relay item, c.relays.get? name = some relay → relay.item? = some item →
    ∃ stream, c.streams.get? name = some stream ∧ stream.item = item ∧ stream.collected = none

/-- How a client stands. -/
structure Standing (c : Client) : Prop where
  /-- Every connection that failed to open did for one of the causes for which openings fail. -/
  explained : ∀ s ∈ c.connections, s.Explained
  /-- The calls stand. -/
  calls : ∀ name, c.Stands name
  /-- The relays stand. -/
  relays : ∀ name, c.Flows name

variable {c c' : Client} {name : String} {name? : Option String} {starts finishes : Bool} {item : ℕ}

theorem answered?_eq_some {answer : Except ClientError Answer} (h : c.answered? name = some answer) :
    ∃ command, c.calls.get? name = some ⟨command, .answered answer⟩ := by
  rw [answered?] at h
  split at h
  · next command found hget => exact ⟨command, Option.some.inj h ▸ hget⟩
  · simp at h

theorem answered?_congr (h : c'.calls.get? name = c.calls.get? name) : c'.answered? name = c.answered? name := by
  rw [answered?, answered?, h]

/-- The result of an exchange is that of an exchange. -/
theorem hasExchanged_of_exchanged? {result : Except ClientError Outcome} (h : c.exchanged? item name = some result) :
    c.hasExchanged name = true := by
  obtain ⟨s, hs, hresult⟩ := Option.bind_eq_some_iff.mp h
  obtain ⟨x, hx, -⟩ := Option.bind_eq_some_iff.mp hresult
  exact List.any_eq_true.mpr ⟨s, List.mem_of_getElem? hs, Table.has_eq_true_iff.mpr ⟨x, hx⟩⟩

/-- Where there was no exchange, no channel has lost its producer. -/
theorem produces_of_hasExchanged (h : c.hasExchanged name = false) : ∀ s ∈ c.connections, s.Produces name := by
  intro s hs x hx
  rw [hasExchanged, List.any_eq_false] at h
  exact absurd (Table.has_eq_true_iff.mpr ⟨x, hx⟩) (h s hs)

namespace Stands

/-- A call stands as before, if it is as before and its exchange was not started. -/
theorem goes (h : c.Stands name) (hgoes : Goes name? starts finishes c c')
    (hname : name? ≠ some name ∨ starts = false) (hcalls : c'.calls.get? name = c.calls.get? name) :
    c'.Stands name where
  fresh hphase := by
    rw [hcalls] at hphase
    rw [hgoes.hasExchanged_eq hname]
    exact h.fresh hphase
  failed cause hcause := by
    rw [answered?_congr hcalls] at hcause
    rw [hgoes.hasExchanged_eq hname]
    exact (h.failed cause hcause).imp_right (Or.imp_left hgoes.hasFailedToOpen)

/-- A call that has just moved on. -/
theorem setPhase (call : Call) {phase : Phase}
    (hfresh : phase = .ready ∨ phase = .borrowing → c.hasExchanged name = false)
    (hfailed : ∀ cause, phase = .answered (.error cause) →
      c.hasExchanged name = true ∨ c.hasFailedToOpen cause = true ∨ ¬ cause.FailsOpening) :
    (c.setPhase name call phase).Stands name where
  fresh hphase := hfresh (hphase _ (Table.get?_put_self _ _ _))
  failed cause hcause := by
    obtain ⟨command, hget⟩ := answered?_eq_some hcause
    have hphase := congrArg Call.phase (Option.some.inj ((Table.get?_put_self _ _ _).symm.trans hget))
    exact hfailed cause hphase

theorem exchange (c : Client) (name : String) (call : Call) (item : ℕ) :
    (c.exchange name call item).Stands name := by
  have hmoves : ∀ {c' : Client} {phase : Phase}, phase ≠ .ready → phase ≠ .borrowing →
      (∀ cause, phase = .answered (.error cause) → c'.hasExchanged name = true) →
      (c'.setPhase name call phase).Stands name := fun hready hborrowing hfailed =>
    setPhase call (fun hphase => absurd hphase (not_or.mpr ⟨hready, hborrowing⟩))
      fun cause hphase => Or.inl (hfailed cause hphase)
  rw [Client.exchange]
  split
  · exact hmoves (by simp) (by simp) (by simp)
  · exact hmoves (by simp) (by simp) (by simp)
  · next cause hresult =>
    refine hmoves (by simp) (by simp) fun _ _ => ?_
    have hback : Goes (some name) false false ((c.on item (.pollExchange name)).corrupt name)
        (((c.on item (.pollExchange name)).corrupt name).giveBack name) := goes_giveBack ..
    exact hback.hasExchanged (hasExchanged_of_exchanged? hresult)

theorem useConnection (c : Client) (name : String) (call : Call) (item : ℕ) :
    (c.useConnection name call item).Stands name := by
  rw [Client.useConnection]
  split
  · exact setPhase call (by simp) (by simp)
  · exact exchange ..

/-- A call goes on after a step of its borrower. -/
theorem proceed (hfresh : c.hasExchanged name = false) (call : Call) {report : Report} (habsent : report ≠ .absent)
    (hfailed : ∀ cause, report = .failed cause → c.hasFailedToOpen cause = true ∨ ¬ cause.FailsOpening) :
    (c.proceed name call report).Stands name := by
  cases report with
  | pending => exact setPhase call (fun _ => hfresh) (by simp)
  | leased item => exact useConnection ..
  | failed cause =>
    refine setPhase call (by simp) fun other hother => Or.inr ?_
    obtain rfl : cause = other := by simpa using hother
    exact hfailed cause rfl
  | absent => exact absurd rfl habsent

end Stands

namespace Flows

/-- A relay stands as before, if it and its stream are as before. -/
theorem goes (h : c.Flows name) (hgoes : Goes name? starts finishes c c')
    (hname : name? ≠ some name ∨ finishes = false) (hrelays : c'.relays.get? name = c.relays.get? name)
    (hstreams : ∀ stream, c.streams.get? name = some stream → ∃ stream', c'.streams.get? name = some stream' ∧
      stream'.item = stream.item ∧ stream'.collected = stream.collected) : c'.Flows name where
  produces hrelay := by
    rw [hrelays] at hrelay
    exact hgoes.produces hname (h.produces hrelay)
  stream relay item hrelay hitem := by
    rw [hrelays] at hrelay
    obtain ⟨stream, hstream, rfl, hcollected⟩ := h.stream relay item hrelay hitem
    obtain ⟨stream', hstream', hsame, hsame'⟩ := hstreams stream hstream
    exact ⟨stream', hstream', hsame, hsame'.trans hcollected⟩

/-- While the relay has not ended, the channel has its producer, and no error in it, wherever it is. -/
theorem produces_of_item? (h : c.Flows name) {relay : Relay} (hrelay : c.relays.get? name = some relay)
    (hitem : relay.item? = some item) : ∀ s ∈ c.connections, s.Produces name := by
  refine h.produces fun other hother hover => ?_
  rw [hrelay, Option.some.injEq] at hother
  rw [hother, hover] at hitem
  simp [Relay.item?] at hitem

/-- The channel of a relay that has not ended has its producer, and no error in it. -/
theorem flowing (h : c.Flows name) {relay : Relay} (hrelay : c.relays.get? name = some relay)
    (hitem : relay.item? = some item) {channel : Channel (Except ClientError Item)}
    (hchannel : c.channel? item name = some channel) : Response.ItemChannel.Flowing channel := by
  obtain ⟨s, hs, hget⟩ := Option.bind_eq_some_iff.mp hchannel
  obtain ⟨x, hx, rfl⟩ := Option.map_eq_some_iff.mp hget
  exact h.produces_of_item? hrelay hitem s (List.mem_of_getElem? hs) x hx

/-- While the relay has not ended, its stream is not drained to the end. -/
theorem isDrained_eq_false (h : c.Flows name) {relay : Relay} (hrelay : c.relays.get? name = some relay)
    (hitem : relay.item? = some item) : c.isDrained name = false := by
  obtain ⟨stream, hstream, rfl, hcollected⟩ := h.stream relay item hrelay hitem
  rw [isDrained, hstream]
  simp only [hcollected, Option.isSome_none, Bool.false_or]
  split
  · rfl
  · next channel hchannel =>
    have hproducing := (h.flowing hrelay hitem hchannel).producing
    rw [Channel.receive]
    cases channel.queue with
    | nil => simp [hproducing]
    | cons element queue => rfl

theorem exchange (h : c.Flows name) (call : Call) (item : ℕ) : (c.exchange name call item).Flows name := by
  have htables : (c.exchange name call item).relays = c.relays ∧ (c.exchange name call item).streams = c.streams := by
    rw [Client.exchange]
    split
    · exact ⟨rfl, rfl⟩
    · rw [giveBack_eq, withPool_eq]
      exact ⟨rfl, rfl⟩
    · rw [giveBack_eq, withPool_eq]
      exact ⟨rfl, rfl⟩
  have hgoes : Goes (some name) false false c (c.exchange name call item) := goes_exchange ..
  refine h.goes hgoes (Or.inr rfl) (by rw [htables.1]) fun stream hstream => ⟨stream, ?_, rfl, rfl⟩
  rw [htables.2]
  exact hstream

/-- A call that had no exchange uses a connection, or leaves it to its relay. -/
theorem useConnection (h : c.Flows name) (hfresh : c.hasExchanged name = false) (call : Call) (item : ℕ) :
    (c.useConnection name call item).Flows name := by
  have hon : ∀ capacity, Goes (some name) true false c (c.on item (.startExchange name call.command capacity)) :=
    fun _ => .on c item ordinary_start
  rw [Client.useConnection]
  split
  · have hproduces := (hon streamCapacity).produces (Or.inr rfl) (produces_of_hasExchanged hfresh)
    refine ⟨fun _ => hproduces, fun relay found hrelay hitem => ?_⟩
    obtain rfl := Option.some.inj ((Table.get?_put_self _ _ _).symm.trans hrelay)
    exact ⟨_, Table.get?_put_self _ _ _, Option.some.inj hitem, rfl⟩
  · have hflows := h.goes (hon 1) (Or.inr rfl) rfl fun stream hstream => ⟨stream, hstream, rfl, rfl⟩
    exact hflows.exchange call item

theorem proceed (h : c.Flows name) (hfresh : c.hasExchanged name = false) (call : Call) (report : Report) :
    (c.proceed name call report).Flows name := by
  cases report with
  | pending => exact ⟨h.produces, h.stream⟩
  | leased item => exact h.useConnection hfresh call item
  | failed cause => exact ⟨h.produces, h.stream⟩
  | absent => exact h

/-- A relay that has ended stands, whatever became of its channel. -/
theorem endRelay (c : Client) (name : String) (item : ℕ) : (c.endRelay name item).Flows name := by
  have hover : (c.endRelay name item).relays.get? name = some .over := Table.get?_put_self _ _ _
  refine ⟨fun hopen => absurd rfl (hopen _ hover), fun relay found hrelay hitem => ?_⟩
  obtain rfl := Option.some.inj (hover.symm.trans hrelay)
  simp [Relay.item?] at hitem

/-- A relay reports the failure of its exchange, or waits for room. -/
theorem report (h : c.Flows name) {relay : Relay} (hrelay : c.relays.get? name = some relay)
    (hitem : relay.item? = some item) (cause : ClientError) : (c.report name item cause).Flows name := by
  rw [Client.report]
  split
  · exact h
  · split
    · exact endRelay ..
    · exact endRelay ..
    · refine ⟨fun _ => h.produces_of_item? hrelay hitem, fun other found hother hfound => ?_⟩
      obtain rfl := Option.some.inj ((Table.get?_put_self _ _ _).symm.trans hother)
      obtain ⟨stream, hstream, hsame, hcollected⟩ := h.stream relay item hrelay hitem
      exact ⟨stream, hstream, hsame.trans (Option.some.inj hfound), hcollected⟩

theorem pollRelay (h : c.Flows name) {relay : Relay} (hrelay : c.relays.get? name = some relay) :
    (c.pollRelay name relay).Flows name := by
  cases relay with
  | exchanging item =>
    have hon : Goes (some name) false false c (c.on item (.pollExchange name)) := .on c item (by trivial)
    have hflows := h.goes hon (Or.inr rfl) rfl fun stream hstream => ⟨stream, hstream, rfl, rfl⟩
    rw [Client.pollRelay]
    split
    · exact hflows
    · exact endRelay ..
    · have hcorrupt : ((c.on item (.pollExchange name)).corrupt name).Flows name := ⟨hflows.produces, hflows.stream⟩
      exact hcorrupt.report hrelay rfl _
  | reporting item cause => exact h.report hrelay rfl cause
  | _ => exact h

/-- The consumer does something with the stream. -/
theorem putStream (h : c.Flows name) {stream stream' : Stream} (hget : c.streams.get? name = some stream)
    (hitem : stream'.item = stream.item) (hcollected : stream'.collected = stream.collected) :
    Flows { c with streams := c.streams.put name stream' } name := by
  have hgoes : Goes (some name) false false c { c with streams := c.streams.put name stream' } := goes_putStream ..
  refine h.goes hgoes (Or.inr rfl) rfl fun found hfound => ⟨stream', Table.get?_put_self _ _ _, ?_⟩
  rw [hget, Option.some.injEq] at hfound
  rw [← hfound]
  exact ⟨hitem, hcollected⟩

/-- What the consumer does with the channel leaves it its producer. -/
theorem on (h : c.Flows name) (item : ℕ) {event : Connection.Event} (hevent : Ordinary (some name) false false event) :
    (c.on item event).Flows name :=
  h.goes (Goes.on c item hevent) (Or.inr rfl) rfl fun stream hstream => ⟨stream, hstream, rfl, rfl⟩

theorem next (h : c.Flows name) : (c.next name).2.Flows name := by
  rw [Client.next]
  split
  · exact h
  · exact h.on _ (by trivial)

theorem stream?_eq_some {stream : Stream} (h : c.stream? name = some stream) : c.streams.get? name = some stream := by
  rw [stream?] at h
  split at h
  · next found hget =>
    split at h
    · exact hget.trans h
    · simp at h
  · simp at h

theorem collect (h : c.Flows name) : (c.collect name).Flows name := by
  rw [Client.collect]
  split
  · exact h
  · next stream hstream => exact h.putStream (stream?_eq_some hstream) rfl rfl

/-- While the relay has not ended, its stream is not collected. -/
theorem pollCollect (h : c.Flows name) : (c.pollCollect name).Flows name := by
  rw [Client.pollCollect]
  split
  · exact h
  · next stream hstream =>
    have hon : ∀ event, Ordinary (some name) false false event → (c.on stream.item event).Flows name :=
      fun event => h.on stream.item
    split
    · next items channel _ hchannel =>
      split
      · next result consumer after hcollected =>
        refine ⟨(hon (.channel name .abandon) (by trivial)).produces, fun relay item hrelay hitem => ?_⟩
        obtain ⟨found, hfound, rfl, -⟩ := h.stream relay item hrelay hitem
        obtain rfl := Option.some.inj (hstream.symm.trans hfound)
        have hpending := (h.flowing hrelay hitem hchannel).collect items
        rw [hcollected] at hpending
        simp at hpending
      · exact (hon (.channel name .drain) (by trivial)).putStream hstream rfl rfl
    · exact h

theorem leave (h : c.Flows name) : (c.leave name).Flows name := by
  rw [Client.leave]
  split
  · exact h
  · next stream hstream => exact (h.on stream.item (by trivial)).putStream hstream rfl rfl

end Flows

theorem calls_pollRelay (c : Client) (name : String) (relay : Relay) : (c.pollRelay name relay).calls = c.calls := by
  have hend : ∀ (c : Client) (item : ℕ), (c.endRelay name item).calls = c.calls := fun c item => calls_giveBack _ name
  have hreport : ∀ (c : Client) (item : ℕ) (cause : ClientError), (c.report name item cause).calls = c.calls := by
    intro c item cause
    rw [report]
    split
    · rfl
    · split
      · exact hend _ item
      · exact hend _ item
      · rfl
  cases relay with
  | exchanging item =>
    rw [pollRelay]
    split
    · rfl
    · exact hend _ item
    · exact hreport _ item _
  | reporting item cause => exact hreport _ item cause
  | _ => rfl

/-! What the consumer of a stream does changes no call and no relay. -/

theorem tables_next (c : Client) (name : String) :
    (c.next name).2.calls = c.calls ∧ (c.next name).2.relays = c.relays := by
  rw [next]
  split <;> exact ⟨rfl, rfl⟩

theorem tables_collect (c : Client) (name : String) :
    (c.collect name).calls = c.calls ∧ (c.collect name).relays = c.relays := by
  rw [collect]
  split <;> exact ⟨rfl, rfl⟩

theorem tables_pollCollect (c : Client) (name : String) :
    (c.pollCollect name).calls = c.calls ∧ (c.pollCollect name).relays = c.relays := by
  rw [pollCollect]
  split
  · exact ⟨rfl, rfl⟩
  · split
    · split <;> exact ⟨rfl, rfl⟩
    · exact ⟨rfl, rfl⟩

theorem tables_leave (c : Client) (name : String) :
    (c.leave name).calls = c.calls ∧ (c.leave name).relays = c.relays := by
  rw [leave]
  split <;> exact ⟨rfl, rfl⟩

theorem streams_onOpening (c : Client) (name : String) (event : Connection.Event) :
    (c.onOpening name event).streams = c.streams := by
  rw [onOpening]
  split <;> rfl

theorem tables_dropCall (c : Client) (name : String) (call : Call) :
    (c.dropCall name call).relays = c.relays ∧ (c.dropCall name call).streams = c.streams := by
  rw [dropCall]
  split
  · exact ⟨rfl, rfl⟩
  · dsimp only
    rw [withPool_eq]
    exact ⟨(c.onOpening_parts name _).2.2, c.streams_onOpening name _⟩
  · rw [giveBack_eq, withPool_eq]
    exact ⟨rfl, rfl⟩
  · exact ⟨rfl, rfl⟩
  · exact ⟨rfl, rfl⟩

namespace Standing

/-- The others stand as before. -/
theorem goes (h : c.Standing) (hgoes : Goes name? starts finishes c c')
    (hname : ∀ name, name? = some name → c'.Stands name ∧ c'.Flows name) : c'.Standing where
  explained := hgoes.explained h.explained
  calls name := by
    by_cases hne : name? = some name
    · exact (hname name hne).1
    · exact (h.calls name).goes hgoes (Or.inl hne) (hgoes.calls name hne)
  relays name := by
    by_cases hne : name? = some name
    · exact (hname name hne).2
    · exact (h.relays name).goes hgoes (Or.inl hne) (hgoes.relays name hne) fun stream hstream =>
        ⟨stream, (hgoes.streams name hne).trans hstream, rfl, rfl⟩

theorem withPool (h : c.Standing) (pool : Pool) : (c.withPool pool).Standing := by
  have hgoes : Goes none false false c (c.withPool pool) := .withPool c pool
  exact h.goes hgoes fun name hname => absurd hname (by simp)

theorem on (h : c.Standing) (item : ℕ) {event : Connection.Event} (hevent : Ordinary none false false event) :
    (c.on item event).Standing :=
  h.goes (Goes.on c item hevent) fun name hname => absurd hname (by simp)

theorem onOpening (h : c.Standing) (name : String) {event : Connection.Event}
    (hevent : Ordinary none false false event) : (c.onOpening name event).Standing := by
  rw [Client.onOpening]
  split
  · exact h.on _ hevent
  · exact h

/-- Why a creation failed that was started, the connection failed to open. -/
theorem hasFailedToOpen_withPool {pool : Pool} {cause : ClientError} (hlt : item < pool.created)
    (hfailed : c.creations item = some (.error cause)) : (c.withPool pool).hasFailedToOpen cause = true := by
  obtain ⟨s, hs, hopened⟩ := Option.bind_eq_some_iff.mp hfailed
  have hthere : (if c.connections.length < pool.created then c.connections ++ [c.attempt]
      else c.connections)[item]? = some s := by
    split
    · exact hs
    · rwa [List.getElem?_append_left (by omega)] at hs
  have hlast := c.connections_withPool pool item
  rw [hthere, Option.map_some] at hlast
  refine List.any_eq_true.mpr ⟨_, List.mem_of_getElem? hlast, decide_eq_true ?_⟩
  exact Session.opened?_run hopened _

theorem exchange (h : c.Standing) (name : String) (call : Call) (item : ℕ) :
    (c.exchange name call item).Standing := by
  have hgoes : Goes (some name) false false c (c.exchange name call item) := goes_exchange ..
  refine h.goes hgoes fun other hother => ?_
  obtain rfl := Option.some.inj hother
  exact ⟨.exchange .., (h.relays name).exchange call item⟩

/-- A call goes on after a step of its borrower. -/
theorem proceed (h : c.Standing) (hfresh : c.hasExchanged name = false) (call : Call) {report : Report}
    (habsent : report ≠ .absent)
    (hfailed : ∀ cause, report = .failed cause → c.hasFailedToOpen cause = true ∨ ¬ cause.FailsOpening) :
    (c.proceed name call report).Standing := by
  have hgoes : Goes (some name) true false c (c.proceed name call report) := goes_proceed ..
  refine h.goes hgoes fun other hother => ?_
  obtain rfl := Option.some.inj hother
  exact ⟨.proceed hfresh call habsent hfailed, (h.relays name).proceed hfresh call report⟩

/-- What is not a call that runs on leaves everything standing. -/
theorem step (h : c.Standing) {event : Event} (hevent : event.runsCall = false) : (c.step event).Standing := by
  have hgoes := goes_step c event
  rw [hevent] at hgoes
  -- the calls that did not change stand as before
  have hcalls : ∀ name, (c.step event).calls.get? name = c.calls.get? name → (c.step event).Stands name :=
    fun name hsame => (h.calls name).goes hgoes (Or.inr rfl) hsame
  refine h.goes hgoes fun name hname => ?_
  have hflows := h.relays name
  cases event with
  | poll other => simp [Event.runsCall] at hevent
  | start other command =>
    obtain rfl := Option.some.inj hname
    refine ⟨?_, ?_⟩
    · rw [Client.step]
      split
      · exact h.calls other
      · next hnew =>
        rw [Bool.not_eq_true, Table.has_eq_false_iff] at hnew
        refine .setPhase ⟨command, .ready⟩ (fun _ => (h.calls other).fresh fun call hget => ?_) (by simp)
        rw [hnew] at hget
        simp at hget
    · rw [Client.step]
      split
      · exact hflows
      · exact ⟨hflows.produces, hflows.stream⟩
  | drop other =>
    obtain rfl := Option.some.inj hname
    rw [Client.step] at hgoes ⊢
    split at hgoes
    · next call hget =>
      refine ⟨?_, ?_⟩
      · rw [dropCall]
        split
        · exact .setPhase call (by simp) (by simp)
        · exact .setPhase call (by simp) (by simp)
        · exact .setPhase call (by simp) (by simp)
        · exact h.calls other
        · exact h.calls other
      · obtain ⟨hrelays, hstreams⟩ := c.tables_dropCall other call
        refine hflows.goes hgoes (Or.inr rfl) (by rw [hrelays]) fun stream hstream => ⟨stream, ?_, rfl, rfl⟩
        rw [hstreams]
        exact hstream
    · exact ⟨h.calls other, hflows⟩
  | pollRelay other =>
    obtain rfl := Option.some.inj hname
    refine ⟨hcalls other ?_, ?_⟩
    · rw [Client.step]
      split
      · rw [calls_pollRelay]
      · rfl
    · rw [Client.step]
      split
      · next relay hrelay => exact hflows.pollRelay hrelay
      · exact hflows
  | next other =>
    obtain rfl := Option.some.inj hname
    exact ⟨hcalls other (congrArg (·.get? other) (c.tables_next other).1), hflows.next⟩
  | collect other =>
    obtain rfl := Option.some.inj hname
    exact ⟨hcalls other (congrArg (·.get? other) (c.tables_collect other).1), hflows.collect⟩
  | pollCollect other =>
    obtain rfl := Option.some.inj hname
    exact ⟨hcalls other (congrArg (·.get? other) (c.tables_pollCollect other).1), hflows.pollCollect⟩
  | leave other =>
    obtain rfl := Option.some.inj hname
    exact ⟨hcalls other (congrArg (·.get? other) (c.tables_leave other).1), hflows.leave⟩
  | dispose | advance | network => simp [Event.name?] at hname

end Standing

/-- In a new client there is nothing. -/
theorem standing_ofConfig {config : Config} {dial : Dial} {wall : Instant}
    (hclient : ofConfig config dial wall = .ok c) : c.Standing := by
  obtain ⟨-, hconnections, hcalls, hrelays, -⟩ := parts_ofConfig hclient
  refine ⟨fun s hs => ?_, fun name => ⟨fun _ => ?_, fun cause hcause => ?_⟩, fun name => ⟨fun _ s hs => ?_, ?_⟩⟩
  · simp [hconnections] at hs
  · simp [hasExchanged, hconnections]
  · obtain ⟨command, hget⟩ := answered?_eq_some hcause
    simp [hcalls] at hget
  · simp [hconnections] at hs
  · intro relay item hrelay
    simp [hrelays] at hrelay

end Client

end MemcachedClient
