import MemcachedClient.Proofs.Client.Tending

/-!
# Which connections a client lends

Every step of a client with a shared pool tends its connections (`Tended.step`), and so does every run. So after
every step a slot that takes borrowers has an open connection, unless a relay waits to report that its exchange
on the connection failed: the relay keeps its lease until its stream has room for the error, and the slot is not
retired before that.

A connection that is not open, and on which no relay waits to report, is with a slot that is shut, and what is
shut stays shut: nobody is assigned a unit of it any more (`keepsBack_of_not_reports`). While a relay waits,
somebody may be: a consumer that leaves its stream full is enough (`not_keepsBack_of_slow_consumer`).
-/

namespace MemcachedClient.Client

open Pool

/-- The client is tended, with a pool that has gone on from `p`. -/
def TendedFrom (c : Client) (p : Shared) : Prop := ∃ events, Tended c (p.run events) none c.Reports

/-- No relay runs under a name. -/
def Idle (c : Client) (name : String) : Prop :=
  ∀ relay, c.relays.get? name = some relay → relay.item? = none

/-- A relay under another name waits to report on this connection. -/
def ReportsBesides (c : Client) (name : String) (item : ℕ) : Prop :=
  ∃ other cause, other ≠ name ∧ c.relays.get? other = some (.reporting item cause)

variable {c c' : Client} {p : Shared} {name : String} {item : ℕ} {call : Call}

theorem Tended.tendedFrom (h : Tended c p none c.Reports) : c.TendedFrom p := ⟨[], h⟩

theorem TendedFrom.of_step {event : Shared.Event} (h : c.TendedFrom (p.step event)) : c.TendedFrom p := by
  obtain ⟨events, h⟩ := h
  exact ⟨event :: events, h⟩

theorem reports_congr (h : c'.relays = c.relays) : c'.Reports = c.Reports := by
  funext item
  rw [Reports, h]
  rfl

/-- A relay under the name reports on the connection that it has a lease of, if it reports. -/
theorem Reports.besides {relay : Relay} {i : ℕ} (h : c.Reports i)
    (hget : c.relays.get? name = some relay) (hitem : relay.item? = some item) :
    c.ReportsBesides name i ∨ i = item := by
  obtain ⟨other, cause, hother⟩ := h
  by_cases e : other = name
  · subst e
    rw [hget, Option.some.injEq] at hother
    rw [hother] at hitem
    exact Or.inr (Option.some.inj hitem)
  · exact Or.inl ⟨other, cause, e, hother⟩

/-- A relay that has not ended runs under a name that is not idle. -/
theorem Idle.ne {other : String} {relay : Relay} (hidle : c.Idle name)
    (hrelay : c.relays.get? other = some relay) (hitem : relay.item? = some item) : other ≠ name := by
  rintro rfl
  rw [hidle relay hrelay] at hitem
  simp at hitem

theorem Reports.besides_of_idle (h : c.Reports item) (hidle : c.Idle name) : c.ReportsBesides name item := by
  obtain ⟨other, cause, hother⟩ := h
  exact ⟨other, cause, hidle.ne hother rfl, hother⟩

theorem ReportsBesides.put (h : c.ReportsBesides name item) (relay : Relay)
    (hrelays : c'.relays = c.relays.put name relay) : c'.Reports item := by
  obtain ⟨other, cause, hne, hother⟩ := h
  exact ⟨other, cause, by rw [hrelays, Table.get?_put_of_ne _ _ hne, hother]⟩

theorem calls_giveBack (c : Client) (name : String) : (c.giveBack name).calls = c.calls :=
  (c.withPool_parts _).2.1

theorem relays_giveBack (c : Client) (name : String) : (c.giveBack name).relays = c.relays :=
  (c.withPool_parts _).2.2.1

theorem onOpening_parts (c : Client) (name : String) (event : Connection.Event) :
    (c.onOpening name event).pool = c.pool ∧ (c.onOpening name event).calls = c.calls ∧
      (c.onOpening name event).relays = c.relays := by
  rw [onOpening]
  split <;> exact ⟨rfl, rfl, rfl⟩

namespace Tended

/-! ### The end of a step -/

/-- A call moves on, with a lease if it exchanges its command. -/
theorem settleCall (h : Tended c p (some name) c.Reports) (hidle : c.Idle name) (call : Call) (phase : Phase)
    (hphase : ∀ item, phase.item? = some item → p.Leased name item) :
    Tended (c.setPhase name call phase) p none c.Reports := by
  refine ⟨h.pool, h.balanced, h.count, h.sure, h.fit, ?_, ?_, ?_⟩
  · intro other _ found item hfound hitem
    rcases Table.eq_or_of_get?_put hfound with ⟨rfl, rfl⟩ | ⟨hne, hfound⟩
    · exact hphase item hitem
    · exact h.calls other (fun e => hne (Option.some.inj e).symm) found item hfound hitem
  · intro other _ relay item hrelay hitem
    have hne := hidle.ne hrelay hitem
    exact h.relays other (fun e => hne (Option.some.inj e).symm) relay item hrelay hitem
  · intro other relay item hrelay hitem
    obtain ⟨found, hfound, hover⟩ := h.settled other relay item hrelay hitem
    exact ⟨found, (Table.get?_put_of_ne _ _ (hidle.ne hrelay hitem)).trans hfound, hover⟩

/-- A call that exchanges nothing may move on without a lease. -/
theorem moveCall (h : Tended c p (some name) c.Reports) (hidle : c.Idle name) (call : Call) {phase : Phase}
    (hphase : phase.item? = none) : (c.setPhase name call phase).TendedFrom p := by
  refine (h.settleCall hidle call phase fun item hitem => ?_).tendedFrom
  rw [hphase] at hitem
  simp at hitem

/-- A call stays as it is. -/
theorem idleCall (h : Tended c p (some name) c.Reports) (hidle : c.Idle name)
    (hget : c.calls.get? name = some call) (hphase : call.phase.item? = none) :
    Tended c p none c.Reports := by
  refine ⟨h.pool, h.balanced, h.count, h.sure, h.fit, ?_, ?_, h.settled⟩
  · intro other _ found item hfound hitem
    have hne : name ≠ other := by
      rintro rfl
      rw [hget, Option.some.injEq] at hfound
      rw [← hfound, hphase] at hitem
      simp at hitem
    exact h.calls other (fun e => hne (Option.some.inj e)) found item hfound hitem
  · intro other _ relay item hrelay hitem
    have hne := hidle.ne hrelay hitem
    exact h.relays other (fun e => hne (Option.some.inj e).symm) relay item hrelay hitem

/-- A relay moves on, with its lease if it has not ended. -/
theorem settleRelay {excused : ℕ → Prop} (h : Tended c p (some name) excused) (relay : Relay)
    (hcall : ∃ call, c.calls.get? name = some call ∧ call.phase.isOver = true)
    (hrelay : ∀ item, relay.item? = some item → p.Leased name item) :
    Tended { c with relays := c.relays.put name relay } p none excused := by
  obtain ⟨call, hget, hover⟩ := hcall
  refine ⟨h.pool, h.balanced, h.count, h.sure, h.fit, ?_, ?_, ?_⟩
  · intro other _ found item hfound hitem
    have hne : name ≠ other := by
      rintro rfl
      rw [hget, Option.some.injEq] at hfound
      rw [← hfound, Phase.item?_of_isOver hover] at hitem
      simp at hitem
    exact h.calls other (fun e => hne (Option.some.inj e)) found item hfound hitem
  · intro other _ found item hfound hitem
    rcases Table.eq_or_of_get?_put hfound with ⟨rfl, rfl⟩ | ⟨hne, hfound⟩
    · exact hrelay item hitem
    · exact h.relays other (fun e => hne (Option.some.inj e).symm) found item hfound hitem
  · intro other found item hfound hitem
    rcases Table.eq_or_of_get?_put hfound with ⟨rfl, rfl⟩ | ⟨hne, hfound⟩
    · exact ⟨call, hget, hover⟩
    · exact h.settled other found item hfound hitem

/-- Who has not answered has no relay. -/
theorem idle {busy : Option String} {excused : ℕ → Prop} (h : Tended c p busy excused)
    (hget : c.calls.get? name = some call) (hopen : call.phase.isOver = false) : c.Idle name := by
  intro relay hrelay
  by_contra hitem
  obtain ⟨item, hitem⟩ := Option.ne_none_iff_exists'.mp hitem
  obtain ⟨found, hfound, hover⟩ := h.settled name relay item hrelay hitem
  rw [hget, Option.some.injEq] at hfound
  rw [← hfound, hopen] at hover
  exact Bool.false_ne_true hover

/-! ### Calls -/

/-- A call exchanges its command: with its answer the lease is given back. -/
theorem exchangeOn (h : Tended c p (some name) c.Reports) (hidle : c.Idle name) (call : Call)
    (hlease : p.Leased name item) : (c.exchange name call item).TendedFrom p := by
  rw [Client.exchange]
  cases hx : (c.on item (.pollExchange name)).exchanged? item name with
  | none =>
    have hon := h.exchange_of_ne_error hlease fun cause => by simp [hx]
    exact (hon.settleCall hidle call (.exchanging item) fun _ e => Option.some.inj e ▸ hlease).tendedFrom
  | some result =>
    cases result with
    | ok outcome =>
      have hon := h.exchange_of_ne_error hlease fun cause => by simp [hx]
      have hback := (hon.mono fun _ => Or.inl).giveBack hlease
      have hrelays := (c.on item (.pollExchange name)).relays_giveBack name
      rw [← reports_congr (c := c) hrelays] at hback
      have hidle : Client.Idle _ name := fun relay hrelay => hidle relay (hrelays ▸ hrelay)
      exact (hback.moveCall hidle call rfl).of_step
    | error cause =>
      have hon := h.exchange hlease (.pollExchange name)
      have hback := hon.corrupt.giveBack (leased_corrupt hlease)
      have hrelays := ((c.on item (.pollExchange name)).corrupt name).relays_giveBack name
      rw [← reports_congr (c := c) hrelays] at hback
      have hidle : Client.Idle _ name := fun relay hrelay => hidle relay (hrelays ▸ hrelay)
      exact (hback.moveCall hidle call rfl).of_step.of_step

/-- A call uses the connection that it has a lease of, or leaves the lease to a relay. -/
theorem useConnection (h : Tended c p (some name) c.Reports) (hidle : c.Idle name) (call : Call)
    (hlease : p.Leased name item) : (c.useConnection name call item).TendedFrom p := by
  rw [Client.useConnection]
  split
  · have hon : Tended (c.on item (.startExchange name call.command streamCapacity)) p (some name) c.Reports :=
      h.quiet item rfl
    have hcall := hon.settleCall hidle call (.answered (.ok .stream)) fun _ e => by simp [Phase.item?] at e
    have hrelay := (hcall.start name).settleRelay (.exchanging item) ⟨_, Table.get?_put_self _ _ _, rfl⟩
      fun _ e => Option.some.inj e ▸ hlease
    have hreports : ∀ i, c.Reports i →
        Reports { c with relays := c.relays.put name (.exchanging item) } i := fun i hreports =>
      (hreports.besides_of_idle hidle).put (.exchanging item) rfl
    exact ⟨[], { hrelay.mono hreports with }⟩
  · have hon : Tended (c.on item (.startExchange name call.command 1)) p (some name) c.Reports :=
      h.quiet item rfl
    exact hon.exchangeOn hidle call hlease

/-- A call goes on after a step of its borrower. -/
theorem proceed (h : Tended c p (some name) c.Reports) (hget : c.calls.get? name = some call)
    (hopen : call.phase.isOver = false) (hphase : call.phase.item? = none) {report : Report}
    (hleased : ∀ item, report = .leased item → p.Leased name item) :
    (c.proceed name call report).TendedFrom p := by
  have hidle := h.idle hget hopen
  cases report with
  | pending => exact h.moveCall hidle call rfl
  | leased item => exact h.useConnection hidle call (hleased item rfl)
  | failed cause => exact h.moveCall hidle call rfl
  | absent => exact (h.idleCall hidle hget hphase).tendedFrom

/-- A call goes on after an operation of the pool for its borrower. -/
theorem proceed_withPool (h : Tended c p none c.Reports) (hget : c.calls.get? name = some call)
    (hopen : call.phase.isOver = false) (hphase : call.phase.item? = none) (event : Shared.Event)
    (hcarries : Shared.Carries c.creations (p.Comes name) name p (p.step event)) {report : Report}
    (hleased : ∀ item, report = .leased item → (p.step event).Leased name item) :
    ((c.withPool (.shared (p.step event))).proceed name call report).TendedFrom p := by
  obtain ⟨-, hcalls, hrelays, -⟩ := c.withPool_parts (.shared (p.step event))
  have hpool := (h.start name).withPool event hcarries fun other hne =>
    hcarries.leases other fun e => hne (congrArg some e.symm)
  rw [← reports_congr (c := c) hrelays] at hpool
  exact (hpool.proceed (hcalls ▸ hget) hopen hphase hleased).of_step

theorem pollCall (h : Tended c p none c.Reports) (hget : c.calls.get? name = some call) :
    (c.pollCall name call).TendedFrom p := by
  have hidle := h.idle hget
  obtain ⟨command, phase⟩ := call
  cases phase with
  | ready =>
    rw [Client.pollCall]
    dsimp only
    split
    · exact (h.start name).moveCall (hidle rfl) _ rfl
    · rw [Client.borrow, h.pool]
      refine h.proceed_withPool hget rfl rfl (.borrow c.creations name)
        (p.carries_borrow c.creations name) fun item e => ?_
      obtain ⟨slot, hlease⟩ := Shared.leased_borrow e
      exact ⟨_, hlease, rfl⟩
  | borrowing =>
    obtain ⟨hpool, hcalls, hrelays⟩ := c.onOpening_parts name (.pollOpening openingName)
    have hopening := h.onOpening name (Or.inl rfl)
    rw [← reports_congr (c := c) hrelays] at hopening
    rw [Client.pollCall, pollBorrow, hopening.pool]
    refine hopening.proceed_withPool (hcalls ▸ hget) rfl rfl (.poll _ name)
      (p.carries_poll _ name) fun item e => ?_
    obtain ⟨slot, hlease⟩ := Shared.leased_poll e
    exact ⟨_, hlease, rfl⟩
  | exchanging item =>
    exact (h.start name).exchangeOn (hidle rfl) _ (h.calls name (by simp) _ item hget rfl)
  | answered answer => exact h.tendedFrom
  | dropped => exact h.tendedFrom

theorem dropCall (h : Tended c p none c.Reports) (hget : c.calls.get? name = some call) :
    (c.dropCall name call).TendedFrom p := by
  have hidle := h.idle hget
  -- a call that was dropped exchanges nothing
  have hdrop : ∀ {c' : Client} {q : Shared}, Tended c' q (some name) c.Reports → c'.relays = c.relays →
      c.Idle name → (c'.setPhase name call .dropped).TendedFrom q := by
    intro c' q h' hrelays hidle
    rw [← reports_congr (c := c) hrelays] at h'
    have hidle : c'.Idle name := fun relay hrelay => hidle relay (hrelays ▸ hrelay)
    exact h'.moveCall hidle call rfl
  obtain ⟨command, phase⟩ := call
  cases phase with
  | ready => exact hdrop (h.start name) rfl (hidle rfl)
  | borrowing =>
    obtain ⟨-, -, hrelays⟩ := c.onOpening_parts name (.dropOpening openingName)
    have hopening := (h.onOpening name (Or.inr rfl)).start name
    have hcarries : Shared.Carries (c.onOpening name (.dropOpening openingName)).creations (p.Comes name) name
        p (p.step (.cancel name)) := p.carries_cancel _ name
    have hcancel := hopening.withPool (.cancel name) hcarries fun other hne =>
      hcarries.leases other fun e => hne (congrArg some e.symm)
    have hrelays := (withPool_parts _ (.shared (p.step (.cancel name)))).2.2.1.trans hrelays
    simp only [Client.dropCall, hopening.pool]
    exact (hdrop hcancel hrelays (hidle rfl)).of_step
  | exchanging item =>
    have hlease := h.calls name (by simp) _ item hget rfl
    have hon := (h.start name).exchange hlease (.dropExchange name)
    exact (hdrop (hon.giveBack hlease) (relays_giveBack _ name) (hidle rfl)).of_step
  | answered answer => exact h.tendedFrom
  | dropped => exact h.tendedFrom

/-! ### Relays -/

/-- A relay ends, and gives its lease back. -/
theorem endRelay (h : Tended c p (some name) fun i => c.ReportsBesides name i ∨ i = item)
    (hlease : p.Leased name item)
    (hcall : ∃ call, c.calls.get? name = some call ∧ call.phase.isOver = true) :
    (c.endRelay name item).TendedFrom p := by
  have hfinish : Tended (c.on item (.channel name .finish)) p (some name)
      fun i => c.ReportsBesides name i ∨ i = item := h.quiet item rfl
  have hback := hfinish.giveBack hlease
  have hcalls := (c.on item (.channel name .finish)).calls_giveBack name
  have hrelays := (c.on item (.channel name .finish)).relays_giveBack name
  have hover := hback.settleRelay .over (by rw [hcalls]; exact hcall) fun _ e => by simp [Relay.item?] at e
  refine Tended.tendedFrom (hover.mono fun i hreports => hreports.put .over ?_) |>.of_step
  exact congrArg (Table.put · name .over) hrelays

/-- A relay whose exchange failed reports, or waits for room in its stream. -/
theorem report (h : Tended c p (some name) fun i => c.ReportsBesides name i ∨ i = item)
    (hlease : p.Leased name item)
    (hcall : ∃ call, c.calls.get? name = some call ∧ call.phase.isOver = true)
    {channel : Channel (Except ClientError Item)} (hchannel : c.channel? item name = some channel)
    (cause : ClientError) : (c.report name item cause).TendedFrom p := by
  simp only [Client.report, hchannel]
  split
  · have hon : Tended (c.on item (.channel name (.offer (.error cause)))) p (some name)
        fun i => c.ReportsBesides name i ∨ i = item := h.quiet item rfl
    exact hon.endRelay hlease hcall
  · exact h.endRelay hlease hcall
  · have hwaits := h.settleRelay (.reporting item cause) hcall fun _ e => Option.some.inj e ▸ hlease
    refine Tended.tendedFrom (hwaits.mono fun i hreports => ?_)
    rcases hreports with hreports | rfl
    · exact hreports.put (.reporting item cause) rfl
    · exact ⟨name, cause, Table.get?_put_self _ _ _⟩

theorem pollRelay (h : Tended c p none c.Reports) {relay : Relay} (hget : c.relays.get? name = some relay) :
    (c.pollRelay name relay).TendedFrom p := by
  cases relay with
  | exchanging item =>
    have hlease := h.relays name (by simp) _ item hget rfl
    have hcall := h.settled name _ item hget rfl
    have hbusy := h.start name
    rw [Client.pollRelay]
    cases hx : (c.on item (.pollExchange name)).exchanged? item name with
    | none => exact (h.exchange_of_ne_error hlease fun cause => by simp [hx]).tendedFrom
    | some result =>
      cases result with
      | ok outcome =>
        have hon := hbusy.exchange_of_ne_error hlease fun cause => by simp [hx]
        exact (hon.mono fun i hreports => hreports.besides hget rfl).endRelay hlease hcall
      | error cause =>
        have hon := (hbusy.exchange hlease (.pollExchange name)).mono fun i hreports =>
          show c.ReportsBesides name i ∨ i = item from
            hreports.elim (fun hreports => hreports.besides hget rfl) Or.inr
        obtain ⟨channel, hchannel⟩ : ∃ channel,
            ((c.on item (.pollExchange name)).corrupt name).channel? item name = some channel := by
          obtain ⟨s, hs, hx⟩ := Option.bind_eq_some_iff.mp hx
          obtain ⟨x, hx, -⟩ := Option.bind_eq_some_iff.mp hx
          refine ⟨x.channel, Option.bind_eq_some_iff.mpr ⟨s, hs, ?_⟩⟩
          rw [Connection.Session.channel?, hx]
          rfl
        exact (hon.corrupt.report (leased_corrupt hlease) hcall hchannel cause).of_step
  | reporting item cause =>
    have hlease := h.relays name (by simp) _ item hget rfl
    have hcall := h.settled name _ item hget rfl
    rw [Client.pollRelay]
    cases hchannel : c.channel? item name with
    | none =>
      simp only [Client.report, hchannel]
      exact h.tendedFrom
    | some channel =>
      exact ((h.start name).mono fun i hreports => hreports.besides hget rfl).report hlease hcall hchannel cause
  | _ => exact h.tendedFrom

/-! ### Steps and runs -/

theorem channel (h : Tended c p none c.Reports) (item : ℕ) (name : String)
    (event : Channel.Event (Except ClientError Item)) :
    Tended (c.on item (.channel name event)) p none (c.on item (.channel name event)).Reports :=
  h.quiet item rfl

/-- Nothing here is about the consumers of streams. -/
theorem withStreams (h : Tended c p none c.Reports) (streams : Table Stream) :
    TendedFrom { c with streams } p := ⟨[], { h with }⟩

theorem startCall (h : Tended c p none c.Reports) (hnew : c.calls.has name = false) (command : Command) :
    Tended { c with calls := c.calls.put name ⟨command, .ready⟩ } p none c.Reports := by
  refine ⟨h.pool, h.balanced, h.count, h.sure, h.fit, ?_, h.relays, ?_⟩
  · intro other hother call item hcall hitem
    rcases Table.eq_or_of_get?_put hcall with ⟨-, rfl⟩ | ⟨-, hcall⟩
    · simp [Phase.item?] at hitem
    · exact h.calls other hother call item hcall hitem
  · intro other relay item hrelay hitem
    obtain ⟨call, hcall, hover⟩ := h.settled other relay item hrelay hitem
    have hne : other ≠ name := by
      rintro rfl
      rw [Table.has_eq_false_iff, hcall] at hnew
      simp at hnew
    exact ⟨call, (Table.get?_put_of_ne _ _ hne).trans hcall, hover⟩

theorem dispose (h : Tended c p none c.Reports) : c.dispose.TendedFrom p := by
  have hrelays := (c.withPool_parts (.shared (p.step .dispose))).2.2.1
  have hpool := h.withPool .dispose (p.carries_dispose _ "") fun _ _ => rfl
  rw [← reports_congr (c := c) hrelays] at hpool
  rw [Client.dispose, h.pool]
  exact hpool.tendedFrom.of_step

theorem step (h : Tended c p none c.Reports) (event : Event) : (c.step event).TendedFrom p := by
  cases event with
  | start name command =>
    rw [Client.step]
    split
    · exact h.tendedFrom
    · next hnew => exact (h.startCall (by simpa using hnew) command).tendedFrom
  | poll name =>
    rw [Client.step]
    split
    · next hget => exact h.pollCall hget
    · exact h.tendedFrom
  | drop name =>
    rw [Client.step]
    split
    · next hget => exact h.dropCall hget
    · exact h.tendedFrom
  | pollRelay name =>
    rw [Client.step]
    split
    · next hget => exact h.pollRelay hget
    · exact h.tendedFrom
  | next name =>
    rw [Client.step, Client.next]
    split
    · exact h.tendedFrom
    · exact (h.quiet _ rfl).tendedFrom
  | collect name =>
    rw [Client.step, Client.collect]
    split
    · exact h.tendedFrom
    · exact h.withStreams _
  | pollCollect name =>
    rw [Client.step, Client.pollCollect]
    split
    · exact h.tendedFrom
    · next stream _ =>
      split
      · split
        · exact (h.channel stream.item name .abandon).withStreams _
        · exact (h.channel stream.item name .drain).withStreams _
      · exact h.tendedFrom
  | leave name =>
    rw [Client.step, Client.leave]
    split
    · exact h.tendedFrom
    · next stream _ => exact (h.channel stream.item name .abandon).withStreams _
  | dispose => exact h.dispose
  | advance time wall => exact (h.advance time wall).tendedFrom
  | network item event => exact (h.quiet item rfl).tendedFrom

theorem run (h : Tended c p none c.Reports) (events : List Event) : (c.run events).TendedFrom p := by
  induction events generalizing c p with
  | nil => exact h.tendedFrom
  | cons event events ih =>
    obtain ⟨ops, hstep⟩ := h.step event
    obtain ⟨more, hrun⟩ := ih hstep
    refine ⟨ops ++ more, ?_⟩
    rw [Shared.run_append]
    exact hrun

/-- A new client with a shared pool. -/
theorem ofConfig {config : Config} {dial : Dial} {wall : Instant} (hpipelining : config.enablePipelining = true)
    (hclient : Client.ofConfig config dial wall = .ok c) :
    Tended c (.ofOptions "Connection" ⟨config.maxConnections, config.maxConcurrentRequests⟩) none
      c.Reports := by
  rw [Client.ofConfig] at hclient
  split at hclient
  · simp at hclient
  · rw [← Except.ok.inj hclient]
    refine ⟨?_, .ofOptions _ _, rfl, ?_, ?_, ?_, ?_, ?_⟩
    · simp only [poolOf, hpipelining, if_true]
    · exact fun _ _ _ hget => by simp [Shared.ofOptions] at hget
    · exact fun _ hs => by simp [Shared.ofOptions] at hs
    · exact fun _ _ _ _ hget => by simp at hget
    · exact fun _ _ _ _ hget => by simp at hget
    · exact fun _ _ _ hget => by simp at hget

end Tended

/-- From now on no borrower is assigned a unit of the slot with this connection: neither the one that starts
next, nor, in a step, one that had none before. -/
def KeepsBack (c : Client) (item : ℕ) : Prop :=
  ∀ more, match c.pool, (c.run more).pool with
    | .shared p, .shared q => ∀ s ∈ p.slots, s.made = some (.ok item) →
      (∀ r, q.assign? ≠ some (s.id, r)) ∧ ∀ name, q.Has name s.id → p.Has name s.id
    | _, _ => False

theorem Tended.keepsBack (h : Tended c p none c.Reports) (hbroken : c.accepts item = false)
    (hsilent : ¬ c.Reports item) : c.KeepsBack item := by
  intro more
  obtain ⟨ops, hrun⟩ := h.run more
  rw [h.pool, hrun.pool]
  intro s hs hmade
  -- the slot takes no borrowers any more
  have hretired : s.retired = true := by
    by_contra hr
    rw [Bool.not_eq_true] at hr
    rcases h.fit s hs hr item hmade with hopen | hreports
    · rw [hbroken] at hopen
      exact Bool.false_ne_true hopen
    · exact hsilent hreports
  have hshut := h.balanced.shut_of_retired hs hretired
  have hkeeps := h.balanced.books.keepsShut_run h.balanced.single ops
  refine ⟨fun r hassign => ?_, hkeeps.has s.id hshut⟩
  have hafter := (Shared.KeepsShut.assign? hassign).shut s.id (hkeeps.shut s.id hshut)
  exact Shared.not_shut_of_assign? hassign hafter

/-- **A connection that is not open is not lent again**, from the moment on when no relay waits to report that
its exchange on the connection failed. -/
theorem keepsBack_of_not_reports {config : Config} {dial : Dial} {wall : Instant} {start : Client}
    (hpipelining : config.enablePipelining = true) (hclient : ofConfig config dial wall = .ok start)
    (events : List Event) {item : ℕ} (hbroken : (start.run events).accepts item = false)
    (hsilent : ¬ (start.run events).Reports item) : (start.run events).KeepsBack item := by
  obtain ⟨ops, h⟩ := (Tended.ofConfig hpipelining hclient).run events
  exact h.keepsBack hbroken hsilent

/-- One connection for two requests at a time. -/
def twoRequests : Config := { maxConnections := 1, maxConcurrentRequests := 2 }

/-- A client with that configuration, before its first call. -/
def pair : Client where
  endpoint := ⟨"127.0.0.1", 11211⟩
  connectLimit := some (.ofMillis 2000)
  receiveLimit := some (.ofMillis 2000)
  dial := .established
  clocks := ⟨0, .ofParts 0 0⟩
  pool := poolOf twoRequests
  connections := []
  calls := []
  relays := []
  streams := []

/-- Two retrievals share a connection, and the reply to the first makes no sense. -/
def nonsense : List Event :=
  [.start "a" (.retrieve .get "k"), .start "b" (.retrieve .get "k"), .poll "a", .poll "b",
    .network 0 (.arrive (Bytes.ofText "?\r\n")), .poll "a"]

/-- The second retrieval still has its lease of the connection that the first one broke; nobody else gets
one. -/
theorem keepsBack_of_nonsense : ofConfig twoRequests .established (.ofParts 0 0) = .ok pair ∧
    (pair.run nonsense).accepts 0 = false ∧ (pair.run nonsense).KeepsBack 0 := by
  have hclient : ofConfig twoRequests .established (.ofParts 0 0) = .ok pair := rfl
  have hbroken : (pair.run nonsense).accepts 0 = false := by decide +kernel
  have hrelays : (pair.run nonsense).relays = [] := by decide +kernel
  refine ⟨hclient, hbroken, keepsBack_of_not_reports rfl hclient nonsense hbroken ?_⟩
  rintro ⟨name, cause, hget⟩
  simp [hrelays] at hget

/-- A retrieval of several keys whose consumer receives nothing: sixteen items fill its stream, and what follows
them makes no sense. -/
def slowConsumer : List Event :=
  [.start "m" (.retrieveMany .get ["k"]), .poll "m", .pollRelay "m",
    .network 0 (.arrive ((List.replicate 16 (Bytes.ofText "VALUE k 0 0\r\n\r\n")).flatten ++
      Bytes.ofText "?\r\n")), .pollRelay "m"]

/-- The exchange of the slow consumer has failed and its connection has faulted, but its relay cannot report
that. The slot takes borrowers, and the next call is lent the faulted connection and fails on it. -/
theorem not_keepsBack_of_slow_consumer : ofConfig twoRequests .established (.ofParts 0 0) = .ok pair ∧
    (pair.run slowConsumer).connections.map (·.connection.lifecycle) = [.faulted] ∧
    ¬ (pair.run slowConsumer).KeepsBack 0 ∧
    ((pair.run slowConsumer).run [.start "n" (.retrieve .get "k"), .poll "n"]).answered? "n" =
      some (.error (.invalidState .faulted)) := by
  refine ⟨rfl, by decide +kernel, fun hkeeps => ?_, by decide +kernel⟩
  have hassign : (match (pair.run slowConsumer).pool with
      | .shared p => p.slots.any fun s => s.made = some (.ok 0) ∧ p.assign?.map (·.1) = some s.id
      | .exclusive _ => false) = true := by decide +kernel
  have hnow := hkeeps []
  rw [run_nil] at hnow
  split at hassign
  · next p hpool =>
    rw [hpool] at hnow
    obtain ⟨s, hs, hfound⟩ := List.any_eq_true.mp hassign
    obtain ⟨hmade, hfirst⟩ := of_decide_eq_true hfound
    obtain ⟨⟨slot, r⟩, hassigned, rfl⟩ := Option.map_eq_some_iff.mp hfirst
    exact (hnow s hs hmade).1 r hassigned
  · simp at hassign

end MemcachedClient.Client
