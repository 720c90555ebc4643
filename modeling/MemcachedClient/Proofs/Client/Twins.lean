import MemcachedClient.Proofs.Client.Standing
import MemcachedClient.Proofs.Pool.Alike

/-!
# Twins

Two clients are twins if they have everything in common but their pools and calls, and the pools are alike (`Twins`):
one of them lends a connection to one call at a time, the other one to several. What a call, its relay or its consumer
does leads from twins to twins, as long as no other call makes use of a pool.

The calls of twins are the same, but for those that failed because no connection could be opened for them: the client
that shares connections wraps the error (`asShared`, `recast`).
-/

namespace MemcachedClient.Client

open Pool

/-- What becomes, in a client that shares connections, of the answer of a call that failed because no connection could
be opened for it: the error is wrapped. Other answers are the same. -/
def asShared (c : Client) (name : String) : Except ClientError Answer → Except ClientError Answer
  | .ok answer => .ok answer
  | .error cause =>
    if !c.hasExchanged name && c.hasFailedToOpen cause then .error (.poolCreation "Connection" cause)
    else .error cause

/-- Where a call is in a client that shares connections. -/
def recast (c : Client) (name : String) : Phase → Phase
  | .answered answer => .answered (c.asShared name answer)
  | phase => phase

/-- The call under a name is in one client where it is in the other one, which shares connections. -/
def Told (name : String) (c d : Client) : Prop :=
  d.calls.get? name = (c.calls.get? name).map fun call => { call with phase := c.recast name call.phase }

/-- What a call is doing with a pool. -/
def Phase.role? : Phase → Option Role
  | borrowing => some .borrowing
  | exchanging item => some (.holding item false)
  | _ => none

/-- What a relay is doing with a pool. -/
def Relay.role? : Relay → Option Role
  | .exchanging item => some (.holding item false)
  | .reporting item _ => some (.holding item true)
  | .over => none

/-- What the call or the relay under a name is doing with the pool. -/
def role? (c : Client) (name : String) : Option Role :=
  ((c.relays.get? name).bind Relay.role?).or ((c.calls.get? name).bind (·.phase.role?))

/-- Two clients that have everything in common but their pools and calls, with pools that are alike. -/
structure Twins (c : Client) (u : Use) (d : Client) : Prop where
  /-- The pools are alike. -/
  pools : Alike "Connection" u c.pool d.pool
  /-- The rest is the same. -/
  same : d = { c with pool := d.pool, calls := d.calls }

variable {c d : Client} {u : Use} {name : String} {slot item : ℕ} {corrupted : Bool}

namespace Twins

theorem connections (h : Twins c u d) : d.connections = c.connections := by rw [h.same]

theorem relays (h : Twins c u d) : d.relays = c.relays := by rw [h.same]

theorem streams (h : Twins c u d) : d.streams = c.streams := by rw [h.same]

theorem accepts (h : Twins c u d) : d.accepts = c.accepts := by
  rw [h.same]
  rfl

theorem creations (h : Twins c u d) : d.creations = c.creations := by
  rw [h.same]
  rfl

theorem exchanged? (h : Twins c u d) (item : ℕ) (name : String) : d.exchanged? item name = c.exchanged? item name := by
  rw [Client.exchanged?, Client.exchanged?, h.connections]

theorem channel? (h : Twins c u d) (item : ℕ) (name : String) : d.channel? item name = c.channel? item name := by
  rw [Client.channel?, Client.channel?, h.connections]

theorem on (h : Twins c u d) (item : ℕ) (event : Connection.Event) : Twins (c.on item event) u (d.on item event) :=
  ⟨h.pools, congrArg (·.on item event) h.same⟩

theorem setPhase (h : Twins c u d) (name : String) (call call' : Call) (phase phase' : Phase) :
    Twins (c.setPhase name call phase) u (d.setPhase name call' phase') :=
  ⟨h.pools, congrArg (fun e : Client => { e with calls := d.calls.put name { call' with phase := phase' } }) h.same⟩

theorem putRelay (h : Twins c u d) (name : String) (relay : Relay) :
    Twins { c with relays := c.relays.put name relay } u { d with relays := d.relays.put name relay } :=
  ⟨h.pools, congrArg (fun e : Client => { e with relays := e.relays.put name relay }) h.same⟩

theorem putStream (h : Twins c u d) (name : String) (stream : Stream) :
    Twins { c with streams := c.streams.put name stream } u { d with streams := d.streams.put name stream } :=
  ⟨h.pools, congrArg (fun e : Client => { e with streams := e.streams.put name stream }) h.same⟩

theorem advance (h : Twins c u d) (time : Duration) (wall : Instant) : Twins (c.advance time wall) u (d.advance time wall) :=
  ⟨h.pools, congrArg (·.advance time wall) h.same⟩

theorem closeAll (h : Twins c u d) (items : List ℕ) :
    Twins (items.foldl (fun c item => c.on item .close) c) u (items.foldl (fun c item => c.on item .close) d) := by
  induction items generalizing c d with
  | nil => exact h
  | cons item items ih => exact ih (h.on item .close)

/-- The same connections are opened and closed. -/
theorem withPool (h : Twins c u d) {u' : Use} {p q : Pool} (h' : Alike "Connection" u' p q) :
    Twins (c.withPool p) u' (d.withPool q) := by
  obtain ⟨hpools, hsame⟩ := h
  generalize d.pool = before at hpools hsame
  generalize d.calls = calls at hsame
  subst hsame
  rw [Client.withPool, Client.withPool]
  rw [show q.closed.drop before.closed.length = p.closed.drop c.pool.closed.length by rw [h'.closed, hpools.closed],
    h'.created]
  exact closeAll ⟨h', rfl⟩ _

theorem onOpening (h : Twins c (.creating name slot item) d) (event : Connection.Event) :
    Twins (c.onOpening name event) (.creating name slot item) (d.onOpening name event) := by
  obtain ⟨hp, hq⟩ := h.pools.creating?
  rw [Client.onOpening, Client.onOpening, hp, hq]
  exact h.on item event

/-- A lease ends, and nobody has anything. -/
theorem giveBack (h : Twins c (.lending name slot item corrupted) d) :
    ∃ u, u.name? = none ∧ Twins (c.giveBack name) u (d.giveBack name) := by
  obtain ⟨u, hfree, hpools⟩ := h.pools.release c.accepts
  refine ⟨u, hfree, ?_⟩
  rw [Client.giveBack, Client.giveBack, h.accepts]
  exact h.withPool hpools

theorem corrupt (h : Twins c (.lending name slot item corrupted) d) :
    Twins (c.corrupt name) (.lending name slot item true) (d.corrupt name) :=
  ⟨h.pools.corrupt, congrArg (fun e : Client => { e with pool := (d.pool.corrupt name).2 }) h.same⟩

end Twins

/-! ### The call under a name -/

section told

variable {starts finishes : Bool} {name? : Option String} {c' d' : Client}

theorem asShared_of_hasExchanged (h : c.hasExchanged name = true) (answer : Except ClientError Answer) :
    c.asShared name answer = answer := by
  cases answer with
  | ok answer => rfl
  | error cause => simp [asShared, h]

/-- A failure for which no connection fails to open is not wrapped. -/
theorem Standing.asShared_of_not_failsOpening (h : c.Standing) {cause : ClientError} (hcause : ¬ cause.FailsOpening) :
    c.asShared name (.error cause) = .error cause := by
  have hfailed : c.hasFailedToOpen cause = false := by
    rw [hasFailedToOpen, List.any_eq_false]
    intro s hs hopened
    exact hcause ((h.explained s hs).failsOpening (of_decide_eq_true hopened))
  simp [asShared, hfailed]

theorem asShared_of_hasFailedToOpen (hnew : c.hasExchanged name = false) {cause : ClientError}
    (h : c.hasFailedToOpen cause = true) :
    c.asShared name (.error cause) = .error (.poolCreation "Connection" cause) := by
  simp [asShared, hnew, h]

/-- Whether an answer is wrapped is settled when it is given. -/
theorem asShared_eq (h : c.Standing) (h' : c'.Standing) (hgoes : Goes name? starts finishes c c')
    (hname : name? ≠ some name ∨ starts = false) {answer : Except ClientError Answer}
    (hanswer : c.answered? name = some answer) : c'.asShared name answer = c.asShared name answer := by
  have hsame := hgoes.hasExchanged_eq hname
  cases hexchanged : c.hasExchanged name with
  | true => rw [asShared_of_hasExchanged hexchanged, asShared_of_hasExchanged (hsame.trans hexchanged)]
  | false =>
    cases answer with
    | ok answer => rfl
    | error cause =>
      rcases (h.calls name).failed cause hanswer with hhas | hfailed | hother
      · rw [hexchanged] at hhas
        exact absurd hhas Bool.false_ne_true
      · rw [asShared_of_hasFailedToOpen hexchanged hfailed,
          asShared_of_hasFailedToOpen (hsame.trans hexchanged) (hgoes.hasFailedToOpen hfailed)]
      · rw [h.asShared_of_not_failsOpening hother, h'.asShared_of_not_failsOpening hother]

theorem Told.goes (h : Told name c d) (hstanding : c.Standing) (h' : c'.Standing)
    (hgoes : Goes name? starts finishes c c') (hname : name? ≠ some name ∨ starts = false)
    (hc : c'.calls.get? name = c.calls.get? name) (hd : d'.calls.get? name = d.calls.get? name) : Told name c' d' := by
  rw [Told, hc, hd, h]
  refine Option.map_congr fun call hget => ?_
  obtain ⟨command, phase⟩ := call
  cases phase with
  | answered answer =>
    have hanswer : c.answered? name = some answer := by rw [answered?, hget]
    simp only [recast, asShared_eq hstanding h' hgoes hname hanswer]
  | ready | borrowing | exchanging | dropped => rfl

theorem told_setPhase (call : Call) {phase phase' : Phase} (h : c.recast name phase = phase') :
    Told name (c.setPhase name call phase) (d.setPhase name call phase') := by
  rw [Told, setPhase, setPhase, Table.get?_put_self, Table.get?_put_self, Option.map_some]
  exact congrArg (fun phase => some { call with phase }) h.symm

end told

/-! ### What a call does -/

/-- Twins whose pools nobody makes use of but the call or the relay under one name. -/
structure Lands (name : String) (u : Use) (c d : Client) : Prop where
  /-- They are twins. -/
  twins : Twins c u d
  /-- Nobody else makes use of the pools. -/
  alone : ∀ other, other ≠ name → u.role? other = none
  /-- The call or the relay makes that use of the pools. -/
  role : c.role? name = u.role? name

section lands

theorem role?_of_idle (hidle : c.Idle name) : c.role? name = (c.calls.get? name).bind (·.phase.role?) := by
  have hrelay : (c.relays.get? name).bind Relay.role? = none := by
    cases hget : c.relays.get? name with
    | none => rfl
    | some relay =>
      have hover := hidle relay hget
      cases relay with
      | exchanging | reporting => simp [Relay.item?] at hover
      | _ => rfl
  rw [role?, hrelay, Option.none_or]

theorem role?_of_relay {relay : Relay} {role : Role} (hget : c.relays.get? name = some relay)
    (hrole : relay.role? = some role) : c.role? name = some role := by
  rw [role?, hget, Option.bind_some, hrole, Option.some_or]

theorem alone_of_name? (h : u.name? = none ∨ u.name? = some name) : ∀ other, other ≠ name → u.role? other = none := by
  intro other hne
  refine Use.role?_eq_none fun hother => ?_
  rcases h with h | h
  · rw [h] at hother
    simp at hother
  · rw [h] at hother
    exact hne (Option.some.inj hother).symm

/-- A call moves on. -/
theorem lands_setPhase (h : Twins c u d) (hidle : c.Idle name) (hname : u.name? = none ∨ u.name? = some name)
    (call call' : Call) {phase : Phase} (phase' : Phase) (hrole : phase.role? = u.role? name) :
    Lands name u (c.setPhase name call phase) (d.setPhase name call' phase') where
  twins := h.setPhase name call call' phase phase'
  alone := alone_of_name? hname
  role := by
    have hidle : (c.setPhase name call phase).Idle name := hidle
    rw [role?_of_idle hidle, setPhase, Table.get?_put_self]
    exact hrole

/-- A call exchanges its command, under its lease. -/
theorem lands_exchange (h : Twins c (.lending name slot item false) d) (hidle : c.Idle name) (call : Call) :
    ∃ u, Lands name u (c.exchange name call item) (d.exchange name call item) ∧
      Told name (c.exchange name call item) (d.exchange name call item) := by
  have hon := h.on item (.pollExchange name)
  have hsame := hon.exchanged? item name
  rw [exchange, exchange, hsame]
  cases hresult : (c.on item (.pollExchange name)).exchanged? item name with
  | none =>
    refine ⟨_, lands_setPhase hon hidle (Or.inr rfl) call call _ (Use.role?_lending ..).symm, told_setPhase call rfl⟩
  | some result =>
    cases result with
    | ok outcome =>
      obtain ⟨u, hfree, hback⟩ := hon.giveBack
      refine ⟨u, lands_setPhase hback ?_ (Or.inl hfree) call call _ (Use.role?_of_name?_eq_none hfree name).symm,
        told_setPhase call rfl⟩
      rw [Idle, relays_giveBack]
      exact hidle
    | error cause =>
      obtain ⟨u, hfree, hback⟩ := hon.corrupt.giveBack
      refine ⟨u, lands_setPhase hback ?_ (Or.inl hfree) call call _ (Use.role?_of_name?_eq_none hfree name).symm,
        told_setPhase call ?_⟩
      · rw [Idle, relays_giveBack]
        exact hidle
      · have hgoes : Goes (some name) false false ((c.on item (.pollExchange name)).corrupt name)
            (((c.on item (.pollExchange name)).corrupt name).giveBack name) := goes_giveBack ..
        rw [recast, asShared_of_hasExchanged (hgoes.hasExchanged (hasExchanged_of_exchanged? hresult))]

/-- A call that was lent a connection uses it, or leaves the lease to its relay. -/
theorem lands_useConnection (h : Twins c (.lending name slot item false) d) (hidle : c.Idle name) (call : Call) :
    ∃ u, Lands name u (c.useConnection name call item) (d.useConnection name call item) ∧
      Told name (c.useConnection name call item) (d.useConnection name call item) := by
  rw [useConnection, useConnection]
  cases hcommand : call.command with
  | retrieveMany verb keys =>
    have hon := h.on item (.startExchange name (.retrieveMany verb keys) streamCapacity)
    have htwins := ((hon.putRelay name (.exchanging item)).putStream name ⟨item, .stream, none⟩).setPhase name call call
      (.answered (.ok .stream)) (.answered (.ok .stream))
    refine ⟨_, ⟨htwins, alone_of_name? (Or.inr rfl), ?_⟩, told_setPhase call rfl⟩
    rw [Use.role?_lending]
    exact role?_of_relay (Table.get?_put_self _ _ _) rfl
  | _ => exact lands_exchange (h.on item _) hidle call

/-- A call goes on after a step of its borrower. -/
theorem lands_proceed (h : Twins c u d) (hstanding : c.Standing) (hidle : c.Idle name)
    (hfresh : c.hasExchanged name = false) (call : Call) {made : Creations} {created : ℕ} {report report' : Report}
    (hmeets : Meets "Connection" made name created u report report')
    (hfailed : ∀ item cause, item < created → made item = some (.error cause) → c.hasFailedToOpen cause = true) :
    ∃ u, Lands name u (c.proceed name call report) (d.proceed name call report') ∧
      Told name (c.proceed name call report) (d.proceed name call report') := by
  cases hmeets with
  | pending slot item =>
    exact ⟨_, lands_setPhase h hidle (Or.inr rfl) call call _ (Use.role?_creating ..).symm, told_setPhase call rfl⟩
  | leased slot item => exact lands_useConnection h hidle call
  | disposed slot =>
    have hsame : c.asShared name (.error .disposed) = .error .disposed :=
      hstanding.asShared_of_not_failsOpening (by rintro ⟨⟩)
    refine ⟨_, lands_setPhase h hidle (Or.inl rfl) call call _ rfl, told_setPhase call ?_⟩
    rw [recast, hsame]
  | failed started failed =>
    refine ⟨_, lands_setPhase h hidle (Or.inl rfl) call call _ rfl, told_setPhase call ?_⟩
    rw [recast, asShared_of_hasFailedToOpen hfresh (hfailed _ _ started failed)]

/-- A call whose borrower takes a step. -/
theorem lands_withPool {p q : Report × Pool} (h : Twins c u d) (hstanding : c.Standing) (hidle : c.Idle name)
    (hfresh : c.hasExchanged name = false) (call : Call)
    (hagree : Agree "Connection" c.creations name p q) :
    ∃ u, Lands name u ((c.withPool p.2).proceed name call p.1) ((d.withPool q.2).proceed name call q.1) ∧
      Told name ((c.withPool p.2).proceed name call p.1) ((d.withPool q.2).proceed name call q.1) ∧
      ((c.withPool p.2).proceed name call p.1).Standing := by
  obtain ⟨report, p⟩ := p
  obtain ⟨report', q⟩ := q
  obtain ⟨u', hpools, hmeets⟩ := hagree
  have hgoes : Goes (some name) false false c (c.withPool p) := .withPool c p
  have hfresh' : (c.withPool p).hasExchanged name = false := (hgoes.hasExchanged_eq (Or.inr rfl)).trans hfresh
  have hstanding' := hstanding.withPool p
  have hfailed : ∀ item cause, item < p.created → c.creations item = some (.error cause) →
      (c.withPool p).hasFailedToOpen cause = true := fun _ _ => Standing.hasFailedToOpen_withPool
  have hidle' : (c.withPool p).Idle name := by
    rw [Idle, (c.withPool_parts p).2.2.1]
    exact hidle
  obtain ⟨u'', hlands, htold⟩ := lands_proceed (h.withPool hpools) hstanding' hidle' hfresh' call hmeets hfailed
  refine ⟨u'', hlands, htold, hstanding'.proceed hfresh' call ?_ fun cause hcause => ?_⟩
  · rintro rfl
    cases hmeets
  · obtain rfl : report = .failed cause := hcause
    cases hmeets with
    | disposed => exact Or.inr (by rintro ⟨⟩)
    | failed started failed => exact Or.inl (hfailed _ _ started failed)

/-- A call runs on. -/
theorem lands_pollCall (h : Twins c u d) (hstanding : c.Standing) (hidle : c.Idle name) {call : Call}
    (hget : c.calls.get? name = some call) (hopen : call.phase.isOver = false)
    (hready : call.phase = .ready → u.name? = none) (hrole : call.phase.role? = u.role? name) :
    ∃ u, Lands name u (c.pollCall name call) (d.pollCall name call) ∧
      Told name (c.pollCall name call) (d.pollCall name call) ∧ (c.pollCall name call).Standing := by
  have hfresh : call.phase = .ready ∨ call.phase = .borrowing → c.hasExchanged name = false := by
    intro hphase
    refine (hstanding.calls name).fresh fun found hfound => ?_
    rw [hget, Option.some.injEq] at hfound
    rwa [← hfound]
  obtain ⟨command, phase⟩ := call
  cases phase with
  | ready =>
    have hfree := hready rfl
    have hfresh := hfresh (Or.inl rfl)
    rw [pollCall, pollCall]
    dsimp only
    split
    · next cause _ =>
      have hsame : c.asShared name (.error (.validation cause)) = .error (.validation cause) :=
        hstanding.asShared_of_not_failsOpening (by rintro ⟨⟩)
      have hproceed : (c.proceed name ⟨command, .ready⟩ (.failed (.validation cause))).Standing := by
        refine hstanding.proceed hfresh _ (by simp) fun other hother => Or.inr ?_
        rw [← Report.failed.inj hother]
        rintro ⟨⟩
      refine ⟨u, lands_setPhase h hidle (Or.inl hfree) _ _ _ hrole, told_setPhase _ ?_, hproceed⟩
      rw [recast, hsame]
    · have hagree := h.pools.borrow hfree c.creations name
      rw [borrow, borrow, h.creations]
      exact lands_withPool h hstanding hidle hfresh _ hagree
  | borrowing =>
    obtain ⟨slot, item, rfl⟩ := Use.eq_creating hrole.symm
    have hopening := h.onOpening (.pollOpening openingName)
    have hgoes : Goes (some name) false false c (c.onOpening name (.pollOpening openingName)) :=
      goes_onOpening c name (by trivial)
    have hidle' : (c.onOpening name (.pollOpening openingName)).Idle name := by
      rw [Idle, (c.onOpening_parts name _).2.2]
      exact hidle
    have hagree := hopening.pools.poll (c.onOpening name (.pollOpening openingName)).creations
    rw [pollCall, pollCall]
    dsimp only
    rw [pollBorrow, pollBorrow, hopening.creations]
    exact lands_withPool hopening (hstanding.onOpening name (by trivial)) hidle'
      ((hgoes.hasExchanged_eq (Or.inr rfl)).trans (hfresh (Or.inr rfl))) _ hagree
  | exchanging item =>
    obtain ⟨slot, rfl⟩ := Use.eq_lending hrole.symm
    obtain ⟨u, hlands, htold⟩ := lands_exchange h hidle ⟨command, .exchanging item⟩
    exact ⟨u, hlands, htold, hstanding.exchange name _ item⟩
  | answered answer => simp [Phase.isOver] at hopen
  | dropped => simp [Phase.isOver] at hopen

/-- A call that makes use of the pool is dropped. -/
theorem lands_dropCall (h : Twins c u d) (hidle : c.Idle name) {call : Call} (hopen : call.phase.role?.isSome = true)
    (hrole : call.phase.role? = u.role? name) :
    ∃ u, Lands name u (c.dropCall name call) (d.dropCall name call) ∧
      Told name (c.dropCall name call) (d.dropCall name call) := by
  obtain ⟨command, phase⟩ := call
  cases phase with
  | borrowing =>
    obtain ⟨slot, item, rfl⟩ := Use.eq_creating hrole.symm
    have hopening := h.onOpening (.dropOpening openingName)
    obtain ⟨slot, hpools⟩ := hopening.pools.cancel
    refine ⟨_, lands_setPhase (hopening.withPool hpools) ?_ (Or.inl rfl) _ _ _ rfl, told_setPhase _ rfl⟩
    rw [Idle, (Client.withPool_parts _ _).2.2.1, (c.onOpening_parts name _).2.2]
    exact hidle
  | exchanging item =>
    obtain ⟨slot, rfl⟩ := Use.eq_lending hrole.symm
    obtain ⟨u, hfree, hback⟩ := (h.on item (.dropExchange name)).giveBack
    refine ⟨u, lands_setPhase hback ?_ (Or.inl hfree) _ _ _ (Use.role?_of_name?_eq_none hfree name).symm,
      told_setPhase _ rfl⟩
    rw [Idle, relays_giveBack]
    exact hidle
  | ready | answered | dropped => simp [Phase.role?] at hopen

/-! ### What a relay does -/

/-- An exchange that has ended has its channel. -/
theorem channel?_ne_none {result : Except ClientError Outcome} (h : c.exchanged? item name = some result) :
    c.channel? item name ≠ none := by
  obtain ⟨s, hs, hresult⟩ := Option.bind_eq_some_iff.mp h
  obtain ⟨x, hx, -⟩ := Option.bind_eq_some_iff.mp hresult
  simp [Client.channel?, hs, Connection.Session.channel?, hx]

/-- A relay ends, and its lease with it. -/
theorem lands_endRelay (h : Twins c (.lending name slot item corrupted) d)
    (hover : (c.calls.get? name).bind (·.phase.role?) = none) :
    ∃ u, Lands name u (c.endRelay name item) (d.endRelay name item) := by
  obtain ⟨u, hfree, hback⟩ := (h.on item (.channel name .finish)).giveBack
  refine ⟨u, hback.putRelay name .over, alone_of_name? (Or.inl hfree), ?_⟩
  rw [Use.role?_of_name?_eq_none hfree, role?, endRelay]
  simp only [Table.get?_put_self, Option.bind_some, Relay.role?, Option.none_or, calls_giveBack]
  exact hover

/-- A relay reports that its exchange has failed, or waits until it can. -/
theorem lands_report (h : Twins c (.lending name slot item true) d)
    (hover : (c.calls.get? name).bind (·.phase.role?) = none) (cause : ClientError)
    (hchannel : c.channel? item name = none → c.role? name = some (.holding item true)) :
    ∃ u, Lands name u (c.report name item cause) (d.report name item cause) := by
  rw [report, report, h.channel?]
  split
  · next hnone =>
    exact ⟨_, h, alone_of_name? (Or.inr rfl), (hchannel hnone).trans (Use.role?_lending ..).symm⟩
  · split
    · exact lands_endRelay (h.on item _) hover
    · exact lands_endRelay h hover
    · refine ⟨_, h.putRelay name (.reporting item cause), alone_of_name? (Or.inr rfl), ?_⟩
      rw [Use.role?_lending]
      exact role?_of_relay (Table.get?_put_self _ _ _) rfl

theorem lands_pollRelay (h : Twins c u d) {relay : Relay} (hget : c.relays.get? name = some relay)
    (hopen : relay.role?.isSome = true) (hrole : relay.role? = u.role? name)
    (hover : (c.calls.get? name).bind (·.phase.role?) = none) :
    ∃ u, Lands name u (c.pollRelay name relay) (d.pollRelay name relay) := by
  cases relay with
  | exchanging item =>
    obtain ⟨slot, rfl⟩ := Use.eq_lending hrole.symm
    have hon := h.on item (.pollExchange name)
    rw [pollRelay, pollRelay, hon.exchanged?]
    split
    · exact ⟨_, hon, alone_of_name? (Or.inr rfl), (role?_of_relay hget rfl).trans (Use.role?_lending ..).symm⟩
    · exact lands_endRelay hon hover
    · next cause hresult =>
      exact lands_report hon.corrupt hover cause fun hnone => absurd hnone (channel?_ne_none hresult)
  | reporting item cause =>
    obtain ⟨slot, rfl⟩ := Use.eq_lending hrole.symm
    exact lands_report h hover cause fun _ => role?_of_relay hget rfl
  | _ => simp [Relay.role?] at hopen

/-! ### What the consumer of a stream does -/

namespace Twins

theorem stream? (h : Twins c u d) (name : String) : d.stream? name = c.stream? name := by
  rw [Client.stream?, Client.stream?, h.streams]

theorem next (h : Twins c u d) (name : String) : Twins (c.next name).2 u (d.next name).2 := by
  rw [Client.next, Client.next, h.stream?]
  split
  · exact h
  · exact h.on _ _

theorem collect (h : Twins c u d) (name : String) : Twins (c.collect name) u (d.collect name) := by
  rw [Client.collect, Client.collect, h.stream?]
  split
  · exact h
  · exact h.putStream name _

theorem pollCollect (h : Twins c u d) (name : String) : Twins (c.pollCollect name) u (d.pollCollect name) := by
  rw [Client.pollCollect, Client.pollCollect, h.streams]
  split
  · exact h
  · next stream _ =>
    rw [h.channel?]
    split
    · split
      · exact (h.on stream.item _).putStream name _
      · exact (h.on stream.item _).putStream name _
    · exact h

theorem leave (h : Twins c u d) (name : String) : Twins (c.leave name) u (d.leave name) := by
  rw [Client.leave, Client.leave, h.streams]
  split
  · exact h
  · next stream _ => exact (h.on stream.item _).putStream name _

/-- The consumer of a stream sees the same in both clients. -/
theorem received (h : Twins c u d) (name : String) : (d.next name).1 = (c.next name).1 := by
  rw [Client.next, Client.next, h.stream?]
  split
  · rfl
  · rw [h.channel?]

end Twins

end lands

end MemcachedClient.Client
