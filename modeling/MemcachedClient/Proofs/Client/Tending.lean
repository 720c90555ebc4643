import MemcachedClient.Client.Run
import MemcachedClient.Proofs.Connection.Openness
import MemcachedClient.Proofs.Pool.Making

/-!
# How a client looks after its connections

The connections of a client with a shared pool are the items of the pool: the pool started as many creations as
there are connections, and who exchanges a command on a connection has a lease of it. A slot that takes
borrowers has an open connection, except that the connection may be excused: `Tended c p busy excused` says so
of a client `c` with pool `p`, while the call or the relay under the name `busy` is on its way through a step.

A connection stops being open in three ways, and each has its answer here. An exchange that fails or is dropped
excuses the connection (`Tended.exchange`), and when its lease is given back the connection is not accepted and
its slot retired, so the excuse is over (`Tended.giveBack`). And what the pool closes was with a slot that is gone
(`Tended.withPool`). Opening a connection concerns no slot (`Tended.onOpening`).
-/

namespace MemcachedClient

open Connection (Session)
open Pool

namespace Client

/-- The connection on which a call exchanges its command. -/
def Phase.item? : Phase → Option ℕ
  | exchanging item => some item
  | _ => none

theorem Phase.item?_of_isOver {phase : Phase} (h : phase.isOver = true) : phase.item? = none := by
  cases phase <;> simp_all [isOver, item?]

/-- The connection of which a relay has a lease. -/
def Relay.item? : Relay → Option ℕ
  | .exchanging item => some item
  | .reporting item _ => some item
  | .over => none

/-- A relay waits for room in its stream to report that its exchange on this connection failed. -/
def Reports (c : Client) (item : ℕ) : Prop :=
  ∃ name cause, c.relays.get? name = some (.reporting item cause)

/-- The slots of a pool that take borrowers have open connections, except those that are `excused`, and who
exchanges a command has a lease, but perhaps the call or relay under the name `busy`. -/
structure Tended (c : Client) (p : Shared) (busy : Option String) (excused : ℕ → Prop) : Prop where
  /-- The pool of the client. -/
  pool : c.pool = .shared p
  /-- The pool is as it is after a run. -/
  balanced : p.Balanced
  /-- Each creation that was started has its connection. -/
  count : c.connections.length = p.created
  /-- A connection under creation is open if its opening has ended well. -/
  sure : ∀ name slot item, p.borrows.get? name = some (.creating slot item) →
    ∀ s, c.connections[item]? = some s → s.Sure openingName
  /-- A slot that takes borrowers has an open connection, or one that is excused. -/
  fit : ∀ s ∈ p.slots, s.retired = false → ∀ item, s.made = some (.ok item) →
    c.accepts item = true ∨ excused item
  /-- A call that exchanges its command has a lease. -/
  calls : ∀ name, busy ≠ some name → ∀ call item, c.calls.get? name = some call →
    call.phase.item? = some item → p.Leased name item
  /-- A relay that has not ended has a lease. -/
  relays : ∀ name, busy ≠ some name → ∀ relay item, c.relays.get? name = some relay →
    relay.item? = some item → p.Leased name item
  /-- The call of a relay that has not ended is over. -/
  settled : ∀ name relay item, c.relays.get? name = some relay → relay.item? = some item →
    ∃ call, c.calls.get? name = some call ∧ call.phase.isOver = true

theorem accepts_eq_true_iff {c : Client} {item : ℕ} :
    c.accepts item = true ↔ ∃ s, c.connections[item]? = some s ∧ s.connection.isOpened = true := by
  rw [accepts]
  cases c.connections[item]? <;> simp

section parts

variable (c : Client)

theorem connections_on (item : ℕ) (event : Connection.Event) (i : ℕ) : (c.on item event).connections[i]? =
    if i = item then (c.connections[i]?).map (·.step event) else c.connections[i]? := by
  rw [on, List.getElem?_modify]
  by_cases h : i = item
  · simp [h]
  · simp [h, Ne.symm h]

/-- Closing connections concerns those connections only. -/
theorem closeAll_parts (items : List ℕ) :
    let c' := items.foldl (fun c item => c.on item .close) c
    c'.pool = c.pool ∧ c'.calls = c.calls ∧ c'.relays = c.relays ∧
      c'.connections.length = c.connections.length ∧
      ∀ i, i ∉ items → c'.connections[i]? = c.connections[i]? := by
  induction items generalizing c with
  | nil => exact ⟨rfl, rfl, rfl, rfl, fun _ _ => rfl⟩
  | cons item rest ih =>
    obtain ⟨hpool, hcalls, hrelays, hlength, hrest⟩ := ih (c.on item .close)
    refine ⟨hpool, hcalls, hrelays, hlength.trans ?_, fun i hi => ?_⟩
    · rw [on, List.length_modify]
    · rw [List.mem_cons, not_or] at hi
      refine (hrest i hi.2).trans ?_
      rw [connections_on, if_neg hi.1]

/-- After an operation on the pool a creation that was started has its connection; only what the pool closed
is closed. -/
theorem withPool_parts (pool : Pool) :
    (c.withPool pool).pool = pool ∧ (c.withPool pool).calls = c.calls ∧
      (c.withPool pool).relays = c.relays ∧
      (c.withPool pool).connections.length =
        (if c.connections.length < pool.created then c.connections.length + 1 else c.connections.length) ∧
      ∀ i, i ∉ pool.closed → i < (c.withPool pool).connections.length →
        (c.withPool pool).connections[i]? = (c.connections ++ [c.attempt])[i]? := by
  obtain ⟨hpool, hcalls, hrelays, hlength, hrest⟩ := closeAll_parts
    { c with pool, connections :=
      if c.connections.length < pool.created then c.connections ++ [c.attempt] else c.connections }
    (pool.closed.drop c.pool.closed.length)
  refine ⟨hpool, hcalls, hrelays, hlength.trans ?_, fun i hi hlt => ?_⟩
  · dsimp only
    split
    · rw [List.length_append, List.length_singleton]
    · rfl
  · have hi : i ∉ pool.closed.drop c.pool.closed.length := fun hmem => hi (List.mem_of_mem_drop hmem)
    have hlt := Nat.lt_of_lt_of_eq hlt hlength
    refine (hrest i hi).trans ?_
    dsimp only at hlt ⊢
    split
    · rfl
    · next hsame =>
      rw [if_neg hsame] at hlt
      rw [List.getElem?_append_left hlt]

end parts

/-- A new connection whose opening has ended well is open. -/
theorem sure_attempt (c : Client) : c.attempt.Sure openingName := by
  have hnone : (Session.step (Session.start c.dial c.receiveLimit c.clocks)
      (.startOpening openingName c.connectLimit)).Sure openingName := .of_none rfl
  exact hnone.pollOpening

namespace Tended

variable {c c' : Client} {p : Shared} {busy : Option String} {excused more : ℕ → Prop} {name : String}
  {item : ℕ}

theorem mono (h : Tended c p busy excused) (hmore : ∀ item, excused item → more item) :
    Tended c p busy more :=
  { h with fit := fun s hs hr item hmade => (h.fit s hs hr item hmade).imp_right (hmore item) }

/-- A name may become busy. -/
theorem start (h : Tended c p none excused) (name : String) : Tended c p (some name) excused :=
  { h with
    calls := fun other _ => h.calls other (by simp)
    relays := fun other _ => h.relays other (by simp) }

/-! ### Events on connections -/

/-- Something may happen to the connections, if those under creation stay sure, and those of the slots stay open
or are excused. -/
theorem connections (h : Tended c p busy excused) (hpool : c'.pool = c.pool) (hcalls : c'.calls = c.calls)
    (hrelays : c'.relays = c.relays) (hlength : c'.connections.length = c.connections.length)
    (hmore : ∀ item, excused item → more item)
    (hsteps : ∀ item s, c.connections[item]? = some s → ∃ s', c'.connections[item]? = some s' ∧
      ((∃ name slot, p.borrows.get? name = some (.creating slot item)) → s.Sure openingName →
        s'.Sure openingName) ∧
      ((∃ x ∈ p.slots, x.made = some (.ok item)) → s.connection.isOpened = true →
        s'.connection.isOpened = true ∨ more item)) :
    Tended c' p busy more where
  pool := hpool.trans h.pool
  balanced := h.balanced
  count := hlength.trans h.count
  sure name slot item hget s' hs' := by
    have hlt := (h.balanced.of_creating hget).1
    rw [← h.count] at hlt
    obtain ⟨s, hs⟩ : ∃ s, c.connections[item]? = some s := ⟨_, List.getElem?_eq_getElem hlt⟩
    obtain ⟨s'', hs'', hsure, -⟩ := hsteps item s hs
    rw [hs', Option.some.injEq] at hs''
    rw [hs'']
    exact hsure ⟨name, slot, hget⟩ (h.sure name slot item hget s hs)
  fit s hs hr item hmade := by
    rcases h.fit s hs hr item hmade with haccepts | hexcused
    · obtain ⟨x, hx, hopen⟩ := accepts_eq_true_iff.mp haccepts
      obtain ⟨x', hx', -, hfit⟩ := hsteps item x hx
      exact (hfit ⟨s, hs, hmade⟩ hopen).imp_left fun hopen => accepts_eq_true_iff.mpr ⟨x', hx', hopen⟩
    · exact Or.inr (hmore item hexcused)
  calls := hcalls ▸ h.calls
  relays := hrelays ▸ h.relays
  settled := hcalls ▸ hrelays ▸ h.settled

/-- Something may happen on one connection. -/
theorem on (h : Tended c p busy excused) (item : ℕ) (event : Connection.Event)
    (hmore : ∀ item, excused item → more item)
    (hsure : (∃ name slot, p.borrows.get? name = some (.creating slot item)) → ∀ s : Session,
      s.Sure openingName → (s.step event).Sure openingName)
    (hfit : (∃ x ∈ p.slots, x.made = some (.ok item)) → ∀ s, c.connections[item]? = some s →
      s.connection.isOpened = true → (s.step event).connection.isOpened = true ∨ more item) :
    Tended (c.on item event) p busy more := by
  refine h.connections rfl rfl rfl (List.length_modify _ _ _) hmore fun i s hs => ?_
  rw [connections_on, hs]
  by_cases hi : i = item
  · subst hi
    rw [if_pos rfl]
    exact ⟨_, rfl, fun hcreating => hsure hcreating s, fun hmade => hfit hmade s hs⟩
  · rw [if_neg hi]
    exact ⟨s, rfl, fun _ h => h, fun _ h => Or.inl h⟩

theorem quiet (h : Tended c p busy excused) (item : ℕ) {event : Connection.Event}
    (hquiet : event.isQuiet = true) : Tended (c.on item event) p busy excused := by
  refine h.on item event (fun _ h => h) (fun _ s hsure => ?_) fun _ s _ hopen => Or.inl ?_
  · exact hsure.congr (s.step_of_isQuiet hquiet).1 (s.step_of_isQuiet hquiet).2
  · rw [(s.step_of_isQuiet hquiet).1]
    exact hopen

theorem advance (h : Tended c p busy excused) (time : Duration) (wall : Instant) : Tended (c.advance time wall) p busy excused := by
  refine h.connections rfl rfl rfl (List.length_map _) (fun _ h => h) fun item s hs => ?_
  refine ⟨s.step (.advance time wall), ?_, fun _ hsure => hsure.congr rfl rfl, fun _ hopen => Or.inl hopen⟩
  rw [Client.advance, List.getElem?_map, hs]
  rfl

/-- What happens to an exchange on a leased connection excuses the connection. -/
theorem exchange (h : Tended c p busy excused) (hlease : p.Leased name item) (event : Connection.Event) :
    Tended (c.on item event) p busy fun i => excused i ∨ i = item := by
  refine h.on item event (fun _ => Or.inl) (fun hcreating => ?_) fun _ _ _ _ => Or.inr (Or.inr rfl)
  obtain ⟨other, slot, hcreating⟩ := hcreating
  exact absurd hcreating (h.balanced.not_creating_of_leased hlease other slot)

/-- An exchange that runs on and does not fail needs no excuse. -/
theorem exchange_of_ne_error (h : Tended c p busy excused) (hlease : p.Leased name item)
    (hok : ∀ cause, (c.on item (.pollExchange name)).exchanged? item name ≠ some (.error cause)) :
    Tended (c.on item (.pollExchange name)) p busy excused := by
  refine h.on item _ (fun _ h => h) (fun hcreating => ?_) fun _ s hs hopen => Or.inl ?_
  · obtain ⟨other, slot, hcreating⟩ := hcreating
    exact absurd hcreating (h.balanced.not_creating_of_leased hlease other slot)
  · rcases s.isOpened_pollExchange name with hsame | ⟨cause, herror⟩
    · rw [hsame]
      exact hopen
    · refine absurd ?_ (hok cause)
      rw [exchanged?, connections_on, if_pos rfl, hs]
      exact herror

/-- The opening that a borrower runs concerns no slot. -/
theorem onOpening (h : Tended c p busy excused) (name : String) {event : Connection.Event}
    (hevent : event = .pollOpening openingName ∨ event = .dropOpening openingName) :
    Tended (c.onOpening name event) p busy excused := by
  rw [Client.onOpening]
  split
  · next item hcreating =>
    obtain ⟨slot, hget⟩ : ∃ slot, p.borrows.get? name = some (.creating slot item) := by
      rw [h.pool, creating?] at hcreating
      split at hcreating
      · next slot item' hget => exact ⟨slot, Option.some.inj hcreating ▸ hget⟩
      · simp at hcreating
    refine h.on item event (fun _ h => h) (fun _ s hsure => ?_) fun hmade => ?_
    · rcases hevent with rfl | rfl
      · exact hsure.pollOpening
      · exact hsure.dropOpening
    · obtain ⟨s, hs, hmade⟩ := hmade
      exact absurd hget ((h.balanced.of_made hs hmade).2.2 name slot)
  · exact h

/-! ### Operations on the pool -/

/-- A connection that comes to a slot is open if its opening has ended well. -/
theorem sure_of_comes (h : Tended c p busy excused) (hcomes : p.Comes name item) {s : Session}
    (hs : (c.connections ++ [c.attempt])[item]? = some s) : s.Sure openingName := by
  rcases hcomes with rfl | ⟨slot, hget⟩
  · rw [← h.count, List.getElem?_concat_length, Option.some.injEq] at hs
    rw [← hs]
    exact c.sure_attempt
  · have hlt := (h.balanced.of_creating hget).1
    rw [← h.count] at hlt
    rw [List.getElem?_append_left hlt] at hs
    exact h.sure name slot item hget s hs

/-- The pool may do an operation that leaves the leases alone, except those of busy names. -/
theorem withPool (h : Tended c p busy excused) (event : Shared.Event)
    (hcarries : Shared.Carries c.creations (p.Comes name) name p (p.step event))
    (hleases : ∀ other, busy ≠ some other → (p.step event).leases.get? other = p.leases.get? other) :
    Tended (c.withPool (.shared (p.step event))) (p.step event) busy excused := by
  obtain ⟨hpool, hcalls, hrelays, hlength, hconns⟩ := c.withPool_parts (.shared (p.step event))
  have hbalanced := h.balanced.step event
  have hcount : (c.withPool (.shared (p.step event))).connections.length = (p.step event).created := by
    rw [hlength, h.count]
    show (if p.created < (p.step event).created then _ else _) = _
    rcases p.step_created event with e | e <;> rw [e] <;> simp
  have hleased : ∀ other, busy ≠ some other → ∀ item, p.Leased other item →
      (p.step event).Leased other item := by
    rintro other hne item ⟨lease, hget, e⟩
    exact ⟨lease, (hleases other hne).trans hget, e⟩
  refine ⟨hpool, hbalanced, hcount, ?_, ?_, ?_, ?_, ?_⟩
  · intro other slot item hget s hs
    obtain ⟨hlt, hclosed⟩ := hbalanced.of_creating hget
    rw [hconns item hclosed (hcount ▸ hlt)] at hs
    rcases hcarries.creating other slot item hget with hget | ⟨hnone, -⟩
    · exact h.sure_of_comes (Or.inr ⟨slot, hget⟩) hs
    · rw [creations, hs] at hnone
      exact .of_none hnone
  · intro s hs hr item hmade
    obtain ⟨hlt, hclosed, -⟩ := hbalanced.of_made hs hmade
    have hsame := hconns item hclosed (hcount ▸ hlt)
    rcases hcarries.items s hs item hmade with ⟨old, hold, hid, hmade⟩ | ⟨hok, hcomes⟩
    · -- the slot took borrowers before, since no slot is opened again
      have hlive : old.retired = false := by
        by_contra hretired
        rw [Bool.not_eq_false] at hretired
        have hshuts := (h.balanced.books.tidy_step h.balanced.single event).shuts
        have := (hshuts.shut _ (h.balanced.shut_of_retired hold hretired)).2 s hs hid.symm
        rw [hr] at this
        exact Bool.false_ne_true this
      refine (h.fit old hold hlive item hmade).imp_left fun haccepts => ?_
      obtain ⟨x, hx, hopen⟩ := accepts_eq_true_iff.mp haccepts
      refine accepts_eq_true_iff.mpr ⟨x, ?_, hopen⟩
      have hbefore := (h.balanced.of_made hold hmade).1
      rw [← h.count] at hbefore
      rw [hsame, List.getElem?_append_left hbefore, hx]
    · obtain ⟨x, hx, hdone⟩ := Option.bind_eq_some_iff.mp hok
      exact Or.inl (accepts_eq_true_iff.mpr ⟨x, hsame.trans hx, h.sure_of_comes hcomes hx hdone⟩)
  · intro other hne call item hcall hitem
    exact hleased other hne item (h.calls other hne call item (hcalls ▸ hcall) hitem)
  · intro other hne relay item hrelay hitem
    exact hleased other hne item (h.relays other hne relay item (hrelays ▸ hrelay) hitem)
  · rw [hcalls, hrelays]
    exact h.settled

/-- A connection whose lease is given back needs no excuse: if it is not open, its slot is retired. -/
theorem giveBack (h : Tended c p (some name) fun i => excused i ∨ i = item) (hlease : p.Leased name item) :
    Tended (c.giveBack name) (p.step (.release c.accepts name)) (some name) excused := by
  have hpool : c.giveBack name = c.withPool (.shared (p.step (.release c.accepts name))) := by
    rw [Client.giveBack, h.pool]
    rfl
  have hcarries : ∀ made, Shared.Carries made (p.Comes name) name p (p.step (.release c.accepts name)) :=
    fun made => p.carries_release _ c.accepts name
  have hleases : ∀ other, some name ≠ some other →
      (p.step (.release c.accepts name)).leases.get? other = p.leases.get? other := by
    intro other hne
    exact (hcarries c.creations).leases other fun e => hne (congrArg some e.symm)
  rw [hpool]
  by_cases haccepts : c.accepts item = true
  · have hfit : Tended c p (some name) excused := by
      refine { h with fit := fun s hs hr i hmade => ?_ }
      rcases h.fit s hs hr i hmade with hopen | hexcused | rfl
      · exact Or.inl hopen
      · exact Or.inr hexcused
      · exact Or.inl haccepts
    exact hfit.withPool _ (hcarries _) hleases
  · have hafter := h.withPool _ (hcarries _) hleases
    obtain ⟨lease, hget, rfl⟩ := hlease
    obtain ⟨s, hs, hmade⟩ := h.balanced.exists_of_lease hget
    obtain ⟨hmem, hid⟩ := Shared.slot?_eq_some hs
    have hretire : (lease.corrupted || !c.accepts lease.item) = true := by
      rw [Bool.not_eq_true] at haccepts
      rw [haccepts, Bool.not_false, Bool.or_true]
    have hshut : (p.step (.release c.accepts name)).Shut lease.slot := by
      simp only [Shared.step, Shared.release, hget, hretire]
      exact (Shared.shut_giveUnit (p := { p with leases := p.leases.remove name }) hs
        (h.balanced.books.ids_lt s hmem)).1
    refine { hafter with fit := fun x hx hr i hmade' => ?_ }
    rcases hafter.fit x hx hr i hmade' with hopen | hexcused | rfl
    · exact Or.inl hopen
    · exact Or.inr hexcused
    · -- the slot of the item is the one that was retired
      rcases (hcarries fun _ => none).items x hx _ hmade' with ⟨old, hold, hidx, hmade'⟩ | ⟨hnone, -⟩
      · have e := h.balanced.id_eq_of_made hmem hmade hold hmade'
        have := hshut.2 x hx (by rw [← hidx, e, hid])
        rw [hr] at this
        exact absurd this Bool.false_ne_true
      · simp at hnone

/-- A lease may be marked corrupted. -/
theorem corrupt (h : Tended c p (some name) excused) :
    Tended (c.corrupt name) (p.step (.corrupt name)) (some name) excused := by
  have hcarries : Shared.Carries c.creations (p.Comes name) name p (p.step (.corrupt name)) :=
    p.carries_corrupt _ name
  have hpool : c.corrupt name = { c with pool := .shared (p.step (.corrupt name)) } := by
    rw [Client.corrupt, h.pool]
    rfl
  have hparts : (p.step (.corrupt name)).slots = p.slots ∧ (p.step (.corrupt name)).borrows = p.borrows ∧
      (p.step (.corrupt name)).created = p.created := by
    simp only [Shared.step, Shared.corrupt]
    split <;> exact ⟨rfl, rfl, rfl⟩
  obtain ⟨hslots, hborrows, hcreated⟩ := hparts
  rw [hpool]
  have hleased : ∀ other, some name ≠ some other → ∀ item, p.Leased other item →
      (p.step (.corrupt name)).Leased other item := by
    rintro other hne item ⟨lease, hget, e⟩
    exact ⟨lease, (hcarries.leases other fun e => hne (congrArg some e.symm)).trans hget, e⟩
  refine ⟨rfl, h.balanced.step _, h.count.trans hcreated.symm, ?_, ?_, ?_, ?_, h.settled⟩
  · rw [hborrows]
    exact h.sure
  · rw [hslots]
    exact h.fit
  · exact fun other hne call item hcall hitem => hleased other hne item (h.calls other hne call item hcall hitem)
  · exact fun other hne relay item hrelay hitem =>
      hleased other hne item (h.relays other hne relay item hrelay hitem)

/-- Who has a lease has it when it is marked corrupted. -/
theorem leased_corrupt (hlease : p.Leased name item) : (p.step (.corrupt name)).Leased name item := by
  obtain ⟨lease, hget, rfl⟩ := hlease
  simp only [Shared.step, Shared.corrupt, hget]
  exact ⟨_, Table.get?_put_self _ _ _, rfl⟩

end Tended

end Client

end MemcachedClient
