import MemcachedClient.Proofs.Client.Lending
import MemcachedClient.Proofs.Pool.Leasing
import Mathlib.Logic.Relation

/-!
# What a step of a client is made of

Whatever a call, its relay or its consumer does in one step of a client is a chain of acts (`acts_step`): an operation
of the pool under the name of the call, with the opening that the borrower runs; an event on the exchange of that name,
on a connection of which it has a lease; or a change of the tables. `Act` lists them, and says of each what holds when
it is done. It is the same list for either kind of pool, so what every act keeps, a client with either kind of pool
keeps.

That an exchange is run only under a lease, and a connection borrowed only for keys that are accepted, is carried
from step to step by `Holding`.
-/

namespace MemcachedClient

open Pool

namespace Client

/-- The name of the call that an event is about. -/
def Event.name? : Event → Option String
  | start name _ => some name
  | poll name => some name
  | drop name => some name
  | pollRelay name => some name
  | next name => some name
  | collect name => some name
  | pollCollect name => some name
  | leave name => some name
  | dispose => none
  | advance .. => none
  | network .. => none

/-- The call under a name is about this command, and its keys are accepted. -/
def Issued (c : Client) (name : String) (command : Command) : Prop :=
  (∃ call, c.calls.get? name = some call ∧ call.command = command) ∧ Key.checkAll command.keys = .ok ()

/-- Every call of a table is in the other table, too, with the same command. -/
def Continues (calls after : Table Call) : Prop :=
  ∀ name call, calls.get? name = some call → ∃ call', after.get? name = some call' ∧ call'.command = call.command

/-- One thing that happens in a step of a call, or of what runs for it. -/
inductive Act (name : String) : Client → Client → Prop where
  /-- The tables change, but no call gets another command. -/
  | tables {c : Client} {calls : Table Call} (relays : Table Relay) (streams : Table Stream)
    (continues : Continues c.calls calls) : Act name c { c with calls, relays, streams }
  /-- The exchange is started, under a lease. -/
  | start {c : Client} {item : ℕ} {command : Command} (capacity : ℕ) (leased : c.pool.Leased name item)
    (issued : c.Issued name command) : Act name c (c.on item (.startExchange name command capacity))
  /-- The exchange runs on or is dropped, under a lease. -/
  | exchange {c : Client} {item : ℕ} {event : Connection.Event} (leased : c.pool.Leased name item)
    (runs : event = .pollExchange name ∨ event = .dropExchange name) : Act name c (c.on item event)
  /-- Something happens to the channel of the exchange. -/
  | channel {c : Client} (item : ℕ) (event : Connection.Event) (about : ∃ e, event = .channel name e) :
    Act name c (c.on item event)
  /-- A connection is borrowed. -/
  | borrow {c : Client} (issued : ∃ command, c.Issued name command) :
    Act name c (c.withPool (c.pool.step (.borrow c.creations name)))
  /-- The borrower runs on, and with it the opening that it runs. -/
  | poll {c c' : Client} (issued : ∃ command, c.Issued name command)
    (opening : c' = c.onOpening name (.pollOpening openingName)) :
    Act name c (c'.withPool (c'.pool.step (.poll c'.creations name)))
  /-- The borrower is dropped, and with it the opening that it runs. -/
  | cancel {c c' : Client} (issued : ∃ command, c.Issued name command)
    (opening : c' = c.onOpening name (.dropOpening openingName)) :
    Act name c (c'.withPool (c'.pool.step (.cancel name)))
  /-- The lease is given back. -/
  | release {c : Client} (issued : ∃ command, c.Issued name command) : Act name c (c.giveBack name)
  /-- The lease is marked corrupted, since the exchange failed. -/
  | corrupt {c : Client} {item : ℕ} {cause : ClientError} (issued : ∃ command, c.Issued name command)
    (leased : c.pool.Leased name item) (failed : c.exchanged? item name = some (.error cause)) :
    Act name c (c.corrupt name)

/-- A chain of acts. -/
abbrev Acts (name : String) : Client → Client → Prop := Relation.ReflTransGen (Act name)

/-- An exchange is run under a lease, but perhaps by the call or relay under the name `busy`, which is on its way
through a step, and only by a call with keys that are accepted. -/
structure Holding (c : Client) (busy : Option String) : Prop where
  /-- A call that exchanges its command has a lease. -/
  calls : ∀ name, busy ≠ some name → ∀ call item, c.calls.get? name = some call →
    call.phase.item? = some item → c.pool.Leased name item
  /-- A relay that has not ended has a lease. -/
  relays : ∀ name, busy ≠ some name → ∀ relay item, c.relays.get? name = some relay →
    relay.item? = some item → c.pool.Leased name item
  /-- The call of a relay that has not ended is over. -/
  settled : ∀ name relay item, c.relays.get? name = some relay → relay.item? = some item →
    ∃ call, c.calls.get? name = some call ∧ call.phase.isOver = true
  /-- A call that borrows or exchanges its command has keys that are accepted. -/
  checked : ∀ name call, c.calls.get? name = some call →
    call.phase = .borrowing ∨ call.phase.item?.isSome = true → Key.checkAll call.command.keys = .ok ()
  /-- So has one that has a relay or a stream. -/
  served : ∀ name, c.relays.has name = true ∨ c.streams.has name = true → ∃ command, c.Issued name command

section parts

variable (c : Client)

/-- Closing connections changes nothing but those connections. -/
theorem closeAll_eq (items : List ℕ) : items.foldl (fun c item => c.on item .close) c =
    { c with connections := (items.foldl (fun c item => c.on item .close) c).connections } := by
  induction items generalizing c with
  | nil => rfl
  | cons item rest ih => exact ih (c.on item .close)

/-- An operation on the pool changes the pool and the connections. -/
theorem withPool_eq (pool : Pool) :
    c.withPool pool = { c with pool, connections := (c.withPool pool).connections } :=
  closeAll_eq _ _

theorem giveBack_eq (name : String) :
    c.giveBack name = c.withPool (c.pool.step (.release c.accepts name)) := by
  rw [giveBack, release_snd]

end parts

variable {c c' : Client} {name : String} {item : ℕ} {call : Call}

theorem Continues.refl (calls : Table Call) : Continues calls calls := fun _ call hget => ⟨call, hget, rfl⟩

theorem Continues.trans {calls mid calls' : Table Call} (h : Continues calls mid) (h' : Continues mid calls') :
    Continues calls calls' := by
  intro name call hget
  obtain ⟨call', hget', hsame⟩ := h name call hget
  obtain ⟨call'', hget'', hsame'⟩ := h' name call' hget'
  exact ⟨call'', hget'', hsame'.trans hsame⟩

theorem Issued.mono {command : Command} (h : c.Issued name command) (hcalls : Continues c.calls c'.calls) :
    c'.Issued name command := by
  obtain ⟨⟨call, hget, hcommand⟩, hchecked⟩ := h
  obtain ⟨call', hget', hsame⟩ := hcalls name call hget
  exact ⟨⟨call', hget', hsame.trans hcommand⟩, hchecked⟩

theorem exists_issued (hget : c.calls.get? name = some call) (hchecked : Key.checkAll call.command.keys = .ok ()) :
    c.Issued name call.command :=
  ⟨⟨call, hget, rfl⟩, hchecked⟩

/-- A call that moves on keeps its command. -/
theorem continues_setPhase (hget : c.calls.get? name = some call) (phase : Phase) :
    Continues c.calls (c.setPhase name call phase).calls := by
  intro other found hfound
  by_cases hne : other = name
  · rw [hne, hget, Option.some.injEq] at hfound
    rw [hne, ← hfound]
    exact ⟨_, Table.get?_put_self _ _ _, rfl⟩
  · exact ⟨found, (Table.get?_put_of_ne _ _ hne).trans hfound, rfl⟩

theorem act_setPhase (hget : c.calls.get? name = some call) (phase : Phase) :
    Act name c (c.setPhase name call phase) :=
  .tables c.relays c.streams (continues_setPhase hget phase)

namespace Holding

variable {busy : Option String}

/-- A name may become busy. -/
theorem begin (h : c.Holding none) (name : String) : c.Holding (some name) :=
  { h with
    calls := fun other _ => h.calls other (by simp)
    relays := fun other _ => h.relays other (by simp) }

/-- Who has not answered has no relay. -/
theorem idle (h : c.Holding busy) (hget : c.calls.get? name = some call) (hopen : call.phase.isOver = false) :
    c.Idle name := by
  intro relay hrelay
  by_contra hitem
  obtain ⟨item, hitem⟩ := Option.ne_none_iff_exists'.mp hitem
  obtain ⟨found, hfound, hover⟩ := h.settled name relay item hrelay hitem
  rw [hget, Option.some.injEq] at hfound
  rw [← hfound, hopen] at hover
  exact Bool.false_ne_true hover

/-- The pool may change, if it keeps the leases of those who are not busy. -/
theorem withPool (h : c.Holding busy) (event : Shared.Event)
    (hevent : ∀ other, busy ≠ some other → event.name? ≠ some other) :
    (c.withPool (c.pool.step event)).Holding busy := by
  rw [withPool_eq]
  refine { h with calls := ?_, relays := ?_ }
  · intro other hne call item hget hitem
    exact (leased_step (hevent other hne)).mpr (h.calls other hne call item hget hitem)
  · intro other hne relay item hget hitem
    exact (leased_step (hevent other hne)).mpr (h.relays other hne relay item hget hitem)

theorem giveBack (h : c.Holding (some name)) : (c.giveBack name).Holding (some name) := by
  rw [giveBack_eq]
  exact h.withPool _ fun _ hne => hne

theorem corrupt (h : c.Holding (some name)) : (c.corrupt name).Holding (some name) := by
  have hname : (Shared.Event.corrupt name).name? = some name := rfl
  rw [Client.corrupt, corrupt_snd]
  refine { h with calls := ?_, relays := ?_ }
  · intro other hne call item hget hitem
    exact (leased_step (hname ▸ hne)).mpr (h.calls other hne call item hget hitem)
  · intro other hne relay item hget hitem
    exact (leased_step (hname ▸ hne)).mpr (h.relays other hne relay item hget hitem)

/-- A call moves on: under a lease if it exchanges its command, and with keys that are accepted unless it is over. -/
theorem settleCall (h : c.Holding (some name)) (hidle : c.Idle name) (hget : c.calls.get? name = some call)
    (phase : Phase) (hphase : ∀ item, phase.item? = some item → c.pool.Leased name item)
    (hchecked : phase = .borrowing ∨ phase.item?.isSome = true → Key.checkAll call.command.keys = .ok ()) :
    (c.setPhase name call phase).Holding none := by
  refine ⟨fun other _ found item hfound hitem => ?_, fun other _ relay item hrelay hitem => ?_,
    fun other relay item hrelay hitem => ?_, fun other found hfound hopen => ?_, fun other hhas => ?_⟩
  · rcases Table.eq_or_of_get?_put hfound with ⟨rfl, rfl⟩ | ⟨hne, hfound⟩
    · exact hphase item hitem
    · exact h.calls other (fun e => hne (Option.some.inj e).symm) found item hfound hitem
  · have hne := hidle.ne hrelay hitem
    exact h.relays other (fun e => hne (Option.some.inj e).symm) relay item hrelay hitem
  · obtain ⟨found, hfound, hover⟩ := h.settled other relay item hrelay hitem
    exact ⟨found, (Table.get?_put_of_ne _ _ (hidle.ne hrelay hitem)).trans hfound, hover⟩
  · rcases Table.eq_or_of_get?_put hfound with ⟨rfl, rfl⟩ | ⟨-, hfound⟩
    · exact hchecked hopen
    · exact h.checked other found hfound hopen
  · obtain ⟨command, hissued⟩ := h.served other hhas
    exact ⟨command, hissued.mono (continues_setPhase hget phase)⟩

/-- A call that is not busy any more stays as it is. -/
theorem idleCall (h : c.Holding (some name)) (hidle : c.Idle name) (hget : c.calls.get? name = some call)
    (hphase : call.phase.item? = none) : c.Holding none := by
  refine { h with calls := ?_, relays := ?_ }
  · intro other _ found item hfound hitem
    have hne : name ≠ other := by
      rintro rfl
      rw [hget, Option.some.injEq] at hfound
      rw [← hfound, hphase] at hitem
      simp at hitem
    exact h.calls other (fun e => hne (Option.some.inj e)) found item hfound hitem
  · intro other _ relay item hrelay hitem
    have hne := hidle.ne hrelay hitem
    exact h.relays other (fun e => hne (Option.some.inj e).symm) relay item hrelay hitem

/-- A relay moves on, under its lease if it has not ended. -/
theorem settleRelay (h : c.Holding (some name)) (relay : Relay)
    (hcall : ∃ call, c.calls.get? name = some call ∧ call.phase.isOver = true)
    (hissued : ∃ command, c.Issued name command)
    (hrelay : ∀ item, relay.item? = some item → c.pool.Leased name item) :
    Holding { c with relays := c.relays.put name relay } none := by
  obtain ⟨call, hget, hover⟩ := hcall
  refine { h with calls := ?_, relays := ?_, settled := ?_, served := ?_ }
  · intro other _ found item hfound hitem
    have hne : name ≠ other := by
      rintro rfl
      rw [hget, Option.some.injEq] at hfound
      rw [← hfound, Phase.item?_of_isOver hover] at hitem
      simp at hitem
    exact h.calls other (fun e => hne (Option.some.inj e)) found item hfound hitem
  · intro other _ found item hfound hitem
    rcases Table.eq_or_of_get?_put hfound with ⟨rfl, rfl⟩ | ⟨hne, hfound⟩
    · exact hrelay item hitem
    · exact h.relays other (fun e => hne (Option.some.inj e).symm) found item hfound hitem
  · intro other found item hfound hitem
    rcases Table.eq_or_of_get?_put hfound with ⟨rfl, rfl⟩ | ⟨-, hfound⟩
    · exact ⟨call, hget, hover⟩
    · exact h.settled other found item hfound hitem
  · intro other hhas
    by_cases hne : other = name
    · rw [hne]
      exact hissued
    · refine h.served other (hhas.imp_left fun hhas => ?_)
      rwa [Table.has, Table.get?_put_of_ne _ _ hne] at hhas

end Holding

/-! ### Calls -/

/-- A chain of acts that leads to a client in which nobody is busy. -/
def Settles (name : String) (c c' : Client) : Prop := Acts name c c' ∧ c'.Holding none

theorem Settles.head {mid : Client} (h : Settles name mid c') (hact : Act name c mid) : Settles name c c' :=
  ⟨.head hact h.1, h.2⟩

theorem Settles.refl (h : c.Holding none) : Settles name c c := ⟨.refl, h⟩

/-- A call moves on to a place where it needs no lease. -/
theorem settles_setPhase (h : c.Holding (some name)) (hidle : c.Idle name) (hget : c.calls.get? name = some call)
    (phase : Phase) (hphase : phase.item? = none)
    (hchecked : phase = .borrowing → Key.checkAll call.command.keys = .ok ()) :
    Settles name c (c.setPhase name call phase) := by
  refine ⟨.single (act_setPhase hget phase), h.settleCall hidle hget phase (fun item hitem => ?_) fun hopen => ?_⟩
  · rw [hphase] at hitem
    simp at hitem
  · rw [hphase] at hopen
    exact hchecked (hopen.resolve_right (by simp))

/-- A call gives its lease back and is over. -/
theorem settles_giveBack (h : c.Holding (some name)) (hidle : c.Idle name) (hget : c.calls.get? name = some call)
    (hchecked : Key.checkAll call.command.keys = .ok ()) (phase : Phase) (hover : phase.isOver = true) :
    Settles name c ((c.giveBack name).setPhase name call phase) := by
  have hback := h.giveBack
  have heq := c.giveBack_eq name
  rw [withPool_eq] at heq
  refine Settles.head (settles_setPhase hback ?_ ?_ phase (Phase.item?_of_isOver hover) fun hborrowing => ?_)
    (.release ⟨_, exists_issued hget hchecked⟩)
  · rw [heq]
    exact hidle
  · rw [heq]
    exact hget
  · rw [hborrowing] at hover
    simp [Phase.isOver] at hover

theorem settles_exchange (h : c.Holding (some name)) (hidle : c.Idle name) (hget : c.calls.get? name = some call)
    (hchecked : Key.checkAll call.command.keys = .ok ()) (hlease : c.pool.Leased name item) :
    Settles name c (c.exchange name call item) := by
  have hon : (c.on item (.pollExchange name)).Holding (some name) := { h with }
  have hget : (c.on item (.pollExchange name)).calls.get? name = some call := hget
  rw [exchange]
  refine Settles.head ?_ (.exchange hlease (Or.inl rfl))
  cases hx : (c.on item (.pollExchange name)).exchanged? item name with
  | none =>
    refine ⟨.single (act_setPhase hget _), hon.settleCall hidle hget _ (fun _ e => ?_) fun _ => hchecked⟩
    exact Option.some.inj e ▸ hlease
  | some result =>
    cases result with
    | ok outcome => exact settles_giveBack hon hidle hget hchecked _ rfl
    | error cause =>
      exact (settles_giveBack hon.corrupt hidle hget hchecked _ rfl).head
        (.corrupt ⟨_, exists_issued hget hchecked⟩ hlease hx)

/-- A call uses the connection that it has a lease of, or leaves the lease to a relay. -/
theorem settles_useConnection (h : c.Holding (some name)) (hidle : c.Idle name)
    (hget : c.calls.get? name = some call) (hchecked : Key.checkAll call.command.keys = .ok ())
    (hlease : c.pool.Leased name item) : Settles name c (c.useConnection name call item) := by
  have hissued := exists_issued hget hchecked
  rw [useConnection]
  split
  · refine Settles.head ?_ (.start streamCapacity hlease hissued)
    have hon : (c.on item (.startExchange name call.command streamCapacity)).Holding (some name) := { h with }
    have hcall := hon.settleCall hidle hget (.answered (.ok .stream)) (fun _ e => by simp [Phase.item?] at e)
      fun hopen => by simp [Phase.item?] at hopen
    have hrelay := (hcall.begin name).settleRelay (.exchanging item) ⟨_, Table.get?_put_self _ _ _, rfl⟩
      ⟨_, hissued.mono (continues_setPhase hget _)⟩ fun _ e => Option.some.inj e ▸ hlease
    refine ⟨.single (.tables _ _ (continues_setPhase hget (.answered (.ok .stream)))), { hrelay with served := ?_ }⟩
    intro other hhas
    by_cases hne : other = name
    · rw [hne]
      exact ⟨_, hissued.mono (continues_setPhase hget _)⟩
    · refine hrelay.served other (hhas.imp_right fun hhas => ?_)
      rwa [Client.answer, setPhase, Table.has, Table.get?_put_of_ne _ _ hne] at hhas
  · refine Settles.head ?_ (.start 1 hlease hissued)
    have hon : (c.on item (.startExchange name call.command 1)).Holding (some name) := { h with }
    exact settles_exchange hon hidle hget hchecked hlease

/-- A call goes on after an operation of the pool for its borrower. -/
theorem settles_proceed (h : c.Holding none) (hget : c.calls.get? name = some call)
    (hopen : call.phase.isOver = false) (hphase : call.phase.item? = none)
    (hchecked : Key.checkAll call.command.keys = .ok ()) {event : Shared.Event} (hname : event.name? = some name)
    {report : Report} (hleased : ∀ item, report = .leased item → (c.pool.step event).Leased name item) :
    Settles name (c.withPool (c.pool.step event))
      ((c.withPool (c.pool.step event)).proceed name call report) := by
  have hidle := h.idle hget hopen
  have hpool := (h.begin name).withPool event fun other hne e => hne (hname.symm.trans e)
  generalize hafter : c.withPool (c.pool.step event) = after at hpool ⊢
  rw [withPool_eq] at hafter
  have hget : after.calls.get? name = some call := by rw [← hafter]; exact hget
  have hidle : after.Idle name := by rw [← hafter]; exact hidle
  have hleased : ∀ item, report = .leased item → after.pool.Leased name item := by rw [← hafter]; exact hleased
  cases report with
  | pending => exact settles_setPhase hpool hidle hget .borrowing rfl fun _ => hchecked
  | leased item => exact settles_useConnection hpool hidle hget hchecked (hleased item rfl)
  | failed cause => exact settles_setPhase hpool hidle hget _ rfl fun e => by simp at e
  | absent => exact .refl (hpool.idleCall hidle hget hphase)

theorem borrow_eq (c : Client) (name : String) (call : Call) :
    c.borrow name call = (c.withPool (c.pool.step (.borrow c.creations name))).proceed name call
      (c.pool.borrow c.creations name).1 := by
  rw [← borrow_snd]
  rfl

theorem pollBorrow_eq (c : Client) (name : String) (call : Call) :
    let c' := c.onOpening name (.pollOpening openingName)
    c.pollBorrow name call = (c'.withPool (c'.pool.step (.poll c'.creations name))).proceed name call
      (c'.pool.poll c'.creations name).1 := by
  intro c'
  rw [← poll_snd]
  rfl

theorem dropBorrow_eq (c : Client) (name : String) (command : Command) :
    let c' := c.onOpening name (.dropOpening openingName)
    c.dropCall name ⟨command, .borrowing⟩ =
      (c'.withPool (c'.pool.step (.cancel name))).setPhase name ⟨command, .borrowing⟩ .dropped := by
  intro c'
  rw [← cancel_snd]
  rfl

theorem Holding.onOpening (h : c.Holding none) (name : String) (event : Connection.Event) :
    (c.onOpening name event).Holding none := by
  rw [Client.onOpening]
  split
  · exact { h with }
  · exact h

theorem settles_pollCall (h : c.Holding none) (hget : c.calls.get? name = some call) :
    Settles name c (c.pollCall name call) := by
  have hchecked := h.checked name call hget
  have hidle := h.idle hget
  obtain ⟨command, phase⟩ := call
  cases phase with
  | ready =>
    rw [pollCall]
    dsimp only
    split
    · exact settles_setPhase (h.begin name) (hidle rfl) hget _ rfl fun e => by simp at e
    · next hok =>
      rw [borrow_eq]
      refine (settles_proceed h hget rfl rfl hok rfl fun item e => ?_).head (.borrow ⟨_, exists_issued hget hok⟩)
      rw [← borrow_snd]
      exact leased_borrow e
  | borrowing =>
    have hcalls := (c.onOpening_parts name (.pollOpening openingName)).2.1
    have hopening := h.onOpening name (.pollOpening openingName)
    rw [pollCall, pollBorrow_eq]
    refine (settles_proceed hopening (hcalls ▸ hget) rfl rfl (hchecked (Or.inl rfl)) rfl fun item e => ?_).head
      (.poll ⟨_, exists_issued hget (hchecked (Or.inl rfl))⟩ rfl)
    rw [← poll_snd]
    exact leased_poll e
  | exchanging item =>
    exact settles_exchange (h.begin name) (hidle rfl) hget (hchecked (Or.inr rfl))
      (h.calls name (by simp) _ item hget rfl)
  | answered answer => exact .refl h
  | dropped => exact .refl h

theorem settles_dropCall (h : c.Holding none) (hget : c.calls.get? name = some call) :
    Settles name c (c.dropCall name call) := by
  have hchecked := h.checked name call hget
  have hidle := h.idle hget
  obtain ⟨command, phase⟩ := call
  cases phase with
  | ready => exact settles_setPhase (h.begin name) (hidle rfl) hget .dropped rfl fun e => by simp at e
  | borrowing =>
    obtain ⟨-, hcalls, hrelays⟩ := c.onOpening_parts name (.dropOpening openingName)
    have hopening := (h.onOpening name (.dropOpening openingName)).begin name
    have hcancel := hopening.withPool (.cancel name) fun _ hne => hne
    rw [dropBorrow_eq]
    refine Settles.head ?_ (.cancel ⟨_, exists_issued hget (hchecked (Or.inl rfl))⟩ rfl)
    rw [withPool_eq] at hcancel ⊢
    refine settles_setPhase hcancel ?_ (hcalls ▸ hget) .dropped rfl fun e => by simp at e
    exact fun relay hrelay => hidle rfl relay (hrelays ▸ hrelay)
  | exchanging item =>
    have hlease := h.calls name (by simp) _ item hget rfl
    have hon : (c.on item (.dropExchange name)).Holding (some name) := { h.begin name with }
    exact (settles_giveBack hon (hidle rfl) hget (hchecked (Or.inr rfl)) .dropped rfl).head
      (.exchange hlease (Or.inr rfl))
  | answered answer => exact .refl h
  | dropped => exact .refl h

/-! ### Relays -/

/-- A relay ends, and gives its lease back. -/
theorem settles_endRelay (h : c.Holding (some name))
    (hcall : ∃ call, c.calls.get? name = some call ∧ call.phase.isOver = true)
    (hissued : ∃ command, c.Issued name command) (item : ℕ) : Settles name c (c.endRelay name item) := by
  have hfinish : (c.on item (.channel name .finish)).Holding (some name) := { h with }
  have hback := hfinish.giveBack
  have heq := (c.on item (.channel name .finish)).giveBack_eq name
  rw [withPool_eq] at heq
  rw [endRelay]
  refine (Settles.head ?_ (.release (c := c.on item (.channel name .finish)) hissued)).head
    (.channel item (.channel name .finish) ⟨_, rfl⟩)
  generalize (c.on item (.channel name .finish)).giveBack name = after at hback heq ⊢
  have hcall : ∃ call, after.calls.get? name = some call ∧ call.phase.isOver = true := by
    rw [heq]
    exact hcall
  have hissued : ∃ command, after.Issued name command := by
    rw [heq]
    exact hissued
  exact ⟨.single (.tables _ _ (.refl _)), hback.settleRelay .over hcall hissued fun _ e => by simp [Relay.item?] at e⟩

/-- A relay whose exchange failed reports, or waits for room in its stream. -/
theorem settles_report (h : c.Holding (some name))
    (hcall : ∃ call, c.calls.get? name = some call ∧ call.phase.isOver = true)
    (hissued : ∃ command, c.Issued name command) (hlease : c.pool.Leased name item)
    {channel : Channel (Except ClientError Item)} (hchannel : c.channel? item name = some channel)
    (cause : ClientError) : Settles name c (c.report name item cause) := by
  simp only [report, hchannel]
  split
  · have hon : (c.on item (.channel name (.offer (.error cause)))).Holding (some name) := { h with }
    exact (settles_endRelay hon hcall hissued item).head (.channel item _ ⟨_, rfl⟩)
  · exact settles_endRelay h hcall hissued item
  · refine ⟨.single (.tables _ _ (.refl _)), h.settleRelay (.reporting item cause) hcall hissued fun _ e => ?_⟩
    exact Option.some.inj e ▸ hlease

/-- An exchange that has a result has a channel. -/
theorem exists_channel {result : Except ClientError Outcome} (h : c.exchanged? item name = some result) :
    ∃ channel, c.channel? item name = some channel := by
  obtain ⟨s, hs, hx⟩ := Option.bind_eq_some_iff.mp h
  obtain ⟨x, hx, -⟩ := Option.bind_eq_some_iff.mp hx
  refine ⟨x.channel, Option.bind_eq_some_iff.mpr ⟨s, hs, ?_⟩⟩
  rw [Connection.Session.channel?, hx]
  rfl

theorem settles_pollRelay (h : c.Holding none) {relay : Relay} (hget : c.relays.get? name = some relay) :
    Settles name c (c.pollRelay name relay) := by
  have hissued := h.served name (Or.inl (Table.has_eq_true_iff.mpr ⟨relay, hget⟩))
  cases relay with
  | exchanging item =>
    have hlease := h.relays name (by simp) _ item hget rfl
    have hcall := h.settled name _ item hget rfl
    have hon : (c.on item (.pollExchange name)).Holding none := { h with }
    have hbusy := hon.begin name
    rw [pollRelay]
    refine Settles.head ?_ (.exchange hlease (Or.inl rfl))
    cases hx : (c.on item (.pollExchange name)).exchanged? item name with
    | none => exact .refl hon
    | some result =>
      cases result with
      | ok outcome => exact settles_endRelay hbusy hcall hissued item
      | error cause =>
        obtain ⟨channel, hchannel⟩ := exists_channel hx
        refine Settles.head ?_ (.corrupt hissued hlease hx)
        have hmarked : ((c.on item (.pollExchange name)).corrupt name).pool.Leased name item := leased_corrupt hlease
        exact settles_report hbusy.corrupt hcall hissued hmarked hchannel cause
  | reporting item cause =>
    have hlease := h.relays name (by simp) _ item hget rfl
    have hcall := h.settled name _ item hget rfl
    rw [pollRelay]
    cases hchannel : c.channel? item name with
    | none =>
      simp only [report, hchannel]
      exact .refl h
    | some channel => exact settles_report (h.begin name) hcall hissued hlease hchannel cause
  | _ => exact .refl h

/-! ### Steps and runs -/

/-- The consumer of a stream does something with its place in the table of streams. -/
theorem settles_putStream (h : c.Holding none) {stream : Stream} (hget : c.streams.get? name = some stream)
    (after : Stream) : Settles name c { c with streams := c.streams.put name after } := by
  refine ⟨.single (.tables _ _ (.refl _)), { h with served := ?_ }⟩
  intro other hhas
  refine h.served other (hhas.imp_right fun hhas => ?_)
  by_cases hne : other = name
  · rw [hne]
    exact Table.has_eq_true_iff.mpr ⟨stream, hget⟩
  · rwa [Table.has, Table.get?_put_of_ne _ _ hne] at hhas

/-- The consumer of a stream does something on its channel. -/
theorem settles_channel {item : ℕ} {event : Channel.Event (Except ClientError Item)}
    (h : Settles name (c.on item (.channel name event)) c') : Settles name c c' :=
  h.head (.channel item _ ⟨event, rfl⟩)

theorem holding_on (h : c.Holding none) (item : ℕ) (event : Connection.Event) : (c.on item event).Holding none :=
  { h with }

theorem stream?_eq_some {stream : Stream} (h : c.stream? name = some stream) : c.streams.get? name = some stream := by
  rw [stream?] at h
  split at h
  · next found hget =>
    split at h
    · rw [hget, ← h]
    · simp at h
  · simp at h

theorem settles_start (h : c.Holding none) (hnew : c.calls.has name = false) (command : Command) :
    Settles name c { c with calls := c.calls.put name ⟨command, .ready⟩ } := by
  rw [Table.has_eq_false_iff] at hnew
  have hcontinues : Continues c.calls (c.calls.put name ⟨command, .ready⟩) := by
    intro other call hget
    have hne : other ≠ name := by
      rintro rfl
      rw [hnew] at hget
      simp at hget
    exact ⟨call, (Table.get?_put_of_ne _ _ hne).trans hget, rfl⟩
  refine ⟨.single (.tables c.relays c.streams hcontinues), fun other _ call item hcall hitem => ?_, h.relays,
    fun other relay item hrelay hitem => ?_, fun other call hcall hopen => ?_, fun other hhas => ?_⟩
  · rcases Table.eq_or_of_get?_put hcall with ⟨-, rfl⟩ | ⟨-, hcall⟩
    · simp [Phase.item?] at hitem
    · exact h.calls other (by simp) call item hcall hitem
  · obtain ⟨call, hcall, hover⟩ := h.settled other relay item hrelay hitem
    have hne : other ≠ name := by
      rintro rfl
      rw [hnew] at hcall
      simp at hcall
    exact ⟨call, (Table.get?_put_of_ne _ _ hne).trans hcall, hover⟩
  · rcases Table.eq_or_of_get?_put hcall with ⟨-, rfl⟩ | ⟨-, hcall⟩
    · simp [Phase.item?] at hopen
    · exact h.checked other call hcall hopen
  · obtain ⟨command', hissued⟩ := h.served other hhas
    exact ⟨command', hissued.mono hcontinues⟩

/-- **Every step under a name is a chain of acts.** -/
theorem settles_step (h : c.Holding none) {event : Event} (hname : event.name? = some name) :
    Settles name c (c.step event) := by
  cases event with
  | start other command =>
    obtain rfl := Option.some.inj hname
    rw [step]
    split
    · exact .refl h
    · next hnew => exact settles_start h (by simpa using hnew) command
  | poll other =>
    obtain rfl := Option.some.inj hname
    rw [step]
    split
    · next hget => exact settles_pollCall h hget
    · exact .refl h
  | drop other =>
    obtain rfl := Option.some.inj hname
    rw [step]
    split
    · next hget => exact settles_dropCall h hget
    · exact .refl h
  | pollRelay other =>
    obtain rfl := Option.some.inj hname
    rw [step]
    split
    · next hget => exact settles_pollRelay h hget
    · exact .refl h
  | next other =>
    obtain rfl := Option.some.inj hname
    rw [step, next]
    split
    · exact .refl h
    · exact settles_channel (.refl (holding_on h _ _))
  | collect other =>
    obtain rfl := Option.some.inj hname
    rw [step, collect]
    split
    · exact .refl h
    · next hget => exact settles_putStream h (stream?_eq_some hget) _
  | pollCollect other =>
    obtain rfl := Option.some.inj hname
    rw [step, pollCollect]
    split
    · exact .refl h
    · next hget =>
      split
      · split
        · exact settles_channel (settles_putStream (holding_on h _ _) hget _)
        · exact settles_channel (settles_putStream (holding_on h _ _) hget _)
      · exact .refl h
  | leave other =>
    obtain rfl := Option.some.inj hname
    rw [step, leave]
    split
    · exact .refl h
    · next hget => exact settles_channel (settles_putStream (holding_on h _ _) hget _)
  | dispose => simp [Event.name?] at hname
  | advance time wall => simp [Event.name?] at hname
  | network item event => simp [Event.name?] at hname

theorem holding_step (h : c.Holding none) (event : Event) : (c.step event).Holding none := by
  cases hname : event.name? with
  | some name => exact (settles_step h hname).2
  | none =>
    cases event with
    | dispose =>
      rw [step, dispose, dispose_eq]
      exact h.withPool .dispose fun _ _ => by simp [Shared.Event.name?]
    | advance time wall => exact { h with }
    | network item event => exact { h with }
    | start | poll | drop | pollRelay | next | collect | pollCollect | leave => simp [Event.name?] at hname

theorem holding_run (h : c.Holding none) (events : List Event) : (c.run events).Holding none := by
  induction events generalizing c with
  | nil => exact h
  | cons event events ih => exact ih (holding_step h event)

/-- A new client has its pool and nothing else. -/
theorem parts_ofConfig {config : Config} {dial : Dial} {wall : Instant} (hclient : ofConfig config dial wall = .ok c) :
    c.pool = poolOf config ∧ c.connections = [] ∧ c.calls = [] ∧ c.relays = [] ∧ c.streams = [] := by
  rw [ofConfig] at hclient
  split at hclient
  · simp at hclient
  · rw [← Except.ok.inj hclient]
    exact ⟨rfl, rfl, rfl, rfl, rfl⟩

/-- In a new client nobody has a lease. -/
theorem holding_ofConfig {config : Config} {dial : Dial} {wall : Instant}
    (hclient : ofConfig config dial wall = .ok c) : c.Holding none := by
  obtain ⟨-, -, hcalls, hrelays, hstreams⟩ := parts_ofConfig hclient
  refine ⟨?_, ?_, ?_, ?_, ?_⟩
  · exact fun _ _ _ _ hget => by simp [hcalls] at hget
  · exact fun _ _ _ _ hget => by simp [hrelays] at hget
  · exact fun _ _ _ hget => by simp [hrelays] at hget
  · exact fun _ _ hget => by simp [hcalls] at hget
  · exact fun _ hhas => by simp [hrelays, hstreams, Table.has] at hhas

/-- A property that every act keeps, and everything else that happens to a client. -/
structure Kept (P : Client → Prop) : Prop where
  /-- A call acts. -/
  act : ∀ {name : String} {c c' : Client}, P c → Act name c c' → P c'
  /-- The client is disposed. -/
  dispose : ∀ {c : Client}, P c → P (c.withPool (c.pool.step .dispose))
  /-- Time passes. -/
  advance : ∀ {c : Client} (time : Duration) (wall : Instant), P c → P (c.advance time wall)
  /-- The network does something. -/
  network : ∀ {c : Client} (item : ℕ) (event : NetworkEvent), P c → P (c.on item (.network event))

namespace Kept

variable {P : Client → Prop}

theorem step (hP : Kept P) (h : P c) (hc : c.Holding none) (event : Event) : P (c.step event) := by
  cases hname : event.name? with
  | some name =>
    have hacts := (settles_step hc hname).1
    generalize c.step event = after at hacts ⊢
    induction hacts with
    | refl => exact h
    | tail _ hact ih => exact hP.act ih hact
  | none =>
    cases event with
    | dispose =>
      rw [Client.step, Client.dispose, dispose_eq]
      exact hP.dispose h
    | advance time wall => exact hP.advance time wall h
    | network item event => exact hP.network item event h
    | start | poll | drop | pollRelay | next | collect | pollCollect | leave => simp [Event.name?] at hname

/-- **What every act keeps, and whatever else happens, holds after every run.** -/
theorem run (hP : Kept P) (h : P c) (hc : c.Holding none) (events : List Event) : P (c.run events) := by
  induction events generalizing c with
  | nil => exact h
  | cons event events ih => exact ih (hP.step h hc event) (holding_step hc event)

end Kept

end Client

end MemcachedClient
