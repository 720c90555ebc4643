import MemcachedClient.Proofs.Client.Wire
import MemcachedClient.Proofs.Connection.Failures
import MemcachedClient.Proofs.Connection.Lasting

/-!
# What an event leaves alone

An event under one name leaves the calls, relays and streams under all other names alone. It starts no exchange but
under its own name, and only if it runs a call on; and for the producer of a channel it acts only under its own name,
and only if it runs a relay on. `Goes` says so of two clients, one before and one after; every event goes so far and no
further (`goes_step`).

Hence what lasts on connections lasts on those of a client: that there was an exchange under a name
(`hasExchanged`), why a connection failed to open (`hasFailedToOpen`), and that a channel has its producer and no error
in it (`Goes.produces`).
-/

namespace MemcachedClient

open Connection (Session)

namespace Connection.Session

variable {s : Session} {name : String}

/-- An exchange that is not there is started by an event of its own only. -/
theorem has_run_eq_false (h : s.exchanges.has name = false) {events : List Event}
    (hevents : ∀ e ∈ events, ∀ command capacity, e ≠ .startExchange name command capacity) :
    (s.run events).exchanges.has name = false := by
  induction events generalizing s with
  | nil => exact h
  | cons event events ih =>
    rw [List.forall_mem_cons] at hevents
    refine ih ?_ hevents.2
    rw [Table.has_eq_false_iff] at h ⊢
    by_contra hsome
    obtain ⟨x, hx⟩ := Option.ne_none_iff_exists'.mp hsome
    rcases started_of_step hx with ⟨y, hy, -⟩ | ⟨capacity, hstart⟩
    · rw [h] at hy
      simp at hy
    · exact hevents.1 _ _ hstart

end Connection.Session

namespace Client

/-- There is, or was, an exchange under this name on some connection. -/
def hasExchanged (c : Client) (name : String) : Bool := c.connections.any fun s => s.exchanges.has name

/-- Some connection has failed to open for this cause. -/
def hasFailedToOpen (c : Client) (cause : ClientError) : Bool :=
  c.connections.any fun s => s.opened? openingName = some (.error cause)

/-- What an event under a name may do on a connection: start an exchange, and act for the producer of a channel, under
that name only, and only if that is said. -/
def Ordinary (name? : Option String) (starts finishes : Bool) : Connection.Event → Prop
  | .startExchange name _ _ => name? = some name ∧ starts = true
  | .channel name .finish => name? = some name ∧ finishes = true
  | .channel name (.offer _) => name? = some name ∧ finishes = true
  | _ => True

/-- What is done for the producer of a channel is done under the name. -/
theorem Ordinary.of_producer? {name? : Option String} {starts finishes : Bool} {event : Connection.Event}
    {name : String} (h : Ordinary name? starts finishes event) (hproducer : event.producer? = some name) :
    name? = some name ∧ finishes = true := by
  cases event with
  | channel other e =>
    cases e with
    | finish | offer =>
      obtain rfl := Option.some.inj hproducer
      exact h
    | receive | drain | abandon => simp [Connection.Event.producer?] at hproducer
  | _ => simp [Connection.Event.producer?] at hproducer

/-- From `c` to `c'` something happened under a name, if there is one, and what is under other names was left alone. -/
structure Goes (name? : Option String) (starts finishes : Bool) (c c' : Client) : Prop where
  /-- The connections went on. -/
  advances : Advances (fun _ => Ordinary name? starts finishes) c c'
  /-- The other calls are the same. -/
  calls : ∀ other, name? ≠ some other → c'.calls.get? other = c.calls.get? other
  /-- The other relays are the same. -/
  relays : ∀ other, name? ≠ some other → c'.relays.get? other = c.relays.get? other
  /-- The other streams are the same. -/
  streams : ∀ other, name? ≠ some other → c'.streams.get? other = c.streams.get? other

namespace Goes

variable {name? : Option String} {starts finishes : Bool} {c c' : Client}

theorem refl (c : Client) : Goes name? starts finishes c c :=
  ⟨.refl c, fun _ _ => rfl, fun _ _ => rfl, fun _ _ => rfl⟩

theorem trans {mid : Client} (h : Goes name? starts finishes c mid) (h' : Goes name? starts finishes mid c') :
    Goes name? starts finishes c c' where
  advances := h.advances.trans h'.advances
  calls other hne := (h'.calls other hne).trans (h.calls other hne)
  relays other hne := (h'.relays other hne).trans (h.relays other hne)
  streams other hne := (h'.streams other hne).trans (h.streams other hne)

theorem on (c : Client) (item : ℕ) {event : Connection.Event} (hevent : Ordinary name? starts finishes event) :
    Goes name? starts finishes c (c.on item event) :=
  ⟨.on c hevent, fun _ _ => rfl, fun _ _ => rfl, fun _ _ => rfl⟩

theorem withPool (c : Client) (pool : Pool) : Goes name? starts finishes c (c.withPool pool) where
  advances := .withPool c pool (fun _ _ _ => trivial) (fun _ _ => trivial) fun _ => trivial
  calls other _ := by rw [withPool_eq]
  relays other _ := by rw [withPool_eq]
  streams other _ := by rw [withPool_eq]

/-- The pool and the tables change, the latter under the name only. -/
theorem tables (c : Client) {pool : Pool} {calls : Table Call} {relays : Table Relay} {streams : Table Stream}
    (hcalls : ∀ other, name? ≠ some other → calls.get? other = c.calls.get? other)
    (hrelays : ∀ other, name? ≠ some other → relays.get? other = c.relays.get? other)
    (hstreams : ∀ other, name? ≠ some other → streams.get? other = c.streams.get? other) :
    Goes name? starts finishes c { c with pool, calls, relays, streams } :=
  ⟨⟨rfl, rfl, (Advances.refl c).goesOn, (Advances.refl c).opens⟩, hcalls, hrelays, hstreams⟩

end Goes

/-! ### Events -/

section events

variable {starts finishes : Bool}

theorem get?_put_of_some_ne {α : Type} {name : String} (table : Table α) (entry : α) (other : String)
    (hne : some name ≠ some other) : (table.put name entry).get? other = table.get? other :=
  Table.get?_put_of_ne table entry fun h => hne (by rw [h])

theorem ordinary_start {name : String} {command : Command} {capacity : ℕ} :
    Ordinary (some name) true finishes (.startExchange name command capacity) := ⟨rfl, rfl⟩

theorem ordinary_finish {name : String} : Ordinary (some name) starts true (.channel name .finish) := ⟨rfl, rfl⟩

theorem ordinary_offer {name : String} {element : Except ClientError Item} :
    Ordinary (some name) starts true (.channel name (.offer element)) := ⟨rfl, rfl⟩

theorem goes_setPhase (c : Client) (name : String) (call : Call) (phase : Phase) :
    Goes (some name) starts finishes c (c.setPhase name call phase) :=
  .tables c (get?_put_of_some_ne _ _) (fun _ _ => rfl) fun _ _ => rfl

theorem goes_putRelay (c : Client) (name : String) (relay : Relay) :
    Goes (some name) starts finishes c { c with relays := c.relays.put name relay } :=
  .tables c (fun _ _ => rfl) (get?_put_of_some_ne _ _) fun _ _ => rfl

theorem goes_putStream (c : Client) (name : String) (stream : Stream) :
    Goes (some name) starts finishes c { c with streams := c.streams.put name stream } :=
  .tables c (fun _ _ => rfl) (fun _ _ => rfl) (get?_put_of_some_ne _ _)

theorem goes_corrupt (c : Client) (name other : String) : Goes (some name) starts finishes c (c.corrupt other) :=
  .tables c (fun _ _ => rfl) (fun _ _ => rfl) fun _ _ => rfl

theorem goes_giveBack (c : Client) (name other : String) : Goes (some name) starts finishes c (c.giveBack other) :=
  .withPool c _

theorem goes_onOpening (c : Client) (name : String) {event : Connection.Event}
    (hevent : Ordinary (some name) starts finishes event) :
    Goes (some name) starts finishes c (c.onOpening name event) := by
  rw [onOpening]
  split
  · exact .on c _ hevent
  · exact .refl c

/-- Running the exchange of a call on starts none. -/
theorem goes_exchange (c : Client) (name : String) (call : Call) (item : ℕ) :
    Goes (some name) starts finishes c (c.exchange name call item) := by
  have hon : Goes (some name) starts finishes c (c.on item (.pollExchange name)) := .on c item (by trivial)
  rw [exchange]
  split
  · exact hon.trans (goes_setPhase ..)
  · exact (hon.trans (goes_giveBack ..)).trans (goes_setPhase ..)
  · exact ((hon.trans (goes_corrupt ..)).trans (goes_giveBack ..)).trans (goes_setPhase ..)

theorem goes_useConnection (c : Client) (name : String) (call : Call) (item : ℕ) :
    Goes (some name) true finishes c (c.useConnection name call item) := by
  rw [useConnection]
  split
  · have hon : Goes (some name) true finishes c (c.on item (.startExchange name call.command streamCapacity)) :=
      .on c item ordinary_start
    refine (hon.trans ?_).trans (goes_setPhase ..)
    exact .tables _ (fun _ _ => rfl) (get?_put_of_some_ne _ _) (get?_put_of_some_ne _ _)
  · exact Goes.trans (.on c item ordinary_start) (goes_exchange ..)

theorem goes_proceed (c : Client) (name : String) (call : Call) (report : Pool.Report) :
    Goes (some name) true finishes c (c.proceed name call report) := by
  cases report with
  | pending => exact goes_setPhase ..
  | leased item => exact goes_useConnection ..
  | failed cause => exact goes_setPhase ..
  | absent => exact .refl c

theorem goes_pollCall (c : Client) (name : String) (call : Call) :
    Goes (some name) true finishes c (c.pollCall name call) := by
  rw [pollCall]
  split
  · split
    · exact goes_setPhase ..
    · exact (Goes.withPool c _).trans (goes_proceed ..)
  · exact ((goes_onOpening c name (by trivial)).trans (.withPool _ _)).trans (goes_proceed ..)
  · exact goes_exchange ..
  · exact .refl c
  · exact .refl c

theorem goes_dropCall (c : Client) (name : String) (call : Call) :
    Goes (some name) starts finishes c (c.dropCall name call) := by
  rw [dropCall]
  split
  · exact goes_setPhase ..
  · exact ((goes_onOpening c name (by trivial)).trans (.withPool _ _)).trans (goes_setPhase ..)
  · exact (Goes.trans (.on c _ (by trivial)) (goes_giveBack ..)).trans (goes_setPhase ..)
  · exact .refl c
  · exact .refl c

theorem goes_endRelay (c : Client) (name : String) (item : ℕ) :
    Goes (some name) starts true c (c.endRelay name item) :=
  (Goes.trans (.on c item ordinary_finish) (goes_giveBack ..)).trans (goes_putRelay ..)

theorem goes_report (c : Client) (name : String) (item : ℕ) (cause : ClientError) :
    Goes (some name) starts true c (c.report name item cause) := by
  rw [report]
  split
  · exact .refl c
  · split
    · exact Goes.trans (.on c item ordinary_offer) (goes_endRelay ..)
    · exact goes_endRelay ..
    · exact goes_putRelay ..

theorem goes_pollRelay (c : Client) (name : String) (relay : Relay) :
    Goes (some name) starts true c (c.pollRelay name relay) := by
  cases relay with
  | exchanging item =>
    have hon : Goes (some name) starts true c (c.on item (.pollExchange name)) := .on c item (by trivial)
    rw [pollRelay]
    split
    · exact hon
    · exact hon.trans (goes_endRelay ..)
    · exact (hon.trans (goes_corrupt ..)).trans (goes_report ..)
  | reporting item cause => exact goes_report ..
  | _ => exact .refl c

theorem goes_next (c : Client) (name : String) : Goes (some name) starts finishes c (c.next name).2 := by
  rw [next]
  split
  · exact .refl c
  · exact .on c _ (by trivial)

theorem goes_collect (c : Client) (name : String) : Goes (some name) starts finishes c (c.collect name) := by
  rw [collect]
  split
  · exact .refl c
  · exact goes_putStream ..

theorem goes_pollCollect (c : Client) (name : String) : Goes (some name) starts finishes c (c.pollCollect name) := by
  rw [pollCollect]
  split
  · exact .refl c
  · split
    · split
      · exact Goes.trans (.on c _ (by trivial)) (goes_putStream ..)
      · exact Goes.trans (.on c _ (by trivial)) (goes_putStream ..)
    · exact .refl c

theorem goes_leave (c : Client) (name : String) : Goes (some name) starts finishes c (c.leave name) := by
  rw [leave]
  split
  · exact .refl c
  · exact Goes.trans (.on c _ (by trivial)) (goes_putStream ..)

end events

/-- Whether an event runs a call on. -/
def Event.runsCall : Event → Bool
  | poll _ => true
  | _ => false

/-- Whether an event runs a relay on. -/
def Event.runsRelay : Event → Bool
  | pollRelay _ => true
  | _ => false

/-- **What an event does.** -/
theorem goes_step (c : Client) (event : Event) : Goes event.name? event.runsCall event.runsRelay c (c.step event) := by
  cases event with
  | start name command =>
    rw [step]
    split
    · exact .refl c
    · exact .tables c (get?_put_of_some_ne _ _) (fun _ _ => rfl) fun _ _ => rfl
  | poll name =>
    rw [step]
    split
    · exact goes_pollCall ..
    · exact .refl c
  | drop name =>
    rw [step]
    split
    · exact goes_dropCall ..
    · exact .refl c
  | pollRelay name =>
    rw [step]
    split
    · exact goes_pollRelay ..
    · exact .refl c
  | next name => exact goes_next c name
  | collect name => exact goes_collect c name
  | pollCollect name => exact goes_pollCollect c name
  | leave name => exact goes_leave c name
  | dispose => exact .withPool c _
  | advance time wall =>
    refine ⟨⟨rfl, rfl, fun i s hs => ⟨[.advance time wall], by simp [Ordinary], ?_⟩, fun i s hnone hs => ?_⟩,
      fun _ _ => rfl, fun _ _ => rfl, fun _ _ => rfl⟩
    · rw [step, advance, List.getElem?_map, hs]
      rfl
    · rw [step, advance, List.getElem?_map, hnone] at hs
      simp at hs
  | network item event => exact .on c item (by trivial)

/-! ### What lasts -/

namespace Goes

variable {name? : Option String} {starts finishes : Bool} {c c' : Client} {name : String}

/-- A connection goes on. -/
theorem exists_after (h : Goes name? starts finishes c c') {s : Session} (hs : s ∈ c.connections) :
    ∃ new, (∀ e ∈ new, Ordinary name? starts finishes e) ∧ s.run new ∈ c'.connections := by
  obtain ⟨i, hi⟩ := List.mem_iff_getElem?.mp hs
  obtain ⟨new, hnew, hlast⟩ := h.advances.goesOn i s hi
  exact ⟨new, hnew, List.mem_of_getElem? hlast⟩

/-- A connection has gone on, or is new. -/
theorem exists_before (h : Goes name? starts finishes c c') {s : Session} (hs : s ∈ c'.connections) :
    ∃ first new, (first ∈ c.connections ∨ ∃ dial limit clocks, first = .start dial limit clocks) ∧
      (∀ e ∈ new, Ordinary name? starts finishes e) ∧ s = first.run new := by
  obtain ⟨i, hi⟩ := List.mem_iff_getElem?.mp hs
  cases hbefore : c.connections[i]? with
  | none =>
    obtain ⟨clocks, new, hnew, rfl⟩ := h.advances.opens i s hbefore hi
    exact ⟨_, new, Or.inr ⟨_, _, _, rfl⟩, hnew, rfl⟩
  | some first =>
    obtain ⟨new, hnew, hlast⟩ := h.advances.goesOn i first hbefore
    rw [hi, Option.some.injEq] at hlast
    exact ⟨first, new, Or.inl (List.mem_of_getElem? hbefore), hnew, hlast⟩

/-- Where there was an exchange, there was one for good. -/
theorem hasExchanged (h : Goes name? starts finishes c c') (hbefore : c.hasExchanged name = true) :
    c'.hasExchanged name = true := by
  obtain ⟨s, hs, hhas⟩ := List.any_eq_true.mp hbefore
  obtain ⟨new, -, hlast⟩ := h.exists_after hs
  exact List.any_eq_true.mpr ⟨_, hlast, Session.has_run hhas new⟩

/-- No exchange is started but under the name, if there is one. -/
theorem hasExchanged_eq (h : Goes name? starts finishes c c') (hname : name? ≠ some name ∨ starts = false) :
    c'.hasExchanged name = c.hasExchanged name := by
  cases hbefore : c.hasExchanged name with
  | true => exact h.hasExchanged hbefore
  | false =>
    rw [Client.hasExchanged, List.any_eq_false] at hbefore ⊢
    intro s hs
    obtain ⟨first, new, hfirst, hnew, rfl⟩ := h.exists_before hs
    have hnone : first.exchanges.has name = false := by
      rcases hfirst with hfirst | ⟨dial, limit, clocks, rfl⟩
      · exact Bool.eq_false_iff.mpr (hbefore first hfirst)
      · rfl
    refine Bool.eq_false_iff.mp (Session.has_run_eq_false hnone fun e he command capacity hstart => ?_)
    subst hstart
    obtain ⟨hsame, hstarts⟩ := hnew _ he
    exact hname.elim (fun hne => hne hsame) fun hnot => Bool.false_ne_true (hnot.symm.trans hstarts)

/-- Why a connection failed to open is known for good. -/
theorem hasFailedToOpen (h : Goes name? starts finishes c c') {cause : ClientError}
    (hbefore : c.hasFailedToOpen cause = true) : c'.hasFailedToOpen cause = true := by
  obtain ⟨s, hs, hopened⟩ := List.any_eq_true.mp hbefore
  obtain ⟨new, -, hlast⟩ := h.exists_after hs
  exact List.any_eq_true.mpr ⟨_, hlast, decide_eq_true (Session.opened?_run (of_decide_eq_true hopened) new)⟩

/-- Every connection that failed to open did for one of the causes for which openings fail. -/
theorem explained (h : Goes name? starts finishes c c') (hbefore : ∀ s ∈ c.connections, s.Explained) :
    ∀ s ∈ c'.connections, s.Explained := by
  intro s hs
  obtain ⟨first, new, hfirst | ⟨dial, limit, clocks, rfl⟩, -, rfl⟩ := h.exists_before hs
  · exact (hbefore first hfirst).run new
  · exact (Session.explained_start dial limit clocks).run new

/-- Nothing is done for the producer of a channel but under the name, if there is one. -/
theorem produces (h : Goes name? starts finishes c c') (hname : name? ≠ some name ∨ finishes = false)
    (hbefore : ∀ s ∈ c.connections, s.Produces name) : ∀ s ∈ c'.connections, s.Produces name := by
  intro s hs
  obtain ⟨first, new, hfirst, hnew, rfl⟩ := h.exists_before hs
  have hproduces : first.Produces name := by
    rcases hfirst with hfirst | ⟨dial, limit, clocks, rfl⟩
    · exact hbefore first hfirst
    · intro x hx
      simp [Session.start] at hx
  refine hproduces.run fun e he hproducer => ?_
  obtain ⟨hsame, hfinishes⟩ := (hnew e he).of_producer? hproducer
  exact hname.elim (fun hne => hne hsame) fun hnot => Bool.false_ne_true (hnot.symm.trans hfinishes)

end Goes

end Client

end MemcachedClient
