import MemcachedClient.Proofs.Client.Traffic
import MemcachedClient.Proofs.Connection.Cutoff
import MemcachedClient.Proofs.Connection.Ordering
import MemcachedClient.Proofs.Key

/-!
# What a client writes

On each connection of a client stand complete requests of its calls, one after another in the order in which the calls
came to write, all of them with keys that are accepted, and perhaps the beginning of one more (`Intact`). When the one
who was in the middle of its request has ended, nothing is written on the connection any more. A call whose keys are
refused has no part in this: it borrows nothing, opens nothing and writes nothing (`Refused`). Both hold after every run
(`wire_integrity`): `Logged` brings the connection back to its own session, on which `Sends` and `Stopped` are kept, and
`Issued` brings whoever writes, borrows or has a lease back to a call whose keys were looked at.
-/

namespace MemcachedClient

open Connection (Session Transcript)
open Connection.Transcript (Sends Stopped CutOff requests guarded_run kept_sends kept_stopped sends_start
  session_run)
open Pool

namespace Connection.Session

variable {s : Session} {name : String} {x : Exchange}

/-- Changing exchanges makes none, and none gets another command. -/
theorem command_updateExchange {other : String} {f : Exchange → Connection → Exchange × Connection}
    (hf : ∀ x c, (f x c).1.command = x.command) (h : (s.updateExchange other f).exchanges.get? name = some x) :
    ∃ y, s.exchanges.get? name = some y ∧ y.command = x.command := by
  rw [updateExchange] at h
  split at h
  · exact ⟨x, h, rfl⟩
  · next y hget =>
    rcases Table.eq_or_of_get?_put h with ⟨rfl, rfl⟩ | ⟨-, h⟩
    · exact ⟨y, hget, (hf y _).symm⟩
    · exact ⟨x, h, rfl⟩

/-- An exchange that is there after an event was there before, or the event started it. -/
theorem started_of_step {event : Event} (h : (s.step event).exchanges.get? name = some x) :
    (∃ y, s.exchanges.get? name = some y ∧ y.command = x.command) ∨
      ∃ capacity, event = .startExchange name x.command capacity := by
  cases event with
  | startExchange other command capacity =>
    rw [step] at h
    split at h
    · exact Or.inl ⟨x, h, rfl⟩
    · rcases Table.eq_or_of_get?_put h with ⟨rfl, rfl⟩ | ⟨-, h⟩
      · exact Or.inr ⟨capacity, rfl⟩
      · exact Or.inl ⟨x, h, rfl⟩
  | pollExchange other => exact Or.inl (command_updateExchange (fun y c => (y.hops_poll c s.clocks).command) h)
  | dropExchange other => exact Or.inl (command_updateExchange (fun y c => y.command_drop c) h)
  | channel other event => exact Or.inl (command_updateExchange (fun _ _ => rfl) h)
  | startOpening other limit =>
    rw [step] at h
    split at h <;> exact Or.inl ⟨x, h, rfl⟩
  | pollOpening other =>
    rw [step, updateOpening] at h
    split at h <;> exact Or.inl ⟨x, h, rfl⟩
  | dropOpening other =>
    rw [step, updateOpening] at h
    split at h <;> exact Or.inl ⟨x, h, rfl⟩
  | close => exact Or.inl ⟨x, h, rfl⟩
  | advance time wall => exact Or.inl ⟨x, h, rfl⟩
  | network event => exact Or.inl ⟨x, h, rfl⟩

/-- Every exchange was started in the run, with its command. -/
theorem started_of_run {dial : Dial} {receiveLimit : Option Duration} {clocks : Clocks} {events : List Event}
    (h : ((start dial receiveLimit clocks).run events).exchanges.get? name = some x) :
    ∃ capacity, .startExchange name x.command capacity ∈ events := by
  induction events using List.reverseRecOn generalizing x with
  | nil => simp [start] at h
  | append_singleton events event ih =>
    rw [run_append] at h
    rcases started_of_step h with ⟨y, hget, hcommand⟩ | ⟨capacity, rfl⟩
    · obtain ⟨capacity, hmem⟩ := ih hget
      exact ⟨capacity, List.mem_append_left _ (hcommand ▸ hmem)⟩
    · exact ⟨capacity, List.mem_append_right _ (List.mem_singleton_self _)⟩

end Connection.Session

namespace Client

/-- Who borrows or has a lease is a call whose keys are accepted. -/
def Admits (c : Client) : Prop :=
  ∀ name, c.pool.Borrows name ∨ (∃ item, c.pool.Leased name item) → ∃ command, c.Issued name command

variable {c c' : Client} {name : String}

theorem Admits.withPool (h : c.Admits) {event : Shared.Event}
    (hissued : ∀ name, event.name? = some name → ∃ command, c.Issued name command) :
    Admits { c with pool := c.pool.step event } := by
  intro other hpart
  by_cases hname : event.name? = some other
  · exact hissued other hname
  · refine h other (hpart.imp (borrows_step hname) ?_)
    rintro ⟨item, hleased⟩
    exact ⟨item, (leased_step hname).mp hleased⟩

/-- An operation on the pool under the name of a call whose keys are accepted. -/
theorem Admits.of_issued (h : c.Admits) {event : Shared.Event} (hname : event.name? = some name)
    (hissued : ∃ command, c.Issued name command) : Admits { c with pool := c.pool.step event } :=
  h.withPool fun _ hother => Option.some.inj (hname.symm.trans hother) ▸ hissued

/-- The opening of a borrower is not a matter of the pool or of the calls. -/
theorem Admits.onOpening (h : c.Admits) (name : String) (event : Connection.Event) :
    (c.onOpening name event).Admits := by
  rw [Client.onOpening]
  split <;> exact h

theorem Issued.onOpening {command : Command} (h : c.Issued name command) (event : Connection.Event) :
    (c.onOpening name event).Issued name command := by
  rw [Client.onOpening]
  split <;> exact h

theorem kept_admits : Kept Admits where
  act {name c c'} h hact := by
    cases hact with
    | tables relays streams continues =>
      intro other hpart
      obtain ⟨command, hissued⟩ := h other hpart
      exact ⟨command, hissued.mono continues⟩
    | borrow issued =>
      rw [withPool_eq]
      exact h.of_issued rfl issued
    | poll issued opening =>
      obtain ⟨command, hissued⟩ := issued
      rw [withPool_eq, opening]
      exact (h.onOpening name _).of_issued rfl ⟨command, hissued.onOpening _⟩
    | cancel issued opening =>
      obtain ⟨command, hissued⟩ := issued
      rw [withPool_eq, opening]
      exact (h.onOpening name _).of_issued rfl ⟨command, hissued.onOpening _⟩
    | release issued =>
      rw [giveBack_eq, withPool_eq]
      exact h.of_issued rfl issued
    | corrupt issued =>
      rw [Client.corrupt, corrupt_snd]
      exact h.of_issued rfl issued
    | start | exchange | channel => exact h
  dispose {c} h := by
    rw [withPool_eq]
    exact h.withPool fun _ hname => by simp [Shared.Event.name?] at hname
  advance _ _ h := h
  network _ _ h := h

/-- In a new client nobody borrows. -/
theorem admits_ofConfig {config : Config} {dial : Dial} {wall : Instant}
    (hclient : ofConfig config dial wall = .ok c) : c.Admits := by
  intro name hpart
  rw [(parts_ofConfig hclient).1, poolOf] at hpart
  split at hpart
  · simp [Borrows, Leased, Shared.Leased, Table.has, Shared.ofOptions] at hpart
  · simp [Borrows, Leased, Exclusive.Leased, Table.has, Exclusive.ofOptions] at hpart

/-! ### Refused calls -/

/-- A call whose keys are refused, for some cause: it has no part in the pool and no exchange on any connection,
nothing that is done under its name changes either, and it answers with the cause when it runs. -/
structure Refused (c : Client) (name : String) (cause : ValidationError) : Prop where
  /-- It does not borrow. -/
  borrows : ¬ c.pool.Borrows name
  /-- It has no lease. -/
  leased : ∀ item, ¬ c.pool.Leased name item
  /-- It exchanges nothing. -/
  exchanges : ∀ (item : ℕ) (s : Session), c.connections[item]? = some s → s.exchanges.get? name = none
  /-- Whatever it does, the pool and the connections stay as they are. -/
  step : ∀ event, event.name? = some name →
    (c.step event).pool = c.pool ∧ (c.step event).connections = c.connections
  /-- It answers with the cause, unless it was dropped before. -/
  answer : ∀ call, c.calls.get? name = some call → call.phase.isOver = false →
    (c.step (.poll name)).answered? name = some (.error (.validation cause))

/-- Who is refused is not served. -/
theorem not_issued {call : Call} {cause : ValidationError} (hget : c.calls.get? name = some call)
    (hrefused : Key.checkAll call.command.keys = .error cause) : ¬ ∃ command, c.Issued name command := by
  rintro ⟨command, ⟨found, hfound, rfl⟩, hchecked⟩
  rw [hget, Option.some.injEq] at hfound
  rw [← hfound, hrefused] at hchecked
  simp at hchecked

/-- Until it is over, a refused call has not run. -/
theorem Holding.phase_of_refused {call : Call} {cause : ValidationError} (h : c.Holding none)
    (hget : c.calls.get? name = some call) (hrefused : Key.checkAll call.command.keys = .error cause) :
    call.phase = .ready ∨ call.phase.isOver = true := by
  have hchecked := h.checked name call hget
  rw [hrefused] at hchecked
  cases hphase : call.phase with
  | ready => exact Or.inl rfl
  | borrowing => exact absurd (hchecked (Or.inl hphase)) (by simp)
  | exchanging item => exact absurd (hchecked (Or.inr (by rw [hphase]; rfl))) (by simp)
  | answered answer => exact Or.inr rfl
  | dropped => exact Or.inr rfl

theorem refused_step {call : Call} {cause : ValidationError} (h : c.Holding none)
    (hget : c.calls.get? name = some call) (hrefused : Key.checkAll call.command.keys = .error cause) {event : Event}
    (hname : event.name? = some name) : (c.step event).pool = c.pool ∧ (c.step event).connections = c.connections := by
  have hserved : ¬ (c.relays.has name = true ∨ c.streams.has name = true) :=
    fun hhas => not_issued hget hrefused (h.served name hhas)
  rw [not_or, Bool.not_eq_true, Bool.not_eq_true, Table.has_eq_false_iff, Table.has_eq_false_iff] at hserved
  obtain ⟨hrelay, hstream⟩ := hserved
  have hphase := h.phase_of_refused hget hrefused
  obtain ⟨command, phase⟩ := call
  cases event with
  | start other command' =>
    obtain rfl := Option.some.inj hname
    rw [step, if_pos (Table.has_eq_true_iff.mpr ⟨_, hget⟩)]
    exact ⟨rfl, rfl⟩
  | poll other =>
    obtain rfl := Option.some.inj hname
    simp only [step, hget, pollCall]
    cases phase with
    | ready =>
      rw [hrefused]
      exact ⟨rfl, rfl⟩
    | borrowing | exchanging => simp [Phase.isOver] at hphase
    | answered | dropped => exact ⟨rfl, rfl⟩
  | drop other =>
    obtain rfl := Option.some.inj hname
    simp only [step, hget, dropCall]
    cases phase with
    | borrowing | exchanging => simp [Phase.isOver] at hphase
    | ready | answered | dropped => exact ⟨rfl, rfl⟩
  | pollRelay other =>
    obtain rfl := Option.some.inj hname
    simp only [step, hrelay, and_self]
  | next other =>
    obtain rfl := Option.some.inj hname
    simp only [step, next, stream?, hstream, and_self]
  | collect other =>
    obtain rfl := Option.some.inj hname
    simp only [step, collect, stream?, hstream, and_self]
  | pollCollect other =>
    obtain rfl := Option.some.inj hname
    simp only [step, pollCollect, hstream, and_self]
  | leave other =>
    obtain rfl := Option.some.inj hname
    simp only [step, leave, hstream, and_self]
  | dispose | advance | network => simp [Event.name?] at hname

theorem refused_answer {call : Call} {cause : ValidationError} (h : c.Holding none)
    (hget : c.calls.get? name = some call) (hrefused : Key.checkAll call.command.keys = .error cause)
    (hopen : call.phase.isOver = false) : (c.step (.poll name)).answered? name = some (.error (.validation cause)) := by
  have hphase := h.phase_of_refused hget hrefused
  rw [hopen] at hphase
  have hready := hphase.resolve_right Bool.false_ne_true
  simp only [step, hget, pollCall, hready, hrefused, answer, setPhase, answered?, Table.get?_put_self]

/-! ### Runs -/

section run

variable {start : Client} {item : ℕ} {clocks : Clocks} {events : List Event} {past : List Connection.Event}

/-- What stands on the stream of a connection, whose transcript this is. -/
structure Intact (start : Client) (events : List Event) (item : ℕ) (t : Transcript) : Prop where
  /-- The transcript is that of the connection. -/
  connection : (start.run events).connections[item]? = some t.session
  /-- It is the clocks of the client that tell when a request is made. -/
  clocks : t.session.clocks = (start.run events).clocks
  /-- Whoever wrote or writes is a call, and writes its command. -/
  issued : ∀ sender ∈ t.senders, (start.run events).Issued sender.1 sender.2
  /-- Its keys are accepted, each of them, and there is one. -/
  valid : ∀ sender ∈ t.senders, sender.2.keys ≠ [] ∧ ∀ key ∈ sender.2.keys, Key.Valid key
  /-- What is written is their requests, the last one perhaps not complete. -/
  cutOff : CutOff t.asked t.session.connection.socket.sent
  /-- If it is not, and who wrote it has ended, nothing is written any more. -/
  stopped : ∀ name command x, t.senders.getLast? = some (name, command) →
    t.session.exchanges.get? name = some x → x.phase.isOver = true →
    t.session.connection.socket.sent ≠ requests t.asked →
    ∀ more, ∃ s, (start.run (events ++ more)).connections[item]? = some s ∧
      s.connection.socket.sent = t.session.connection.socket.sent

/-- Whoever came to write on a connection is a call whose keys are accepted. -/
theorem Logged.issued_senders (hstart : start.Holding none) (h : Logged start item clocks events past) :
    ∀ sender ∈ ((Transcript.start start.dial start.receiveLimit clocks).run past).senders,
      (start.run events).Issued sender.1 sender.2 := by
  intro sender hsender
  obtain ⟨x, hget, -, hcommand⟩ := (guarded_run start.dial start.receiveLimit clocks past).joined sender hsender
  rw [session_run] at hget
  obtain ⟨capacity, hmem⟩ := Connection.Session.started_of_run hget
  rw [← hcommand]
  exact h.issued hstart hmem

theorem Logged.intact (hstart : start.Holding none) (habreast : start.Abreast) (h : Logged start item clocks events past) :
    Intact start events item ((Transcript.start start.dial start.receiveLimit clocks).run past) := by
  have hissued := h.issued_senders hstart
  have hsession := session_run (Transcript.start start.dial start.receiveLimit clocks) past
  have hsends := kept_sends.run (sends_start start.dial start.receiveLimit clocks) past
  have hconnection := h.connection
  generalize (Transcript.start start.dial start.receiveLimit clocks).run past = t at *
  rw [show (Session.start start.dial start.receiveLimit clocks).run past = t.session from hsession.symm] at hconnection
  refine ⟨hconnection, kept_abreast.run habreast hstart events item _ hconnection, hissued,
    fun sender hmem => Key.checkAll_eq_ok_iff.mp (hissued sender hmem).2, hsends.cutOff,
    fun name command x hlast hget hended hcut more => ?_⟩
  have hstopped := hsends.stopped hlast hget hended hcut
  obtain ⟨hadvances, -⟩ := advances_run (holding_run hstart events) more
  obtain ⟨new, -, hlater⟩ := hadvances.goesOn item _ hconnection
  rw [run_append]
  refine ⟨_, hlater, ?_⟩
  rw [← session_run]
  exact ((kept_stopped _).run hstopped new).sent

/-- A call whose keys are refused is refused. -/
theorem refused_run (hstart : start.Holding none) (hempty : start.connections = []) (hadmits : start.Admits)
    (events : List Event) {name : String} {call : Call} {cause : ValidationError}
    (hget : (start.run events).calls.get? name = some call)
    (hrefused : Key.checkAll call.command.keys = .error cause) : (start.run events).Refused name cause := by
  have hissued := not_issued hget hrefused
  have hadmits := kept_admits.run hadmits hstart events
  have hholding := holding_run hstart events
  refine ⟨fun hborrows => hissued (hadmits name (Or.inl hborrows)),
    fun item hleased => hissued (hadmits name (Or.inr ⟨item, hleased⟩)), fun item s hs => ?_,
    fun event hname => refused_step hholding hget hrefused hname, fun found hfound hopen => ?_⟩
  · by_contra hx
    obtain ⟨x, hx⟩ := Option.ne_none_iff_exists'.mp hx
    obtain ⟨clocks, past, hlogged⟩ := exists_logged hstart hempty events hs
    rw [hlogged.connection, Option.some.injEq] at hs
    rw [← hs] at hx
    obtain ⟨capacity, hmem⟩ := Connection.Session.started_of_run hx
    exact hissued ⟨_, hlogged.issued hstart hmem⟩
  · rw [hget, Option.some.injEq] at hfound
    rw [← hfound] at hopen
    exact refused_answer hholding hget hrefused hopen

/-- **What a client writes.** After any run of a client every connection has a log, and whatever is a log of a
connection leads to a transcript that is intact: complete requests with keys that are accepted, in the order in which
the calls came to write, and perhaps the beginning of one more, behind which nothing is written once who wrote it has
ended. A call whose keys are refused takes no part in it. -/
theorem wire_integrity {config : Config} {dial : Dial} {wall : Instant}
    (hclient : ofConfig config dial wall = .ok start) (events : List Event) :
    (∀ item s, (start.run events).connections[item]? = some s →
      ∃ clocks past, Logged start item clocks events past) ∧
    (∀ item clocks past, Logged start item clocks events past →
      Intact start events item ((Transcript.start start.dial start.receiveLimit clocks).run past)) ∧
    ∀ name call cause, (start.run events).calls.get? name = some call →
      Key.checkAll call.command.keys = .error cause → (start.run events).Refused name cause := by
  have hstart := holding_ofConfig hclient
  have hempty := (parts_ofConfig hclient).2.1
  exact ⟨fun item s hs => exists_logged hstart hempty events hs, fun item clocks past h => h.intact hstart (fun i s hs => by simp [hempty] at hs),
    fun name call cause hget hrefused => refused_run hstart hempty (admits_ofConfig hclient) events hget hrefused⟩

end run

/-- A retrieval is written, then the network takes three bytes of the next request and its call is dropped; a third
call has no key. -/
def cutShort : List Event :=
  [.start "a" (.retrieve .get "k"), .poll "a", .network 0 (.makeRoom (some 3)), .start "b" (.delete "k"), .poll "b",
    .drop "b", .start "c" (.delete ""), .poll "c"]

/-- What is left of the second request stays the end of what is written, and the third call takes no part in it. -/
theorem wire_integrity_of_cut_short : ofConfig twoRequests .established (.ofParts 0 0) = .ok pair ∧
    (pair.run cutShort).connections.map (·.connection.socket.sent) = [Bytes.ofText "get k\r\ndel"] ∧
    (∃ clocks past, Logged pair 0 clocks cutShort past ∧
      Intact pair cutShort 0 ((Transcript.start pair.dial pair.receiveLimit clocks).run past)) ∧
    (pair.run cutShort).Refused "c" .emptyKey := by
  have hclient : ofConfig twoRequests .established (.ofParts 0 0) = .ok pair := rfl
  obtain ⟨hlogged, hintact, hrefused⟩ := wire_integrity hclient cutShort
  obtain ⟨clocks, past, h⟩ := hlogged 0 _ (by rfl)
  exact ⟨hclient, by decide +kernel, ⟨clocks, past, h, hintact 0 clocks past h⟩,
    hrefused "c" ⟨.delete "", .answered (.error (.validation .emptyKey))⟩ .emptyKey (by rfl) (by rfl)⟩

end Client

end MemcachedClient
