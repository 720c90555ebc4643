import MemcachedClient.Proofs.Client.Lending
import MemcachedClient.Proofs.Client.Sheltering
import MemcachedClient.Proofs.Client.Twins

/-!
# Calls one at a time

A client whose calls run one at a time, each of them over before the next one begins and its stream drained to the end
(`inTurn`), does not depend on whether its calls share connections: the same connections are opened in the same order,
the same happens on each of them, so that the same bytes are written, and they are closed at the same points; the calls
answer the same, and the consumers of streams receive the same (`Concurs`). There is one difference: the error of a call
for which no connection could be opened is wrapped by the client that shares connections (`asShared`).

`Paired` carries this from event to event. While nobody but one call makes use of a pool, an exclusive pool and a shared
one are alike (`Pool.Alike`), and what the call does leads from twins to twins (`lands_pollCall`, `lands_pollRelay`).
-/

namespace MemcachedClient.Client

open Pool

/-- Whether a call is on its way: it has begun and is not over. -/
def Phase.isUnderWay : Phase → Bool
  | borrowing => true
  | exchanging _ => true
  | _ => false

/-- Whether nobody is on the way: no call, and no relay but one whose stream is drained to its end. -/
def isQuiet (c : Client) : Bool :=
  (c.calls.all fun entry => !entry.2.phase.isUnderWay) &&
    c.relays.all fun entry => entry.2 == .over || c.isDrained entry.1

/-- Whether an event lets a call begin. -/
def begins (c : Client) : Event → Bool
  | .poll name =>
    match c.calls.get? name with
    | some ⟨_, .ready⟩ => true
    | _ => false
  | _ => false

/-- Whether calls run one at a time: each begins when nobody is on the way. -/
def inTurn (c : Client) : List Event → Bool
  | [] => true
  | event :: events => (!c.begins event || c.isQuiet) && (c.step event).inTurn events

/-- A client does the same as one whose calls share connections, and lets see the same. -/
structure Concurs (c d : Client) : Prop where
  /-- The same connections were opened, and the same has happened on each. -/
  connections : d.connections = c.connections
  /-- The same creations were started. -/
  created : d.pool.created = c.pool.created
  /-- The same connections were closed, in the same order. -/
  closed : d.pool.closed = c.pool.closed
  /-- The relays are in the same places. -/
  relays : d.relays = c.relays
  /-- The streams are in the same places, and what was collected is the same. -/
  streams : d.streams = c.streams
  /-- The calls have answered the same, but for the wrapped error. -/
  answers : ∀ name, d.answered? name = (c.answered? name).map (c.asShared name)
  /-- A consumer that receives from its stream sees the same. -/
  received : ∀ name, (d.next name).1 = (c.next name).1

/-- Twins whose calls have gone the same way. -/
structure Paired (u : Use) (c d : Client) : Prop where
  /-- They are twins. -/
  twins : Twins c u d
  /-- Who makes use of the pools is a call, or a relay. -/
  roles : ∀ name, c.role? name = u.role? name
  /-- The calls are in the same places. -/
  told : ∀ name, Told name c d
  /-- The calls and relays stand. -/
  standing : c.Standing
  /-- Exchanges are run under leases. -/
  holding : c.Holding none

variable {c d c' d' : Client} {u u' : Use} {name : String} {name? : Option String}
  {starts finishes starts' finishes' : Bool}

theorem Paired.concurs (h : Paired u c d) : Concurs c d where
  connections := h.twins.connections
  created := h.twins.pools.created
  closed := h.twins.pools.closed
  relays := h.twins.relays
  streams := h.twins.streams
  answers name := by
    rw [answered?, answered?, h.told name]
    cases c.calls.get? name with
    | none => rfl
    | some call =>
      obtain ⟨command, phase⟩ := call
      cases phase <;> rfl
  received := h.twins.received

/-! ### Who is on the way -/

/-- A call that is on its way makes use of the pool. -/
theorem Phase.isSome_role? (phase : Phase) : phase.role?.isSome = phase.isUnderWay := by
  cases phase <;> rfl

theorem Phase.isOver_of_isUnderWay {phase : Phase} (h : phase.isUnderWay = true) : phase.isOver = false := by
  cases phase with
  | borrowing | exchanging => rfl
  | ready | answered | dropped => simp [isUnderWay] at h

theorem Phase.eq_ready {phase : Phase} (hopen : phase.isOver = false) (hway : phase.isUnderWay = false) :
    phase = .ready := by
  cases phase with
  | ready => rfl
  | borrowing | exchanging => simp [isUnderWay] at hway
  | answered | dropped => simp [isOver] at hopen

/-- In a quiet client nobody makes use of the pool. -/
theorem role?_of_isQuiet (hstanding : c.Standing) (h : c.isQuiet = true) (name : String) : c.role? name = none := by
  obtain ⟨hcalls, hrelays⟩ := Bool.and_eq_true_iff.mp h
  rw [List.all_eq_true] at hcalls hrelays
  rw [role?, Option.or_eq_none_iff]
  refine ⟨?_, ?_⟩
  · cases hget : c.relays.get? name with
    | none => rfl
    | some relay =>
      have hquiet := hrelays _ (Table.mem_of_get? hget)
      cases relay with
      | exchanging item | reporting item cause =>
        have hopen := (hstanding.relays name).isDrained_eq_false hget rfl
        simp [hopen] at hquiet
      | _ => rfl
  · cases hget : c.calls.get? name with
    | none => rfl
    | some call =>
      have hquiet := hcalls _ (Table.mem_of_get? hget)
      obtain ⟨command, phase⟩ := call
      cases phase with
      | borrowing | exchanging => simp [Phase.isUnderWay] at hquiet
      | ready | answered | dropped => rfl

theorem name?_of_roles (h : ∀ name, u.role? name = none) : u.name? = none := by
  cases u with
  | vacant | idle => rfl
  | creating name slot item => simp [Use.role?] at h
  | lending name slot item corrupted => simp [Use.role?] at h

/-- What is left alone does what it did. -/
theorem Goes.role? (h : Goes name? starts finishes c c') (hname : name? ≠ some name) :
    c'.role? name = c.role? name := by
  rw [Client.role?, Client.role?, h.calls name hname, h.relays name hname]

/-- Whoever is on the way is the one who makes use of the pools. -/
theorem Paired.role?_of_idle (h : Paired u c d) (hidle : c.Idle name) {call : Call}
    (hget : c.calls.get? name = some call) : call.phase.role? = u.role? name := by
  rw [← h.roles name, Client.role?_of_idle hidle, hget, Option.bind_some]

/-! ### Events -/

theorem pollCall_of_isOver (c : Client) (name : String) {call : Call} (h : call.phase.isOver = true) :
    c.pollCall name call = c := by
  rw [pollCall]
  cases hphase : call.phase with
  | answered | dropped => rfl
  | ready | borrowing | exchanging => simp [hphase, Phase.isOver] at h

theorem dropCall_of_isOver (c : Client) (name : String) {call : Call} (h : call.phase.isOver = true) :
    c.dropCall name call = c := by
  rw [dropCall]
  cases hphase : call.phase with
  | answered | dropped => rfl
  | ready | borrowing | exchanging => simp [hphase, Phase.isOver] at h

/-- Nothing becomes of a call that is over. -/
theorem step_of_isOver (h : ∀ call, c.calls.get? name = some call → call.phase.isOver = true) :
    c.step (.poll name) = c ∧ c.step (.drop name) = c := by
  refine ⟨?_, ?_⟩
  · rw [Client.step]
    split
    · next call hget => exact pollCall_of_isOver c name (h call hget)
    · rfl
  · rw [Client.step]
    split
    · next call hget => exact dropCall_of_isOver c name (h call hget)
    · rfl

namespace Paired

/-- Something happens under a name, if there is one, and the others are left alone. -/
theorem goes (h : Paired u c d) (hgoes : Goes name? starts finishes c c') (hgoes' : Goes name? starts' finishes' d d')
    (htwins : Twins c' u' d') (hothers : ∀ other, name? ≠ some other → u'.role? other = u.role? other)
    (hname : ∀ name, name? = some name → c'.role? name = u'.role? name ∧ Told name c' d')
    (hstanding : c'.Standing) (hholding : c'.Holding none) : Paired u' c' d' where
  twins := htwins
  roles other := by
    by_cases hne : name? = some other
    · exact (hname other hne).1
    · rw [hgoes.role? hne, hothers other hne, h.roles other]
  told other := by
    by_cases hne : name? = some other
    · exact (hname other hne).2
    · exact (h.told other).goes h.standing hstanding hgoes (Or.inl hne) (hgoes.calls other hne)
        (hgoes'.calls other hne)
  standing := hstanding
  holding := hholding

/-- Something happens under a name, and nobody else makes use of the pools. -/
theorem of_lands (h : Paired u c d) {event : Event} (hname : event.name? = some name)
    (hu : u.name? = none ∨ u.name? = some name) (hlands : Lands name u' (c.step event) (d.step event))
    (htold : Told name (c.step event) (d.step event)) (hstanding : (c.step event).Standing) :
    Paired u' (c.step event) (d.step event) := by
  refine h.goes (goes_step c event) (goes_step d event) hlands.twins (fun other hne => ?_) (fun other hsame => ?_)
    hstanding (holding_step h.holding event)
  · have hother : other ≠ name := fun hsame => hne (hname.trans (congrArg some hsame.symm))
    rw [hlands.alone other hother, alone_of_name? hu other hother]
  · obtain rfl := Option.some.inj (hname.symm.trans hsame)
    exact ⟨hlands.role, htold⟩

/-- Something happens that no pool and no call has part in. -/
theorem of_same (h : Paired u c d) {event : Event} (hruns : event.runsCall = false)
    (htwins : Twins (c.step event) u (d.step event))
    (hc : (c.step event).calls = c.calls ∧ (c.step event).relays = c.relays) (hd : (d.step event).calls = d.calls) :
    Paired u (c.step event) (d.step event) := by
  have hstanding := h.standing.step hruns
  have hgoes := goes_step c event
  rw [hruns] at hgoes
  refine ⟨htwins, fun other => ?_, fun other => ?_, hstanding, holding_step h.holding event⟩
  · rw [Client.role?, hc.1, hc.2, ← h.roles other, Client.role?]
  · exact (h.told other).goes h.standing hstanding hgoes (Or.inr rfl) (by rw [hc.1]) (by rw [hd])

/-- Nothing happens. -/
theorem of_eq (h : Paired u c d) (hc : c' = c) (hd : d' = d) : Paired u c' d' := by
  rw [hc, hd]
  exact h

theorem start (h : Paired u c d) (name : String) (command : Command) :
    Paired u (c.step (.start name command)) (d.step (.start name command)) := by
  have hhas : d.calls.has name = c.calls.has name := by
    rw [Table.has, Table.has, h.told name, Option.isSome_map]
  cases hnew : c.calls.has name with
  | true =>
    refine h.of_eq ?_ ?_
    · rw [Client.step, if_pos hnew]
    · rw [Client.step, if_pos (hhas.trans hnew)]
  | false =>
    have hc : c.step (.start name command) = { c with calls := c.calls.put name ⟨command, .ready⟩ } := by
      rw [Client.step, hnew]
      rfl
    have hd : d.step (.start name command) = { d with calls := d.calls.put name ⟨command, .ready⟩ } := by
      rw [Client.step, hhas, hnew]
      rfl
    have htwins := h.twins.setPhase name ⟨command, .ready⟩ ⟨command, .ready⟩ .ready .ready
    have hstanding : (c.step (.start name command)).Standing := h.standing.step rfl
    refine h.goes (goes_step c _) (goes_step d _) ?_ (fun _ _ => rfl) (fun other hother => ?_) hstanding
      (holding_step h.holding _)
    · rw [hc, hd]
      exact htwins
    · obtain rfl := Option.some.inj hother
      rw [hc, hd, ← h.roles name, Client.role?, Client.role?, Told]
      rw [Table.has_eq_false_iff] at hnew
      simp only [Table.get?_put_self, hnew, Option.bind_none, Option.bind_some, Option.map_some]
      exact ⟨rfl, rfl⟩

/-- A call that is not over is the same in both. -/
theorem get?_of_open (h : Paired u c d) {call : Call} (hget : c.calls.get? name = some call)
    (hopen : call.phase.isOver = false) : d.calls.get? name = some call := by
  rw [h.told name, hget]
  obtain ⟨command, phase⟩ := call
  cases phase with
  | answered | dropped => simp [Phase.isOver] at hopen
  | ready | borrowing | exchanging => rfl

/-- A call that is over is over in both. -/
theorem isOver (h : Paired u c d) (hover : ∀ call, c.calls.get? name = some call → call.phase.isOver = true) :
    ∀ call, d.calls.get? name = some call → call.phase.isOver = true := by
  intro call hget
  rw [h.told name, Option.map_eq_some_iff] at hget
  obtain ⟨⟨command, phase⟩, hget, rfl⟩ := hget
  have hphase := hover _ hget
  cases phase with
  | answered | dropped => rfl
  | ready | borrowing | exchanging => simp [Phase.isOver] at hphase

/-- Nothing becomes of a call that is over in either. -/
theorem of_isOver (h : Paired u c d) (hover : ∀ call, c.calls.get? name = some call → call.phase.isOver = true) :
    Paired u (c.step (.poll name)) (d.step (.poll name)) ∧ Paired u (c.step (.drop name)) (d.step (.drop name)) := by
  obtain ⟨hpoll, hdrop⟩ := step_of_isOver hover
  obtain ⟨hpoll', hdrop'⟩ := step_of_isOver (h.isOver hover)
  exact ⟨h.of_eq hpoll hpoll', h.of_eq hdrop hdrop'⟩

/-- Who is on the way makes use of the pools. -/
theorem name?_of_isUnderWay (h : Paired u c d) {call : Call} (hget : c.calls.get? name = some call)
    (hway : call.phase.isUnderWay = true) : call.phase.role? = u.role? name ∧ u.name? = some name := by
  have hrole := h.role?_of_idle (h.holding.idle hget (Phase.isOver_of_isUnderWay hway)) hget
  refine ⟨hrole, ?_⟩
  have hsome := (Phase.isSome_role? _).trans hway
  rw [hrole] at hsome
  obtain ⟨role, huse⟩ := Option.isSome_iff_exists.mp hsome
  exact Use.name?_of_role? huse

/-- Who begins finds that nobody makes use of the pools. -/
theorem name?_of_begins (h : Paired u c d) {command : Command} (hget : c.calls.get? name = some ⟨command, .ready⟩)
    (hturn : c.begins (.poll name) = true → c.isQuiet = true) : u.name? = none := by
  have hquiet := hturn (by rw [begins, hget])
  refine name?_of_roles fun other => ?_
  rw [← h.roles other, role?_of_isQuiet h.standing hquiet]

theorem poll (h : Paired u c d) (name : String) (hturn : c.begins (.poll name) = true → c.isQuiet = true) :
    ∃ u', Paired u' (c.step (.poll name)) (d.step (.poll name)) := by
  by_cases hopen : ∃ call, c.calls.get? name = some call ∧ call.phase.isOver = false
  · obtain ⟨call, hget, hover⟩ := hopen
    have hidle := h.holding.idle hget hover
    have hready : call.phase = .ready → u.name? = none := by
      rintro hphase
      obtain ⟨command, phase⟩ := call
      obtain rfl : phase = .ready := hphase
      exact h.name?_of_begins hget hturn
    have hu : u.name? = none ∨ u.name? = some name := by
      cases hway : call.phase.isUnderWay with
      | true => exact Or.inr (h.name?_of_isUnderWay hget hway).2
      | false => exact Or.inl (hready (Phase.eq_ready hover hway))
    obtain ⟨u', hlands, htold, hstanding⟩ :=
      lands_pollCall h.twins h.standing hidle hget hover hready (h.role?_of_idle hidle hget)
    have hc : c.step (.poll name) = c.pollCall name call := by rw [Client.step, hget]
    have hd : d.step (.poll name) = d.pollCall name call := by rw [Client.step, h.get?_of_open hget hover]
    rw [← hc, ← hd] at hlands htold
    rw [← hc] at hstanding
    exact ⟨u', h.of_lands rfl hu hlands htold hstanding⟩
  · have hover : ∀ call, c.calls.get? name = some call → call.phase.isOver = true := by
      simpa using hopen
    exact ⟨u, (h.of_isOver hover).1⟩

theorem drop (h : Paired u c d) (name : String) : ∃ u', Paired u' (c.step (.drop name)) (d.step (.drop name)) := by
  have hstanding : (c.step (.drop name)).Standing := h.standing.step rfl
  by_cases hopen : ∃ call, c.calls.get? name = some call ∧ call.phase.isOver = false
  · obtain ⟨call, hget, hover⟩ := hopen
    have hidle := h.holding.idle hget hover
    have hc : c.step (.drop name) = c.dropCall name call := by rw [Client.step, hget]
    have hd : d.step (.drop name) = d.dropCall name call := by rw [Client.step, h.get?_of_open hget hover]
    cases hway : call.phase.isUnderWay with
    | true =>
      obtain ⟨hrole, hu⟩ := h.name?_of_isUnderWay hget hway
      have hsome := call.phase.isSome_role?.trans hway
      obtain ⟨u', hlands, htold⟩ := lands_dropCall h.twins hidle hsome hrole
      rw [← hc, ← hd] at hlands htold
      exact ⟨u', h.of_lands rfl (Or.inr hu) hlands htold hstanding⟩
    | false =>
      -- the call has not begun, and somebody else may be on the way
      have hphase := Phase.eq_ready hover hway
      have hrole := h.role?_of_idle hidle hget
      rw [dropCall, hphase] at hc hd
      refine ⟨u, h.goes (goes_step c _) (goes_step d _) ?_ (fun _ _ => rfl) (fun other hother => ?_) hstanding
        (holding_step h.holding _)⟩
      · rw [hc, hd]
        exact h.twins.setPhase name call call .dropped .dropped
      · obtain rfl := Option.some.inj hother
        have hidle' : (c.setPhase name call .dropped).Idle name := hidle
        rw [hc, hd, ← hrole, hphase, Client.role?_of_idle hidle', setPhase, Table.get?_put_self]
        exact ⟨rfl, told_setPhase call rfl⟩
  · have hover : ∀ call, c.calls.get? name = some call → call.phase.isOver = true := by
      simpa using hopen
    exact ⟨u, (h.of_isOver hover).2⟩

theorem pollRelay (h : Paired u c d) (name : String) :
    ∃ u', Paired u' (c.step (.pollRelay name)) (d.step (.pollRelay name)) := by
  have hstanding : (c.step (.pollRelay name)).Standing := h.standing.step rfl
  have hsame := h.twins.relays
  cases hget : c.relays.get? name with
  | none =>
    refine ⟨u, h.of_eq ?_ ?_⟩
    · rw [Client.step, hget]
    · rw [Client.step, hsame, hget]
  | some relay =>
    have hc : c.step (.pollRelay name) = c.pollRelay name relay := by rw [Client.step, hget]
    have hd : d.step (.pollRelay name) = d.pollRelay name relay := by rw [Client.step, hsame, hget]
    cases hitem : relay.item? with
    | none =>
      obtain rfl : relay = .over := by cases relay <;> simp_all [Relay.item?]
      exact ⟨u, h.of_eq hc hd⟩
    | some item =>
      obtain ⟨call, hcall, hover⟩ := h.holding.settled name relay item hget hitem
      have hnone : (c.calls.get? name).bind (·.phase.role?) = none := by
        rw [hcall, Option.bind_some]
        cases hphase : call.phase <;> simp_all [Phase.role?, Phase.isOver]
      obtain ⟨role, hrole⟩ : ∃ role, relay.role? = some role := by
        cases relay with
        | exchanging | reporting => exact ⟨_, rfl⟩
        | _ => simp [Relay.item?] at hitem
      have huse : u.role? name = some role := (h.roles name).symm.trans (role?_of_relay hget hrole)
      obtain ⟨u', hlands⟩ := lands_pollRelay h.twins hget (by rw [hrole]; rfl) (hrole.trans huse.symm) hnone
      rw [← hc, ← hd] at hlands
      refine ⟨u', h.of_lands rfl (Or.inr (Use.name?_of_role? huse)) hlands ?_ hstanding⟩
      refine (h.told name).goes h.standing hstanding (goes_step c _) (Or.inr rfl) ?_ ?_
      · rw [hc, calls_pollRelay]
      · rw [hd, calls_pollRelay]

theorem dispose (h : Paired u c d) : ∃ u', Paired u' (c.step .dispose) (d.step .dispose) := by
  obtain ⟨u', hu', hpools⟩ := h.twins.pools.dispose
  refine ⟨u', h.goes (goes_step c _) (goes_step d _) (h.twins.withPool hpools) (fun other _ => ?_)
    (fun other hother => by simp [Event.name?] at hother) (h.standing.step rfl) (holding_step h.holding _)⟩
  rcases hu' with ⟨hfree, hfree'⟩ | rfl
  · rw [Use.role?_of_name?_eq_none hfree, Use.role?_of_name?_eq_none hfree']
  · rfl

/-- **Twins stay twins**, if calls run one at a time. -/
theorem step (h : Paired u c d) (event : Event) (hturn : c.begins event = true → c.isQuiet = true) :
    ∃ u', Paired u' (c.step event) (d.step event) := by
  cases event with
  | start name command => exact ⟨u, h.start name command⟩
  | poll name => exact h.poll name hturn
  | drop name => exact h.drop name
  | pollRelay name => exact h.pollRelay name
  | next name => exact ⟨u, h.of_same rfl (h.twins.next name) (c.tables_next name) (d.tables_next name).1⟩
  | collect name => exact ⟨u, h.of_same rfl (h.twins.collect name) (c.tables_collect name) (d.tables_collect name).1⟩
  | pollCollect name =>
    exact ⟨u, h.of_same rfl (h.twins.pollCollect name) (c.tables_pollCollect name) (d.tables_pollCollect name).1⟩
  | leave name => exact ⟨u, h.of_same rfl (h.twins.leave name) (c.tables_leave name) (d.tables_leave name).1⟩
  | dispose => exact h.dispose
  | advance time wall => exact ⟨u, h.of_same rfl (h.twins.advance time wall) ⟨rfl, rfl⟩ rfl⟩
  | network item event => exact ⟨u, h.of_same rfl (h.twins.on item _) ⟨rfl, rfl⟩ rfl⟩

theorem run (h : Paired u c d) {events : List Event} (hturn : c.inTurn events = true) :
    ∃ u', Paired u' (c.run events) (d.run events) := by
  induction events generalizing u c d with
  | nil => exact ⟨u, h⟩
  | cons event events ih =>
    rw [inTurn, Bool.and_eq_true] at hturn
    obtain ⟨u', hstep⟩ := h.step event fun hbegins => by simpa [hbegins] using hturn.1
    exact ih hstep hturn.2

end Paired

/-! ### Runs -/

/-- The endpoint of a configuration that is accepted is the one that it names. -/
theorem parse_of_check {config : Config} {endpoint : Endpoint} (h : config.check = .ok endpoint) :
    Endpoint.parse config.endpoint = .ok endpoint := by
  rw [Config.check] at h
  cases hparse : Endpoint.parse config.endpoint with
  | error cause => simp [hparse, bind, Except.bind] at h
  | ok found =>
    rw [hparse] at h
    simp only [bind, Except.bind] at h
    split at h
    · simp [throw, throwThe, MonadExceptOf.throw] at h
    · split at h
      · simp [throw, throwThe, MonadExceptOf.throw] at h
      · simpa [pure, Except.pure] using h

/-- New clients of a configuration that is accepted in either mode have everything in common but their pools. -/
theorem twins_ofConfig {config : Config} {dial : Dial} {wall : Instant}
    (hexclusive : ofConfig { config with enablePipelining := false } dial wall = .ok c)
    (hshared : ofConfig { config with enablePipelining := true } dial wall = .ok d) : Twins c (.vacant none) d := by
  have hpos := pos_maxConnections hexclusive
  rw [ofConfig] at hexclusive hshared
  split at hexclusive
  · simp at hexclusive
  · next endpoint hcheck =>
    split at hshared
    · simp at hshared
    · next endpoint' hcheck' =>
      have hparse := parse_of_check hcheck
      have hparse' := parse_of_check hcheck'
      obtain rfl := Except.ok.inj (hparse.symm.trans hparse')
      rw [← Except.ok.inj hexclusive, ← Except.ok.inj hshared]
      exact ⟨Alike.ofOptions "Connection" hpos _, rfl⟩

/-- New clients are paired. -/
theorem paired_ofConfig {config : Config} {dial : Dial} {wall : Instant}
    (hexclusive : ofConfig { config with enablePipelining := false } dial wall = .ok c)
    (hshared : ofConfig { config with enablePipelining := true } dial wall = .ok d) :
    Paired (.vacant none) c d := by
  obtain ⟨-, -, hcalls, hrelays, -⟩ := parts_ofConfig hexclusive
  obtain ⟨-, -, hcalls', -⟩ := parts_ofConfig hshared
  refine ⟨twins_ofConfig hexclusive hshared, fun name => ?_, fun name => ?_, standing_ofConfig hexclusive,
    holding_ofConfig hexclusive⟩
  · simp [role?, hcalls, hrelays, Use.role?]
  · simp [Told, hcalls, hcalls']

theorem inTurn_of_append {events more : List Event} (h : c.inTurn (events ++ more) = true) :
    c.inTurn events = true := by
  induction events generalizing c with
  | nil => rfl
  | cons event events ih =>
    rw [List.cons_append, inTurn, Bool.and_eq_true] at h
    rw [inTurn, Bool.and_eq_true]
    exact ⟨h.1, ih h.2⟩

/-- **Calls that run one at a time do not depend on whether they share connections**: at every point of the run, the
connections that were opened, what has happened on each of them, which of them were closed, and what the calls and
streams have given are the same in a client that shares connections and in one that does not, but for the wrapped error
of a call for which no connection could be opened. -/
theorem sequential_use_concurs {config : Config} {dial : Dial} {wall : Instant}
    (hexclusive : ofConfig { config with enablePipelining := false } dial wall = .ok c)
    (hshared : ofConfig { config with enablePipelining := true } dial wall = .ok d) {events : List Event}
    (hturn : c.inTurn events = true) : ∀ past, past <+: events → Concurs (c.run past) (d.run past) := by
  rintro past ⟨more, rfl⟩
  obtain ⟨u, hrun⟩ := (paired_ofConfig hexclusive hshared).run (inTurn_of_append hturn)
  exact hrun.concurs

/-- A client of one connection that connects as slowly as the network lets it, with shared connections or without. -/
def slow (pipelining : Bool) : Client :=
  { pair with dial := .pending, pool := poolOf { twoRequests with enablePipelining := pipelining } }

/-- The first call cannot connect. The second one can, and its stream is drained; then the third one runs on the same
connection, until the client is disposed and the call is dropped. -/
def oneByOne : List Event :=
  [.start "a" (.retrieve .get "k"), .poll "a", .network 0 (.refuse (.ofSystem .connectionRefused)), .poll "a",
    .start "b" (.retrieveMany .get ["k"]), .poll "b", .network 1 .establish, .poll "b", .pollRelay "b",
    .network 1 (.arrive (Bytes.ofText "VALUE k 0 1\r\nv\r\nEND\r\n")), .pollRelay "b", .next "b", .next "b",
    .start "c" (.delete "k"), .poll "c", .dispose, .drop "c"]

/-- Only the error of the first call is wrapped. -/
theorem sequential_use_concurs_of_refused :
    ofConfig { twoRequests with enablePipelining := false } .pending (.ofParts 0 0) = .ok (slow false) ∧
    ofConfig { twoRequests with enablePipelining := true } .pending (.ofParts 0 0) = .ok (slow true) ∧
    (slow false).inTurn oneByOne = true ∧
    ((slow false).run oneByOne).pool.closed = [1] ∧
    ((slow false).run oneByOne).asShared "a" (.error (.io (.ofSystem .connectionRefused))) =
      .error (.poolCreation "Connection" (.io (.ofSystem .connectionRefused))) ∧
    Concurs ((slow false).run oneByOne) ((slow true).run oneByOne) := by
  have hexclusive : ofConfig { twoRequests with enablePipelining := false } .pending (.ofParts 0 0) =
    .ok (slow false) := rfl
  have hshared : ofConfig { twoRequests with enablePipelining := true } .pending (.ofParts 0 0) =
    .ok (slow true) := rfl
  have hturn : (slow false).inTurn oneByOne = true := by decide +kernel
  exact ⟨hexclusive, hshared, hturn, by decide +kernel, by decide +kernel,
    sequential_use_concurs hexclusive hshared hturn oneByOne (List.prefix_refl _)⟩

end MemcachedClient.Client
