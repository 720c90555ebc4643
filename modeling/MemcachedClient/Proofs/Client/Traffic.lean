import MemcachedClient.Proofs.Client.Acting
import Mathlib.Data.List.Induction

/-!
# What happens on the connections of a client

A connection of a client changes by the events of its session alone, and a step of the client brings only those that
belong to it (`Permits`): a step under the name of a call concerns the exchange of that name and no other, and an
exchange is started for a call whose keys are accepted. `Advances` says of a client before and after that every
connection went on so, and that a new one began as an unopened connection without calls. Time passes for the client and
for all its connections at once, so each of them goes by the clocks of the client (`Abreast`).

`Logged` is the log of one connection along a run, step by step. Every connection has one (`exists_logged`).
-/

namespace MemcachedClient

open Connection (Session)
open Pool

namespace Connection

/-- Whether an event moves the clocks. -/
def Event.isAdvance : Event → Bool
  | advance .. => true
  | _ => false

namespace Session

theorem clocks_step (s : Session) {event : Connection.Event} (h : event.isAdvance = false) :
    (s.step event).clocks = s.clocks := by
  cases event with
  | startOpening name limit =>
    rw [step]
    split <;> rfl
  | pollOpening name | dropOpening name =>
    rw [step, updateOpening]
    split <;> rfl
  | startExchange name command capacity =>
    rw [step]
    split <;> rfl
  | pollExchange name | dropExchange name | channel name event =>
    rw [step, updateExchange]
    split <;> rfl
  | close => rfl
  | advance time wall => simp [Event.isAdvance] at h
  | network event => rfl

theorem clocks_run (s : Session) {events : List Connection.Event} (h : ∀ event ∈ events, event.isAdvance = false) :
    (s.run events).clocks = s.clocks := by
  induction events generalizing s with
  | nil => rfl
  | cons event events ih =>
    rw [List.forall_mem_cons] at h
    rw [run_cons, ih (s.step event) h.2, clocks_step s h.1]

end Session

end Connection

namespace Client

/-- What a step of a client may do on the connection with a number, when it leads to `c`. -/
def Permits (c : Client) (event : Event) (item : ℕ) : Connection.Event → Prop
  | .startExchange name command _ => event.name? = some name ∧ c.Issued name command
  | .pollExchange name => event.name? = some name
  | .dropExchange name => event.name? = some name
  | .channel name _ => event.name? = some name
  | .advance time wall => event = .advance time wall
  | .network e => event = .network item e
  | .startOpening .. => True
  | .pollOpening _ => True
  | .dropOpening _ => True
  | .close => True

/-- From `c` to `c'` every connection went on by events that are permitted, and new ones began without calls. -/
structure Advances (P : ℕ → Connection.Event → Prop) (c c' : Client) : Prop where
  /-- The network makes the same of a connect. -/
  dial : c'.dial = c.dial
  /-- The limit of each read is the same. -/
  receiveLimit : c'.receiveLimit = c.receiveLimit
  /-- A connection goes on. -/
  goesOn : ∀ i s, c.connections[i]? = some s →
    ∃ new, (∀ e ∈ new, P i e) ∧ c'.connections[i]? = some (s.run new)
  /-- A new connection began without calls. -/
  opens : ∀ i s, c.connections[i]? = none → c'.connections[i]? = some s →
    ∃ clocks new, (∀ e ∈ new, P i e) ∧ s = (Session.start c.dial c.receiveLimit clocks).run new

variable {c c' : Client} {name : String} {event : Event} {P Q : ℕ → Connection.Event → Prop}

/-! ### Connections after an operation on the pool -/

theorem connections_closeAll (c : Client) (items : List ℕ) (i : ℕ) :
    (items.foldl (fun c item => c.on item .close) c).connections[i]? =
      (c.connections[i]?).map (·.run (List.replicate (items.count i) .close)) := by
  induction items generalizing c with
  | nil =>
    rw [List.count_nil, List.replicate_zero, List.foldl_nil]
    cases c.connections[i]? <;> rfl
  | cons item rest ih =>
    rw [List.foldl_cons, ih, connections_on, List.count_cons]
    by_cases hi : i = item
    · rw [if_pos hi, if_pos (by simpa using hi.symm), Option.map_map, List.replicate_succ]
      rfl
    · rw [if_neg hi, if_neg (by simpa using Ne.symm hi), Nat.add_zero]

theorem connections_withPool (c : Client) (pool : Pool) (i : ℕ) : (c.withPool pool).connections[i]? =
    ((if c.connections.length < pool.created then c.connections ++ [c.attempt] else c.connections)[i]?).map
      (·.run (List.replicate ((pool.closed.drop c.pool.closed.length).count i) .close)) :=
  connections_closeAll _ _ i

namespace Advances

theorem refl (c : Client) : Advances P c c :=
  ⟨rfl, rfl, fun _ _ hs => ⟨[], by simp, hs⟩, fun _ _ hnone hsome => by simp [hnone] at hsome⟩

theorem trans {mid : Client} (h : Advances P c mid) (h' : Advances P mid c') : Advances P c c' where
  dial := h'.dial.trans h.dial
  receiveLimit := h'.receiveLimit.trans h.receiveLimit
  goesOn i s hs := by
    obtain ⟨new, hnew, hmid⟩ := h.goesOn i s hs
    obtain ⟨more, hmore, hlast⟩ := h'.goesOn i _ hmid
    refine ⟨new ++ more, fun e he => (List.mem_append.mp he).elim (hnew e) (hmore e), ?_⟩
    rw [hlast, Session.run_append]
  opens i s hnone hs := by
    cases hmid : mid.connections[i]? with
    | none =>
      obtain ⟨clocks, new, hnew, hopened⟩ := h'.opens i s hmid hs
      rw [h.dial, h.receiveLimit] at hopened
      exact ⟨clocks, new, hnew, hopened⟩
    | some s' =>
      obtain ⟨clocks, new, hnew, rfl⟩ := h.opens i s' hnone hmid
      obtain ⟨more, hmore, hlast⟩ := h'.goesOn i _ hmid
      refine ⟨clocks, new ++ more, fun e he => (List.mem_append.mp he).elim (hnew e) (hmore e), ?_⟩
      rw [hs, Option.some.injEq] at hlast
      rw [hlast, Session.run_append]

theorem mono (h : Advances P c c') (hPQ : ∀ i e, P i e → Q i e) : Advances Q c c' where
  dial := h.dial
  receiveLimit := h.receiveLimit
  goesOn i s hs := by
    obtain ⟨new, hnew, hlast⟩ := h.goesOn i s hs
    exact ⟨new, fun e he => hPQ i e (hnew e he), hlast⟩
  opens i s hnone hs := by
    obtain ⟨clocks, new, hnew, hopened⟩ := h.opens i s hnone hs
    exact ⟨clocks, new, fun e he => hPQ i e (hnew e he), hopened⟩

/-- Something happens on one connection. -/
theorem on (c : Client) {item : ℕ} {e : Connection.Event} (he : P item e) : Advances P c (c.on item e) where
  dial := rfl
  receiveLimit := rfl
  goesOn i s hs := by
    rw [connections_on, hs]
    by_cases hi : i = item
    · rw [if_pos hi]
      refine ⟨[e], ?_, rfl⟩
      rw [hi]
      simpa using he
    · rw [if_neg hi]
      exact ⟨[], by simp, rfl⟩
  opens i s hnone hs := by
    rw [connections_on, hnone] at hs
    simp at hs

/-- An operation on the pool opens connections and closes them. -/
theorem withPool (c : Client) (pool : Pool) (hopening : ∀ i name limit, P i (.startOpening name limit))
    (hpoll : ∀ i name, P i (.pollOpening name)) (hclose : ∀ i, P i .close) : Advances P c (c.withPool pool) := by
  have hclosed : ∀ i count, ∀ e ∈ List.replicate count Connection.Event.close, P i e := by
    intro i count e he
    rw [List.eq_of_mem_replicate he]
    exact hclose i
  refine ⟨by rw [withPool_eq], by rw [withPool_eq], fun i s hs => ?_, fun i s hnone hs => ?_⟩
  · have hconnection := c.connections_withPool pool i
    generalize (pool.closed.drop c.pool.closed.length).count i = count at hconnection
    refine ⟨_, hclosed i count, ?_⟩
    rw [hconnection]
    split
    · rw [List.getElem?_append_left (List.getElem?_eq_some_iff.mp hs).1, hs]
      rfl
    · rw [hs]
      rfl
  · have hconnection := c.connections_withPool pool i
    generalize (pool.closed.drop c.pool.closed.length).count i = count at hconnection
    rw [hconnection] at hs
    split at hs
    · obtain ⟨s', hs', rfl⟩ := Option.map_eq_some_iff.mp hs
      rw [List.getElem?_append_right (List.getElem?_eq_none_iff.mp hnone)] at hs'
      obtain rfl : c.attempt = s' := List.mem_singleton.mp (List.mem_of_getElem? hs') |>.symm
      refine ⟨c.clocks, [.startOpening openingName c.connectLimit, .pollOpening openingName] ++
        List.replicate count .close, fun e he => ?_, ?_⟩
      · rcases List.mem_append.mp he with he | he
        · rcases List.mem_pair.mp he with rfl | rfl
          · exact hopening i _ _
          · exact hpoll i _
        · exact hclosed i count e he
      · rw [Session.run_append]
        rfl
    · rw [hnone] at hs
      simp at hs

theorem onOpening (c : Client) (name : String) {e : Connection.Event} (he : ∀ i, P i e) :
    Advances P c (c.onOpening name e) := by
  rw [Client.onOpening]
  split
  · exact on c (he _)
  · exact refl c

end Advances

/-! ### The clocks -/

/-- Every connection goes by the clocks of the client. -/
def Abreast (c : Client) : Prop := ∀ (i : ℕ) (s : Session), c.connections[i]? = some s → s.clocks = c.clocks

namespace Abreast

theorem on (h : c.Abreast) (item : ℕ) {e : Connection.Event} (he : e.isAdvance = false) : (c.on item e).Abreast := by
  intro i s' hs'
  rw [connections_on] at hs'
  split at hs'
  · obtain ⟨s, hs, rfl⟩ := Option.map_eq_some_iff.mp hs'
    exact (s.clocks_step he).trans (h i s hs)
  · exact h i s' hs'

theorem onOpening (h : c.Abreast) (name : String) {e : Connection.Event} (he : e.isAdvance = false) :
    (c.onOpening name e).Abreast := by
  rw [Client.onOpening]
  split
  · exact h.on _ he
  · exact h

/-- A new connection begins with them. -/
theorem withPool (h : c.Abreast) (pool : Pool) : (c.withPool pool).Abreast := by
  intro i s' hs'
  have hclocks : (c.withPool pool).clocks = c.clocks := by rw [withPool_eq]
  rw [connections_withPool] at hs'
  obtain ⟨s, hs, rfl⟩ := Option.map_eq_some_iff.mp hs'
  rw [hclocks, s.clocks_run fun e he => by rw [List.eq_of_mem_replicate he]; rfl]
  split at hs
  · rcases List.mem_append.mp (List.mem_of_getElem? hs) with hmem | hmem
    · obtain ⟨j, hj⟩ := List.mem_iff_getElem?.mp hmem
      exact h j s hj
    · rw [List.mem_singleton.mp hmem, attempt]
      exact Session.clocks_run _ (by simp [Connection.Event.isAdvance])
  · exact h i s hs

end Abreast

/-- **Time passes for all of them at once.** -/
theorem kept_abreast : Kept Abreast where
  act {name c c'} h hact := by
    cases hact with
    | tables => exact h
    | start => exact h.on _ rfl
    | exchange leased runs => rcases runs with rfl | rfl <;> exact h.on _ rfl
    | channel item e about =>
      obtain ⟨e, rfl⟩ := about
      exact h.on item rfl
    | borrow => exact h.withPool _
    | poll issued opening => exact opening ▸ (h.onOpening name rfl).withPool _
    | cancel issued opening => exact opening ▸ (h.onOpening name rfl).withPool _
    | release =>
      rw [giveBack_eq]
      exact h.withPool _
    | corrupt => exact h
  dispose h := h.withPool _
  advance {c} time wall h i s' hs' := by
    rw [Client.advance, List.getElem?_map] at hs'
    obtain ⟨s, hs, rfl⟩ := Option.map_eq_some_iff.mp hs'
    exact congrArg (fun clocks : Clocks => (⟨clocks.elapsed + time, wall⟩ : Clocks)) (h i s hs)
  network item event h := h.on item rfl

/-! ### Steps -/

/-- An act goes on with the calls. -/
theorem Act.continues (h : Act name c c') : Continues c.calls c'.calls := by
  cases h with
  | tables relays streams continues => exact continues
  | poll issued opening =>
    rw [withPool_eq, opening, (c.onOpening_parts name _).2.1]
    exact .refl _
  | cancel issued opening =>
    rw [withPool_eq, opening, (c.onOpening_parts name _).2.1]
    exact .refl _
  | borrow =>
    rw [withPool_eq]
    exact .refl _
  | release =>
    rw [giveBack_eq, withPool_eq]
    exact .refl _
  | _ => exact .refl _

theorem Permits.mono {e : Connection.Event} {item : ℕ} (h : c.Permits event item e)
    (hcalls : Continues c.calls c'.calls) : c'.Permits event item e := by
  cases e with
  | startExchange name command capacity => exact ⟨h.1, h.2.mono hcalls⟩
  | _ => exact h

theorem Act.advances (h : Act name c c') (hname : event.name? = some name) :
    Advances (c'.Permits event) c c' := by
  have hwithPool : ∀ (c' c : Client) (pool : Pool), Advances (c'.Permits event) c (c.withPool pool) :=
    fun c' c pool => .withPool c pool (fun _ _ _ => trivial) (fun _ _ => trivial) fun _ => trivial
  cases h with
  | tables => exact ⟨rfl, rfl, (Advances.refl c).goesOn, (Advances.refl c).opens⟩
  | start capacity leased issued => exact .on c ⟨hname, issued⟩
  | exchange leased runs =>
    rcases runs with rfl | rfl
    · exact .on c hname
    · exact .on c hname
  | channel item e about =>
    obtain ⟨e, rfl⟩ := about
    exact .on c hname
  | borrow => exact hwithPool _ c _
  | poll issued opening =>
    rw [opening]
    exact (Advances.onOpening c name fun _ => trivial).trans (hwithPool _ _ _)
  | cancel issued opening =>
    rw [opening]
    exact (Advances.onOpening c name fun _ => trivial).trans (hwithPool _ _ _)
  | release =>
    rw [giveBack_eq]
    exact hwithPool _ c _
  | corrupt => exact ⟨rfl, rfl, (Advances.refl c).goesOn, (Advances.refl c).opens⟩

theorem Acts.advances (h : Acts name c c') (hname : event.name? = some name) :
    Advances (c'.Permits event) c c' ∧ Continues c.calls c'.calls := by
  induction h with
  | refl => exact ⟨.refl c, .refl _⟩
  | tail _ hact ih =>
    have hcalls := hact.continues
    exact ⟨(ih.1.mono fun i e he => he.mono hcalls).trans (hact.advances hname), ih.2.trans hcalls⟩

/-- **A step does what it is permitted to**, and no call gets another command. -/
theorem advances_step (h : c.Holding none) (event : Event) :
    Advances ((c.step event).Permits event) c (c.step event) ∧ Continues c.calls (c.step event).calls := by
  cases hname : event.name? with
  | some name => exact (settles_step h hname).1.advances hname
  | none =>
    cases event with
    | dispose =>
      rw [step, dispose]
      refine ⟨.withPool c _ (fun _ _ _ => trivial) (fun _ _ => trivial) fun _ => trivial, ?_⟩
      rw [withPool_eq]
      exact .refl _
    | advance time wall =>
      refine ⟨⟨rfl, rfl, fun i s hs => ⟨[.advance time wall], by simp [Permits], ?_⟩, fun i s hnone hs => ?_⟩, .refl _⟩
      · rw [step, advance, List.getElem?_map, hs]
        rfl
      · rw [step, advance, List.getElem?_map, hnone] at hs
        simp at hs
    | network item e => exact ⟨.on c rfl, .refl _⟩
    | start | poll | drop | pollRelay | next | collect | pollCollect | leave => simp [Event.name?] at hname

/-! ### Logs -/

/-- The log of one connection along a run of a client: what happened on the connection, step by step. -/
inductive Logged (start : Client) (item : ℕ) (clocks : Clocks) : List Event → List Connection.Event → Prop where
  /-- A step creates the connection. -/
  | opens {events : List Event} {event : Event} {new : List Connection.Event}
    (none : (start.run events).connections[item]? = none)
    (permitted : ∀ e ∈ new, (start.run (events ++ [event])).Permits event item e)
    (connection : (start.run (events ++ [event])).connections[item]? =
      some ((Session.start start.dial start.receiveLimit clocks).run new)) :
    Logged start item clocks (events ++ [event]) new
  /-- A step goes on with it. -/
  | goesOn {events : List Event} {past : List Connection.Event} {event : Event} {new : List Connection.Event}
    (before : Logged start item clocks events past)
    (permitted : ∀ e ∈ new, (start.run (events ++ [event])).Permits event item e)
    (connection : (start.run (events ++ [event])).connections[item]? =
      some ((Session.start start.dial start.receiveLimit clocks).run (past ++ new))) :
    Logged start item clocks (events ++ [event]) (past ++ new)

theorem run_concat (c : Client) (events : List Event) (event : Event) :
    c.run (events ++ [event]) = (c.run events).step event := by
  rw [run_append]
  rfl

/-- A run advances the connections of a client, and goes on with its calls. -/
theorem advances_run (h : c.Holding none) (events : List Event) :
    Advances (fun _ _ => True) c (c.run events) ∧ Continues c.calls (c.run events).calls := by
  induction events generalizing c with
  | nil => exact ⟨.refl c, .refl _⟩
  | cons event events ih =>
    obtain ⟨hstep, hcalls⟩ := advances_step h event
    obtain ⟨hrest, hcalls'⟩ := ih (holding_step h event)
    exact ⟨(hstep.mono fun _ _ _ => trivial).trans hrest, hcalls.trans hcalls'⟩

namespace Logged

variable {start : Client} {item : ℕ} {clocks : Clocks} {events : List Event} {past : List Connection.Event}

/-- The log leads to the connection. -/
theorem connection (h : Logged start item clocks events past) : (start.run events).connections[item]? =
    some ((Session.start start.dial start.receiveLimit clocks).run past) := by
  cases h with
  | opens _ _ connection => exact connection
  | goesOn _ _ connection => exact connection

/-- Exchanges are started for calls whose keys are accepted. -/
theorem issued (hstart : start.Holding none) (h : Logged start item clocks events past) {name : String}
    {command : Command} {capacity : ℕ} (hmem : .startExchange name command capacity ∈ past) :
    (start.run events).Issued name command := by
  induction h with
  | opens _ permitted => exact (permitted _ hmem).2
  | @goesOn events past event new _ permitted _ ih =>
    rcases List.mem_append.mp hmem with hmem | hmem
    · rw [run_concat]
      exact (ih hmem).mono (advances_step (holding_run hstart events) event).2
    · exact (permitted _ hmem).2

end Logged

/-- **Every connection has a log.** -/
theorem exists_logged {start : Client} (hstart : start.Holding none) (hempty : start.connections = [])
    (events : List Event) {item : ℕ} {s : Session} (hs : (start.run events).connections[item]? = some s) :
    ∃ clocks past, Logged start item clocks events past := by
  induction events using List.reverseRecOn generalizing s with
  | nil =>
    rw [run_nil, hempty] at hs
    simp at hs
  | append_singleton events event ih =>
    have hrun := (advances_run hstart events).1
    obtain ⟨hstep, -⟩ := advances_step (holding_run hstart events) event
    have hlast := hs
    rw [run_concat] at hs
    cases hbefore : (start.run events).connections[item]? with
    | none =>
      obtain ⟨clocks, new, hnew, rfl⟩ := hstep.opens item s hbefore hs
      rw [hrun.dial, hrun.receiveLimit] at hlast
      rw [← run_concat] at hnew
      exact ⟨clocks, new, .opens hbefore hnew hlast⟩
    | some s' =>
      obtain ⟨clocks, past, hlogged⟩ := ih hbefore
      obtain ⟨new, hnew, hafter⟩ := hstep.goesOn item s' hbefore
      have hs' := hlogged.connection
      rw [hbefore, Option.some.injEq] at hs'
      rw [hs', ← Session.run_append, ← run_concat] at hafter
      rw [← run_concat] at hnew
      exact ⟨clocks, past ++ new, .goesOn hlogged hnew hafter⟩

end Client

end MemcachedClient
