import MemcachedClient.Proofs.Connection.Effect
import MemcachedClient.Proofs.Connection.Openness
import MemcachedClient.Proofs.Connection.Keeping
import MemcachedClient.Proofs.Connection.Releasing
import MemcachedClient.Proofs.Semaphore.Line

/-!
# The order in which an exchange ends

An exchange that is in flight and ends without its reply faults the connection. It also hands on what it has: the lock
of the send half, and the turn, if it is granted, on its way or taken. Whoever comes next goes on as soon as it has the
one or the other, so it matters that the fault comes first (`Connection.FaultFirst`): who is handed the lock or the turn
after the fault finds the connection over.

Every error keeps to that order, and so does who is dropped after it has taken its turn. But an exchange that is dropped
in the middle of its request gives the lock back before it faults, and one that is dropped when its turn is there but
not taken passes the turn on before it faults. These are the only exceptions (`fault_first_iff`).
-/

namespace MemcachedClient

open Response Semaphore

namespace Connection

variable {c : Connection} {effect : Effect} {effects : List Effect}

/-- Whether an effect hands on what the next exchange goes on with: the turn, or the lock of the send half. Who gives up
its place among the turns hands the turn on if it is there. -/
def handsOn (c : Connection) : Effect → Bool
  | .passTurn => true
  | .unlockSend => true
  | .leaveTurn place => c.turns.isReadyFor place
  | _ => false

/-- Whatever some effects hand on, they hand on after a fault. -/
def FaultFirst (c : Connection) (effects : List Effect) : Prop :=
  ∀ before effect after, effects = before ++ effect :: after → (c.applyAll before).handsOn effect = true →
    .fault ∈ before

/-- Behind a fault everything may be handed on. -/
@[simp] theorem faultFirst_fault : c.FaultFirst (.fault :: effects) := by
  intro before effect after heq hhands
  cases before with
  | nil =>
    obtain ⟨rfl, -⟩ := List.cons.inj heq
    exact absurd hhands Bool.false_ne_true
  | cons first before =>
    obtain ⟨rfl, -⟩ := List.cons.inj heq
    exact List.mem_cons_self

/-- What comes before the fault hands nothing on. -/
theorem faultFirst_cons (hfault : effect ≠ .fault) :
    c.FaultFirst (effect :: effects) ↔ c.handsOn effect = false ∧ (c.apply effect).FaultFirst effects := by
  constructor
  · intro h
    constructor
    · cases hhands : c.handsOn effect with
      | false => rfl
      | true => exact absurd (h [] effect effects rfl hhands) List.not_mem_nil
    · intro before next after heq hhands
      have hmem := h (effect :: before) next after (by rw [heq]; rfl) hhands
      exact (List.mem_cons.mp hmem).resolve_left hfault.symm
  · rintro ⟨hquiet, h⟩ before next after heq hhands
    cases before with
    | nil =>
      obtain ⟨rfl, -⟩ := List.cons.inj heq
      exact absurd (hquiet.symm.trans hhands) Bool.false_ne_true
    | cons first before =>
      obtain ⟨rfl, hrest⟩ := List.cons.inj heq
      exact List.mem_cons_of_mem _ (h before next after hrest hhands)

/-- **On an open connection**, the fault comes first exactly if whatever is handed on is handed on when the connection
is over. -/
theorem faultFirst_iff_isOver (hopened : c.lifecycle.isOver = false) :
    c.FaultFirst effects ↔ ∀ before effect after, effects = before ++ effect :: after →
      (c.applyAll before).handsOn effect = true → (c.applyAll before).lifecycle.isOver = true := by
  refine forall_congr' fun before => forall_congr' fun effect => forall_congr' fun after => forall_congr' fun _ =>
    forall_congr' fun _ => ⟨c.isOver_applyAll_of_mem, fun hover => ?_⟩
  by_contra hmem
  rw [c.lifecycle_applyAll hmem, hopened] at hover
  exact Bool.false_ne_true hover

end Connection

namespace Exchange

/-! ### How an exchange in flight ends -/

namespace Phase

/-- Whether an exchange that is dropped hands something on before it faults the connection: it is in the middle of its
request, or its turn is there and it has not taken it. -/
def handsOnFirst (turns : Semaphore) : Phase → Bool
  | sending .. => true
  | awaitingTurn turn => turns.isReadyFor turn
  | _ => false

/-- **An exchange that is dropped in flight** faults the connection first exactly if it is neither in the middle of its
request nor about to take its turn. -/
theorem faultFirst_abandonment (phase : Phase) (hflight : phase.isInFlight = true) (c : Connection) :
    .fault ∈ phase.abandonment ∧ (c.FaultFirst phase.abandonment ↔ phase.handsOnFirst c.turns = false) := by
  cases phase with
  | sending rest turn =>
    refine ⟨by simp [abandonment], iff_of_false (fun h => ?_) (by simp [handsOnFirst])⟩
    unfold abandonment at h
    have hunlock := ((Connection.faultFirst_cons (by simp)).mp h).2
    simp [Connection.faultFirst_cons, Connection.handsOn] at hunlock
  | awaitingTurn turn =>
    refine ⟨by simp [abandonment], ?_⟩
    unfold abandonment
    rw [Connection.faultFirst_cons (by simp)]
    exact and_iff_left Connection.faultFirst_fault
  | awaitingReceive place | reading =>
    refine ⟨by simp [abandonment], iff_of_true ?_ rfl⟩
    unfold abandonment
    rw [Connection.faultFirst_cons (by simp)]
    exact ⟨rfl, Connection.faultFirst_fault⟩
  | ready | awaitingSend | finished | dropped => exact absurd hflight Bool.false_ne_true

theorem isOver_of_isInFlight {phase : Phase} (h : phase.isInFlight = true) : phase.isOver = false := by
  cases phase <;> simp_all [isInFlight, isOver]

theorem isOver_of_isFailed {phase : Phase} (h : phase.isFailed = true) : phase.isOver = true := by
  cases phase <;> simp_all [isFailed, isOver]

end Phase

/-- How an exchange that is in flight fails: the connection when it begins to end, and the effects that it leaves. -/
inductive Fails (clocks : Clocks) : Exchange × Connection → Connection → List Effect → Exchange × Connection →
    Prop where
  /-- It fails to write its request. -/
  | send {x : Exchange} {c : Connection} {bytes : Bytes} {turn : Handle} {cause : IoError} {effects : List Effect}
    (phase : x.phase = .sending bytes turn) (failed : c.socket.write bytes = .failed cause)
    (leaves : effects = [.dropSend, .fault, .leaveTurn turn, .unlockSend]) :
    Fails clocks (x, c) c effects (x.conclude c effects (.error (.io cause)))
  /-- It finds that the connection is not open any more, or without its receive half. -/
  | refuse {x : Exchange} {c : Connection} {place : Handle} {effects : List Effect}
    (phase : x.phase = .awaitingReceive place) (taken : (c.receiveLock.poll place).1 = true)
    (leaves : c.lifecycle = .opened ∧ c.receiveHalf = none ∧ effects = [.unlockReceive, .fault, .passTurn] ∨
      c.lifecycle ≠ .opened ∧ effects = [.dropReceiveIfOver, .unlockReceive, .fault, .passTurn]) :
    Fails clocks (x, c) { c with receiveLock := (c.receiveLock.poll place).2.2 } effects
      (x.conclude { c with receiveLock := (c.receiveLock.poll place).2.2 } effects (.error (.invalidState c.lifecycle)))
  /-- It fails to read its reply. -/
  | read {x : Exchange} {c : Connection} {reply : Reply} {since : Option Duration} {buffer : Bytes} {r : Reader}
    {channel : ItemChannel} {cause : ClientError} {effects : List Effect} (phase : x.phase = .reading reply since)
    (half : c.receiveHalf = some buffer) (leaves : effects = [.dropReceive, .fault, .unlockReceive, .passTurn])
    (reads : x.read c clocks buffer reply since = { x with channel }.conclude (c.after r) effects (.error cause)) :
    Fails clocks (x, c) (c.after r) effects (x.read c clocks buffer reply since)

variable {clocks : Clocks} {a b : Exchange × Connection} {c : Connection} {effects : List Effect} {joins : ℕ}
  {new : List Item}

theorem Fails.applyAll (h : Fails clocks a c effects b) : b.2 = c.applyAll effects := by
  cases h with
  | send | refuse => rfl
  | read _ _ _ reads => rw [reads, conclude]

/-- **Who fails in flight faults the connection first**, whatever the error is. -/
theorem Fails.faultFirst (h : Fails clocks a c effects b) : .fault ∈ effects ∧ c.FaultFirst effects := by
  have hquiet : ∀ {c : Connection} {effect : Effect} {effects : List Effect}, effect ≠ .fault →
      (∀ c : Connection, c.handsOn effect = false) → (c.apply effect).FaultFirst effects →
      c.FaultFirst (effect :: effects) :=
    fun hfault hhands h => (Connection.faultFirst_cons hfault).mpr ⟨hhands _, h⟩
  cases h with
  | send _ _ leaves =>
    subst leaves
    exact ⟨by simp, hquiet (by simp) (fun _ => rfl) Connection.faultFirst_fault⟩
  | refuse _ _ leaves =>
    refine ⟨(faults_of_shut leaves).1, ?_⟩
    rcases leaves with ⟨-, -, rfl⟩ | ⟨-, rfl⟩
    · exact hquiet (by simp) (fun _ => rfl) Connection.faultFirst_fault
    · exact hquiet (by simp) (fun _ => rfl) (hquiet (by simp) (fun _ => rfl) Connection.faultFirst_fault)
  | read _ _ leaves _ =>
    subst leaves
    exact ⟨by simp, hquiet (by simp) (fun _ => rfl) Connection.faultFirst_fault⟩

/-- An exchange in flight stays so until it ends. -/
theorem Hop.isInFlight_or_isOver (h : Hop clocks a joins new b) (hflight : a.1.phase.isInFlight = true) :
    b.1.phase.isInFlight = true ∨ b.1.phase.isOver = true := by
  cases h with
  | askSend phase | waitSend phase => simp [phase, Phase.isInFlight] at hflight
  | join | sendAll | sendSome | waitTurn | takeTurn | waitReceive | startReading => exact Or.inl rfl
  | refuse | sendFail | refuseReceive => exact Or.inr rfl
  | @read x c reply since buffer phase half result reads =>
    rw [← reads]
    rcases x.read_cases c clocks buffer reply since rfl with
      ⟨_, _, -, h⟩ | ⟨_, _, -, h⟩ | ⟨_, _, h⟩ <;> rw [h]
    · exact Or.inr rfl
    · exact Or.inl rfl
    · exact Or.inr rfl

/-- Who has ended makes no further hop. -/
theorem Hops.eq_of_isOver (h : Hops clocks a joins new b) (hover : a.1.phase.isOver = true) : b = a ∧ joins = 0 := by
  cases h with
  | refl => exact ⟨rfl, rfl⟩
  | head hop _ => exact absurd (hop.isOver_eq_false.symm.trans hover) Bool.false_ne_true

theorem Hops.isInFlight_or_isOver (h : Hops clocks a joins new b) (hflight : a.1.phase.isInFlight = true) :
    b.1.phase.isInFlight = true ∨ b.1.phase.isOver = true := by
  induction h with
  | refl => exact Or.inl hflight
  | head hop hops ih =>
    rcases hop.isInFlight_or_isOver hflight with hflight | hover
    · exact ih hflight
    · rw [(hops.eq_of_isOver hover).1]
      exact Or.inr hover

/-- A hop that ends an exchange in flight without its outcome. -/
theorem Hop.fails (h : Hop clocks a joins new b) (hflight : a.1.phase.isInFlight = true)
    (hfailed : b.1.phase.isFailed = true) : ∃ c effects, Fails clocks a c effects b := by
  cases h with
  | refuse phase => simp [phase, Phase.isInFlight] at hflight
  | sendFail phase failed => exact ⟨_, _, .send phase failed rfl⟩
  | refuseReceive phase taken shut => exact ⟨_, _, .refuse phase taken shut⟩
  | @read x c reply since buffer phase half result reads =>
    subst reads
    rcases x.read_cases c clocks buffer reply since rfl with
      ⟨_, _, -, h⟩ | ⟨_, _, -, h⟩ | ⟨cause, channel, h⟩
    · simp [h, Phase.isFailed] at hfailed
    · simp [h, Phase.isFailed] at hfailed
    · exact ⟨_, _, @Fails.read clocks x c reply since buffer _ channel cause _ phase half rfl h⟩
  | _ => simp [Phase.isFailed] at hfailed

/-- Who makes an exchange join the turns does nothing else in that hop. -/
theorem Hop.isInFlight_of_joins (h : Hop clocks a joins new b) (hjoins : joins ≠ 0) : b.1.phase.isInFlight = true := by
  cases h with
  | join => rfl
  | _ => exact absurd rfl hjoins

/-- A chain of hops that ends an exchange without its outcome, which was in flight or joins the turns on the way. -/
theorem Hops.fails (h : Hops clocks a joins new b) (hbefore : a.1.phase.isOver = false)
    (hflight : a.1.phase.isInFlight = true ∨ joins ≠ 0) (hfailed : b.1.phase.isFailed = true) :
    ∃ before items y c effects, Hops clocks a before items y ∧ Fails clocks y c effects b := by
  induction h with
  | refl a =>
    have hover := Phase.isOver_of_isFailed hfailed
    exact absurd (hbefore.symm.trans hover) Bool.false_ne_true
  | @head a m b joins more new rest hop hops ih =>
    cases hover : m.1.phase.isOver with
    | true =>
      -- this was the last hop, and who joins the turns does not end
      obtain ⟨rfl, rfl⟩ := hops.eq_of_isOver hover
      have hflight : a.1.phase.isInFlight = true := by
        refine hflight.resolve_right fun hjoins => ?_
        have hjoined := Phase.isOver_of_isInFlight (hop.isInFlight_of_joins hjoins)
        exact Bool.false_ne_true (hjoined.symm.trans hover)
      obtain ⟨c, effects, hfails⟩ := hop.fails hflight hfailed
      exact ⟨0, [], a, c, effects, .refl a, hfails⟩
    | false =>
      have hgoes : m.1.phase.isInFlight = true ∨ more ≠ 0 := by
        by_cases hjoins : joins = 0
        · refine hflight.imp (fun hflight => ?_) (fun hmore => by omega)
          exact (hop.isInFlight_or_isOver hflight).resolve_right (Bool.eq_false_iff.mp hover)
        · exact Or.inl (hop.isInFlight_of_joins hjoins)
      obtain ⟨before, items, y, c, effects, hrest, hfails⟩ := ih hover hgoes hfailed
      exact ⟨_, _, y, c, effects, .head hop hrest, hfails⟩

/-- A poll that ends an exchange without its outcome, which was in flight or joins the turns in that poll. -/
theorem fails_poll {x : Exchange} {c : Connection}
    (hflight : x.phase.isInFlight = true ∨ x.joins c = true) (hfailed : (x.poll c clocks).1.phase.isFailed = true) :
    ∃ joins items y c' effects, Hops clocks (x, c) joins items y ∧ Fails clocks y c' effects (x.poll c clocks) := by
  refine (x.hops_poll c clocks).fails ?_ (hflight.imp id fun hjoins => by simp [hjoins]) hfailed
  rcases hflight with hflight | hjoins
  · exact Phase.isOver_of_isInFlight hflight
  · cases hphase : x.phase with
    | finished | dropped => simp [joins, hphase] at hjoins
    | _ => rfl

end Exchange

namespace Connection.Session

variable {s : Session} {event : Event} {name : String} {c : Connection} {effects : List Effect}

/-- Whether an event ends an exchange whose request was begun and whose reply is not read: the exchange is dropped, or
it runs on and fails. -/
def breaks (s : Session) : Event → Bool
  | .pollExchange name => (s.exchanges.get? name).any fun x =>
    (x.phase.isInFlight || x.joins s.connection) && (x.poll s.connection s.clocks).1.phase.isFailed
  | .dropExchange name => (s.exchanges.get? name).any (·.phase.isInFlight)
  | _ => false

/-- What an exchange that ends in that way leaves: the connection when it begins to end, and its effects in their
order. -/
inductive Leaves (s : Session) : Event → Connection → List Effect → Prop where
  /-- It fails, after some hops. -/
  | fail {name : String} {x : Exchange} {y : Exchange × Connection} {joins : ℕ} {items : List Item} {c : Connection}
    {effects : List Effect} (get : s.exchanges.get? name = some x)
    (hops : Exchange.Hops s.clocks (x, s.connection) joins items y)
    (fails : Exchange.Fails s.clocks y c effects (x.poll s.connection s.clocks)) :
    Leaves s (.pollExchange name) c effects
  /-- It is dropped. -/
  | drop {name : String} {x : Exchange} (get : s.exchanges.get? name = some x) (flight : x.phase.isInFlight = true) :
    Leaves s (.dropExchange name) s.connection x.phase.abandonment

/-- Whether an event drops an exchange that hands something on before it faults the connection. -/
def handsOnFirst (s : Session) : Event → Bool
  | .dropExchange name => (s.exchanges.get? name).any (·.phase.handsOnFirst s.connection.turns)
  | _ => false

/-- Whoever ends in flight leaves something. -/
theorem exists_leaves (h : s.breaks event = true) : ∃ c effects, s.Leaves event c effects := by
  cases event with
  | pollExchange name =>
    rw [breaks] at h
    cases hget : s.exchanges.get? name with
    | none => simp [hget] at h
    | some x =>
      rw [hget, Option.any_some, Bool.and_eq_true, Bool.or_eq_true] at h
      obtain ⟨_, _, _, c, effects, hops, hfails⟩ := Exchange.fails_poll h.1 h.2
      exact ⟨c, effects, .fail hget hops hfails⟩
  | dropExchange name =>
    rw [breaks] at h
    cases hget : s.exchanges.get? name with
    | none => simp [hget] at h
    | some x =>
      rw [hget, Option.any_some] at h
      exact ⟨_, _, .drop hget h⟩
  | _ => exact absurd h Bool.false_ne_true

/-- What it leaves takes place in that order, and it faults the connection first unless it is dropped and hands on
first. -/
theorem Leaves.faultFirst_iff (h : s.Leaves event c effects) :
    (s.step event).connection = c.applyAll effects ∧ .fault ∈ effects ∧
      (c.FaultFirst effects ↔ s.handsOnFirst event = false) := by
  cases h with
  | fail get hops fails =>
    obtain ⟨hmem, hfirst⟩ := fails.faultFirst
    refine ⟨?_, hmem, iff_of_true hfirst rfl⟩
    rw [step, updateExchange_eq_put get]
    exact fails.applyAll
  | @drop name x get flight =>
    obtain ⟨hmem, hiff⟩ := x.phase.faultFirst_abandonment flight s.connection
    refine ⟨?_, hmem, ?_⟩
    · rw [step, updateExchange_eq_put get, connection_put, Exchange.drop,
        if_neg (by rw [Exchange.Phase.isOver_of_isInFlight flight]; exact Bool.false_ne_true)]
    · rw [hiff, handsOnFirst, get]
      rfl

/-- An exchange in flight stays so or has its outcome, unless the event ends it otherwise. -/
theorem isInFlight_step {x : Exchange} (hget : s.exchanges.get? name = some x) (hflight : x.phase.isInFlight = true)
    (hbreaks : event.exchange? = some name → s.breaks event = false) :
    ∃ x', (s.step event).exchanges.get? name = some x' ∧
      (x'.phase.isInFlight = true ∨ ∃ outcome, x'.result? = some (.ok outcome)) := by
  by_cases hname : event.exchange? = some name
  · replace hbreaks := hbreaks hname
    cases event with
    | startExchange other command capacity =>
      obtain rfl := Option.some.inj hname
      rw [step, if_pos (Table.has_eq_true_iff.mpr ⟨x, hget⟩)]
      exact ⟨x, hget, Or.inl hflight⟩
    | pollExchange other =>
      obtain rfl := Option.some.inj hname
      rw [step, updateExchange_eq_put hget]
      refine ⟨_, Table.get?_put_self _ _ _, ?_⟩
      refine ((x.hops_poll s.connection s.clocks).isInFlight_or_isOver hflight).imp id fun hover => ?_
      have hfailed : (x.poll s.connection s.clocks).1.phase.isFailed = false := by
        simpa [breaks, hget, hflight] using hbreaks
      cases hphase : (x.poll s.connection s.clocks).1.phase with
      | finished result =>
        cases result with
        | ok outcome => exact ⟨outcome, by simp [Exchange.result?, hphase]⟩
        | error cause => simp [hphase, Exchange.Phase.isFailed] at hfailed
      | dropped => simp [hphase, Exchange.Phase.isFailed] at hfailed
      | _ => simp [hphase, Exchange.Phase.isOver] at hover
    | dropExchange other =>
      obtain rfl := Option.some.inj hname
      simp [breaks, hget, hflight] at hbreaks
    | channel other event =>
      obtain rfl := Option.some.inj hname
      rw [step, updateExchange_eq_put hget]
      exact ⟨_, Table.get?_put_self _ _ _, Or.inl hflight⟩
    | _ => exact absurd hname (by simp [Event.exchange?])
  · rw [s.get?_step_of_ne hname]
    exact ⟨x, hget, Or.inl hflight⟩

/-- **The fault comes before the hand-over**, after any run, with two exceptions. An exchange in flight stays so or has
its outcome, unless an event breaks it off: it fails, or it is dropped. What it leaves then takes place in an order, and
a fault is among it. The turn and the lock of the send half are handed on only after the fault, exactly if the event
does not drop an exchange that is in the middle of its request or about to take its turn. On an open connection that is
to say that whoever is handed the one or the other finds the connection over. -/
theorem fault_first_iff (dial : Dial) (receiveLimit : Option Duration) (clocks : Clocks) (events : List Event)
    (event : Event) :
    let s := (start dial receiveLimit clocks).run events
    (∀ name x, s.exchanges.get? name = some x → x.phase.isInFlight = true →
      (event.exchange? = some name → s.breaks event = false) →
      ∃ x', (s.step event).exchanges.get? name = some x' ∧
        (x'.phase.isInFlight = true ∨ ∃ outcome, x'.result? = some (.ok outcome))) ∧
    (s.breaks event = true → ∃ c effects, s.Leaves event c effects) ∧
    ∀ c effects, s.Leaves event c effects →
      (s.step event).connection = c.applyAll effects ∧ .fault ∈ effects ∧
      (c.FaultFirst effects ↔ s.handsOnFirst event = false) ∧
      (c.lifecycle.isOver = false → (s.handsOnFirst event = false ↔ ∀ before effect after,
        effects = before ++ effect :: after → (c.applyAll before).handsOn effect = true →
          (c.applyAll before).lifecycle.isOver = true)) := by
  intro s
  refine ⟨fun name x hget hflight => isInFlight_step hget hflight, exists_leaves, fun c effects hleaves => ?_⟩
  obtain ⟨hstep, hfault, hiff⟩ := hleaves.faultFirst_iff
  exact ⟨hstep, hfault, hiff, fun hopened => hiff.symm.trans (faultFirst_iff_isOver hopened)⟩

/-- A deletion is in the middle of its request, and another one waits for the lock of the send half. -/
def oneSending : List Event :=
  [.startOpening "o" none, .pollOpening "o", .network (.makeRoom (some 0)), .startExchange "a" (.delete "k") 1,
    .startExchange "b" (.delete "k") 1, .pollExchange "a", .pollExchange "b"]

/-- If the first one is dropped, the lock is handed to the other one while the connection is open. -/
theorem hands_on_before_fault :
    let s := (start .established none ⟨0, .ofParts 0 0⟩).run oneSending
    (s.exchanges.get? "a").map (·.phase.abandonment) = some [.leaveTurn .granted, .unlockSend, .fault] ∧
      ¬ s.connection.FaultFirst [.leaveTurn .granted, .unlockSend, .fault] ∧
      (s.exchanges.get? "b").map (·.wasHandedSend
        (s.connection.applyAll [.leaveTurn .granted, .unlockSend]).sendLock) = some true ∧
      (s.connection.applyAll [.leaveTurn .granted, .unlockSend]).lifecycle = .opened := by
  intro s
  refine ⟨by decide +kernel, fun hfirst => ?_, by decide +kernel, by decide +kernel⟩
  have hmem := hfirst [] (.leaveTurn .granted) [.unlockSend, .fault] rfl rfl
  exact absurd hmem List.not_mem_nil

end Connection.Session

end MemcachedClient
