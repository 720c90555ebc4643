import MemcachedClient.Proofs.Connection.Locking
import MemcachedClient.Proofs.Connection.Parallel
import MemcachedClient.Proofs.Semaphore.Absence

/-!
# A call that gives up before it writes

An exchange that is dropped while it waits for the lock of the send half has written nothing and has not joined the
turns. `Session.Without` says that one session is another one without an exchange: everything is the same, but that the
tickets for the lock are others, and that the lock is where it would be if the exchange gave up its place.

Whatever the others do leads from such a pair of sessions to such a pair, with one exception. The lock is passed on in
the order in which it was asked for. Once it was passed on to the exchange nobody else can have it, and another one
that looks for it holds up (`Session.holdsUp`), although it would have the lock if the first one were not there. The
run without the exchange is the same after every event exactly if that never happens (`unnoticed_iff`), and
`noticed_of_heldUp` is a run in which it does.
-/

namespace MemcachedClient

open Response Semaphore

open Connection

namespace Exchange

namespace Phase

/-- The phase with another ticket before the lock of the send half. -/
def renumber (σ : ℕ → ℕ) : Phase → Phase
  | awaitingSend place => awaitingSend (place.renumber σ)
  | phase => phase

/-- What an exchange finds that looks for the lock of the send half: whether it has it, its place, and the lock. -/
def look (lock : Semaphore) : Phase → Bool × Handle × Semaphore
  | awaitingSend place => lock.poll place
  | _ => lock.enter

variable {σ : ℕ → ℕ} {phase : Phase}

theorem renumber_of_hasJoined (h : phase.hasJoined = true) : phase.renumber σ = phase := by
  cases phase <;> simp_all [renumber, hasJoined]

@[simp] theorem hasJoined_renumber : (phase.renumber σ).hasJoined = phase.hasJoined := by cases phase <;> rfl

end Phase

/-- The exchange with another ticket before the lock of the send half. -/
def renumber (σ : ℕ → ℕ) (x : Exchange) : Exchange := { x with phase := x.phase.renumber σ }

/-- Whether the exchange wants the lock of the send half and has it when it looks for it. -/
def getsSend (lock : Semaphore) (x : Exchange) : Bool := !x.phase.hasJoined && (x.phase.look lock).1

variable {x : Exchange} {σ : ℕ → ℕ} {clocks : Clocks}

theorem renumber_of_hasJoined (h : x.phase.hasJoined = true) : x.renumber σ = x := by
  rw [renumber, Phase.renumber_of_hasJoined h]

/-- Who has joined the turns does not come back to the lock of the send half. -/
theorem Hops.hasJoined {a b : Exchange × Connection} {joins : ℕ} {new : List Item} (h : Hops clocks a joins new b)
    (hjoined : a.1.phase.hasJoined = true) : b.1.phase.hasJoined = true := by
  induction h with
  | refl => exact hjoined
  | head hop _ ih => exact ih (hop.hasJoined hjoined)

theorem hasJoined_poll (c : Connection) (hjoined : x.phase.hasJoined = true) :
    (x.poll c clocks).1.phase.hasJoined = true := (x.hops_poll c clocks).hasJoined hjoined

/-- Who has the lock of the send half joins the turns, or has ended. -/
theorem hasJoined_holdSend (x : Exchange) (c : Connection) : (x.holdSend c clocks).1.phase.hasJoined = true := by
  rw [holdSend]
  split
  · split
    · exact (hops_send x _ clocks _ _).hasJoined rfl
    · rfl
  · rfl

/-- Nobody who is there is dropped by what it does itself. -/
theorem Hops.ne_dropped {a b : Exchange × Connection} {joins : ℕ} {new : List Item} (h : Hops clocks a joins new b)
    (hthere : a.1.phase ≠ .dropped) : b.1.phase ≠ .dropped := by
  induction h with
  | refl => exact hthere
  | head hop _ ih =>
    refine ih ?_
    cases hop with
    | @read x c reply since buffer phase half result reads =>
      rw [← reads]
      rcases x.read_cases c clocks buffer reply since rfl with
        ⟨_, _, -, h⟩ | ⟨_, _, -, h⟩ | ⟨_, _, h⟩ <;> simp [h]
    | _ => simp

theorem holdSend_ne_dropped (x : Exchange) (c : Connection) : (x.holdSend c clocks).1.phase ≠ .dropped := by
  rw [holdSend]
  split
  · split
    · exact (hops_send x _ clocks _ _).ne_dropped (by simp)
    · simp [conclude]
  · simp [conclude]

/-- A poll of an exchange that has not joined the turns: it looks for the lock of the send half, and goes on if it has
it. -/
theorem poll_eq_look (hjoined : x.phase.hasJoined = false) (c : Connection) :
    x.poll c clocks =
      if (x.phase.look c.sendLock).1 then x.holdSend { c with sendLock := (x.phase.look c.sendLock).2.2 } clocks
      else ({ x with phase := .awaitingSend (x.phase.look c.sendLock).2.1 },
        { c with sendLock := (x.phase.look c.sendLock).2.2 }) := by
  obtain ⟨command, phase, channel⟩ := x
  cases phase with
  | ready | awaitingSend => rfl
  | _ => simp [Phase.hasJoined] at hjoined

/-- Where an exchange was does not matter once it has the lock. -/
theorem holdSend_renumber (x : Exchange) (c : Connection) :
    (x.renumber σ).holdSend c clocks = x.holdSend c clocks := rfl

/-! ### Looking for the lock -/

section look

variable {phase : Phase} {own? : Option ℕ} {lock lock' : Semaphore} {c d : Connection}

/-- Other tickets do not change what is found. -/
theorem look_of_renumbered (h : lock.Renumbered σ lock') :
    ((phase.renumber σ).look lock').1 = (phase.look lock).1 := by
  cases phase with
  | awaitingSend place => exact (h.poll place).1
  | _ => exact h.enter.1

/-- Who looks for the lock finds the same whether another exchange has its place or never came, unless it has to wait
on account of the other one. -/
theorem look_of_bears (h : lock.Bears σ own? lock') (hexpects : ∀ own, own? = some own → lock'.Expects own)
    (hne : ∀ own, own? = some own → (phase.renumber σ).sendPlace? ≠ some (.queued own))
    (hfree : ((phase.renumber σ).look (lock'.without own?)).1 = true → ((phase.renumber σ).look lock').1 = true) :
    ((phase.renumber σ).look lock').1 = (phase.look lock).1 ∧
      ((phase.renumber σ).look lock').2.1 = (phase.look lock).2.1.renumber σ ∧
      (phase.look lock).2.2.Bears σ own? ((phase.renumber σ).look lock').2.2 := by
  have hplace : ∀ own place, own? = some own → phase = .awaitingSend place → place.renumber σ ≠ .queued own := by
    rintro own place hown rfl e
    exact hne own hown (congrArg some e)
  have hsame : ((phase.renumber σ).look lock').1 = ((phase.renumber σ).look (lock'.without own?)).1 := by
    refine Bool.eq_iff_iff.mpr ⟨fun htaken => ?_, hfree⟩
    cases own? with
    | none => exact htaken
    | some own =>
      have hexpects := hexpects own rfl
      cases phase with
      | awaitingSend place => exact hexpects.poll_fst (hplace own place rfl rfl) htaken
      | _ => exact absurd (htaken.symm.trans hexpects.enter_fst) (by simp)
  cases phase with
  | awaitingSend place => exact h.poll hexpects (fun own hown => hplace own place hown rfl) hsame
  | _ => exact h.enter hexpects hsame

/-- Who has the lock then can give it back. -/
theorem signalOne_look_of_bears (hafter : (phase.look lock).2.2.Bears σ own? ((phase.renumber σ).look lock').2.2)
    (hexpects : ∀ own, own? = some own → lock'.Expects own)
    (hne : ∀ own, own? = some own → (phase.renumber σ).sendPlace? ≠ some (.queued own))
    (hnot : ∀ own, own? = some own → (phase.renumber σ).sendPlace?.any lock'.isWith = true → own ∉ lock'.delivered)
    (htaken : ((phase.renumber σ).look lock').1 = true) :
    (phase.look lock).2.2.signalOne.Bears σ own? ((phase.renumber σ).look lock').2.2.signalOne := by
  cases own? with
  | none => exact hafter.signalOne (by simp) (by simp)
  | some own =>
    have hexpects := hexpects own rfl
    cases phase with
    | awaitingSend place =>
      have hplace : place.renumber σ ≠ .queued own := fun e => hne own rfl (congrArg some e)
      refine hafter.signalOne (fun other hother => ?_) fun other hother hmem => ?_
      · rw [← Option.some.inj hother]
        exact hexpects.after_poll hplace
      · rw [← Option.some.inj hother] at hmem
        exact hnot own rfl (isWith_of_poll htaken) (delivered_poll_subset _ _ hmem)
    | _ => exact absurd (htaken.symm.trans hexpects.enter_fst) (by simp)

/-- **A poll of another exchange** does the same whether an exchange waits for the lock of the send half or never came,
unless the other one is held up. -/
theorem poll_of_bears (h : Parallel (Bears σ own?) c d) (hexpects : ∀ own, own? = some own → d.sendLock.Expects own)
    (hne : ∀ own, own? = some own → (x.renumber σ).phase.sendPlace? ≠ some (.queued own))
    (hnot : ∀ own, own? = some own → (x.renumber σ).phase.sendPlace?.any d.sendLock.isWith = true →
      own ∉ d.sendLock.delivered)
    (hfree : (x.renumber σ).getsSend (d.sendLock.without own?) = true → (x.renumber σ).getsSend d.sendLock = true) :
    ((x.renumber σ).poll d clocks).1 = (x.poll c clocks).1.renumber σ ∧
      Parallel (Bears σ own?) (x.poll c clocks).2 ((x.renumber σ).poll d clocks).2 := by
  cases hjoined : x.phase.hasJoined with
  | true =>
    rw [renumber_of_hasJoined hjoined] at hnot ⊢
    rw [renumber_of_hasJoined (hasJoined_poll c hjoined)]
    refine x.parallel_poll clocks h hjoined fun hsending => ?_
    refine h.lock.signalOne hexpects fun own hown => hnot own hown ?_
    cases hphase : x.phase with
    | sending rest turn => rfl
    | _ => simp [hphase, Phase.isSending] at hsending
  | false =>
    have hfree : ((x.phase.renumber σ).look (d.sendLock.without own?)).1 = true →
        ((x.phase.renumber σ).look d.sendLock).1 = true := by
      simpa [getsSend, renumber, hjoined] using hfree
    obtain ⟨htaken, hplace, hafter⟩ := look_of_bears h.lock hexpects hne hfree
    have hjoined' : (x.renumber σ).phase.hasJoined = false := Phase.hasJoined_renumber.trans hjoined
    have hphase : (x.renumber σ).phase = x.phase.renumber σ := rfl
    rw [poll_eq_look hjoined, poll_eq_look hjoined', holdSend_renumber, hphase]
    cases hlook : (x.phase.look c.sendLock).1 with
    | false =>
      rw [hlook] at htaken
      simp only [htaken, Bool.false_eq_true, if_false]
      refine ⟨?_, h.relock hafter⟩
      rw [hplace]
      rfl
    | true =>
      rw [hlook] at htaken
      simp only [htaken, if_true]
      obtain ⟨hsame, hc⟩ := x.parallel_holdSend clocks (h.relock hafter)
        (signalOne_look_of_bears hafter hexpects hne hnot htaken)
      rw [hsame, renumber_of_hasJoined (hasJoined_holdSend _ _)]
      exact ⟨rfl, hc⟩

/-- **Another exchange is dropped** alike whether an exchange waits for the lock of the send half or never came. -/
theorem drop_of_bears (h : Parallel (Bears σ own?) c d) (hexpects : ∀ own, own? = some own → d.sendLock.Expects own)
    (hne : ∀ own, own? = some own → (x.renumber σ).phase.sendPlace? ≠ some (.queued own))
    (hnot : ∀ own, own? = some own → (x.renumber σ).phase.sendPlace?.any d.sendLock.isWith = true →
      own ∉ d.sendLock.delivered) :
    ((x.renumber σ).drop d).1 = (x.drop c).1.renumber σ ∧
      Parallel (Bears σ own?) (x.drop c).2 ((x.renumber σ).drop d).2 := by
  cases hjoined : x.phase.hasJoined with
  | true =>
    rw [renumber_of_hasJoined hjoined] at hnot ⊢
    have hdropped : (x.drop c).1.phase.hasJoined = true := by
      rw [drop]
      split
      · exact hjoined
      · rfl
    rw [renumber_of_hasJoined hdropped]
    refine x.parallel_drop h hjoined fun hsending => ?_
    refine h.lock.signalOne hexpects fun own hown => hnot own hown ?_
    cases hphase : x.phase with
    | sending rest turn => rfl
    | _ => simp [hphase, Phase.isSending] at hsending
  | false =>
    obtain ⟨command, phase, channel⟩ := x
    cases phase with
    | ready => exact ⟨rfl, h⟩
    | awaitingSend place =>
      refine ⟨rfl, h.relock ?_⟩
      refine h.lock.drop hexpects (fun own hown e => hne own hown (congrArg some e)) fun hgranted own hown => ?_
      refine hnot own hown ?_
      rw [hgranted]
      rfl
    | _ => simp [Phase.hasJoined] at hjoined

end look

end Exchange

namespace Connection

namespace Session

variable {s s' : Session} {name other : String} {σ : ℕ → ℕ} {x y : Exchange} {c c' : Connection}

/-- The ticket with which an exchange waits for the lock of the send half. -/
def sendTicket? (s : Session) (name : String) : Option ℕ :=
  ((s.exchanges.get? name).bind (·.phase.sendPlace?)).bind Handle.ticket?

/-- The second session is the first one without an exchange: everything is the same, but that the tickets for the lock
of the send half are others, and that the lock is where it would be if the exchange gave up its place. Once the
connection is over, the send half may be there in one of them only. -/
structure Without (s : Session) (name : String) (σ : ℕ → ℕ) (s' : Session) : Prop where
  /-- The clocks show the same. -/
  clocks : s'.clocks = s.clocks
  /-- The openings are the same. -/
  openings : s'.openings = s.openings
  /-- The connections are the same but for the lock of the send half. -/
  connection : Parallel (Bears σ (s.sendTicket? name)) s'.connection s.connection
  /-- The other exchanges are the same. -/
  exchanges : s.exchanges.remove name = List.map (fun item => (item.1, item.2.renumber σ)) s'.exchanges

/-- Whether an event holds up an exchange on account of another one: it looks for the lock of the send half, which was
passed on to the other one, and would have it if the other one gave up. -/
def holdsUp (s : Session) (name : String) : Event → Bool
  | .pollExchange other => other != name && (s.exchanges.get? other).any fun x =>
      x.getsSend (s.connection.sendLock.without (s.sendTicket? name)) && !x.getsSend s.connection.sendLock
  | _ => false

/-- Whether one of some events holds up an exchange on account of the one under a name. -/
def heldUp (s : Session) (name : String) : List Event → Bool
  | [] => false
  | event :: events => s.holdsUp name event || (s.step event).heldUp name events

namespace Without

variable (h : s.Without name σ s')
include h

/-- The others are there. -/
theorem get?_other (hne : other ≠ name) :
    s.exchanges.get? other = (s'.exchanges.get? other).map (Exchange.renumber σ) := by
  rw [← Table.get?_remove_of_ne _ hne, h.exchanges, Table.get?_map]

/-- One of the others does something. -/
theorem put (hne : other ≠ name) (hc : Parallel (Bears σ (s.sendTicket? name)) c' c) (y : Exchange) :
    (s.put other (y.renumber σ) c).Without name σ (s'.put other y c') where
  clocks := h.clocks
  openings := h.openings
  connection := by
    have hsame : (s.put other (y.renumber σ) c).sendTicket? name = s.sendTicket? name := by
      rw [sendTicket?, sendTicket?, exchanges_put, Table.get?_put_of_ne _ _ (Ne.symm hne)]
    rw [hsame]
    exact hc
  exchanges := by
    rw [exchanges_put, exchanges_put, Table.remove_put_of_ne _ hne, h.exchanges, Table.map_put]

end Without

theorem sendTicket?_eq_some {own : ℕ} : s.sendTicket? name = some own ↔
    ∃ x, s.exchanges.get? name = some x ∧ x.phase.sendPlace? = some (.queued own) := by
  rw [sendTicket?]
  constructor
  · intro h
    obtain ⟨place, hplace, hticket⟩ := Option.bind_eq_some_iff.mp h
    obtain ⟨x, hget, hx⟩ := Option.bind_eq_some_iff.mp hplace
    obtain ⟨_⟩ | ticket | _ := place
    · simp [Handle.ticket?] at hticket
    · obtain rfl := Option.some.inj hticket
      exact ⟨x, hget, hx⟩
    · simp [Handle.ticket?] at hticket
  · rintro ⟨x, hget, hx⟩
    rw [hget, Option.bind_some, hx]
    rfl

/-- The tickets that are out stay the same when a caller comes between them and those that are to come. -/
theorem Locked.renumber_come (h : s'.Locked) :
    List.map (fun item => (item.1, item.2.renumber (σ ∘ skip s'.connection.sendLock.nextTicket))) s'.exchanges =
      List.map (fun item => (item.1, item.2.renumber σ)) s'.exchanges := by
  refine List.map_congr_left fun ⟨other, y⟩ hmem => ?_
  have hget := h.distinct.get?_of_mem hmem
  refine congrArg (Prod.mk other) ?_
  obtain ⟨command, phase, channel⟩ := y
  cases phase with
  | awaitingSend place =>
    cases place with
    | queued ticket =>
      have hold : ticket < s'.connection.sendLock.nextTicket := by
        refine h.send.serves.lt_nextTicket ?_
        by_cases hdelivered : ticket ∈ s'.connection.sendLock.delivered
        · exact Or.inr hdelivered
        · exact Or.inl (h.send.mem_line h.distinct hget rfl hdelivered)
      simp only [Exchange.renumber, Exchange.Phase.renumber, Handle.renumber, Function.comp_apply, skip_of_lt hold]
    | _ => rfl
  | _ => rfl

/-- Whoever goes by the name has not joined the turns, or was dropped. -/
def Outside (s : Session) (name : String) : Prop :=
  ∀ x, s.exchanges.get? name = some x → x.phase.hasJoined = false ∨ x.phase = .dropped

/-- Whoever goes by the name has queued if it has a place before the lock of the send half. -/
def Queues (s : Session) (name : String) : Prop :=
  ∀ x place, s.exchanges.get? name = some x → x.phase = .awaitingSend place → ∃ own, place = .queued own

/-- What is known all along a run in which the exchange does not get the lock of the send half. -/
structure Shadows (s : Session) (name : String) (σ : ℕ → ℕ) (s' : Session) : Prop extends s.Without name σ s' where
  /-- The units of the first session are in one place each. -/
  locked : s.Locked
  /-- The units of the second session are in one place each. -/
  locked' : s'.Locked
  /-- The exchange has not joined the turns. -/
  outside : s.Outside name
  /-- It stands in line if it has a place. -/
  queues : s.Queues name

namespace Shadows

variable (h : s.Shadows name σ s')
include h

theorem expects (own : ℕ) (hown : s.sendTicket? name = some own) : s.connection.sendLock.Expects own := by
  obtain ⟨x, hget, hplace⟩ := sendTicket?_eq_some.mp hown
  exact h.locked.send.expects h.locked.distinct hget hplace

/-- Nobody else has the ticket of the exchange. -/
theorem ticket_ne (hne : other ≠ name) (hget : s.exchanges.get? other = some y) (own : ℕ)
    (hown : s.sendTicket? name = some own) : y.phase.sendPlace? ≠ some (.queued own) := by
  obtain ⟨x, hx, hplace⟩ := sendTicket?_eq_some.mp hown
  exact h.locked.send.ticket_ne h.locked.distinct hx hplace hget hne

/-- While another one has the lock, it is not on its way to the exchange. -/
theorem notMem (hne : other ≠ name) (hget : s.exchanges.get? other = some y) (own : ℕ)
    (hown : s.sendTicket? name = some own) (hwith : y.phase.sendPlace?.any s.connection.sendLock.isWith = true) :
    own ∉ s.connection.sendLock.delivered := by
  obtain ⟨x, hx, hplace⟩ := sendTicket?_eq_some.mp hown
  exact h.locked.send.notMem_delivered h.locked.distinct hx hplace hget hne hwith

/-- Both sessions change one of the other exchanges together with the connection. -/
theorem update (hne : other ≠ name) {f g : Exchange → Connection → Exchange × Connection}
    (hf : ∀ y, s.exchanges.get? other = some (y.renumber σ) →
      (f (y.renumber σ) s.connection).1 = (g y s'.connection).1.renumber σ ∧
        Parallel (Bears σ (s.sendTicket? name)) (g y s'.connection).2 (f (y.renumber σ) s.connection).2) :
    (s.updateExchange other f).Without name σ (s'.updateExchange other g) := by
  have hsame := h.get?_other hne
  cases hget : s'.exchanges.get? other with
  | none =>
    rw [hget] at hsame
    rw [updateExchange_eq_self hget, updateExchange_eq_self hsame]
    exact h.toWithout
  | some y =>
    rw [hget, Option.map_some] at hsame
    obtain ⟨hexchange, hconnection⟩ := hf y hsame
    rw [updateExchange_eq_put hget, updateExchange_eq_put hsame, hexchange]
    exact h.put hne hconnection _

/-- **What is not about the exchange** happens alike whether it waits or never came, unless somebody is held up. -/
theorem step_other {event : Event} (hne : event.exchange? ≠ some name) (hfree : s.holdsUp name event = false) :
    (s.step event).Without name σ (s'.step event) := by
  obtain ⟨hclocks, hopenings, hconnection, hexchanges⟩ := h.toWithout
  cases event with
  | pollExchange other =>
    have hother : other ≠ name := fun e => hne (congrArg some e)
    rw [step, step, hclocks]
    refine h.update hother fun y hget => ?_
    refine Exchange.poll_of_bears hconnection h.expects (h.ticket_ne hother hget) (h.notMem hother hget) fun hgets => ?_
    rw [holdsUp, hget, Option.any_some, hgets] at hfree
    simpa [hother] using hfree
  | dropExchange other =>
    have hother : other ≠ name := fun e => hne (congrArg some e)
    exact h.update hother fun y hget =>
      Exchange.drop_of_bears hconnection h.expects (h.ticket_ne hother hget) (h.notMem hother hget)
  | channel other event =>
    have hother : other ≠ name := fun e => hne (congrArg some e)
    exact h.update (f := fun x c => ({ x with channel := x.channel.handle event }, c))
      (g := fun x c => ({ x with channel := x.channel.handle event }, c)) hother fun y hget => ⟨rfl, hconnection⟩
  | startExchange other command capacity =>
    have hother : other ≠ name := fun e => hne (congrArg some e)
    have hhas : s.exchanges.has other = s'.exchanges.has other := by
      rw [Table.has, Table.has, h.get?_other hother, Option.isSome_map]
    rw [step, step, hhas]
    split
    · exact h.toWithout
    · exact h.put hother hconnection (.start command capacity)
  | startOpening other limit =>
    rw [step, step, hopenings]
    split
    · exact h.toWithout
    · exact ⟨hclocks, rfl, hconnection, hexchanges⟩
  | pollOpening other =>
    rw [step, step, updateOpening, updateOpening, hopenings, hclocks]
    cases s.openings.get? other with
    | none => exact h.toWithout
    | some o =>
      obtain ⟨hsame, hafter⟩ := o.parallel_poll hconnection s.clocks.elapsed
      refine ⟨rfl, ?_, hafter, hexchanges⟩
      dsimp only
      rw [hsame]
  | dropOpening other =>
    rw [step, step, updateOpening, updateOpening, hopenings]
    cases s.openings.get? other with
    | none => exact h.toWithout
    | some o => exact ⟨hclocks, rfl, hconnection, hexchanges⟩
  | close => exact ⟨hclocks, hopenings, hconnection.close, hexchanges⟩
  | advance time wall => exact ⟨by rw [step, step, hclocks], hopenings, hconnection, hexchanges⟩
  | network event => exact ⟨hclocks, hopenings, hconnection.network event, hexchanges⟩

/-- The exchange itself changes, together with the connection. -/
theorem put_own {τ : ℕ → ℕ} (hc : Parallel (Bears τ (x.phase.sendPlace?.bind Handle.ticket?)) s'.connection c)
    (hsame : List.map (fun item => (item.1, item.2.renumber τ)) s'.exchanges =
      List.map (fun item => (item.1, item.2.renumber σ)) s'.exchanges)
    (hqueued : ∀ place, x.phase = .awaitingSend place → ∃ own, place = .queued own) :
    (s.put name x c).Without name τ s' ∧ (s.put name x c).Queues name := by
  constructor
  · have hticket : (s.put name x c).sendTicket? name = x.phase.sendPlace?.bind Handle.ticket? := by
      rw [sendTicket?, exchanges_put, Table.get?_put_self]
      rfl
    refine ⟨h.clocks, h.openings, ?_, ?_⟩
    · rw [hticket]
      exact hc
    · rw [exchanges_put, Table.remove_put_self, h.exchanges, hsame]
  · intro y place hget hphase
    rw [exchanges_put, Table.get?_put_self, Option.some.injEq] at hget
    subst hget
    exact hqueued place hphase

/-- The exchange runs on, and does not get the lock. -/
theorem poll_own (houtside : (s.step (.pollExchange name)).Outside name) :
    ∃ τ, (s.step (.pollExchange name)).Without name τ s' ∧ (s.step (.pollExchange name)).Queues name := by
  rw [step] at houtside ⊢
  cases hget : s.exchanges.get? name with
  | none =>
    rw [updateExchange_eq_self hget]
    exact ⟨σ, h.toWithout, h.queues⟩
  | some x =>
    rw [updateExchange_eq_put hget] at houtside ⊢
    rcases h.outside x hget with hjoined | hdropped
    · have houtside := houtside _ (Table.get?_put_self _ _ _)
      rw [Exchange.poll_eq_look hjoined] at houtside ⊢
      cases hlook : (x.phase.look s.connection.sendLock).1 with
      | true =>
        -- it would get past the lock
        simp only [hlook, if_true] at houtside
        rcases houtside with hnot | hdropped
        · rw [Exchange.hasJoined_holdSend] at hnot
          exact absurd hnot (by simp)
        · exact absurd hdropped (Exchange.holdSend_ne_dropped _ _)
      | false =>
        simp only [Bool.false_eq_true, if_false]
        cases hphase : x.phase with
        | ready =>
          -- it queues, and those who come later have other tickets
          rw [hphase] at hlook
          obtain ⟨hnone, hsame⟩ := enter_of_false hlook
          have hticket : s.sendTicket? name = none := by
            rw [sendTicket?, hget, Option.bind_some, hphase]
            rfl
          have hbears := h.connection.lock
          rw [hticket] at hbears
          have hcome := Renumbered.come hbears h.locked'.send.serves h.locked.send.serves hnone
          have hnow : Exchange.Phase.ready.look s.connection.sendLock = _ := hsame
          rw [hnow]
          refine ⟨_, h.put_own (h.connection.relock hcome) h.locked'.renumber_come fun place hplace => ?_⟩
          exact ⟨_, (Exchange.Phase.awaitingSend.inj hplace).symm⟩
        | awaitingSend place =>
          -- it waits on
          obtain ⟨own, rfl⟩ := h.queues x place hget hphase
          rw [hphase] at hlook
          obtain ⟨_, _, -, hquiet⟩ := poll_eq_false hlook
          have hnow : Exchange.Phase.look s.connection.sendLock (.awaitingSend (.queued own)) = _ := hquiet
          have hsame : ({ x with phase := .awaitingSend (.queued own) } : Exchange) = x := by rw [← hphase]
          rw [hnow, hsame, put_self hget]
          exact ⟨σ, h.toWithout, h.queues⟩
        | _ => simp [hphase, Exchange.Phase.hasJoined] at hjoined
    · have hpoll : x.poll s.connection s.clocks = (x, s.connection) := by rw [Exchange.poll, hdropped]
      rw [hpoll, put_self hget]
      exact ⟨σ, h.toWithout, h.queues⟩

/-- **What is about the exchange** is not noticed, as long as it does not get the lock. -/
theorem step_own {event : Event} (heq : event.exchange? = some name) (houtside : (s.step event).Outside name) :
    ∃ τ, (s.step event).Without name τ s' ∧ (s.step event).Queues name := by
  cases event with
  | pollExchange other =>
    obtain rfl := Option.some.inj heq
    exact h.poll_own houtside
  | startExchange other command capacity =>
    obtain rfl := Option.some.inj heq
    rw [step]
    split
    · exact ⟨σ, h.toWithout, h.queues⟩
    · next hnew =>
      rw [Bool.not_eq_true, Table.has_eq_false_iff] at hnew
      have hticket : s.sendTicket? other = none := by rw [sendTicket?, hnew]; rfl
      have hc := h.connection
      rw [hticket] at hc
      exact ⟨σ, h.put_own (x := .start command capacity) hc rfl fun place hplace => by simp [Exchange.start] at hplace⟩
  | dropExchange other =>
    obtain rfl := Option.some.inj heq
    rw [step]
    cases hget : s.exchanges.get? other with
    | none =>
      rw [updateExchange_eq_self hget]
      exact ⟨σ, h.toWithout, h.queues⟩
    | some x =>
      rw [updateExchange_eq_put hget]
      have hc := h.connection
      rw [sendTicket?, hget, Option.bind_some] at hc
      obtain ⟨command, phase, channel⟩ := x
      cases phase with
      | ready => exact ⟨σ, h.put_own hc rfl (by simp [Exchange.drop, Exchange.Phase.isOver])⟩
      | awaitingSend place =>
        obtain ⟨own, rfl⟩ := h.queues _ place hget rfl
        refine ⟨σ, h.put_own (h.connection.relock ?_) rfl (by simp [Exchange.drop, Exchange.Phase.isOver])⟩
        exact hc.lock
      | dropped => exact ⟨σ, h.put_own hc rfl (by simp [Exchange.drop, Exchange.Phase.isOver])⟩
      | _ => simpa [Exchange.Phase.hasJoined] using h.outside _ hget
  | channel other event =>
    obtain rfl := Option.some.inj heq
    rw [step]
    cases hget : s.exchanges.get? other with
    | none =>
      rw [updateExchange_eq_self hget]
      exact ⟨σ, h.toWithout, h.queues⟩
    | some x =>
      rw [updateExchange_eq_put hget]
      have hc := h.connection
      rw [sendTicket?, hget, Option.bind_some] at hc
      exact ⟨σ, h.put_own hc rfl fun place => h.queues x place hget⟩
  | _ => simp [Event.exchange?] at heq

/-- **One event**, in both sessions or, if it is about the exchange, in the first one only. -/
theorem step {event : Event} (hfree : s.holdsUp name event = false) (houtside : (s.step event).Outside name) :
    ∃ τ, (s.step event).Shadows name τ (s'.run ([event].filter fun event => event.exchange? != some name)) := by
  have hlocked := kept_locked.step h.locked event
  by_cases heq : event.exchange? = some name
  · obtain ⟨τ, hwithout, hqueues⟩ := h.step_own heq houtside
    rw [List.filter_cons_of_neg (by simpa using heq)]
    exact ⟨τ, hwithout, hlocked, h.locked', houtside, hqueues⟩
  · rw [List.filter_cons_of_pos (by simpa using heq)]
    refine ⟨σ, h.step_other heq hfree, hlocked, kept_locked.step h.locked' event, houtside, fun x place hget => ?_⟩
    rw [s.get?_step_of_ne heq] at hget
    exact h.queues x place hget

/-- **A run**: as long as nobody is held up the exchange is not noticed. -/
theorem run {events : List Event} (hfree : s.heldUp name events = false)
    (houtside : ∀ now, now <+: events → (s.run now).Outside name) (now : List Event) (hnow : now <+: events) :
    ∃ τ, (s.run now).Without name τ (s'.run (now.filter fun event => event.exchange? != some name)) := by
  induction now generalizing s s' σ events with
  | nil => exact ⟨σ, h.toWithout⟩
  | cons event now ih =>
    cases events with
    | nil => simp at hnow
    | cons first events =>
      obtain ⟨rfl, hmore⟩ := List.cons_prefix_cons.mp hnow
      obtain ⟨hfirst, hrest⟩ := Bool.or_eq_false_iff.mp hfree
      obtain ⟨τ, hstep⟩ := h.step hfirst (houtside [event] (List.prefix_append [event] events))
      have hlater := ih hstep hrest (fun later hlater => houtside (event :: later)
        (List.cons_prefix_cons.mpr ⟨rfl, hlater⟩)) hmore
      rw [← run_append] at hlater
      rwa [run_cons, show event :: now = [event] ++ now from rfl, List.filter_append]

end Shadows

/-- Whoever is held up does not get as far as it would without the exchange. -/
theorem Without.holdsUp_eq_false {τ : ℕ → ℕ} {event : Event} (h : s.Without name σ s')
    (hafter : (s.step event).Without name τ (s'.run ([event].filter fun event => event.exchange? != some name))) :
    s.holdsUp name event = false := by
  by_contra hheld
  rw [Bool.not_eq_false] at hheld
  cases event with
  | pollExchange other =>
    obtain ⟨hother, hany⟩ := Bool.and_eq_true_iff.mp hheld
    have hother : other ≠ name := by simpa using hother
    obtain ⟨x, hget, hgets⟩ := (Option.any_eq_true _ _).mp hany
    obtain ⟨hwould, hnot⟩ := Bool.and_eq_true_iff.mp hgets
    obtain ⟨y, hget', rfl⟩ := Option.map_eq_some_iff.mp ((h.get?_other hother).symm.trans hget)
    obtain ⟨hjoined, hwould⟩ := Bool.and_eq_true_iff.mp hwould
    have hjoined : y.phase.hasJoined = false := by simpa [Exchange.renumber] using hjoined
    have hjoined' : (y.renumber σ).phase.hasJoined = false := Exchange.Phase.hasJoined_renumber.trans hjoined
    have hwaits : ((y.renumber σ).phase.look s.connection.sendLock).1 = false := by
      simpa [Exchange.getsSend, hjoined'] using hnot
    have hgoes : (y.phase.look s'.connection.sendLock).1 = true :=
      (Exchange.look_of_renumbered h.connection.lock).symm.trans hwould
    -- without the exchange it joins the turns or has ended, with it it waits
    have hsame := hafter.get?_other hother
    have hfilter : [Event.pollExchange other].filter (fun event => event.exchange? != some name) =
        [Event.pollExchange other] := List.filter_cons_of_pos (by simpa [Event.exchange?] using hother)
    rw [hfilter, run_cons, run_nil, Session.step, Session.step, updateExchange_eq_put hget, updateExchange_eq_put hget',
      exchanges_put, exchanges_put, Table.get?_put_self, Table.get?_put_self, Exchange.poll_eq_look hjoined,
      Exchange.poll_eq_look hjoined', hwaits, hgoes, if_pos rfl, Option.map_some, Option.some.injEq] at hsame
    have hjoins : (y.holdSend { s'.connection with sendLock := (y.phase.look s'.connection.sendLock).2.2 }
        s'.clocks).1.phase.hasJoined = true := Exchange.hasJoined_holdSend _ _
    rw [if_neg Bool.false_ne_true, Exchange.renumber_of_hasJoined hjoins] at hsame
    rw [← hsame] at hjoins
    exact Bool.false_ne_true hjoins
  | _ => exact absurd hheld Bool.false_ne_true

/-- If the exchange is not noticed nobody is held up. -/
theorem heldUp_eq_false {events : List Event} (h : ∀ now, now <+: events →
      ∃ τ, (s.run now).Without name τ (s'.run (now.filter fun event => event.exchange? != some name))) :
    s.heldUp name events = false := by
  induction events generalizing s s' with
  | nil => rfl
  | cons event events ih =>
    rw [heldUp, Bool.or_eq_false_iff]
    constructor
    · obtain ⟨σ, hbefore⟩ := h [] List.nil_prefix
      obtain ⟨τ, hafter⟩ := h [event] (List.prefix_append [event] events)
      exact hbefore.holdsUp_eq_false hafter
    · have hrest : ∀ now, now <+: events → ∃ τ, ((s.step event).run now).Without name τ
          ((s'.run ([event].filter fun event => event.exchange? != some name)).run
            (now.filter fun event => event.exchange? != some name)) := by
        intro now hnow
        have hlater := h (event :: now) (List.cons_prefix_cons.mpr ⟨rfl, hnow⟩)
        rw [← run_append, ← List.filter_append]
        exact hlater
      exact ih hrest

/-! ### Being dropped before writing -/

/-- What no hop and no drop of an exchange undoes lasts. -/
theorem kept_phase {Q : Exchange.Phase → Prop} (name : String)
    (hhop : ∀ {clocks a joins new b}, Exchange.Hop clocks a joins new b → Q a.1.phase → Q b.1.phase)
    (hdrop : ∀ (x : Exchange) c, Q x.phase → Q (x.drop c).1.phase) :
    Kept fun s => ∃ x, s.exchanges.get? name = some x ∧ Q x.phase := by
  have hput : ∀ {s : Session} {other : String} {x after : Exchange} (c : Connection),
      (∃ x, s.exchanges.get? name = some x ∧ Q x.phase) → s.exchanges.get? other = some x → (Q x.phase → Q after.phase) →
        ∃ x, (s.put other after c).exchanges.get? name = some x ∧ Q x.phase := by
    rintro s other x after c ⟨y, hy, hQ⟩ hget hafter
    rw [exchanges_put, Table.get?_put]
    split
    · next e =>
      rw [e, hget, Option.some.injEq] at hy
      exact ⟨after, rfl, hafter (hy ▸ hQ)⟩
    · exact ⟨y, hy, hQ⟩
  refine ⟨fun h hget hop => hput _ h hget (hhop hop), fun command capacity h hget => ?_,
    fun h hget => hput _ h hget (hdrop _ _), fun channel h hget => hput _ h hget id, fun h _ => h, fun h _ => h,
    fun h => h, fun _ h => h, fun _ h => h⟩
  obtain ⟨y, hy, hQ⟩ := h
  refine ⟨y, ?_, hQ⟩
  rw [exchanges_put, Table.get?_put_of_ne _ _ fun e => ?_]
  · exact hy
  · rw [e, hget] at hy
    simp at hy

/-- Who has joined the turns has, for good. -/
theorem kept_joined (name : String) :
    Kept fun s => ∃ x, s.exchanges.get? name = some x ∧ x.phase.hasJoined = true := by
  refine kept_phase (Q := fun phase => phase.hasJoined = true) name (fun hop => hop.hasJoined) fun x c hjoined => ?_
  rw [Exchange.drop]
  split
  · exact hjoined
  · rfl

/-- Who was dropped stays so. -/
theorem kept_dropped (name : String) : Kept fun s => ∃ x, s.exchanges.get? name = some x ∧ x.phase = .dropped := by
  refine kept_phase (Q := fun phase => phase = .dropped) name (fun hop hdropped => ?_) fun x c hdropped => ?_
  · cases hop <;> simp_all
  · rw [Exchange.drop, hdropped]
    exact hdropped

/-- Who is dropped before it joins the turns is dropped then. -/
theorem dropped_step (hget : s.exchanges.get? name = some x) (hwaits : x.phase.hasJoined = false) :
    ∃ x, (s.step (.dropExchange name)).exchanges.get? name = some x ∧ x.phase = .dropped := by
  have hover : x.phase.isOver = false := by
    cases hphase : x.phase <;> simp_all [Exchange.Phase.hasJoined, Exchange.Phase.isOver]
  rw [Session.step, updateExchange_eq_put hget, exchanges_put, Table.get?_put_self, Exchange.drop, hover]
  exact ⟨_, rfl, rfl⟩

/-- An exchange that is dropped before it joins the turns stays outside all along the run. -/
theorem outside_of_dropped (s : Session) {before after : List Event}
    (hget : (s.run before).exchanges.get? name = some x) (hwaits : x.phase.hasJoined = false)
    {now : List Event} (hnow : now <+: before ++ .dropExchange name :: after) : (s.run now).Outside name := by
  have hbefore : ∀ now, now <+: before → (s.run now).Outside name := by
    rintro now ⟨rest, rfl⟩ y hy
    left
    by_contra hjoined
    rw [Bool.not_eq_false] at hjoined
    obtain ⟨z, hz, hlater⟩ := (kept_joined name).run ⟨y, hy, hjoined⟩ rest
    rw [← run_append, hget, Option.some.injEq] at hz
    rw [← hz, hwaits] at hlater
    exact Bool.false_ne_true hlater
  obtain ⟨rest, hrest⟩ := hnow
  rcases List.append_eq_append_iff.mp hrest with ⟨more, rfl, -⟩ | ⟨more, rfl, hmore⟩
  · exact hbefore now (List.prefix_append _ _)
  · cases more with
    | nil => rw [List.append_nil]; exact hbefore before List.prefix_rfl
    | cons event more =>
      obtain ⟨rfl, -⟩ := List.cons.inj hmore
      intro y hy
      right
      obtain ⟨z, hz, hlater⟩ := (kept_dropped name).run (dropped_step hget hwaits) more
      rw [run_append, run_cons] at hy
      rw [hy, Option.some.injEq] at hz
      rw [hz, hlater]

/-- Once the exchange was dropped it holds nobody up. -/
theorem heldUp_of_dropped (h : ∃ x, s.exchanges.get? name = some x ∧ x.phase = .dropped) (events : List Event) :
    s.heldUp name events = false := by
  induction events generalizing s with
  | nil => rfl
  | cons event events ih =>
    rw [heldUp, ih ((kept_dropped name).step h event), Bool.or_false]
    obtain ⟨x, hget, hdropped⟩ := h
    have hticket : s.sendTicket? name = none := by
      rw [sendTicket?, hget, Option.bind_some, hdropped]
      rfl
    cases event with
    | pollExchange other => simp [holdsUp, hticket, without]
    | _ => rfl

theorem heldUp_append (s : Session) (name : String) (events more : List Event) :
    s.heldUp name (events ++ more) = (s.heldUp name events || (s.run events).heldUp name more) := by
  induction events generalizing s with
  | nil => rfl
  | cons event events ih => rw [List.cons_append, heldUp, heldUp, ih, Bool.or_assoc, run_cons]

/-- Nobody is there at first. -/
theorem shadows_start (dial : Dial) (receiveLimit : Option Duration) (clocks : Clocks) (name : String) :
    (start dial receiveLimit clocks).Shadows name id (start dial receiveLimit clocks) where
  clocks := rfl
  openings := rfl
  connection := .intro false (.ofCount 1) (fun _ => rfl) (.refl _)
  exchanges := rfl
  locked := locked_start dial receiveLimit clocks
  locked' := locked_start dial receiveLimit clocks
  outside _ hget := by simp [start] at hget
  queues _ _ hget := by simp [start] at hget

/-- What the others have in common with a run in which the exchange never came. -/
theorem Without.agree (h : s.Without name σ s') :
    s.connection.lifecycle = s'.connection.lifecycle ∧ s.connection.socket = s'.connection.socket ∧
      s.connection.turns = s'.connection.turns ∧ ∀ other, other ≠ name →
        (s.exchanges.get? other).bind (·.phase.turn?) = (s'.exchanges.get? other).bind (·.phase.turn?) ∧
          s.exchanged? other = s'.exchanged? other ∧ s.channel? other = s'.channel? other := by
  refine ⟨h.connection.lifecycle, h.connection.socket, h.connection.turns, fun other hne => ?_⟩
  rw [exchanged?, exchanged?, channel?, channel?, h.get?_other hne]
  cases s'.exchanges.get? other with
  | none => exact ⟨rfl, rfl, rfl⟩
  | some y =>
    obtain ⟨command, phase, channel⟩ := y
    cases phase <;> exact ⟨rfl, rfl, rfl⟩

/-- **A call that gives up before it writes is not noticed**, unless it holds up another one. An exchange is dropped
before it joins the turns. After every event of the run the session is the one of the run without the exchange, exactly
if no event before the drop holds up another exchange: one that looks for the lock of the send half after it was passed
on to the exchange, and would have had it. Then the states of the connection are the same, and so are the stream, with
the bytes that were written and those that arrived, the turns and everybody's place among them, and the results and the
channels of the other exchanges. -/
theorem unnoticed_iff (dial : Dial) (receiveLimit : Option Duration) (clocks : Clocks) (before after : List Event)
    (name : String) (hwaits : (((start dial receiveLimit clocks).run before).exchanges.get? name).any
      (fun x => !x.phase.hasJoined) = true) :
    let first := start dial receiveLimit clocks
    let events := before ++ .dropExchange name :: after
    let others := fun now : List Event => now.filter fun event => event.exchange? != some name
    ((∀ now, now <+: events → ∃ σ, (first.run now).Without name σ (first.run (others now))) ↔
      first.heldUp name before = false) ∧
    (first.heldUp name before = false → ∀ now, now <+: events →
      let s := first.run now
      let s' := first.run (others now)
      s.connection.lifecycle = s'.connection.lifecycle ∧ s.connection.socket = s'.connection.socket ∧
        s.connection.turns = s'.connection.turns ∧ ∀ other, other ≠ name →
          (s.exchanges.get? other).bind (·.phase.turn?) = (s'.exchanges.get? other).bind (·.phase.turn?) ∧
            s.exchanged? other = s'.exchanged? other ∧ s.channel? other = s'.channel? other) := by
  intro first events others
  obtain ⟨x, hget, hwaits⟩ := (Option.any_eq_true _ _).mp hwaits
  have hwaits : x.phase.hasJoined = false := by simpa using hwaits
  have houtside : ∀ now, now <+: events → (first.run now).Outside name := fun now hnow =>
    first.outside_of_dropped hget hwaits hnow
  -- the drop and what comes after it hold nobody up
  have hheld : first.heldUp name events = first.heldUp name before := by
    rw [heldUp_append, heldUp, heldUp_of_dropped (dropped_step hget hwaits), Bool.or_false]
    exact Bool.or_false _
  have hrun : first.heldUp name before = false → ∀ now, now <+: events →
      ∃ σ, (first.run now).Without name σ (first.run (others now)) := fun hfree =>
    (shadows_start dial receiveLimit clocks name).run (hheld.trans hfree) houtside
  refine ⟨⟨fun hall => hheld.symm.trans (heldUp_eq_false hall), hrun⟩, fun hfree now hnow => ?_⟩
  obtain ⟨σ, hwithout⟩ := hrun hfree now hnow
  exact hwithout.agree

/-- The reply to a deletion. -/
def deleted : Event := .network (.arrive (Bytes.ofText "DELETED" ++ Bytes.crlf))

/-- A first deletion writes its request in two pieces, while a second one waits for the lock of the send half and a
third one has not run yet. Then the lock is on its way to the second one. -/
def passedOn : List Event :=
  [.startOpening "o" none, .pollOpening "o", .network (.makeRoom (some 0)), .startExchange "a" (.delete "k") 1,
    .startExchange "b" (.delete "k") 1, .startExchange "d" (.delete "k") 1, .pollExchange "a", .pollExchange "b",
    .network (.makeRoom none), deleted, .pollExchange "a"]

/-- The second one is dropped, to which the lock was passed on: the third one gets it as if the second one had never
come. -/
theorem unnoticed_of_passedOn :
    let first := start .established none ⟨0, ⟨0⟩⟩
    first.heldUp "b" passedOn = false ∧
      ∀ now, now <+: passedOn ++ .dropExchange "b" :: [.pollExchange "d", .close, deleted, .pollExchange "d"] →
        ∃ σ, (first.run now).Without "b" σ (first.run (now.filter fun event => event.exchange? != some "b")) :=
  have hfree : (start .established none ⟨0, ⟨0⟩⟩).heldUp "b" passedOn = false := by decide +kernel
  ⟨hfree, (unnoticed_iff .established none ⟨0, ⟨0⟩⟩ passedOn [.pollExchange "d", .close, deleted, .pollExchange "d"] "b"
    (by decide +kernel)).1.mpr hfree⟩

/-- The third one looks for the lock before the second one is dropped. It has to wait, and finds the connection closed;
had the second one never come, its request would be written and answered. -/
theorem noticed_of_heldUp :
    let first := start .established none ⟨0, ⟨0⟩⟩
    let before := passedOn ++ [.pollExchange "d"]
    let events := before ++ .dropExchange "b" :: [.close, deleted, .pollExchange "d"]
    let s := first.run events
    let s' := first.run (events.filter fun event => event.exchange? != some "b")
    ((first.run before).exchanges.get? "b").any (fun x => !x.phase.hasJoined) = true ∧
      first.heldUp "b" before = true ∧
      s.connection.socket.sent = Bytes.ofText "delete k" ++ Bytes.crlf ∧
      s'.connection.socket.sent = Bytes.ofText "delete k" ++ Bytes.crlf ++ Bytes.ofText "delete k" ++ Bytes.crlf ∧
      s.exchanged? "d" = some (.error (.invalidState .closed)) ∧ s'.exchanged? "d" = some (.ok (.changed true)) := by
  decide +kernel

end Session

end Connection

end MemcachedClient
