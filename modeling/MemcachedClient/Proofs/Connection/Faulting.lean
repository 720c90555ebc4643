import MemcachedClient.Proofs.Connection.Halves
import MemcachedClient.Proofs.Connection.Reading

/-!
# A failed exchange faults its connection

An exchange that has joined the turns and ends other than with its reply leaves the connection faulted, or closed
if it was closed before: whether it fails to write, fails to read, loses its place because the connection is not
open any more, or is dropped (`Guarded`). The guard goes off in the very step in which the exchange ends, and a
connection that is over stays so, so that nobody begins to read a reply any more (`Barred`).

An exchange that ends with an error before it has joined the turns faults nothing. It finds the connection not open:
the halves of an open connection are in their places, since the one opening that puts them there ends with that
(`Session.Whole`). So after every error the connection is not open (`failure_faults`).
-/

namespace MemcachedClient

open Response

/-- A connection that is over does not become open again. -/
theorem Opening.Changes.isOver {c c' : Connection} (h : Opening.Changes c c') (hover : c.lifecycle.isOver = true) :
    c'.lifecycle.isOver = true := by
  by_contra hopen
  rw [Bool.not_eq_true] at hopen
  rw [h.isOver_eq_false hopen] at hover
  exact Bool.false_ne_true hover

namespace Exchange

variable {clocks : Clocks} {a b : Exchange × Connection} {joins : ℕ} {new : List Item}

/-- A connection that is over stays so. -/
theorem Hop.isOver (h : Hop clocks a joins new b) (hover : a.2.lifecycle.isOver = true) :
    b.2.lifecycle.isOver = true := by
  rcases h.halves with ⟨hsame, -⟩ | hover'
  · rw [hsame]
    exact hover
  · exact hover'

/-- An exchange that has joined the turns and fails leaves the connection over. -/
theorem Hop.isOver_of_isFailed (h : Hop clocks a joins new b) (hjoined : a.1.phase.hasJoined = true)
    (hfailed : b.1.phase.isFailed = true) : b.2.lifecycle.isOver = true := by
  cases h with
  | refuse phase => simp [phase, Phase.hasJoined] at hjoined
  | sendFail => exact Connection.isOver_applyAll_of_mem _ (by simp)
  | refuseReceive _ _ shut => exact Connection.isOver_applyAll_of_mem _ (faults_of_shut shut).1
  | @read x c reply since buffer _ _ _ reads =>
    rcases x.read_cases c clocks buffer reply since rfl with
      ⟨_, _, -, h⟩ | ⟨_, _, -, h⟩ | ⟨_, _, h⟩
    · rw [← reads, h] at hfailed
      simp [Phase.isFailed] at hfailed
    · rw [← reads, h] at hfailed
      simp [Phase.isFailed] at hfailed
    · rw [← reads, h]
      exact Connection.isOver_applyAll_of_mem _ (by simp)
  | _ => simp [Phase.isFailed] at hfailed

/-- An exchange that has joined the turns has joined them for good. -/
theorem Hop.hasJoined (h : Hop clocks a joins new b) (hjoined : a.1.phase.hasJoined = true) :
    b.1.phase.hasJoined = true := by
  cases h with
  | askSend phase => simp [phase, Phase.hasJoined] at hjoined
  | waitSend phase => simp [phase, Phase.hasJoined] at hjoined
  | @read x c reply since buffer _ _ _ reads =>
    rcases x.read_cases c clocks buffer reply since rfl with
      ⟨_, _, -, h⟩ | ⟨_, _, -, h⟩ | ⟨_, _, h⟩ <;>
    · rw [← reads, h]
      rfl
  | _ => rfl

/-- Who joins the turns in a hop has joined them. -/
theorem Hop.hasJoined_of_joins (h : Hop clocks a joins new b) (hjoins : joins ≠ 0) :
    b.1.phase.isFailed = false ∧ b.1.phase.hasJoined = true := by
  cases h with
  | join => exact ⟨rfl, rfl⟩
  | _ => exact absurd rfl hjoins

/-- A chain of hops that makes an exchange fail which has joined the turns. -/
theorem Hops.isOver_of_isFailed (h : Hops clocks a joins new b) (hjoined : a.1.phase.hasJoined = true)
    (hbefore : a.1.phase.isFailed = false) (hfailed : b.1.phase.isFailed = true) :
    b.2.lifecycle.isOver = true := by
  induction h with
  | refl =>
    rw [hbefore] at hfailed
    exact absurd hfailed Bool.false_ne_true
  | @head a m b _ _ _ _ hop hops ih =>
    cases hmid : m.1.phase.isFailed with
    | false => exact ih (hop.hasJoined hjoined) hmid hfailed
    | true =>
      rcases hops.halves with ⟨hsame, -⟩ | hover
      · rw [hsame]
        exact hop.isOver_of_isFailed hjoined hmid
      · exact hover

/-- On a connection that is over nobody begins to read, and only who reads comes to an outcome. -/
theorem Hop.isReading_of_isOver (h : Hop clocks a joins new b) (hover : a.2.lifecycle.isOver = true)
    (hreads : b.1.phase.isReading = true ∨ ∃ outcome, b.1.result? = some (.ok outcome)) :
    a.1.phase.isReading = true := by
  cases h with
  | startReading _ _ opened =>
    rw [opened] at hover
    simp [Lifecycle.isOver] at hover
  | read phase =>
    rw [phase]
    rfl
  | _ => simp [Phase.isReading, result?] at hreads

/-- Dropping an exchange that has joined the turns leaves the connection over, unless the exchange has ended. -/
theorem isOver_drop (x : Exchange) (c : Connection) (hjoined : x.phase.hasJoined = true) :
    x.drop c = (x, c) ∨ (x.drop c).2.lifecycle.isOver = true := by
  rw [drop]
  split
  · exact Or.inl rfl
  · next hopen =>
    refine Or.inr (Connection.isOver_applyAll_of_mem _ ?_)
    cases hphase : x.phase with
    | ready => simp [hphase, Phase.hasJoined] at hjoined
    | awaitingSend place => simp [hphase, Phase.hasJoined] at hjoined
    | finished result => simp [hphase, Phase.isOver] at hopen
    | dropped => simp [hphase, Phase.isOver] at hopen
    | _ => simp [Phase.abandonment]

theorem command_drop (x : Exchange) (c : Connection) : (x.drop c).1.command = x.command := by
  rw [drop]
  split <;> rfl

theorem isOver_drop_of_isOver (x : Exchange) (c : Connection) (hover : c.lifecycle.isOver = true) :
    (x.drop c).2.lifecycle.isOver = true := by
  rw [drop]
  split
  · exact hover
  · exact Connection.isOver_applyAll hover _

end Exchange

namespace Connection.Transcript

/-! ### Who fails faults -/

/-- Whoever joined the turns and failed has left the connection over. -/
structure Guarded (t : Transcript) : Prop where
  /-- Who joined the turns is there with its command, past joining them. -/
  joined : ∀ sender ∈ t.senders, ∃ x, t.session.exchanges.get? sender.1 = some x ∧
    x.phase.hasJoined = true ∧ x.command = sender.2
  /-- If it failed, the connection is over. -/
  failed : ∀ sender ∈ t.senders, ∀ x, t.session.exchanges.get? sender.1 = some x →
    x.phase.isFailed = true → t.session.connection.lifecycle.isOver = true

namespace Guarded

variable {t : Transcript} {name : String} {x x' : Exchange} {c' : Connection} {joins : ℕ} {new : List Item}

/-- An exchange moves on: it stays past joining the turns, and if it fails, the connection is over. -/
theorem put (h : Guarded t) (hget : t.session.exchanges.get? name = some x) (hcommand : x'.command = x.command)
    (hover : t.session.connection.lifecycle.isOver = true → c'.lifecycle.isOver = true)
    (hjoined : x.phase.hasJoined = true ∨ joins ≠ 0 → x'.phase.hasJoined = true)
    (hfailed : x.phase.hasJoined = true ∨ joins ≠ 0 → x'.phase.isFailed = true →
      x'.phase = x.phase ∧ joins = 0 ∨ c'.lifecycle.isOver = true) :
    Guarded (t.put name x' c' joins new) := by
  -- a sender of this name joined before, or joins now
  have hsender : ∀ sender ∈ (t.put name x' c' joins new).senders, sender ∈ t.senders ∨
      sender = (name, x'.command) ∧ joins ≠ 0 := by
    intro sender hmem
    rw [senders_put, List.mem_append] at hmem
    refine hmem.imp_right fun hmem => ?_
    obtain ⟨hjoins, hsender⟩ := List.mem_replicate.mp hmem
    exact ⟨hsender, hjoins⟩
  have hpast : ∀ sender ∈ (t.put name x' c' joins new).senders, sender.1 = name →
      (x.phase.hasJoined = true ∨ joins ≠ 0) ∧ x'.command = sender.2 := by
    intro sender hmem hname
    rcases hsender sender hmem with hbefore | ⟨rfl, hjoins⟩
    · obtain ⟨y, hy, hjoined, hsame⟩ := h.joined sender hbefore
      rw [hname, hget, Option.some.injEq] at hy
      exact ⟨Or.inl (hy ▸ hjoined), hcommand.trans (hy ▸ hsame)⟩
    · exact ⟨Or.inr hjoins, rfl⟩
  constructor
  · intro sender hmem
    by_cases hname : sender.1 = name
    · obtain ⟨hjoins, hsame⟩ := hpast sender hmem hname
      exact ⟨x', by rw [hname]; exact Table.get?_put_self _ _ _, hjoined hjoins, hsame⟩
    · rcases hsender sender hmem with hbefore | ⟨rfl, -⟩
      · obtain ⟨y, hy, hjoined⟩ := h.joined sender hbefore
        exact ⟨y, by rwa [exchanges_put, Table.get?_put_of_ne _ _ hname], hjoined⟩
      · exact absurd rfl hname
  · intro sender hmem y hy hyfailed
    rcases Table.eq_or_of_get?_put hy with ⟨hname, rfl⟩ | ⟨hname, hy⟩
    · rcases hfailed (hpast sender hmem hname).1 hyfailed with ⟨hsame, hjoins⟩ | hfault
      · have hbefore := (hsender sender hmem).resolve_right fun hnow => hnow.2 hjoins
        exact hover (h.failed sender hbefore x (hname ▸ hget) (hsame ▸ hyfailed))
      · exact hfault
    · rcases hsender sender hmem with hbefore | ⟨rfl, -⟩
      · exact hover (h.failed sender hbefore y hy hyfailed)
      · exact absurd rfl hname

/-- An event that leaves the exchanges alone, and the connection over if it was. -/
theorem session (h : Guarded t) {s' : Session} {received' : Bytes}
    (hexchanges : s'.exchanges = t.session.exchanges)
    (hover : t.session.connection.lifecycle.isOver = true → s'.connection.lifecycle.isOver = true) :
    Guarded { t with session := s', received := received' } where
  joined sender hmem := by
    rw [show Session.exchanges _ = t.session.exchanges from hexchanges]
    exact h.joined sender hmem
  failed sender hmem x hget hfailed := hover (h.failed sender hmem x (hexchanges ▸ hget) hfailed)

theorem hop (h : Guarded t) (hget : t.session.exchanges.get? name = some x) {after : Exchange} {c : Connection}
    (hop : Exchange.Hop t.session.clocks (x, t.session.connection) joins new (after, c)) :
    Guarded (t.put name after c joins new) := by
  refine h.put hget hop.command hop.isOver ?_ ?_
  · rintro (hjoined | hjoins)
    · exact hop.hasJoined hjoined
    · exact (hop.hasJoined_of_joins hjoins).2
  · rintro (hjoined | hjoins) hfailed
    · exact Or.inr (hop.isOver_of_isFailed hjoined hfailed)
    · rw [(hop.hasJoined_of_joins hjoins).1] at hfailed
      exact absurd hfailed Bool.false_ne_true

theorem start (h : Guarded t) (hget : t.session.exchanges.get? name = none) (x : Exchange) :
    Guarded (t.put name x t.session.connection 0 []) := by
  have hne : ∀ sender ∈ t.senders, sender.1 ≠ name := by
    rintro sender hmem rfl
    obtain ⟨y, hy, -⟩ := h.joined sender hmem
    rw [hget] at hy
    simp at hy
  constructor
  · intro sender hmem
    rw [senders_put_zero] at hmem
    rw [exchanges_put, Table.get?_put_of_ne _ _ (hne sender hmem)]
    exact h.joined sender hmem
  · intro sender hmem y hy
    rw [senders_put_zero] at hmem
    rw [exchanges_put, Table.get?_put_of_ne _ _ (hne sender hmem)] at hy
    exact h.failed sender hmem y hy

theorem drop (h : Guarded t) (hget : t.session.exchanges.get? name = some x) :
    Guarded (t.put name (x.drop t.session.connection).1 (x.drop t.session.connection).2 0 []) := by
  refine h.put hget (x.command_drop _) (x.isOver_drop_of_isOver _) ?_ ?_
  · rintro (hjoined | hjoins)
    · rw [Exchange.drop]
      split
      · exact hjoined
      · rfl
    · exact absurd rfl hjoins
  · rintro (hjoined | hjoins) -
    · exact (x.isOver_drop _ hjoined).imp_left fun hsame => ⟨by rw [hsame], rfl⟩
    · exact absurd rfl hjoins

end Guarded

/-- Whatever happens, a failed exchange that joined the turns has left the connection over. -/
theorem kept_guarded : Kept Guarded where
  hop h hget hop := h.hop hget hop
  start _ _ h hget := h.start hget _
  drop h hget := h.drop hget
  channel _ h hget :=
    h.put hget rfl id (fun hpast => hpast.resolve_right (absurd rfl)) fun _ _ => Or.inl ⟨rfl, rfl⟩
  opening _ h hchanges := h.session rfl hchanges.isOver
  openings _ h := h.session rfl id
  close {t} h := h.session rfl fun _ => t.session.connection.isOver_close
  advance _ _ h := h.session rfl id
  network _ h := h.session rfl id

theorem guarded_run (dial : Dial) (receiveLimit : Option Duration) (clocks : Clocks) (events : List Event) :
    Guarded ((start dial receiveLimit clocks).run events) :=
  kept_guarded.run ⟨fun _ hmem => by simp at hmem, fun _ hmem => by simp at hmem⟩ events

/-! ### Nobody begins to read on a connection that is over -/

/-- The exchange under a name reads its reply. -/
def Reads (t : Transcript) (name : String) : Prop :=
  ∃ x, t.session.exchanges.get? name = some x ∧ x.phase.isReading = true

/-- Since the connection is over, only those who read at the time `first` have read on. -/
structure Barred (first t : Transcript) : Prop where
  /-- The connection is over. -/
  isOver : t.session.connection.lifecycle.isOver = true
  /-- Who reads has read then. -/
  reading : ∀ name, t.Reads name → first.Reads name
  /-- Who has an outcome had it then, or was reading. -/
  answered : ∀ name outcome, t.session.exchanged? name = some (.ok outcome) →
    first.session.exchanged? name = some (.ok outcome) ∨ first.Reads name

namespace Barred

variable {first t : Transcript} {name : String} {x x' : Exchange} {c' : Connection} {joins : ℕ} {new : List Item}

theorem refl (hover : t.session.connection.lifecycle.isOver = true) : Barred t t :=
  ⟨hover, fun _ h => h, fun _ _ h => Or.inl h⟩

/-- An exchange moves on, but does not begin to read. -/
theorem put (h : Barred first t) (hget : t.session.exchanges.get? name = some x)
    (hover : c'.lifecycle.isOver = true) (hreading : x'.phase.isReading = true → x.phase.isReading = true)
    (hanswered : ∀ outcome, x'.result? = some (.ok outcome) →
      x.result? = some (.ok outcome) ∨ x.phase.isReading = true) :
    Barred first (t.put name x' c' joins new) where
  isOver := hover
  reading other := by
    rintro ⟨y, hy, hyreads⟩
    rcases Table.eq_or_of_get?_put hy with ⟨rfl, rfl⟩ | ⟨-, hy⟩
    · exact h.reading other ⟨x, hget, hreading hyreads⟩
    · exact h.reading other ⟨y, hy, hyreads⟩
  answered other outcome hok := by
    obtain ⟨y, hy, hresult⟩ := Option.bind_eq_some_iff.mp hok
    rcases Table.eq_or_of_get?_put hy with ⟨rfl, rfl⟩ | ⟨-, hy⟩
    · rcases hanswered outcome hresult with hbefore | hreads
      · exact h.answered other outcome (Option.bind_eq_some_iff.mpr ⟨x, hget, hbefore⟩)
      · exact Or.inr (h.reading other ⟨x, hget, hreads⟩)
    · exact h.answered other outcome (Option.bind_eq_some_iff.mpr ⟨y, hy, hresult⟩)

/-- An event that leaves the exchanges alone, and the connection over. -/
theorem session (h : Barred first t) {s' : Session} {received' : Bytes}
    (hexchanges : s'.exchanges = t.session.exchanges) (hover : s'.connection.lifecycle.isOver = true) :
    Barred first { t with session := s', received := received' } := by
  refine ⟨hover, fun name => ?_, fun name outcome hok => h.answered name outcome ?_⟩
  · rintro ⟨x, hget, hreads⟩
    exact h.reading name ⟨x, hexchanges ▸ hget, hreads⟩
  · rw [Session.exchanged?, ← hexchanges]
    exact hok

theorem hop (h : Barred first t) (hget : t.session.exchanges.get? name = some x) {after : Exchange} {c : Connection}
    (hop : Exchange.Hop t.session.clocks (x, t.session.connection) joins new (after, c)) :
    Barred first (t.put name after c joins new) := by
  refine h.put hget (hop.isOver h.isOver) (fun hreads => ?_) fun outcome hok => Or.inr ?_
  · exact hop.isReading_of_isOver h.isOver (Or.inl hreads)
  · exact hop.isReading_of_isOver h.isOver (Or.inr ⟨outcome, hok⟩)

theorem start (h : Barred first t) (name : String) (command : Command) (capacity : ℕ) :
    Barred first (t.put name (.start command capacity) t.session.connection 0 []) := by
  refine ⟨h.isOver, fun other => ?_, fun other outcome hok => ?_⟩
  · rintro ⟨y, hy, hreads⟩
    rcases Table.eq_or_of_get?_put hy with ⟨-, rfl⟩ | ⟨-, hy⟩
    · simp [Exchange.start, Exchange.Phase.isReading] at hreads
    · exact h.reading other ⟨y, hy, hreads⟩
  · obtain ⟨y, hy, hresult⟩ := Option.bind_eq_some_iff.mp hok
    rcases Table.eq_or_of_get?_put hy with ⟨-, rfl⟩ | ⟨-, hy⟩
    · simp [Exchange.start, Exchange.result?] at hresult
    · exact h.answered other outcome (Option.bind_eq_some_iff.mpr ⟨y, hy, hresult⟩)

theorem drop (h : Barred first t) (hget : t.session.exchanges.get? name = some x) :
    Barred first (t.put name (x.drop t.session.connection).1 (x.drop t.session.connection).2 0 []) := by
  refine h.put hget (x.isOver_drop_of_isOver _ h.isOver) (fun hreads => ?_) fun outcome hok => Or.inl ?_
  · rw [Exchange.drop] at hreads
    split at hreads
    · exact hreads
    · simp [Exchange.Phase.isReading] at hreads
  · rw [Exchange.drop] at hok
    split at hok
    · exact hok
    · simp [Exchange.result?] at hok

end Barred

/-- Whatever happens, nobody begins to read any more. -/
theorem kept_barred (first : Transcript) : Kept (Barred first) where
  hop h hget hop := h.hop hget hop
  start command capacity h _ := h.start _ command capacity
  drop h hget := h.drop hget
  channel _ h hget := h.put hget h.isOver id fun _ hok => Or.inl hok
  opening _ h hchanges := h.session rfl (hchanges.isOver h.isOver)
  openings _ h := h.session rfl h.isOver
  close {t} h := h.session rfl t.session.connection.isOver_close
  advance _ _ h := h.session rfl h.isOver
  network _ h := h.session rfl h.isOver

end Connection.Transcript

/-! ### Errors -/

namespace Exchange

variable {x : Exchange} {c : Connection} {clocks : Clocks} {cause : ClientError}

theorem isFailed_of_result? (h : x.result? = some (.error cause)) : x.phase.isFailed = true := by
  rw [result?] at h
  split at h
  · next result hphase =>
    rw [hphase, Option.some.inj h]
    rfl
  · simp at h

/-- Looking for the lock of the send half, an exchange that ends with an error leaves the connection not open, if an
open connection has its send half. -/
theorem awaitSend_of_error (hhalf : c.lifecycle = .opened → c.sendHalf = true) {place : Handle}
    (herror : (x.awaitSend c clocks place).1.result? = some (.error cause)) :
    (x.awaitSend c clocks place).2.lifecycle ≠ .opened := by
  cases htaken : (c.sendLock.poll place).1 with
  | false =>
    simp only [awaitSend, htaken, Bool.false_eq_true, if_false] at herror
    simp [result?] at herror
  | true =>
    simp only [awaitSend, htaken, if_true, holdSend] at herror ⊢
    split
    · next hopened =>
      have hhalf : c.sendHalf = true := hhalf (isOpened_iff.mp hopened)
      rw [if_pos hopened, if_pos hhalf] at herror
      rw [if_pos hhalf]
      -- it has joined the turns
      exact (Lifecycle.ne_of_isOver ((hops_send x _ clocks _ _).isOver_of_isFailed rfl rfl
        (isFailed_of_result? herror))).2
    · next hclosed =>
      intro hopened
      rw [conclude, Connection.lifecycle_applyAll _ (by simp)] at hopened
      exact hclosed (isOpened_iff.mpr hopened)

/-- Running on, an exchange that ends with an error leaves the connection not open, if an open connection has its send
half. -/
theorem poll_of_error (hhalf : c.lifecycle = .opened → c.sendHalf = true) (hbefore : x.result? = none)
    (herror : (x.poll c clocks).1.result? = some (.error cause)) : (x.poll c clocks).2.lifecycle ≠ .opened := by
  have hjoined : x.phase.hasJoined = true → x.phase.isFailed = false →
      (x.poll c clocks).2.lifecycle ≠ .opened := fun hjoined hopen =>
    (Lifecycle.ne_of_isOver ((x.hops_poll c clocks).isOver_of_isFailed hjoined hopen (isFailed_of_result? herror))).2
  cases hphase : x.phase with
  | ready =>
    rw [poll, hphase] at herror ⊢
    exact awaitSend_of_error (c := { c with sendLock := c.sendLock.wait.2 }) hhalf herror
  | awaitingSend place =>
    rw [poll, hphase] at herror ⊢
    exact awaitSend_of_error hhalf herror
  | finished result =>
    rw [result?, hphase] at hbefore
    simp at hbefore
  | dropped =>
    rw [poll, hphase] at herror
    rw [hbefore] at herror
    simp at herror
  | _ => exact hjoined (by rw [hphase]; rfl) (by rw [hphase]; rfl)

theorem result?_drop (x : Exchange) (c : Connection) : (x.drop c).1.result? = x.result? := by
  rw [drop]
  split
  · rfl
  · next hopen =>
    rw [result?, result?]
    split
    · next hphase => simp at hphase
    · split
      · next hphase => simp [hphase, Phase.isOver] at hopen
      · rfl

end Exchange

namespace Connection

namespace Session

variable {s : Session} {name : String} {cause : ClientError}

theorem exchanged?_updateExchange (s : Session) (name other : String)
    (f : Exchange → Connection → Exchange × Connection) :
    (s.updateExchange other f).exchanged? name = if name = other then
      (s.exchanges.get? name).bind (fun x => (f x s.connection).1.result?) else s.exchanged? name := by
  rw [updateExchange]
  cases hget : s.exchanges.get? other with
  | none =>
    by_cases hname : name = other
    · rw [if_pos hname, exchanged?, hname, hget]
      rfl
    · rw [if_neg hname]
  | some x =>
    dsimp only
    rw [exchanged?, Table.get?_put]
    by_cases hname : name = other
    · rw [if_pos hname, if_pos hname, hname, hget]
      rfl
    · rw [if_neg hname, if_neg hname]
      rfl

/-- Only an exchange that runs on comes to a result. -/
theorem exchanged?_step (s : Session) {event : Event} (hpoll : event ≠ .pollExchange name) :
    (s.step event).exchanged? name = s.exchanged? name := by
  cases event with
  | pollExchange other =>
    have hne : name ≠ other := fun h => hpoll (by rw [h])
    rw [step, exchanged?_updateExchange, if_neg hne]
  | dropExchange other =>
    rw [step, exchanged?_updateExchange]
    split
    · rw [exchanged?]
      exact congrArg (Option.bind _) (funext fun x => x.result?_drop _)
    · rfl
  | channel other event =>
    rw [step, exchanged?_updateExchange]
    split <;> rfl
  | startExchange other command capacity =>
    rw [step]
    split
    · rfl
    · next hnew =>
      rw [Bool.not_eq_true, Table.has_eq_false_iff] at hnew
      rw [exchanged?, exchanged?, Table.get?_put]
      split
      · next hname =>
        rw [hname, hnew]
        rfl
      · rfl
  | startOpening other limit =>
    rw [step]
    split <;> rfl
  | pollOpening other =>
    rw [step, updateOpening]
    split <;> rfl
  | dropOpening other =>
    rw [step, updateOpening]
    split <;> rfl
  | _ => rfl

/-- An exchange that ends with an error leaves the connection not open. -/
theorem Whole.isOpened_of_error (h : s.Whole) {event : Event} (hbefore : s.exchanged? name = none)
    (herror : (s.step event).exchanged? name = some (.error cause)) :
    (s.step event).connection.isOpened = false := by
  by_cases hpoll : event = .pollExchange name
  · subst hpoll
    rw [Session.step, exchanged?_updateExchange, if_pos rfl] at herror
    obtain ⟨x, hget, herror⟩ := Option.bind_eq_some_iff.mp herror
    rw [exchanged?, hget] at hbefore
    rw [Session.step, updateExchange, hget, ← Bool.not_eq_true, Exchange.isOpened_iff]
    exact Exchange.poll_of_error (fun hopened => (h.halves hopened).1) hbefore herror
  · rw [s.exchanged?_step hpoll, hbefore] at herror
    simp at herror

/-- An exchange that is dropped before it has ended has failed. -/
theorem isFailed_dropExchange {x : Exchange} (hget : s.exchanges.get? name = some x) (hopen : x.phase.isOver = false) :
    ((s.step (.dropExchange name)).exchanges.get? name).any (·.phase.isFailed) = true := by
  rw [step, updateExchange_eq_put hget, exchanges_put, Table.get?_put_self, Exchange.drop, if_neg (by simp [hopen])]
  rfl

end Session

namespace Transcript

/-- **A failure faults the connection before anybody else reads**, after any run. Whoever joined the turns, to write
its request, and has failed, with an error or because it was dropped, has left the connection faulted or closed; and
whatever happens then, only an exchange that was reading its reply by then comes to an outcome. An exchange that ends
with an error, whether it joined the turns or not, leaves the connection not open in that very step; and one that is
dropped before it has ended has failed. -/
theorem failure_faults (dial : Dial) (receiveLimit : Option Duration) (clocks : Clocks) (events : List Event) :
    let t := (start dial receiveLimit clocks).run events
    t.session = (Session.start dial receiveLimit clocks).run events ∧
    (∀ sender ∈ t.senders, ∃ x, t.session.exchanges.get? sender.1 = some x ∧
      (x.phase.isFailed = true → t.session.connection.lifecycle.isOver = true ∧
        ∀ more name outcome, (t.run more).session.exchanged? name = some (.ok outcome) →
          t.session.exchanged? name = some (.ok outcome) ∨ t.Reads name)) ∧
    (∀ event name cause, t.session.exchanged? name = none →
      (t.step event).session.exchanged? name = some (.error cause) →
      (t.step event).session.connection.isOpened = false) ∧
    ∀ name x, t.session.exchanges.get? name = some x → x.phase.isOver = false →
      ((t.step (.dropExchange name)).session.exchanges.get? name).any (·.phase.isFailed) = true := by
  intro t
  have hguarded : t.Guarded := guarded_run dial receiveLimit clocks events
  refine ⟨session_run _ events, fun sender hmem => ?_, fun event name cause hbefore herror => ?_,
    fun name x hget hopen => ?_⟩
  · obtain ⟨x, hget, -⟩ := hguarded.joined sender hmem
    refine ⟨x, hget, fun hfailed => ?_⟩
    have hover := hguarded.failed sender hmem x hget hfailed
    exact ⟨hover, fun more => ((kept_barred t).run (.refl hover) more).answered⟩
  · have hwhole : t.session.Whole := by
      rw [session_run]
      exact (Session.Whole.start dial receiveLimit clocks).run events
    rw [session_step] at herror ⊢
    exact hwhole.isOpened_of_error hbefore herror
  · rw [session_step]
    exact Session.isFailed_dropExchange hget hopen

end Transcript

end Connection

end MemcachedClient
