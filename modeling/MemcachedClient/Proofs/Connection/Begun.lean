import MemcachedClient.Proofs.Connection.Faulting
import MemcachedClient.Proofs.Connection.Openness

/-!
# Connections with one opening

A connection on which one opening was started, and exchanges only when that had ended well, is an orderly one
(`Session.Begun`): it is open only if the opening has ended well, and from then on until it is over; and an exchange
that ended with an error has left it over. Whatever becomes of a connection, once it is over it stays so
(`Session.isOver_run`).
-/

namespace MemcachedClient

/-- Where the connection is not open, an opening that leaves it open has ended well. -/
theorem Opening.result?_await {o : Opening} {c : Connection} {elapsed since : Duration} (hclosed : c.lifecycle ≠ .opened)
    (hopened : (o.await c elapsed since).2.lifecycle = .opened) :
    (o.await c elapsed since).1.result? = some (.ok ()) := by
  have hfault : c.lifecycle.moveTo .faulted ≠ .opened := (Lifecycle.ne_of_isOver c.lifecycle.isOver_moveTo_faulted).2
  rw [await] at hopened ⊢
  split at hopened
  · rw [complete] at hopened ⊢
    split at hopened
    · next hopening =>
      rw [if_pos hopening]
      rfl
    · exact absurd hopened hclosed
  · exact absurd hopened hfault
  · split at hopened
    · exact absurd hopened hfault
    · exact absurd hopened hclosed

namespace Opening

variable {o : Opening} {c : Connection} {elapsed : Duration} {result : Except ClientError Unit}

/-- An opening that has ended keeps its result. -/
theorem poll_of_result? (h : o.result? = some result) : o.poll c elapsed = (o, c) := by
  obtain ⟨limit, phase⟩ := o
  cases phase with
  | finished result => rfl
  | ready | connecting | dropped => simp [result?] at h

theorem drop_of_result? (h : o.result? = some result) : o.drop = o := by
  obtain ⟨limit, phase⟩ := o
  cases phase with
  | finished result => rfl
  | ready | connecting | dropped => simp [result?] at h

/-- Where the connection is open only if the opening has ended well, it is open afterwards only if it has. -/
theorem result?_poll (hopened : c.lifecycle = .opened → o.result? = some (.ok ()))
    (hafter : (o.poll c elapsed).2.lifecycle = .opened) : (o.poll c elapsed).1.result? = some (.ok ()) := by
  by_cases hbefore : c.lifecycle = .opened
  · rw [poll_of_result? (hopened hbefore)]
    exact hopened hbefore
  · obtain ⟨limit, phase⟩ := o
    cases phase with
    | ready =>
      rw [poll] at hafter ⊢
      dsimp only at hafter ⊢
      split
      · next hunopened =>
        rw [if_pos hunopened] at hafter
        exact result?_await (by simp) hafter
      · next hstarted =>
        rw [if_neg hstarted] at hafter
        exact absurd hafter hbefore
    | connecting since => exact result?_await hbefore hafter
    | finished result => exact absurd hafter hbefore
    | dropped => exact absurd hafter hbefore

end Opening

/-- An exchange that has ended stays so. -/
theorem Exchange.poll_of_result? {x : Exchange} {result : Except ClientError Outcome} (h : x.result? = some result)
    (c : Connection) (clocks : Clocks) : x.poll c clocks = (x, c) := by
  obtain ⟨command, phase, channel⟩ := x
  cases phase with
  | finished found => rfl
  | _ => simp [result?] at h

namespace Connection.Session

variable {s : Session} {name : String}

/-- A connection that is over stays over. -/
theorem isOver_step (h : s.connection.lifecycle.isOver = true) (event : Event) :
    (s.step event).connection.lifecycle.isOver = true := by
  cases event with
  | startOpening other limit =>
    rw [step]
    split <;> exact h
  | pollOpening other =>
    rw [step, updateOpening]
    split
    · exact h
    · next o _ => exact (o.changes_poll s.connection s.clocks.elapsed).isOver h
  | dropOpening other =>
    rw [step, updateOpening]
    split <;> exact h
  | startExchange other command capacity =>
    rw [step]
    split <;> exact h
  | pollExchange other =>
    rw [step, updateExchange]
    split
    · exact h
    · next x _ =>
      rcases (x.hops_poll s.connection s.clocks).halves with ⟨hsame, -⟩ | hover
      · exact (congrArg Lifecycle.isOver hsame).trans h
      · exact hover
  | dropExchange other =>
    rw [step, updateExchange]
    split
    · exact h
    · next x _ => exact x.isOver_drop_of_isOver s.connection h
  | channel other event =>
    rw [step, updateExchange]
    split <;> exact h
  | close => exact s.connection.isOver_close
  | advance time wall => exact h
  | network event => exact h

theorem isOver_run (h : s.connection.lifecycle.isOver = true) (events : List Event) :
    (s.run events).connection.lifecycle.isOver = true := by
  induction events generalizing s with
  | nil => exact h
  | cons event events ih => exact ih (isOver_step h event)

/-- A connection on which the opening under a name was started, no other one, and exchanges only when it had ended
well. -/
structure Begun (s : Session) (name : String) : Prop where
  /-- The send half of an open connection is there. -/
  whole : s.Whole
  /-- There is one opening. -/
  opening : ∃ o, s.openings = [(name, o)]
  /-- The connection is open only if its opening has ended well. -/
  opened : s.connection.lifecycle = .opened → s.opened? name = some (.ok ())
  /-- If it has, the connection is open until it is over. -/
  settled : s.opened? name = some (.ok ()) →
    s.connection.lifecycle = .opened ∨ s.connection.lifecycle.isOver = true
  /-- Exchanges are started only then. -/
  exchanges : ∀ other x, s.exchanges.get? other = some x → s.opened? name = some (.ok ())
  /-- An exchange that has failed has left the connection over. -/
  failed : ∀ other cause, s.exchanged? other = some (.error cause) → s.connection.lifecycle.isOver = true

namespace Begun

theorem opened?_eq {o : Opening} (h : s.openings = [(name, o)]) : s.opened? name = o.result? := by
  rw [opened?, h]
  simp [Table.get?]

/-- While the connect is under way, there is no result of it and the connection is not open. -/
theorem of_isConnecting (h : s.Begun name) (hconnecting : s.isConnecting = true) :
    s.opened? name = none ∧ s.connection.lifecycle ≠ .opened := by
  obtain ⟨o, ho⟩ := h.opening
  have hphase : o.isConnecting = true := by simpa [isConnecting, ho] using hconnecting
  have hget : s.openings.get? name = some o := by simp [ho, Table.get?]
  refine ⟨?_, (h.whole.connecting name o hget hphase).2⟩
  rw [opened?_eq ho]
  obtain ⟨limit, phase⟩ := o
  cases phase <;> simp_all [Opening.isConnecting, Opening.result?]

/-- Something happens that does not concern the opening. -/
theorem congr (h : s.Begun name) {s' : Session} (hwhole : s'.Whole) (hopenings : s'.openings = s.openings)
    (hlifecycle : s'.connection.lifecycle = s.connection.lifecycle ∨ s'.connection.lifecycle.isOver = true)
    (hexchanges : ∀ other x, s'.exchanges.get? other = some x → s.opened? name = some (.ok ()))
    (hfailed : ∀ other cause, s'.exchanged? other = some (.error cause) →
      s.exchanged? other = some (.error cause) ∨ s'.connection.lifecycle.isOver = true) : s'.Begun name := by
  have hsame : s'.opened? name = s.opened? name := by rw [opened?, opened?, hopenings]
  refine ⟨hwhole, hopenings ▸ h.opening, fun hopened => ?_, fun hok => ?_, fun other x hget => ?_,
    fun other cause herror => ?_⟩
  · rcases hlifecycle with hlifecycle | hover
    · exact hsame ▸ h.opened (hlifecycle ▸ hopened)
    · exact absurd hopened (Lifecycle.ne_of_isOver hover).2
  · rcases hlifecycle with hlifecycle | hover
    · rw [hlifecycle]
      exact h.settled (hsame ▸ hok)
    · exact Or.inr hover
  · exact hsame ▸ hexchanges other x hget
  · rcases hfailed other cause herror with hbefore | hover
    · rcases hlifecycle with hlifecycle | hover
      · rw [hlifecycle]
        exact h.failed other cause hbefore
      · exact hover
    · exact hover

/-- The opening takes a step. -/
theorem put (h : s.Begun name) {o o' : Opening} {c' : Connection} (ho : s.openings = [(name, o)])
    (hwhole : Whole { s with connection := c', openings := s.openings.put name o' })
    (hkeeps : o.result? = some (.ok ()) → o'.result? = some (.ok ()))
    (hopened : c'.lifecycle = .opened → o'.result? = some (.ok ()))
    (hsettled : o'.result? = some (.ok ()) → c'.lifecycle = .opened ∨ c'.lifecycle.isOver = true)
    (hover : s.connection.lifecycle.isOver = true → c'.lifecycle.isOver = true) :
    Begun { s with connection := c', openings := s.openings.put name o' } name := by
  have hopenings : s.openings.put name o' = [(name, o')] := by simp [ho, Table.put]
  have hresult : opened? { s with connection := c', openings := s.openings.put name o' } name = o'.result? :=
    opened?_eq hopenings
  refine ⟨hwhole, ⟨o', hopenings⟩, fun hafter => hresult.trans (hopened hafter), fun hok => ?_,
    fun other x hget => ?_, fun other cause herror => hover (h.failed other cause herror)⟩
  · exact hsettled (hresult.symm.trans hok)
  · exact hresult.trans (hkeeps ((opened?_eq ho).symm.trans (h.exchanges other x hget)))

theorem pollOpening (h : s.Begun name) : (s.step (.pollOpening name)).Begun name := by
  obtain ⟨o, ho⟩ := h.opening
  have hwhole := h.whole.step (.pollOpening name)
  have hget : s.openings.get? name = some o := by simp [ho, Table.get?]
  have hopened : s.connection.lifecycle = .opened → o.result? = some (.ok ()) :=
    fun hopen => (opened?_eq ho).symm.trans (h.opened hopen)
  have hkeeps : o.result? = some (.ok ()) →
      (o.poll s.connection s.clocks.elapsed).1.result? = some (.ok ()) := fun hok => by
    rw [Opening.poll_of_result? hok]
    exact hok
  have hsettled : (o.poll s.connection s.clocks.elapsed).1.result? = some (.ok ()) →
      (o.poll s.connection s.clocks.elapsed).2.lifecycle = .opened ∨
        (o.poll s.connection s.clocks.elapsed).2.lifecycle.isOver = true := fun hok => by
    rcases Opening.lifecycle_poll hok with hopen | ⟨hbefore, hsame⟩
    · exact Or.inl hopen
    · rw [hsame]
      exact h.settled ((opened?_eq ho).trans hbefore)
  rw [step, updateOpening, hget] at hwhole ⊢
  exact h.put ho hwhole hkeeps (Opening.result?_poll hopened) hsettled
    (o.changes_poll s.connection s.clocks.elapsed).isOver

theorem dropOpening (h : s.Begun name) : (s.step (.dropOpening name)).Begun name := by
  obtain ⟨o, ho⟩ := h.opening
  have hwhole := h.whole.step (.dropOpening name)
  have hget : s.openings.get? name = some o := by simp [ho, Table.get?]
  have hkeeps : o.result? = some (.ok ()) → o.drop.result? = some (.ok ()) := fun hok => by
    rw [Opening.drop_of_result? hok]
    exact hok
  rw [step, updateOpening, hget] at hwhole ⊢
  refine h.put ho hwhole hkeeps (fun hopen => ?_) (fun hok => ?_) id
  · exact hkeeps ((opened?_eq ho).symm.trans (h.opened hopen))
  · exact h.settled ((opened?_eq ho).trans (Opening.result?_of_drop hok))

/-- An exchange moves on or ends. -/
theorem updateExchange (h : s.Begun name) (other : String) (f : Exchange → Connection → Exchange × Connection)
    (hwhole : (s.updateExchange other f).Whole)
    (hlifecycle : ∀ x, (f x s.connection).2.lifecycle = s.connection.lifecycle ∨
      (f x s.connection).2.lifecycle.isOver = true)
    (hfailed : ∀ cause, (s.updateExchange other f).exchanged? other = some (.error cause) →
      s.exchanged? other = some (.error cause) ∨ (s.updateExchange other f).connection.lifecycle.isOver = true) :
    (s.updateExchange other f).Begun name := by
  have hresult := fun another => s.exchanged?_updateExchange another other f
  cases hget : s.exchanges.get? other with
  | none =>
    rw [Session.updateExchange, hget]
    exact h
  | some x =>
    have hok := h.exchanges other x hget
    rw [Session.updateExchange, hget] at hwhole hfailed hresult ⊢
    refine h.congr hwhole rfl (hlifecycle x) (fun _ _ _ => hok) fun another cause herror => ?_
    by_cases hname : another = other
    · rw [hname] at herror ⊢
      exact hfailed cause herror
    · have hsame := hresult another
      rw [if_neg hname] at hsame
      exact Or.inl (hsame.symm.trans herror)

theorem pollExchange (h : s.Begun name) (other : String) : (s.step (.pollExchange other)).Begun name := by
  have hlifecycle : ∀ x : Exchange, (x.poll s.connection s.clocks).2.lifecycle = s.connection.lifecycle ∨
      (x.poll s.connection s.clocks).2.lifecycle.isOver = true :=
    fun x => (x.hops_poll s.connection s.clocks).halves.imp_left (·.lifecycle)
  refine h.updateExchange other (fun x c => x.poll c s.clocks) (h.whole.step (.pollExchange other)) hlifecycle
    fun cause herror => ?_
  have herror : (s.step (.pollExchange other)).exchanged? other = some (.error cause) := herror
  cases hbefore : s.exchanged? other with
  | none =>
    -- it has failed now, on a connection that was open or over
    have hclosed := h.whole.isOpened_of_error hbefore herror
    rw [← Bool.not_eq_true, Exchange.isOpened_iff] at hclosed
    rw [step, exchanged?_updateExchange, if_pos rfl] at herror
    obtain ⟨x, hget, -⟩ := Option.bind_eq_some_iff.mp herror
    rw [step, Session.updateExchange, hget] at hclosed
    rw [Session.updateExchange, hget]
    refine Or.inr ((hlifecycle x).elim (fun hsame => ?_) id)
    dsimp only at hclosed ⊢
    rw [hsame] at hclosed ⊢
    exact (h.settled (h.exchanges other x hget)).resolve_left hclosed
  | some result =>
    refine Or.inl ?_
    obtain ⟨x, hget, hresult⟩ := Option.bind_eq_some_iff.mp hbefore
    rw [step, exchanged?_updateExchange, if_pos rfl, hget, Option.bind_some, Exchange.poll_of_result? hresult,
      hresult] at herror
    exact herror

theorem dropExchange (h : s.Begun name) (other : String) : (s.step (.dropExchange other)).Begun name := by
  refine h.updateExchange other (fun x c => x.drop c) (h.whole.step (.dropExchange other))
    (fun x => (x.halves_drop s.connection).imp_left (·.lifecycle)) fun cause herror => Or.inl ?_
  exact (s.exchanged?_step (by simp)).symm.trans (show (s.step (.dropExchange other)).exchanged? other = _ from herror)

theorem channel (h : s.Begun name) (other : String) (event : Channel.Event (Except ClientError Item)) :
    (s.step (.channel other event)).Begun name := by
  refine h.updateExchange other (fun x c => ({ x with channel := x.channel.handle event }, c))
    (h.whole.step (.channel other event)) (fun _ => Or.inl rfl) fun cause herror => Or.inl ?_
  exact (s.exchanged?_step (by simp)).symm.trans (show (s.step (.channel other event)).exchanged? other = _ from herror)

theorem startExchange (h : s.Begun name) (hok : s.opened? name = some (.ok ())) (other : String) (command : Command)
    (capacity : ℕ) : (s.step (.startExchange other command capacity)).Begun name := by
  have hresult : ∀ another, (s.step (.startExchange other command capacity)).exchanged? another =
      s.exchanged? another := fun _ => s.exchanged?_step (by simp)
  have hsame : (s.step (.startExchange other command capacity)).openings = s.openings ∧
      (s.step (.startExchange other command capacity)).connection = s.connection := by
    rw [step]
    split <;> exact ⟨rfl, rfl⟩
  exact h.congr (h.whole.step _) hsame.1 (Or.inl (by rw [hsame.2])) (fun _ _ _ => hok) fun another cause herror =>
    Or.inl ((hresult another).symm.trans herror)

end Begun

/-- What may happen on such a connection: no other opening is started, and exchanges only when the first has ended
well. -/
def Suits (s : Session) (name : String) : Event → Prop
  | .startOpening .. => False
  | .pollOpening other => other = name
  | .dropOpening other => other = name
  | .startExchange .. => s.opened? name = some (.ok ())
  | _ => True

/-- It stays orderly. -/
theorem Begun.step (h : s.Begun name) {event : Event} (hsuits : s.Suits name event) : (s.step event).Begun name := by
  cases event with
  | startOpening other limit => exact hsuits.elim
  | pollOpening other =>
    obtain rfl : other = name := hsuits
    exact h.pollOpening
  | dropOpening other =>
    obtain rfl : other = name := hsuits
    exact h.dropOpening
  | startExchange other command capacity => exact h.startExchange hsuits other command capacity
  | pollExchange other => exact h.pollExchange other
  | dropExchange other => exact h.dropExchange other
  | channel other event => exact h.channel other event
  | close =>
    exact h.congr (h.whole.step .close) rfl (Or.inr s.connection.isOver_close) h.exchanges fun _ _ => Or.inl
  | advance time wall => exact h.congr (h.whole.step (.advance time wall)) rfl (Or.inl rfl) h.exchanges fun _ _ => Or.inl
  | network event => exact h.congr (h.whole.step (.network event)) rfl (Or.inl rfl) h.exchanges fun _ _ => Or.inl

/-- A new connection whose opening has been started and runs is orderly. -/
theorem begun_start (dial : Dial) (receiveLimit : Option Duration) (clocks : Clocks) (name : String) (limit : Option Duration) :
    ((start dial receiveLimit clocks).run [.startOpening name limit, .pollOpening name]).Begun name := by
  have hstarted : ((start dial receiveLimit clocks).step (.startOpening name limit)).Begun name := by
    refine ⟨(Whole.start dial receiveLimit clocks).step _, ⟨.start limit, rfl⟩, fun hopened => ?_, fun hok => ?_,
      fun other x hget => ?_, fun other cause herror => ?_⟩
    · simp [step, start, ofDial, Table.has] at hopened
    · rw [Begun.opened?_eq (o := .start limit) rfl] at hok
      simp [Opening.start, Opening.result?] at hok
    · simp [step, start, Table.has] at hget
    · simp [step, start, Table.has, exchanged?] at herror
  exact hstarted.pollOpening

end Connection.Session

end MemcachedClient
