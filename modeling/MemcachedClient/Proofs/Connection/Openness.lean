import MemcachedClient.Connection.Session
import MemcachedClient.Proofs.Connection.Hop
import MemcachedClient.Proofs.Connection.Opening

/-!
# What keeps a connection open

Most of what happens to a connection leaves its lifecycle state alone, and so does an exchange, unless it ends
with an error (`Session.lifecycle_pollExchange`). An opening that ends well leaves the connection open
(`Session.Sure`).
-/

namespace MemcachedClient

namespace Exchange

variable {clocks : Clocks} {a b : Exchange × Connection} {joins : ℕ} {new : List Item}

/-- An exchange that has ended makes no further hop. -/
theorem Hop.isOver_eq_false (h : Hop clocks a joins new b) : a.1.phase.isOver = false := by
  cases h <;> simp_all only [Phase.isOver]

/-- A hop leaves the lifecycle state alone, unless it ends the exchange with an error. -/
theorem Hop.lifecycle (h : Hop clocks a joins new b) :
    b.2.lifecycle = a.2.lifecycle ∨ ∃ cause, b.1.phase = .finished (.error cause) := by
  cases h with
  | refuse => exact Or.inr ⟨_, rfl⟩
  | sendFail => exact Or.inr ⟨_, rfl⟩
  | sendAll => exact Or.inl (Connection.lifecycle_applyAll _ (by simp))
  | refuseReceive => exact Or.inr ⟨_, rfl⟩
  | @read x c reply since buffer _ _ _ reads =>
    rcases x.read_cases c clocks buffer reply since rfl with
      ⟨_, _, -, h⟩ | ⟨_, _, -, h⟩ | ⟨cause, _, h⟩
    · rw [← reads, h]
      exact Or.inl (Connection.lifecycle_applyAll _ (by simp))
    · rw [← reads, h]
      exact Or.inl rfl
    · rw [← reads, h]
      exact Or.inr ⟨cause, rfl⟩
  | _ => exact Or.inl rfl

theorem Hops.lifecycle (h : Hops clocks a joins new b) :
    b.2.lifecycle = a.2.lifecycle ∨ ∃ cause, b.1.phase = .finished (.error cause) := by
  induction h with
  | refl => exact Or.inl rfl
  | head hop hops ih =>
    rcases hop.lifecycle with hsame | ⟨cause, herror⟩
    · rw [← hsame]
      exact ih
    · -- after its error the exchange is over
      cases hops with
      | refl => exact Or.inr ⟨cause, herror⟩
      | head next _ =>
        have := next.isOver_eq_false
        simp [herror, Phase.isOver] at this

/-- Running an exchange on leaves the lifecycle state alone, unless the exchange ends with an error. -/
theorem lifecycle_poll (x : Exchange) (c : Connection) (clocks : Clocks) :
    (x.poll c clocks).2.lifecycle = c.lifecycle ∨
      ∃ cause, (x.poll c clocks).1.result? = some (.error cause) := by
  rcases (hops_poll x c clocks).lifecycle with hsame | ⟨cause, herror⟩
  · exact Or.inl hsame
  · exact Or.inr ⟨cause, by rw [result?, herror]⟩

end Exchange

namespace Opening

variable {o : Opening} {c : Connection} {elapsed since : Duration}

theorem lifecycle_await (h : (o.await c elapsed since).1.result? = some (.ok ())) :
    (o.await c elapsed since).2.lifecycle = .opened := by
  rw [await] at h ⊢
  split
  · next hdial =>
    rw [hdial, complete] at h
    rw [complete]
    split
    · rfl
    · next hlate =>
      dsimp only at h
      rw [if_neg hlate] at h
      simp [conclude, result?] at h
  · next hdial =>
    rw [hdial] at h
    simp [fail, conclude, result?] at h
  · next hdial =>
    rw [hdial] at h
    dsimp only at h
    split at h
    · simp [fail, conclude, result?] at h
    · simp [result?] at h

/-- An opening that ends well leaves its connection open. -/
theorem lifecycle_poll (h : (o.poll c elapsed).1.result? = some (.ok ())) :
    (o.poll c elapsed).2.lifecycle = .opened ∨
      o.result? = some (.ok ()) ∧ (o.poll c elapsed).2 = c := by
  obtain ⟨limit, phase⟩ := o
  cases phase with
  | ready =>
    rw [poll] at h ⊢
    dsimp only at h ⊢
    split
    · next hunopened =>
      rw [if_pos hunopened] at h
      exact Or.inl (lifecycle_await h)
    · next hstarted =>
      rw [if_neg hstarted] at h
      simp [conclude, result?] at h
  | connecting since => exact Or.inl (lifecycle_await h)
  | finished result => exact Or.inr ⟨h, rfl⟩
  | dropped => simp [poll, result?] at h

/-- Dropping an opening gives it no result. -/
theorem result?_of_drop {result : Except ClientError Unit} (h : o.drop.result? = some result) :
    o.result? = some result := by
  rw [drop] at h
  split at h
  · exact h
  · simp [result?] at h

end Opening

namespace Connection

/-- Whether an event leaves the lifecycle state and the openings of every connection alone. -/
def Event.isQuiet : Event → Bool
  | startExchange .. => true
  | channel .. => true
  | advance .. => true
  | network _ => true
  | _ => false

namespace Session

/-- If the opening of this name has ended well, the connection is open. -/
def Sure (s : Session) (name : String) : Prop :=
  s.opened? name = some (.ok ()) → s.connection.isOpened = true

variable {s : Session} {event : Event} {name : String}

theorem step_of_isQuiet (s : Session) (h : event.isQuiet = true) :
    (s.step event).connection.isOpened = s.connection.isOpened ∧
      (s.step event).openings = s.openings := by
  cases event with
  | startExchange name command capacity =>
    rw [step]
    split <;> exact ⟨rfl, rfl⟩
  | channel name event =>
    rw [step, updateExchange]
    split <;> exact ⟨rfl, rfl⟩
  | advance time wall => exact ⟨rfl, rfl⟩
  | network event => exact ⟨rfl, rfl⟩
  | startOpening | pollOpening | dropOpening | pollExchange | dropExchange | close => simp [Event.isQuiet] at h

/-- An exchange that runs on leaves the connection as open as it was, unless it ends with an error. -/
theorem isOpened_pollExchange (s : Session) (name : String) :
    (s.step (.pollExchange name)).connection.isOpened = s.connection.isOpened ∨
      ∃ cause, (s.step (.pollExchange name)).exchanged? name = some (.error cause) := by
  rw [step, updateExchange]
  split
  · exact Or.inl rfl
  · next x _ =>
    rcases x.lifecycle_poll s.connection s.clocks with hsame | ⟨cause, herror⟩
    · exact Or.inl (by simp only [isOpened, hsame])
    · refine Or.inr ⟨cause, ?_⟩
      simp only [exchanged?, Table.get?_put_self]
      exact herror

namespace Sure

theorem of_none (h : s.opened? name = none) : s.Sure name := fun hdone => by
  rw [h] at hdone
  simp at hdone

theorem congr {s' : Session} (h : s.Sure name) (hopened : s'.connection.isOpened = s.connection.isOpened)
    (hopenings : s'.openings = s.openings) : s'.Sure name := by
  intro hdone
  rw [hopened]
  refine h ?_
  rw [opened?, ← hopenings]
  exact hdone

theorem pollOpening (h : s.Sure name) : (s.step (.pollOpening name)).Sure name := by
  intro hdone
  rw [step, updateOpening] at hdone ⊢
  cases hget : s.openings.get? name with
  | none =>
    rw [hget] at hdone
    exact h hdone
  | some o =>
    rw [hget] at hdone
    simp only [opened?, Table.get?_put_self] at hdone
    rcases Opening.lifecycle_poll hdone with hopen | ⟨hbefore, hsame⟩
    · exact Exchange.isOpened_iff.mpr hopen
    · have hopened : s.connection.isOpened = true := h (by rw [opened?, hget]; exact hbefore)
      rw [← hsame] at hopened
      exact hopened

theorem dropOpening (h : s.Sure name) : (s.step (.dropOpening name)).Sure name := by
  intro hdone
  rw [step, updateOpening] at hdone ⊢
  cases hget : s.openings.get? name with
  | none =>
    rw [hget] at hdone
    exact h hdone
  | some o =>
    rw [hget] at hdone
    simp only [opened?, Table.get?_put_self] at hdone
    refine h ?_
    rw [opened?, hget]
    exact Opening.result?_of_drop hdone

end Sure

end Session

end Connection

end MemcachedClient
