import MemcachedClient.Connection.Session
import MemcachedClient.Proofs.Connection.Hop
import MemcachedClient.Proofs.Table

/-!
# What the calls on a connection keep

An event of a session lets one call move, together with the connection, or it is about the connection alone. A poll of
an exchange is a chain of hops, so a property of sessions holds along every run if every hop keeps it, and whatever
else happens (`Session.Kept`). Between two hops of one poll no other call moves, but an invariant can be stated there
all the same: a hop ends in a place where the exchange could have stopped.

`Transcript.Kept` is the same for properties that speak of the past.
-/

namespace MemcachedClient.Connection

/-- The exchange that an event is about. -/
def Event.exchange? : Event → Option String
  | startExchange name .. => some name
  | pollExchange name => some name
  | dropExchange name => some name
  | channel name _ => some name
  | _ => none

namespace Session

/-- Puts an exchange under its name together with the connection. -/
def put (s : Session) (name : String) (x : Exchange) (c : Connection) : Session :=
  { s with connection := c, exchanges := s.exchanges.put name x }

variable {s : Session} {name : String} {x : Exchange}

@[simp] theorem connection_put (s : Session) (name : String) (x : Exchange) (c : Connection) :
    (s.put name x c).connection = c := rfl

@[simp] theorem exchanges_put (s : Session) (name : String) (x : Exchange) (c : Connection) :
    (s.put name x c).exchanges = s.exchanges.put name x := rfl

@[simp] theorem openings_put (s : Session) (name : String) (x : Exchange) (c : Connection) :
    (s.put name x c).openings = s.openings := rfl

theorem put_self (hget : s.exchanges.get? name = some x) : s.put name x s.connection = s := by
  rw [put, Table.put_of_get?_eq_some hget]

theorem put_put (s : Session) (name : String) (x after : Exchange) (c c' : Connection) :
    (s.put name x c).put name after c' = s.put name after c' := by
  simp only [put, Table.put_put_self]

/-- Changing an exchange together with the connection is putting it back. -/
theorem updateExchange_eq_put (hget : s.exchanges.get? name = some x)
    (f : Exchange → Connection → Exchange × Connection) :
    s.updateExchange name f = s.put name (f x s.connection).1 (f x s.connection).2 := by
  rw [updateExchange, hget, put]

/-- Where there is no exchange, none is changed. -/
theorem updateExchange_eq_self (hget : s.exchanges.get? name = none)
    (f : Exchange → Connection → Exchange × Connection) : s.updateExchange name f = s := by
  rw [updateExchange, hget]

/-- An event on one exchange leaves the others alone. -/
theorem get?_step_of_ne (s : Session) {event : Event} (hne : event.exchange? ≠ some name) :
    (s.step event).exchanges.get? name = s.exchanges.get? name := by
  have hupdate : ∀ {other} (f : Exchange → Connection → Exchange × Connection), some other ≠ some name →
      (s.updateExchange other f).exchanges.get? name = s.exchanges.get? name := by
    intro other f hne
    rw [updateExchange]
    split
    · rfl
    · exact Table.get?_put_of_ne _ _ fun e => hne (congrArg some e.symm)
  cases event with
  | startExchange other command capacity =>
    rw [step]
    split
    · rfl
    · exact Table.get?_put_of_ne _ _ fun e => hne (congrArg some e.symm)
  | pollExchange other | dropExchange other | channel other event => exact hupdate _ hne
  | startOpening other limit =>
    rw [step]
    split <;> rfl
  | pollOpening other | dropOpening other =>
    rw [step, updateOpening]
    split <;> rfl
  | close | advance | network => rfl

/-- A property that every hop of an exchange keeps, and everything else that happens in a session. -/
structure Kept (P : Session → Prop) : Prop where
  /-- An exchange hops. -/
  hop : ∀ {s : Session} {name : String} {x after : Exchange} {c : Connection} {joins : ℕ} {new : List Item}, P s →
    s.exchanges.get? name = some x → Exchange.Hop s.clocks (x, s.connection) joins new (after, c) →
    P (s.put name after c)
  /-- An exchange is started. -/
  start : ∀ {s : Session} {name : String} (command : Command) (capacity : ℕ), P s →
    s.exchanges.get? name = none → P (s.put name (.start command capacity) s.connection)
  /-- An exchange is dropped. -/
  drop : ∀ {s : Session} {name : String} {x : Exchange}, P s → s.exchanges.get? name = some x →
    P (s.put name (x.drop s.connection).1 (x.drop s.connection).2)
  /-- Something happens to the channel of an exchange. -/
  channel : ∀ {s : Session} {name : String} {x : Exchange} (channel : Response.ItemChannel), P s →
    s.exchanges.get? name = some x → P (s.put name { x with channel } s.connection)
  /-- An opening runs on. -/
  opening : ∀ {s : Session} {name : String} {o : Opening}, P s → s.openings.get? name = some o →
    P { s with
      connection := (o.poll s.connection s.clocks.elapsed).2
      openings := s.openings.put name (o.poll s.connection s.clocks.elapsed).1 }
  /-- An opening is started or dropped. -/
  idle : ∀ {s : Session} {name : String} {o : Opening}, P s → o.isConnecting = false →
    P { s with openings := s.openings.put name o }
  /-- The connection is closed. -/
  close : ∀ {s : Session}, P s → P { s with connection := s.connection.close }
  /-- Time passes. -/
  advance : ∀ {s : Session} (clocks : Clocks), P s → P { s with clocks }
  /-- The network does something. -/
  network : ∀ {s : Session} (socket : Socket), P s → P { s with connection := { s.connection with socket } }

namespace Kept

variable {P : Session → Prop}

theorem hops (hP : Kept P) {a b : Exchange × Connection} {joins : ℕ} {new : List Item}
    (hhops : Exchange.Hops s.clocks a joins new b) (hget : s.exchanges.get? name = some a.1)
    (hc : s.connection = a.2) (h : P s) : P (s.put name b.1 b.2) := by
  generalize hclocks : s.clocks = clocks at hhops
  induction hhops generalizing s with
  | refl a => rwa [← hc, put_self hget]
  | @head a b d joins more new rest hop hops ih =>
    obtain ⟨x, c⟩ := a
    obtain ⟨after, c'⟩ := b
    subst hc hclocks
    have hput := ih (s := s.put name after c') (Table.get?_put_self _ _ _) rfl (hP.hop h hget hop) rfl
    rwa [put_put] at hput

/-- **What is kept by every hop, and by everything else that happens, is kept by every event.** -/
theorem step (hP : Kept P) (h : P s) (event : Event) : P (s.step event) := by
  cases event with
  | startOpening name limit =>
    rw [Session.step]
    split
    · exact h
    · exact hP.idle h rfl
  | pollOpening name =>
    rw [Session.step, updateOpening]
    split
    · exact h
    · next hget => exact hP.opening h hget
  | dropOpening name =>
    rw [Session.step, updateOpening]
    split
    · exact h
    · next o _ =>
      refine hP.idle h ?_
      obtain ⟨limit, phase⟩ := o
      cases phase <;> rfl
  | startExchange name command capacity =>
    rw [Session.step]
    split
    · exact h
    · next hnew => exact hP.start command capacity h (Table.has_eq_false_iff.mp (Bool.not_eq_true _ ▸ hnew))
  | pollExchange name =>
    rw [Session.step]
    cases hget : s.exchanges.get? name with
    | none => rwa [updateExchange_eq_self hget]
    | some x =>
      rw [updateExchange_eq_put hget]
      exact hP.hops (Exchange.hops_poll x _ _) hget rfl h
  | dropExchange name =>
    rw [Session.step]
    cases hget : s.exchanges.get? name with
    | none => rwa [updateExchange_eq_self hget]
    | some x =>
      rw [updateExchange_eq_put hget]
      exact hP.drop h hget
  | channel name event =>
    rw [Session.step]
    cases hget : s.exchanges.get? name with
    | none => rwa [updateExchange_eq_self hget]
    | some x =>
      rw [updateExchange_eq_put hget]
      exact hP.channel _ h hget
  | close => exact hP.close h
  | advance time wall => exact hP.advance _ h
  | network event => exact hP.network _ h

/-- It holds after any events. -/
theorem run (hP : Kept P) (h : P s) (events : List Event) : P (s.run events) := by
  induction events generalizing s with
  | nil => exact h
  | cons event events ih => exact ih (hP.step h event)

end Kept

end Session

end MemcachedClient.Connection
