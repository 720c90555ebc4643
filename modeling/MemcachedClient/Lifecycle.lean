/-!
# Lifecycle of a connection

A connection is created `unopened`, is `opening` while its one connect is under way, and is `opened`
from then on until it is closed or a failure faults it. `Lifecycle.moveTo` is the only way a state
is left: `closed` is final.
-/

namespace MemcachedClient

/-- The state of a connection. -/
inductive Lifecycle where
  /-- No connect was attempted yet. -/
  | unopened
  /-- The connect is under way. -/
  | opening
  /-- Requests may be sent. -/
  | opened
  /-- Closed by its owner. -/
  | closed
  /-- A connect, a send, a receive or an abandoned request failed. -/
  | faulted
  deriving DecidableEq, Repr, Inhabited

namespace Lifecycle

/-- The name of a state in messages. -/
def name : Lifecycle → String
  | unopened => "unopened"
  | opening => "opening"
  | opened => "open"
  | closed => "closed"
  | faulted => "faulted"

/-- The name of a state in the description of a connection. -/
def title : Lifecycle → String
  | unopened => "Unopened"
  | opening => "Opening"
  | opened => "Open"
  | closed => "Closed"
  | faulted => "Faulted"

/-- Whether the connection will carry no further request. -/
def isOver : Lifecycle → Bool
  | closed => true
  | faulted => true
  | _ => false

/-- Moves to `next`, unless the connection was closed. -/
def moveTo (state next : Lifecycle) : Lifecycle :=
  if state = closed then closed else next

@[simp] theorem moveTo_closed (next : Lifecycle) : moveTo closed next = closed := rfl

/-- A state that is moved to the faulted state is over. -/
@[simp] theorem isOver_moveTo_faulted (state : Lifecycle) : (state.moveTo faulted).isOver = true := by
  cases state <;> rfl

end Lifecycle

end MemcachedClient
