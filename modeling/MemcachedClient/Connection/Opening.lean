import MemcachedClient.Connection
import MemcachedClient.Deadline

/-!
# Openings

The call that opens a connection. It is valid only on an unopened connection; it attempts the one
connect, under a time limit, and then puts both halves of the stream in their places. No request has
been let through by then, so both locks are free. A connection that was closed in the meantime does
not become open: the halves are dropped again.
-/

namespace MemcachedClient

namespace Opening

/-- Where an opening is. -/
inductive Phase where
  /-- It has not run yet. -/
  | ready
  /-- Its connect is under way since this time. -/
  | connecting (since : Duration)
  /-- It has ended. -/
  | finished (result : Except ClientError Unit)
  /-- It was dropped before it ended. -/
  | dropped

/-- Whether the opening has ended or was dropped. -/
def Phase.isOver : Phase → Bool
  | finished _ => true
  | dropped => true
  | _ => false

end Opening

/-- The opening of a connection. -/
structure Opening where
  /-- The limit of its connect. -/
  limit : Option Duration
  /-- Where it is. -/
  phase : Opening.Phase

namespace Opening

/-- An opening that has not run yet. -/
def start (limit : Option Duration) : Opening := ⟨limit, .ready⟩

/-- Ends an opening. -/
def conclude (o : Opening) (result : Except ClientError Unit) : Opening :=
  { o with phase := .finished result }

/-- Ends an opening whose connect failed. -/
def fail (o : Opening) (c : Connection) (cause : ClientError) : Opening × Connection :=
  (o.conclude (.error cause), { c with lifecycle := c.lifecycle.moveTo .faulted })

/-- Puts the halves in their places, if the connection was not closed. -/
def complete (o : Opening) (c : Connection) : Opening × Connection :=
  if c.lifecycle = .opening then
    (o.conclude (.ok ()), { c with lifecycle := .opened, sendHalf := true, receiveHalf := some [] })
  else
    (o.conclude (.error (.invalidState c.lifecycle)),
      { c with sendHalf := false, receiveHalf := none })

/-- Looks what became of the connect, which began at `since`. -/
def await (o : Opening) (c : Connection) (elapsed since : Duration) : Opening × Connection :=
  match c.socket.dial with
  | .established => o.complete c
  | .failed cause => o.fail c (.io cause)
  | .pending =>
    if Deadline.hasPassed o.limit since elapsed then
      o.fail c (.timeout "connect" (o.limit.getD 0))
    else ({ o with phase := .connecting since }, c)

/-- Runs an opening until it has to wait or has ended. -/
def poll (o : Opening) (c : Connection) (elapsed : Duration) : Opening × Connection :=
  match o.phase with
  | .ready =>
    if c.lifecycle = .unopened then
      o.await { c with lifecycle := .opening, attempts := c.attempts + 1 } elapsed elapsed
    else (o.conclude (.error (.invalidState c.lifecycle)), c)
  | .connecting since => o.await c elapsed since
  | .finished _ => (o, c)
  | .dropped => (o, c)

/-- Drops an opening; one that has ended keeps its result. -/
def drop (o : Opening) : Opening := if o.phase.isOver then o else { o with phase := .dropped }

/-- The result of an opening that has ended. -/
def result? (o : Opening) : Option (Except ClientError Unit) :=
  match o.phase with
  | .finished result => some result
  | _ => none

/-- Whether the connect is under way. -/
def isConnecting (o : Opening) : Bool :=
  match o.phase with
  | .connecting _ => true
  | _ => false

end Opening

end MemcachedClient
