import MemcachedClient.Client.Call
import MemcachedClient.Client.Stream

/-!
# Runs of a client

`Client.step` is one event: a call starts, runs on or is dropped; a relay or the consumer of a stream
runs on; the client is disposed; time passes; or the network does something on a connection. Any
interleaving of all activities is a list of events, and what it leads to is `Client.run`. An event
that does not apply changes nothing.
-/

namespace MemcachedClient.Client

/-- Something that happens to a client. -/
inductive Event where
  /-- Starts a call, which does not run yet. -/
  | start (name : String) (command : Command)
  /-- Runs a call on. -/
  | poll (name : String)
  /-- Drops a call. -/
  | drop (name : String)
  /-- Runs the relay behind a stream on. -/
  | pollRelay (name : String)
  /-- The consumer of a stream receives one element. -/
  | next (name : String)
  /-- The consumer of a stream begins to collect it. -/
  | collect (name : String)
  /-- A consumer that collects runs on. -/
  | pollCollect (name : String)
  /-- The consumer of a stream leaves. -/
  | leave (name : String)
  /-- Disposes the client. -/
  | dispose
  /-- Time passes, and it is this time of day then. -/
  | advance (time : Duration) (wall : Instant)
  /-- The network or the server does something on a connection. -/
  | network (item : Nat) (event : NetworkEvent)

/-- Disposes the client: its pool is disposed, and what the pool closes is closed. -/
def dispose (c : Client) : Client := c.withPool c.pool.dispose

/-- Time passes, for every connection. -/
def advance (c : Client) (time : Duration) (wall : Instant) : Client :=
  { c with
    clocks := ⟨c.clocks.elapsed + time, wall⟩
    connections := c.connections.map fun s => s.step (.advance time wall) }

/-- One event. -/
def step (c : Client) : Event → Client
  | .start name command =>
    if c.calls.has name then c else { c with calls := c.calls.put name ⟨command, .ready⟩ }
  | .poll name =>
    match c.calls.get? name with
    | some call => c.pollCall name call
    | none => c
  | .drop name =>
    match c.calls.get? name with
    | some call => c.dropCall name call
    | none => c
  | .pollRelay name =>
    match c.relays.get? name with
    | some relay => c.pollRelay name relay
    | none => c
  | .next name => (c.next name).2
  | .collect name => c.collect name
  | .pollCollect name => c.pollCollect name
  | .leave name => c.leave name
  | .dispose => c.dispose
  | .advance time wall => c.advance time wall
  | .network item event => c.on item (.network event)

/-- The client after some events. -/
def run (c : Client) (events : List Event) : Client := events.foldl step c

/-- The answer of the call under a name, once it has answered. -/
def answered? (c : Client) (name : String) : Option (Except ClientError Answer) :=
  match c.calls.get? name with
  | some ⟨_, .answered answer⟩ => some answer
  | _ => none

@[simp] theorem run_nil (c : Client) : c.run [] = c := rfl

@[simp] theorem run_cons (c : Client) (event : Event) (events : List Event) :
    c.run (event :: events) = (c.step event).run events := rfl

/-- The events of two runs in a row are those of one run. -/
theorem run_append (c : Client) (events more : List Event) :
    c.run (events ++ more) = (c.run events).run more := List.foldl_append

end MemcachedClient.Client
