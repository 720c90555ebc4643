import MemcachedClient.Connection.Exchange
import MemcachedClient.Connection.Opening
import MemcachedClient.Table

/-!
# Sessions

A connection together with the calls on it, openings and exchanges, each under a name. `Session.step`
is one event: a call starts, runs on or is dropped, the connection is closed, time passes, the other
side of an exchange's channel does something, or the network does. Any interleaving of the calls is
a list of events, and what it leads to is `Session.run`. An event on a name that is not there, and a
start under a name that is in use, changes nothing.
-/

namespace MemcachedClient.Connection

/-- A connection and the calls on it. -/
structure Session where
  /-- The connection. -/
  connection : Connection
  /-- The clocks. -/
  clocks : Clocks
  /-- The openings, in the order of starting. -/
  openings : Table Opening
  /-- The exchanges, in the order of starting. -/
  exchanges : Table Exchange

/-- Something that happens to a connection or to a call on it. -/
inductive Event where
  /-- Starts an opening, which does not run yet. -/
  | startOpening (name : String) (limit : Option Duration)
  /-- Runs an opening on. -/
  | pollOpening (name : String)
  /-- Drops an opening. -/
  | dropOpening (name : String)
  /-- Starts an exchange, which does not run yet. -/
  | startExchange (name : String) (command : Command) (capacity : Nat)
  /-- Runs an exchange on. -/
  | pollExchange (name : String)
  /-- Drops an exchange. -/
  | dropExchange (name : String)
  /-- Something happens to the channel of an exchange. -/
  | channel (name : String) (event : Channel.Event (Except ClientError Item))
  /-- Closes the connection. -/
  | close
  /-- Time passes, and it is this time of day then. -/
  | advance (time : Duration) (wall : Instant)
  /-- The network or the server does something. -/
  | network (event : NetworkEvent)

namespace Session

/-- A connection without calls, and what the network makes of its connect at once. -/
def start (dial : Dial) (receiveLimit : Option Duration) (clocks : Clocks) : Session :=
  ⟨.ofDial dial receiveLimit, clocks, [], []⟩

/-- Changes the opening under a name together with the connection. -/
def updateOpening (s : Session) (name : String)
    (f : Opening → Connection → Opening × Connection) : Session :=
  match s.openings.get? name with
  | none => s
  | some o =>
    let (o, connection) := f o s.connection
    { s with connection, openings := s.openings.put name o }

/-- Changes the exchange under a name together with the connection. -/
def updateExchange (s : Session) (name : String)
    (f : Exchange → Connection → Exchange × Connection) : Session :=
  match s.exchanges.get? name with
  | none => s
  | some x =>
    let (x, connection) := f x s.connection
    { s with connection, exchanges := s.exchanges.put name x }

/-- One event. -/
def step (s : Session) : Event → Session
  | .startOpening name limit =>
    if s.openings.has name then s else { s with openings := s.openings.put name (.start limit) }
  | .pollOpening name => s.updateOpening name fun o c => o.poll c s.clocks.elapsed
  | .dropOpening name => s.updateOpening name fun o c => (o.drop, c)
  | .startExchange name command capacity =>
    if s.exchanges.has name then s
    else { s with exchanges := s.exchanges.put name (.start command capacity) }
  | .pollExchange name => s.updateExchange name fun x c => x.poll c s.clocks
  | .dropExchange name => s.updateExchange name fun x c => x.drop c
  | .channel name event =>
    s.updateExchange name fun x c => ({ x with channel := x.channel.handle event }, c)
  | .close => { s with connection := s.connection.close }
  | .advance time wall => { s with clocks := ⟨s.clocks.elapsed + time, wall⟩ }
  | .network event =>
    { s with
      connection := { s.connection with socket := s.connection.socket.handle event } }

/-- The state after some events. -/
def run (s : Session) (events : List Event) : Session := events.foldl step s

/-- The result of the opening under a name, once it has ended. -/
def opened? (s : Session) (name : String) : Option (Except ClientError Unit) :=
  (s.openings.get? name).bind Opening.result?

/-- The result of the exchange under a name, once it has ended. -/
def exchanged? (s : Session) (name : String) : Option (Except ClientError Outcome) :=
  (s.exchanges.get? name).bind Exchange.result?

/-- The channel of the exchange under a name. -/
def channel? (s : Session) (name : String) : Option (Channel (Except ClientError Item)) :=
  (s.exchanges.get? name).map (·.channel)

/-- Whether some opening waits for its connect. -/
def isConnecting (s : Session) : Bool := s.openings.any fun entry => entry.2.isConnecting

@[simp] theorem run_nil (s : Session) : s.run [] = s := rfl

@[simp] theorem run_cons (s : Session) (event : Event) (events : List Event) :
    s.run (event :: events) = (s.step event).run events := rfl

/-- The events of two runs in a row are those of one run. -/
theorem run_append (s : Session) (events more : List Event) :
    s.run (events ++ more) = (s.run events).run more := List.foldl_append

end Session

end MemcachedClient.Connection
