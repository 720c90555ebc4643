import MemcachedClient.Config
import MemcachedClient.Connection.Session
import MemcachedClient.MultiGet
import MemcachedClient.Pool

/-!
# Clients

A client keeps a pool of connections to one server. Every call is one command: its keys are checked,
a connection is borrowed, the command is exchanged on it, and the connection is returned. A
connection on which a command failed is marked corrupted before it is returned, and only an open
connection is lent again.

The item with number n of the pool is the n-th connection; creating it is opening it. Each
connection is a `Connection.Session` and changes by its events alone, so whatever holds after every
run of a session holds of every connection of a client.

Host names are not resolved here: what a connect comes to, `dial`, is up to the network.
-/

namespace MemcachedClient

namespace Client

/-- What a call answers. -/
inductive Answer where
  /-- What the command resolved to. -/
  | outcome (outcome : Outcome)
  /-- The items follow in a stream. -/
  | stream
  deriving DecidableEq, Repr

/-- Where a call is. -/
inductive Phase where
  /-- It has not run yet. -/
  | ready
  /-- It borrows a connection. -/
  | borrowing
  /-- It exchanges its command on this connection. -/
  | exchanging (item : Nat)
  /-- It has answered. -/
  | answered (answer : Except ClientError Answer)
  /-- It was dropped before it answered. -/
  | dropped

/-- Whether a call has answered or was dropped. -/
def Phase.isOver : Phase → Bool
  | answered _ => true
  | dropped => true
  | _ => false

/-- A call. -/
structure Call where
  /-- The command. -/
  command : Command
  /-- Where it is. -/
  phase : Phase

/-- The activity behind a stream, which holds the lease. It starts when its call answers. -/
inductive Relay where
  /-- It exchanges the command on this connection. -/
  | exchanging (item : Nat)
  /-- The exchange failed, and the stream has no room for the error yet. -/
  | reporting (item : Nat) (cause : ClientError)
  /-- It has ended. -/
  | over
  deriving DecidableEq, Repr

/-- The stream of items that a call answered with. -/
structure Stream where
  /-- The connection that the items come from. -/
  item : Nat
  /-- What is done with the stream. -/
  consumer : Consumer
  /-- What collecting the stream came to. -/
  collected : Option (Except ClientError (List Item))

/-- Whether the stream is being collected. -/
def Stream.isCollecting (stream : Stream) : Bool :=
  match stream.consumer with
  | .collecting _ => true
  | _ => false

/-- The number of items that a stream holds for its consumer. -/
def streamCapacity : Nat := 16

end Client

/-- A client. -/
structure Client where
  /-- The server. -/
  endpoint : Endpoint
  /-- The limit of a connect. -/
  connectLimit : Option Duration
  /-- The limit of each read. -/
  receiveLimit : Option Duration
  /-- What the network makes of a connect at once. -/
  dial : Dial
  /-- The clocks. -/
  clocks : Clocks
  /-- The pool. -/
  pool : Pool
  /-- The connections, in the order of their creation. -/
  connections : List Connection.Session
  /-- The calls, in the order of starting. -/
  calls : Table Client.Call
  /-- The activities behind streams, in the order of starting. -/
  relays : Table Client.Relay
  /-- The streams. -/
  streams : Table Client.Stream

namespace Client

/-- The pool of a configuration. -/
def poolOf (config : Config) : Pool :=
  if config.enablePipelining then
    .shared (.ofOptions "Connection" ⟨config.maxConnections, config.maxConcurrentRequests⟩)
  else .exclusive (.ofOptions ⟨config.maxConnections⟩)

/-- The client of a configuration, unless the configuration is refused. -/
def ofConfig (config : Config) (dial : Dial) (wall : Instant) : Except ClientError Client :=
  match config.check with
  | .error cause => .error (.validation cause)
  | .ok endpoint =>
    .ok {
      endpoint
      connectLimit := config.connectLimit
      receiveLimit := config.receiveLimit
      dial
      clocks := ⟨0, wall⟩
      pool := poolOf config
      connections := []
      calls := []
      relays := []
      streams := [] }

/-- The description of a client. -/
def describe (c : Client) : String := "Client \x7b endpoint: " ++ c.endpoint.describe ++ " \x7d"

/-- Something happens on a connection. -/
def on (c : Client) (item : Nat) (event : Connection.Event) : Client :=
  { c with connections := c.connections.modify item fun s => s.step event }

/-- Whether a connection may be lent again. -/
def accepts (c : Client) (item : Nat) : Bool :=
  match c.connections[item]? with
  | some s => s.connection.isOpened
  | none => false

/-- The name of the one opening of each connection. -/
def openingName : String := "opening"

/-- A new connection, whose opening has run for the first time. -/
def attempt (c : Client) : Connection.Session :=
  (Connection.Session.start c.dial c.receiveLimit c.clocks).run
    [.startOpening openingName c.connectLimit, .pollOpening openingName]

/-- What became of the creation of each connection, the one that would be started next included. -/
def creations (c : Client) : Pool.Creations := fun item =>
  ((c.connections ++ [c.attempt])[item]?).bind fun s => s.opened? openingName

/-- The client after an operation on its pool: a creation that was started has its connection, and
the connections that the pool closed are closed. -/
def withPool (c : Client) (pool : Pool) : Client :=
  let connections :=
    if c.connections.length < pool.created then c.connections ++ [c.attempt] else c.connections
  (pool.closed.drop c.pool.closed.length).foldl (fun c item => c.on item .close)
    { c with pool, connections }

/-- Returns the connection that a call holds. -/
def giveBack (c : Client) (name : String) : Client :=
  c.withPool (c.pool.release c.accepts name).2

/-- Marks the connection that a call holds corrupted. -/
def corrupt (c : Client) (name : String) : Client := { c with pool := (c.pool.corrupt name).2 }

/-- The result of the exchange of a call, once it has ended. -/
def exchanged? (c : Client) (item : Nat) (name : String) : Option (Except ClientError Outcome) :=
  c.connections[item]?.bind fun s => s.exchanged? name

/-- The channel of the exchange of a call. -/
def channel? (c : Client) (item : Nat) (name : String) :
    Option (Channel (Except ClientError Item)) :=
  c.connections[item]?.bind fun s => s.channel? name

end Client

end MemcachedClient
