import MemcachedClient.Client.Run
import MemcachedClient.Simulation.Basic

/-!
# Simulation of a client

A client in a simulation. Collecting a stream is a call under the name of the stream, and relays run
beside the calls. A relay that is held up by a full stream goes on in the round after its consumer has
received, so the rounds that are needed grow with the bytes that the server has sent. The script speaks
of a stream by the label of its call; the last stream with a label is meant.
-/

namespace MemcachedClient.Client

/-- One turn of every relay that has not ended. -/
def relayEvents (c : Client) : List Event :=
  (c.relays.filter fun entry => entry.2 ≠ .over).map fun entry => .pollRelay entry.1

/-- Whether the stream under a name is being collected. -/
def isCollecting (c : Client) (name : String) : Bool :=
  match c.streams.get? name with
  | some stream => stream.isCollecting
  | none => false

/-- The number of bytes that have arrived and are not consumed. -/
def unconsumed (c : Client) : Nat :=
  (c.connections.flatMap fun s =>
    s.connection.socket.feed.bytes ++ s.connection.receiveHalf.getD []).length

/-- The number of calls, relays and collecting consumers that have not ended. -/
def unfinished (c : Client) : Nat :=
  (c.calls.countP fun entry => !entry.2.phase.isOver)
    + (c.relays.countP fun entry => entry.2 ≠ .over)
    + c.streams.countP fun entry => entry.2.isCollecting

/-- Whether the call under a name has ended or was dropped. -/
def isOver (c : Client) (name : String) : Bool :=
  match c.calls.get? name with
  | some call => call.phase.isOver && !c.isCollecting name
  | none => false

instance : Simulated Client where
  connections c := c.connections.map (·.connection)
  connecting c :=
    (c.connections.zipIdx.filter fun (s, _) =>
      s.isConnecting && s.connection.socket.dial = .pending).map (·.2)
  network c item event := c.step (.network item event)
  advance c time := c.step (.advance time c.clocks.wall)
  turn c name := c.step (if c.isCollecting name then .pollCollect name else .poll name)
  cancel c name := c.step (if c.isCollecting name then .leave name else .drop name)
  background c := c.run c.relayEvents
  rounds c := 3 * c.unfinished + c.unconsumed / 64 + 2
  isOver := isOver

end MemcachedClient.Client

namespace MemcachedClient.Simulation

/-- The name of the last call with a label that answered with a stream. -/
def streamName? (sim : Simulation Client) (label : String) : Option String :=
  (sim.calls.find? fun entry => entry.1 = label ∧ sim.subject.streams.has entry.2).map (·.2)

/-- The name of the last stream with a label, unless its consumer has left or collects it. -/
def openStream? (sim : Simulation Client) (label : String) : Option String :=
  (sim.streamName? label).filter fun name => (sim.subject.stream? name).isSome

end MemcachedClient.Simulation
