import MemcachedClient.Connection.Session
import MemcachedClient.Simulation.Basic

/-!
# Simulation of one connection

A session in a simulation. Each round brings at least one call to its end as long as some call can go
on, so the calls that have not ended bound the rounds that are needed.
-/

namespace MemcachedClient.Connection.Session

/-- Whether the call under a name has ended or was dropped. -/
def isOver (s : Session) (name : String) : Bool :=
  match s.exchanges.get? name, s.openings.get? name with
  | some x, _ => x.phase.isOver
  | none, some o => o.phase.isOver
  | none, none => false

/-- The number of calls that have neither ended nor been dropped. -/
def unfinished (s : Session) : Nat :=
  (s.openings.countP fun entry => !entry.2.phase.isOver)
    + s.exchanges.countP fun entry => !entry.2.phase.isOver

instance : Simulated Session where
  connections s := [s.connection]
  connecting s := if s.isConnecting && s.connection.socket.dial = .pending then [0] else []
  network s _ event := s.step (.network event)
  advance s time := s.step (.advance time s.clocks.wall)
  cancel s name := s.run [.dropOpening name, .dropExchange name]
  turn s name := s.run [.pollOpening name, .pollExchange name]
  background s := s
  rounds s := 2 * s.unfinished + 2
  isOver := isOver

end MemcachedClient.Connection.Session
