import MemcachedClient.Connection
import MemcachedClient.Table

/-!
# Simulations

A run of the client's side against a scripted server, in virtual time. One step is something that
the client's side or the server does, followed by as much running as the step's `Pace` allows. While
the run settles, the server accepts the connects that are under way and every call takes its turns, in
rounds, until none can go on. What is new after a step is its `News`: the calls that ended,
the bytes that reached the server, and the connections whose sending half the client closed.

The script speaks of a call by a label, and may use a label again. So each call runs under a name of
its own, which is its number. The news tell of the last call with a label; a call that had the label
before goes on, but nobody hears of it.
-/

namespace MemcachedClient

/-- Where connects lead. -/
inductive Reach where
  /-- To a server that accepts them. -/
  | listening
  /-- To a host on which nothing listens. -/
  | refusing
  /-- Nowhere: there is no route to the host. -/
  | unreachable
  deriving DecidableEq, Repr

/-- What the network makes of a connect at once. -/
def Reach.dial : Reach → Dial
  | listening => .pending
  | refusing => .failed (.ofSystem .connectionRefused)
  | unreachable => .failed (.ofSystem .networkUnreachable)

/-- How much runs after a step. -/
inductive Pace where
  /-- Everything, until nothing can go on. -/
  | settle
  /-- Every call takes one turn. -/
  | hold
  /-- Nothing. -/
  | defer
  deriving DecidableEq, Repr

/-- What a simulation needs of the client's side. -/
class Simulated (σ : Type) where
  /-- The connections, in the order of their making. -/
  connections : σ → List Connection
  /-- The connections whose connect is under way. -/
  connecting : σ → List Nat
  /-- The network or the server does something on a connection. -/
  network : σ → Nat → NetworkEvent → σ
  /-- Time passes; the time of day stays. -/
  advance : σ → Duration → σ
  /-- A call takes one turn. -/
  turn : σ → String → σ
  /-- A call is dropped. -/
  cancel : σ → String → σ
  /-- Whatever runs beside the calls takes one turn. -/
  background : σ → σ
  /-- A number of rounds after which nothing can go on. -/
  rounds : σ → Nat
  /-- Whether the call under a name has ended. -/
  isOver : σ → String → Bool

/-- A connection that the server accepted. -/
structure Accepted where
  /-- Its number on the client's side. -/
  item : Nat
  /-- The number of bytes that the news have told of. -/
  told : Nat
  /-- Whether the server reset it. -/
  reset : Bool
  deriving DecidableEq, Repr

/-- What is new after a step. -/
structure News where
  /-- The labels and the names of the calls that ended. -/
  ended : Table String
  /-- The bytes that each connection brought, by the number of the connection on the server. -/
  wire : List (Nat × Bytes)
  /-- The connections whose sending half the client has closed, now or before. -/
  closed : List Nat

/-- A run of the client's side. -/
structure Simulation (σ : Type) where
  /-- The client's side. -/
  subject : σ
  /-- The connections that the server accepted, in that order. -/
  accepted : List Accepted
  /-- The labels and the names of all calls, the last one first. -/
  calls : List (String × String)
  /-- The names of the calls that were not seen to end, in the order of starting. -/
  running : List String
  /-- The names of the calls whose end the news have not told of, under their labels. -/
  awaited : Table String

namespace Simulation

variable {σ : Type} [Simulated σ]

/-- A run that has not begun. -/
def start (subject : σ) : Simulation σ := ⟨subject, [], [], [], []⟩

/-- The server accepts the connects that are under way. -/
def connectAll (sim : Simulation σ) : Simulation σ :=
  (Simulated.connecting sim.subject).foldl
    (fun sim item =>
      { sim with
        subject := Simulated.network sim.subject item .establish
        accepted := sim.accepted ++ [⟨item, 0, false⟩] })
    sim

/-- Every call takes one turn, in the order of starting, and then whatever runs beside them. -/
def round (sim : Simulation σ) : Simulation σ :=
  { sim with
    subject := Simulated.background (sim.running.foldl Simulated.turn sim.subject) }

/-- Rounds before each of which connects are accepted. -/
def settle : Nat → Simulation σ → Simulation σ
  | 0, sim => sim
  | n + 1, sim => settle n sim.connectAll.round

/-- Runs as much as a pace allows. -/
def proceed (sim : Simulation σ) : Pace → Simulation σ
  | .settle => sim.settle (Simulated.rounds sim.subject)
  | .hold => sim.round
  | .defer => sim

/-- The client's side does something. -/
def act (sim : Simulation σ) (pace : Pace) (f : σ → σ) : Simulation σ :=
  { sim with subject := f sim.subject }.proceed pace

/-- The call under a name begins to run: the client's side does something, and the news will tell
under the label when the call ends. -/
def follow (sim : Simulation σ) (pace : Pace) (label name : String) (f : σ → σ) : Simulation σ :=
  { sim with
    running := sim.running ++ [name]
    awaited := sim.awaited.put label name }.act pace f

/-- A new call begins, under the name that `f` is given. -/
def begin (sim : Simulation σ) (pace : Pace) (label : String) (f : String → σ → σ) :
    Simulation σ :=
  let name := Nat.repr sim.calls.length
  { sim with calls := (label, name) :: sim.calls }.follow pace label name (f name)

/-- The server does something on a connection, named by its number there. Without that connection
nothing is done. -/
def serve (sim : Simulation σ) (pace : Pace) (conn : Nat) (event : NetworkEvent) : Simulation σ :=
  match sim.accepted[conn]? with
  | none => sim.proceed pace
  | some a =>
    let a := { a with reset := a.reset || event = .reset }
    { sim with accepted := sim.accepted.set conn a }.act pace
      fun s => Simulated.network s a.item event

/-- Drops the last call with a label, and answers whether there is one whose end was not told. -/
def cancel (sim : Simulation σ) (pace : Pace) (label : String) : Bool × Simulation σ :=
  match sim.awaited.get? label with
  | some name => (true, sim.act pace fun s => Simulated.cancel s name)
  | none => (false, sim.proceed pace)

/-- Time passes. -/
def advance (sim : Simulation σ) (pace : Pace) (time : Duration) : Simulation σ :=
  sim.act pace fun s => Simulated.advance s time

/-- The connection behind one that the server accepted. -/
def connection? (sim : Simulation σ) (a : Accepted) : Option Connection :=
  (Simulated.connections sim.subject)[a.item]?

/-- The bytes of a connection that the news have not told of. -/
def unread (sim : Simulation σ) (a : Accepted) : Bytes :=
  match sim.connection? a with
  | some c => c.socket.sent.drop a.told
  | none => []

/-- Whether the client has closed its sending half of a connection. -/
def isClosed (sim : Simulation σ) (a : Accepted) : Bool :=
  match sim.connection? a with
  | some c => !a.reset && !c.sendHalf
  | none => false

/-- What is new, and the run in which it is told. A step that runs nothing ends no call. -/
def news (sim : Simulation σ) (pace : Pace) : News × Simulation σ :=
  let hasEnded := fun name => pace ≠ .defer && Simulated.isOver sim.subject name
  let numbered := sim.accepted.zipIdx
  ({ ended := sim.awaited.filter fun entry => hasEnded entry.2
     wire := (numbered.map fun (a, n) => (n, sim.unread a)).filter fun entry => !entry.2.isEmpty
     closed := (numbered.filter fun (a, _) => sim.isClosed a).map (·.2) },
    { sim with
      running := sim.running.filter fun name => !hasEnded name
      awaited := sim.awaited.filter fun entry => !hasEnded entry.2
      accepted := sim.accepted.map fun a => { a with told := a.told + (sim.unread a).length } })

end Simulation

end MemcachedClient
