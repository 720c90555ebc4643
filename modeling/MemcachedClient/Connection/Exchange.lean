import MemcachedClient.Connection
import MemcachedClient.Response.Reader

/-!
# Exchanges

One command on a connection, from the request to the reply. An exchange waits for the lock of the
send half; holding it, it checks that the connection is open, joins the queue of turns and writes
its request; it gives the lock back and waits for its turn; with its turn it takes the lock of the
receive half, checks that the connection is still open, and reads its reply.

From the moment it has joined the turns until its reply is read, the exchange is *in flight*: if it
ends there other than with its reply, the connection faults. `Exchange.poll` runs an exchange until
it has to wait or has ended, and `Exchange.abandonment` is what dropping it leaves, at each place
where it can wait: first what it was waiting for, then what it holds, the last taken first, and at
the very end the guard of the flight, which faults the connection and passes on a turn that was
taken.
-/

namespace MemcachedClient

open Response

namespace Exchange

/-- Where an exchange is. -/
inductive Phase where
  /-- It has not run yet. -/
  | ready
  /-- It waits for the lock of the send half. -/
  | awaitingSend (place : Handle)
  /-- It holds the lock of the send half and a place among the turns, and has these bytes to write. -/
  | sending (rest : Bytes) (turn : Handle)
  /-- It has written its request and waits for its turn. -/
  | awaitingTurn (turn : Handle)
  /-- It has its turn and waits for the lock of the receive half. -/
  | awaitingReceive (place : Handle)
  /-- It has its turn and the lock of the receive half, and reads its reply; the read that is under
  way began at this time. -/
  | reading (reply : Reply) (since : Option Duration)
  /-- It has ended. -/
  | finished (result : Except ClientError Outcome)
  /-- It was dropped before it ended. -/
  | dropped

/-- Whether the exchange has ended or was dropped. -/
def Phase.isOver : Phase → Bool
  | finished _ => true
  | dropped => true
  | _ => false

/-- Whether the exchange has joined the turns, and its reply is not read. -/
def Phase.isInFlight : Phase → Bool
  | sending .. => true
  | awaitingTurn _ => true
  | awaitingReceive _ => true
  | reading .. => true
  | _ => false

/-- What dropping an exchange does to the connection. -/
def Phase.abandonment : Phase → List Effect
  | ready => []
  | awaitingSend place => [.leaveSend place]
  | sending _ turn => [.leaveTurn turn, .unlockSend, .fault]
  | awaitingTurn turn => [.leaveTurn turn, .fault]
  | awaitingReceive place => [.leaveReceive place, .fault, .passTurn]
  | reading .. => [.unlockReceive, .fault, .passTurn]
  | finished _ => []
  | dropped => []

end Exchange

/-- A command on a connection. -/
structure Exchange where
  /-- The command. -/
  command : Command
  /-- Where it is. -/
  phase : Exchange.Phase
  /-- The channel for the items of a retrieval of several keys. -/
  channel : ItemChannel

/-- The clocks that a call can read. The one that shows the time of day may be set, so it need not go
with the other. -/
structure Clocks where
  /-- The time that has passed. -/
  elapsed : Duration
  /-- The time of day. -/
  wall : Instant

namespace Exchange

/-- An exchange that has not run yet. -/
def start (command : Command) (capacity : Nat) : Exchange :=
  ⟨command, .ready, .ofCapacity capacity⟩

/-- Ends an exchange. -/
def conclude (x : Exchange) (c : Connection) (effects : List Effect)
    (result : Except ClientError Outcome) : Exchange × Connection :=
  ({ x with phase := .finished result }, c.applyAll effects)

/-- Ends an exchange whose reply could not be read. -/
def failReading (x : Exchange) (c : Connection) (cause : ClientError) : Exchange × Connection :=
  x.conclude c [.dropReceive, .fault, .unlockReceive, .passTurn] (.error cause)

/-- Goes on reading the reply, with these bytes in the buffer. -/
def read (x : Exchange) (c : Connection) (clocks : Clocks) (buffer : Bytes) (reply : Reply)
    (since : Option Duration) : Exchange × Connection :=
  let fresh := ¬ c.socket.feed.events.isEmpty
  let reader : Reader := ⟨buffer, c.socket.feed, none, 0⟩
  let (progress, reader) := reader.readReply x.command (reply, x.channel)
  let c := { c with
    socket := { c.socket with feed := reader.feed }
    receiveHalf := some reader.buffer }
  match progress with
  | .done (.ok outcome, channel) =>
    { x with channel }.conclude c [.dropReceiveIfOver, .unlockReceive, .passTurn] (.ok outcome)
  | .done (.error cause, channel) => { x with channel }.failReading c cause
  | .held (reply, channel) => ({ x with phase := .reading reply none, channel }, c)
  | .waiting (reply, channel) =>
    let since := if fresh then clocks.elapsed else since.getD clocks.elapsed
    if Deadline.hasPassed c.receiveLimit since clocks.elapsed then
      { x with channel }.failReading c (.timeout "receive" (c.receiveLimit.getD 0))
    else ({ x with phase := .reading reply (some since), channel }, c)
  | .ended (_, channel) => { x with channel }.failReading c .endOfStream
  | .failed (_, channel) cause => { x with channel }.failReading c (.io cause)
  | .timedOut (_, channel) =>
    { x with channel }.failReading c (.timeout "receive" (c.receiveLimit.getD 0))

/-- Goes on with the lock of the receive half. -/
def holdReceive (x : Exchange) (c : Connection) (clocks : Clocks) : Exchange × Connection :=
  if c.isOpened then
    match c.receiveHalf with
    | some buffer => x.read c clocks buffer (.start x.command) none
    | none => x.conclude c [.unlockReceive, .fault, .passTurn] (.error (.invalidState c.lifecycle))
  else
    x.conclude c [.dropReceiveIfOver, .unlockReceive, .fault, .passTurn]
      (.error (.invalidState c.lifecycle))

/-- Looks for the lock of the receive half. -/
def awaitReceive (x : Exchange) (c : Connection) (clocks : Clocks) (place : Handle) :
    Exchange × Connection :=
  let (taken, place, receiveLock) := c.receiveLock.poll place
  let c := { c with receiveLock }
  if taken then x.holdReceive c clocks else ({ x with phase := .awaitingReceive place }, c)

/-- Looks for its turn. -/
def awaitTurn (x : Exchange) (c : Connection) (clocks : Clocks) (turn : Handle) :
    Exchange × Connection :=
  let (taken, turn, turns) := c.turns.poll turn
  let c := { c with turns }
  if taken then
    let (place, receiveLock) := c.receiveLock.wait
    x.awaitReceive { c with receiveLock } clocks place
  else ({ x with phase := .awaitingTurn turn }, c)

/-- Goes on writing the request. -/
def send (x : Exchange) (c : Connection) (clocks : Clocks) (bytes : Bytes) (turn : Handle) :
    Exchange × Connection :=
  match c.socket.write bytes with
  | .failed cause =>
    x.conclude c [.dropSend, .fault, .leaveTurn turn, .unlockSend] (.error (.io cause))
  | .wrote [] socket =>
    x.awaitTurn ({ c with socket }.applyAll [.dropSendIfOver, .unlockSend]) clocks turn
  | .wrote rest socket => ({ x with phase := .sending rest turn }, { c with socket })

/-- Goes on with the lock of the send half. -/
def holdSend (x : Exchange) (c : Connection) (clocks : Clocks) : Exchange × Connection :=
  if c.isOpened then
    if c.sendHalf then
      let (turn, turns) := c.turns.wait
      x.send { c with turns } clocks (x.command.request clocks.wall) turn
    else x.conclude c [.unlockSend] (.error (.invalidState c.lifecycle))
  else x.conclude c [.dropSendIfOver, .unlockSend] (.error (.invalidState c.lifecycle))

/-- Looks for the lock of the send half. -/
def awaitSend (x : Exchange) (c : Connection) (clocks : Clocks) (place : Handle) :
    Exchange × Connection :=
  let (taken, place, sendLock) := c.sendLock.poll place
  let c := { c with sendLock }
  if taken then x.holdSend c clocks else ({ x with phase := .awaitingSend place }, c)

/-- Runs an exchange until it has to wait or has ended. -/
def poll (x : Exchange) (c : Connection) (clocks : Clocks) : Exchange × Connection :=
  match x.phase with
  | .ready =>
    let (place, sendLock) := c.sendLock.wait
    x.awaitSend { c with sendLock } clocks place
  | .awaitingSend place => x.awaitSend c clocks place
  | .sending rest turn => x.send c clocks rest turn
  | .awaitingTurn turn => x.awaitTurn c clocks turn
  | .awaitingReceive place => x.awaitReceive c clocks place
  | .reading reply since =>
    match c.receiveHalf with
    | some buffer => x.read c clocks buffer reply since
    | none => (x, c)
  | .finished _ => (x, c)
  | .dropped => (x, c)

/-- Drops an exchange; one that has ended keeps its result. -/
def drop (x : Exchange) (c : Connection) : Exchange × Connection :=
  if x.phase.isOver then (x, c)
  else ({ x with phase := .dropped }, c.applyAll x.phase.abandonment)

/-- The result of an exchange that has ended. -/
def result? (x : Exchange) : Option (Except ClientError Outcome) :=
  match x.phase with
  | .finished result => some result
  | _ => none

end Exchange

end MemcachedClient
