import MemcachedClient.Client.Basic
import MemcachedClient.Key

/-!
# Calls of a client

How a call runs: `Client.pollCall` runs it until it has to wait or has answered, and
`Client.dropCall` gives up what it holds, the exchange before the lease. A retrieval of several keys
answers as soon as it has its connection; the exchange is left to a relay, which runs by itself and
is not dropped with the call.
-/

namespace MemcachedClient.Client

/-- Moves a call. -/
def setPhase (c : Client) (name : String) (call : Call) (phase : Phase) : Client :=
  { c with calls := c.calls.put name { call with phase } }

/-- Answers a call. -/
def answer (c : Client) (name : String) (call : Call) (answer : Except ClientError Answer) :
    Client :=
  c.setPhase name call (.answered answer)

/-- Goes on with a call that exchanges its command: with the result it marks the connection
corrupted if the exchange failed, returns it, and answers. -/
def exchange (c : Client) (name : String) (call : Call) (item : Nat) : Client :=
  let c := c.on item (.pollExchange name)
  match c.exchanged? item name with
  | none => c.setPhase name call (.exchanging item)
  | some (.ok outcome) => (c.giveBack name).answer name call (.ok (.outcome outcome))
  | some (.error cause) => ((c.corrupt name).giveBack name).answer name call (.error cause)

/-- Goes on with a call that was lent a connection. -/
def useConnection (c : Client) (name : String) (call : Call) (item : Nat) : Client :=
  match call.command with
  | .retrieveMany .. =>
    let c := c.on item (.startExchange name call.command streamCapacity)
    { c with
      relays := c.relays.put name (.exchanging item)
      streams := c.streams.put name ⟨item, .stream, none⟩ }.answer name call (.ok .stream)
  | _ => (c.on item (.startExchange name call.command 1)).exchange name call item

/-- Goes on with a call after a step of its borrower. -/
def proceed (c : Client) (name : String) (call : Call) (report : Pool.Report) : Client :=
  match report with
  | .pending => c.setPhase name call .borrowing
  | .leased item => c.useConnection name call item
  | .failed cause => c.answer name call (.error cause)
  | .absent => c

/-- Starts the borrower of a call. -/
def borrow (c : Client) (name : String) (call : Call) : Client :=
  let (report, pool) := c.pool.borrow c.creations name
  (c.withPool pool).proceed name call report

/-- The opening that a borrower runs takes its next step, or is dropped. -/
def onOpening (c : Client) (name : String) (event : Connection.Event) : Client :=
  match c.pool.creating? name with
  | some item => c.on item event
  | none => c

/-- Runs the borrower of a call on. -/
def pollBorrow (c : Client) (name : String) (call : Call) : Client :=
  let c := c.onOpening name (.pollOpening openingName)
  let (report, pool) := c.pool.poll c.creations name
  (c.withPool pool).proceed name call report

/-- Runs a call on. -/
def pollCall (c : Client) (name : String) (call : Call) : Client :=
  match call.phase with
  | .ready =>
    match Key.checkAll call.command.keys with
    | .error cause => c.answer name call (.error (.validation cause))
    | .ok () => c.borrow name call
  | .borrowing => c.pollBorrow name call
  | .exchanging item => c.exchange name call item
  | .answered _ => c
  | .dropped => c

/-- Drops a call; one that has answered keeps its answer. -/
def dropCall (c : Client) (name : String) (call : Call) : Client :=
  match call.phase with
  | .ready => c.setPhase name call .dropped
  | .borrowing =>
    let c := c.onOpening name (.dropOpening openingName)
    (c.withPool (c.pool.cancel name).2).setPhase name call .dropped
  | .exchanging item =>
    ((c.on item (.dropExchange name)).giveBack name).setPhase name call .dropped
  | .answered _ => c
  | .dropped => c

end MemcachedClient.Client
