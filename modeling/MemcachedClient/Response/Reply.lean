import MemcachedClient.Channel
import MemcachedClient.Command.Outcome
import MemcachedClient.Response.ItemBlock

/-!
# Replies

How a command reads its reply. A retrieval of one key takes at most one item and the end line; a
retrieval of several keys puts each item into a channel as soon as its block is complete, and waits
while the channel is full; any other command takes one status line. A reply is read by the scanner
`Reply.step`, whose state also carries the channel.
-/

namespace MemcachedClient.Response

/-- A channel of retrieved items, which ends with an error if the retrieval fails. -/
abbrev ItemChannel := Channel (Except ClientError Item)

/-- How far a reply is read. -/
inductive Reply where
  /-- In the status line, of which these bytes count. -/
  | status (raw : Array UInt8)
  /-- In the first block of a retrieval of one key. -/
  | first (block : ItemState)
  /-- In what follows the item of a retrieval of one key. -/
  | rest (found : Item) (block : ItemState)
  /-- In a block of a retrieval of several keys, of which so many items were delivered. -/
  | many (delivered : Nat) (block : ItemState)
  /-- An item waits for room in the channel. -/
  | offering (delivered : Nat) (item : Item)

namespace Reply

/-- Nothing of the reply is read yet. -/
def start : Command → Reply
  | .retrieve .. => first .start
  | .retrieveMany .. => many 0 .start
  | _ => status #[]

/-- The state of a scanner of replies: how far the reply is read, and the channel. -/
abbrev State := Reply × ItemChannel

/-- The answer of a scanner of replies. -/
abbrev Answer := Except ClientError Outcome × ItemChannel

/-- The outcome of a status line. -/
def ofLine (command : Command) (line : Line) : Except ClientError Outcome :=
  match command.ofStatus? line.first with
  | some outcome => .ok outcome
  | none => .error (.protocol (.unexpectedResponse command.verb line.text))

/-- Hands a complete item to the channel: it is counted if it is queued, and it is lost if nobody
receives any more. -/
def deliver (delivered : Nat) (item : Item) (channel : ItemChannel) : Step State Answer :=
  match channel.offer (.ok item) with
  | .accepted channel => .more (many (delivered + 1) .start, channel)
  | .refused => .more (many delivered .start, channel)
  | .full => .held (offering delivered item, channel)

/-- Takes the next byte of the reply to a command. -/
def step (command : Command) (state : State) (byte : UInt8) : Step State Answer :=
  let (reply, channel) := state
  match reply with
  | status raw =>
    match Line.step true raw byte with
    | .more raw => .more (status raw, channel)
    | .held raw => .held (status raw, channel)
    | .done (.error cause) => .done (.error cause, channel)
    | .done (.ok line) => .done (ofLine command line, channel)
  | first block =>
    match block.step byte with
    | .more block => .more (first block, channel)
    | .held block => .held (first block, channel)
    | .done (.error cause) => .done (.error cause, channel)
    | .done (.ok none) => .done (.ok (.item none), channel)
    | .done (.ok (some item)) => .more (rest item .start, channel)
  | rest found block =>
    match block.step byte with
    | .more block => .more (rest found block, channel)
    | .held block => .held (rest found block, channel)
    | .done (.error cause) => .done (.error cause, channel)
    | .done (.ok none) => .done (.ok (.item (some found)), channel)
    | .done (.ok (some _)) => .done (.error (.protocol (.tooManyItems command.verb)), channel)
  | many delivered block =>
    match block.step byte with
    | .more block => .more (many delivered block, channel)
    | .held block => .held (many delivered block, channel)
    | .done (.error cause) => .done (.error cause, channel)
    | .done (.ok none) => .done (.ok (.delivered delivered), channel)
    | .done (.ok (some item)) => deliver delivered item channel
  | offering delivered item => .held (offering delivered item, channel)

/-- The state from which reading goes on, unless it has to wait for room in the channel. -/
def resume (state : State) : Step State Answer :=
  match state with
  | (offering delivered item, channel) => deliver delivered item channel
  | _ => .more state

end Reply

end MemcachedClient.Response
