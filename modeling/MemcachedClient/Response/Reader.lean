import MemcachedClient.Deadline
import MemcachedClient.Response.Feed
import MemcachedClient.Response.Reply

/-!
# Readers

A reader takes bytes from a stream through a buffer, which it refills only when it is empty. Each
refill is one read of the stream and has a time limit of its own; a read that completes exactly at
its limit counts. `Reader.run` feeds a scanner from the buffer and the stream until it stops; bytes
after the answer stay in the buffer for the next scanner, and bytes that were taken before a failure
are lost.
-/

namespace MemcachedClient.Response

/-- What became of a scanner that was fed from a stream. -/
inductive Progress (σ α : Type) where
  /-- It has its answer. -/
  | done (answer : α)
  /-- It has stopped taking bytes for now. -/
  | held (state : σ)
  /-- It needs bytes, and the stream is quiet. -/
  | waiting (state : σ)
  /-- It needs bytes, and the stream has ended. -/
  | ended (state : σ)
  /-- A read failed. -/
  | failed (state : σ) (cause : IoError)
  /-- A read took longer than its limit. -/
  | timedOut (state : σ)

/-- The buffered receiving side of a connection. -/
structure Reader where
  /-- Bytes that were read and not consumed. -/
  buffer : Bytes
  /-- The stream. -/
  feed : Feed
  /-- The limit of each read. -/
  limit : Option Duration
  /-- The time that passed while reading. -/
  clock : Duration

namespace Reader

variable {σ α : Type}

/-- A reader at the start of a stream. -/
def ofFeed (feed : Feed) (limit : Option Duration) : Reader := ⟨[], feed, limit, 0⟩

/-- Feeds a scanner from the events of a stream, with an empty buffer. `left` is what is left of the
limit of the present read, which began before this call; `r` holds the limit of the next ones. -/
def pull (step : σ → UInt8 → Step σ α) (r : Reader) :
    Option Duration → σ → Duration → List FeedEvent → Progress σ α × Reader
  | left, state, clock, [] =>
    let r := { r with buffer := [], feed := { r.feed with events := [] } }
    if r.feed.ended then (.ended state, { r with clock })
    else
      match left with
      | none => (.waiting state, { r with clock })
      | some left => (.timedOut state, { r with clock := clock + left })
  | left, state, clock, .chunk [] :: events => pull step r left state clock events
  | _, state, clock, .chunk bytes :: events =>
    match scan step state bytes with
    | (.more state, _) => pull step r r.limit state clock events
    | (.held state, rest) =>
      (.held state, { r with buffer := rest, feed := { r.feed with events }, clock })
    | (.done answer, rest) =>
      (.done answer, { r with buffer := rest, feed := { r.feed with events }, clock })
  | _, state, clock, .failure cause :: events =>
    (.failed state cause, { r with buffer := [], feed := { r.feed with events }, clock })
  | none, state, clock, .pause time :: events => pull step r none state (clock + time) events
  | some left, state, clock, .pause time :: events =>
    if time ≤ left then pull step r (some (left - time)) state (clock + time) events
    else
      (.timedOut state,
        { r with
          buffer := []
          feed := { r.feed with events := .pause (time - left) :: events }
          clock := clock + left })

/-- Feeds a scanner from the buffer and then from the stream. -/
def run (step : σ → UInt8 → Step σ α) (state : σ) (r : Reader) : Progress σ α × Reader :=
  match scan step state r.buffer with
  | (.more state, _) => pull step r r.limit state r.clock r.feed.events
  | (.held state, rest) => (.held state, { r with buffer := rest })
  | (.done answer, rest) => (.done answer, { r with buffer := rest })

/-- The result of a scanner that has come to an end: its answer, or the error that ended it. -/
def result? (limit : Option Duration) : Progress σ (Except ClientError α) → Option (Except ClientError α)
  | .done answer => some answer
  | .held _ => none
  | .waiting _ => none
  | .ended _ => some (.error .endOfStream)
  | .failed _ cause => some (.error (.io cause))
  | .timedOut _ => some (.error (.timeout "receive" (limit.getD 0)))

/-- Reads a line; `none` if the stream stays quiet. -/
def readLine (checked : Bool) (r : Reader) : Option (Except ClientError Line) × Reader :=
  let (progress, after) := r.run (Line.step checked) #[]
  (result? r.limit progress, after)

/-- Reads an item block or the end line; `none` if the stream stays quiet. -/
def readItem (r : Reader) : Option (Except ClientError (Option Item)) × Reader :=
  let (progress, after) := r.run ItemState.step .start
  (result? r.limit progress, after)

/-- Goes on reading the reply to a command. -/
def readReply (command : Command) (state : Reply.State) (r : Reader) :
    Progress Reply.State Reply.Answer × Reader :=
  match Reply.resume state with
  | .more state => r.run (Reply.step command) state
  | .held state => (.held state, r)
  | .done answer => (.done answer, r)

/-- Reads the reply to a command from its start; the result is `none` if the stream stays quiet or
the channel is full. Items that were delivered before a failure stay in the channel. -/
def readWhole (command : Command) (channel : ItemChannel) (r : Reader) :
    Option (Except ClientError Outcome) × ItemChannel × Reader :=
  let (progress, after) := r.readReply command (.start command, channel)
  match progress with
  | .done (result, channel) => (some result, channel, after)
  | .held (_, channel) => (none, channel, after)
  | .waiting (_, channel) => (none, channel, after)
  | .ended (_, channel) => (some (.error .endOfStream), channel, after)
  | .failed (_, channel) cause => (some (.error (.io cause)), channel, after)
  | .timedOut (_, channel) =>
    (some (.error (.timeout "receive" (r.limit.getD 0))), channel, after)

end Reader

end MemcachedClient.Response
