import MemcachedClient.Error
import MemcachedClient.Response.Scan

/-!
# Feeds

The receiving side of a byte stream, as a sequence of events: chunks of bytes, pauses and failed
reads. One read answers at most one chunk. After the events the stream has ended, or it stays quiet
because nothing more has arrived. A pause starts when a read first reaches it, and it goes on while
a read that reached it is given up.
-/

namespace MemcachedClient.Response

/-- Something that a read meets on a stream. -/
inductive FeedEvent where
  /-- Bytes that arrive together; an empty chunk is passed over. -/
  | chunk (bytes : Bytes)
  /-- A time during which nothing arrives. -/
  | pause (time : Duration)
  /-- A read fails. -/
  | failure (cause : IoError)
  deriving DecidableEq, Repr

/-- The bytes that arrive with an event. -/
def FeedEvent.bytes : FeedEvent → Bytes
  | chunk bytes => bytes
  | _ => []

/-- The events of a stream that are still to come. -/
structure Feed where
  /-- The events, the next one first. -/
  events : List FeedEvent
  /-- Whether the stream has ended after the events. -/
  ended : Bool
  deriving DecidableEq, Repr

namespace Feed

/-- Bytes arrive after everything that arrived before them. -/
def arrive (feed : Feed) (bytes : Bytes) : Feed :=
  { feed with events := feed.events ++ [.chunk bytes] }

/-- The bytes that are still to come. -/
def bytes (feed : Feed) : Bytes := feed.events.flatMap FeedEvent.bytes

/-- The bytes in chunks of a given size; a size of 0 stands for 1. -/
def chunksOf (size : Nat) (bytes : Bytes) : List FeedEvent :=
  let rec cut : Nat → Bytes → List FeedEvent
    | 0, _ => []
    | _, [] => []
    | fuel + 1, bytes =>
      .chunk (bytes.take (max size 1)) :: cut fuel (bytes.drop (max size 1))
  cut bytes.length bytes

end Feed

end MemcachedClient.Response
