import MemcachedClient.Response.Reader

/-!
# Streamed retrieval

A retrieval of several keys with its producer, which reads the reply and offers each item to a
channel, and its consumer, which receives from that channel at its own pace. The two sides take
turns: each operation here is one step of one side. The producer reads to the end line also when the
consumer is gone.
-/

namespace MemcachedClient

open Response

/-- The consuming side of a channel. -/
inductive Consumer where
  /-- Receives one element at a time. -/
  | stream
  /-- Receives until the end; these items were received. -/
  | collecting (items : List Item)
  /-- Has left. -/
  | gone

/-- What a side of a retrieval reports after a step. -/
inductive StreamReport where
  /-- It has to wait. -/
  | pending
  /-- The producer has finished. -/
  | finished (result : Except ClientError Outcome)
  /-- The consumer received an element. -/
  | received (element : Except ClientError Item)
  /-- The consumer saw the end. -/
  | ended
  /-- The consumer has received everything, or the error that ended the retrieval. -/
  | collected (result : Except ClientError (List Item))
  /-- The side is no longer there. -/
  | dropped
  /-- The side was no longer there before the step. -/
  | gone

namespace Response.ItemChannel

/-- The items that are queued. -/
def items (channel : ItemChannel) : List Item := channel.queue.filterMap (·.toOption)

/-- Receives until the channel is empty, an error is received or the end is seen. The answer is
`none` if more elements may follow. -/
def drain (items : List Item) (producing : Bool) :
    List (Except ClientError Item) → List Item × Option (Except ClientError (List Item))
  | [] => (items, if producing then none else some (.ok items))
  | .ok item :: queue => drain (items ++ [item]) producing queue
  | .error cause :: _ => (items, some (.error cause))

end Response.ItemChannel

/-- The consumer's next step: it receives one element. -/
def Consumer.next (consumer : Consumer) (channel : ItemChannel) : StreamReport × ItemChannel :=
  match consumer with
  | .stream =>
    match channel.receive with
    | (.element element, channel) => (.received element, channel)
    | (.pending, channel) => (.pending, channel)
    | (.ended, channel) => (.ended, channel)
  | _ => (.gone, channel)

/-- The consumer receives all that there is, on its way to collecting everything. -/
def Consumer.collect (consumer : Consumer) (channel : ItemChannel) :
    StreamReport × Consumer × ItemChannel :=
  let proceed := fun items =>
    match Response.ItemChannel.drain items channel.producing channel.queue with
    | (items, none) => (.pending, .collecting items, { channel with queue := [] })
    | (_, some result) => (.collected result, .gone, channel.abandon)
  match consumer with
  | .stream => proceed []
  | .collecting items => proceed items
  | .gone => (.gone, .gone, channel)

/-- The consumer leaves, if it has not left yet. -/
def Consumer.leave (consumer : Consumer) (channel : ItemChannel) : Consumer × ItemChannel :=
  match consumer with
  | .gone => (.gone, channel)
  | _ => (.gone, channel.abandon)

/-- A streamed retrieval. -/
structure MultiGet where
  /-- The command. -/
  command : Command
  /-- The reply as far as it is read, until the producer has finished or was dropped. -/
  producer : Option Reply
  /-- The producer's side of the connection. -/
  reader : Reader
  /-- The channel between the two sides. -/
  channel : ItemChannel
  /-- The consuming side. -/
  consumer : Consumer

namespace MultiGet

/-- A retrieval of which nothing is read yet. -/
def start (verb : Retrieval) (keys : List String) (capacity : Nat) (feed : Feed) : MultiGet :=
  let command := .retrieveMany verb keys
  ⟨command, some (.start command), .ofFeed feed none, .ofCapacity capacity, .stream⟩

/-- The producer reads until it has to wait or has finished, and leaves when it has finished. -/
def poll (m : MultiGet) : StreamReport × MultiGet :=
  match m.producer with
  | none => (.gone, m)
  | some reply =>
    let (progress, reader) := m.reader.readReply m.command (reply, m.channel)
    let leave := fun channel result =>
      (.finished result, { m with producer := none, reader, channel := Channel.finish channel })
    match progress with
    | .done (result, channel) => leave channel result
    | .held (reply, channel) => (.pending, { m with producer := some reply, reader, channel })
    | .waiting (reply, channel) => (.pending, { m with producer := some reply, reader, channel })
    | .ended (_, channel) => leave channel (.error .endOfStream)
    | .failed (_, channel) cause => leave channel (.error (.io cause))
    | .timedOut (_, channel) =>
      leave channel (.error (.timeout "receive" (m.reader.limit.getD 0)))

/-- The producer is dropped, if it has not finished yet. -/
def cancel (m : MultiGet) : StreamReport × MultiGet :=
  (.dropped, { m with producer := none, channel := m.channel.finish })

/-- The consumer receives one element. -/
def next (m : MultiGet) : StreamReport × MultiGet :=
  let (report, channel) := m.consumer.next m.channel
  (report, { m with channel })

/-- The consumer collects. -/
def collect (m : MultiGet) : StreamReport × MultiGet :=
  let (report, consumer, channel) := m.consumer.collect m.channel
  (report, { m with consumer, channel })

/-- The consumer is dropped. -/
def dropStream (m : MultiGet) : StreamReport × MultiGet :=
  let (consumer, channel) := m.consumer.leave m.channel
  (.dropped, { m with consumer, channel })

end MultiGet

end MemcachedClient
