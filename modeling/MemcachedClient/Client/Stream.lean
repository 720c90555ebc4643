import MemcachedClient.Client.Basic

/-!
# Streams of a client

Both ends of the stream that a retrieval of several keys answers with. The relay reads the reply into
the channel; if that fails, it marks the connection corrupted and puts the error into the channel as
its last element, for which it waits until there is room. It holds its lease up to its very end. The
consumer receives one element at a time, or collects them all, or leaves.
-/

namespace MemcachedClient.Client

/-- Ends a relay: its end of the channel is closed, and its connection is returned. -/
def endRelay (c : Client) (name : String) (item : Nat) : Client :=
  let c := (c.on item (.channel name .finish)).giveBack name
  { c with relays := c.relays.put name .over }

/-- Goes on with a relay that has an error for the stream. -/
def report (c : Client) (name : String) (item : Nat) (cause : ClientError) : Client :=
  match c.channel? item name with
  | none => c
  | some channel =>
    match channel.offer (.error cause) with
    | .accepted _ => (c.on item (.channel name (.offer (.error cause)))).endRelay name item
    | .refused => c.endRelay name item
    | .full => { c with relays := c.relays.put name (.reporting item cause) }

/-- Runs a relay on. -/
def pollRelay (c : Client) (name : String) : Relay → Client
  | .exchanging item =>
    let c := c.on item (.pollExchange name)
    match c.exchanged? item name with
    | none => c
    | some (.ok _) => c.endRelay name item
    | some (.error cause) => (c.corrupt name).report name item cause
  | .reporting item cause => c.report name item cause
  | .over => c

/-- The stream under a name, unless its consumer has left or collects it. -/
def stream? (c : Client) (name : String) : Option Stream :=
  match c.streams.get? name with
  | some stream =>
    match stream.consumer with
    | .stream => some stream
    | _ => none
  | none => none

/-- The consumer of a stream receives one element. The report is `none` if there is no such
stream. -/
def next (c : Client) (name : String) : Option StreamReport × Client :=
  match c.stream? name with
  | none => (none, c)
  | some stream =>
    ((c.channel? stream.item name).map fun channel => (stream.consumer.next channel).1,
      c.on stream.item (.channel name .receive))

/-- The consumer of a stream begins to collect it. -/
def collect (c : Client) (name : String) : Client :=
  match c.stream? name with
  | none => c
  | some stream =>
    { c with streams := c.streams.put name { stream with consumer := .collecting [] } }

/-- A consumer that collects its stream runs on. -/
def pollCollect (c : Client) (name : String) : Client :=
  match c.streams.get? name with
  | none => c
  | some stream =>
    match stream.consumer, c.channel? stream.item name with
    | .collecting items, some channel =>
      match (Consumer.collecting items).collect channel with
      | (.collected result, consumer, _) =>
        let c := c.on stream.item (.channel name .abandon)
        { c with
          streams := c.streams.put name { stream with consumer, collected := some result } }
      | (_, consumer, _) =>
        let c := c.on stream.item (.channel name .drain)
        { c with streams := c.streams.put name { stream with consumer } }
    | _, _ => c

/-- The consumer of a stream leaves, also while it collects. -/
def leave (c : Client) (name : String) : Client :=
  match c.streams.get? name with
  | none => c
  | some stream =>
    let c := c.on stream.item (.channel name .abandon)
    { c with streams := c.streams.put name { stream with consumer := .gone } }

end MemcachedClient.Client
