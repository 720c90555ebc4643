import MemcachedClient.MultiGet
import MemcachedClient.Proofs.Response.Streaming

/-!
# A retrieval and its past

A streamed retrieval between a stream from which bytes arrive and a consumer that asks for elements, or leaves: an
`Event` is a step of one of them or of the producer, and a run is any sequence of events. A `Chronicle` notes what a
retrieval does not keep: the elements that the channel accepted, those that the consumer received, whether it has seen
the end, and the result of the producer. A poll of the producer reads as far as it can. Where the producer stops
earlier, because its consumer acts in between, this is a run in which the bytes behind that place arrive later.

The stream brings the blocks of some items, the end line and any bytes behind it, in any pieces and at any time
(`Served`). `Sound` is what every event keeps then (`Sound.handle`). Its heart is `Stands`: the producer waits for the
items that are not taken yet, or has its result and has left the bytes behind the end line. The consumer appears there
only as the one who decides which items are counted.
-/

namespace MemcachedClient

/-- The result of a producer that has finished. -/
def StreamReport.result? : StreamReport → Option (Except ClientError Outcome)
  | finished result => some result
  | _ => none

/-- The element that the consumer received. -/
def StreamReport.element? : StreamReport → Option (Except ClientError Item)
  | received element => some element
  | _ => none

/-- Whether the consumer saw the end. -/
def StreamReport.isEnd : StreamReport → Bool
  | ended => true
  | _ => false

namespace MultiGet

open Response Response.Reply

/-- Something that happens to a streamed retrieval. -/
inductive Event where
  /-- Bytes arrive. -/
  | arrive (bytes : Bytes)
  /-- The stream ends. -/
  | close
  /-- The producer goes on. -/
  | poll
  /-- The consumer asks for an element. -/
  | next
  /-- The consumer drops its stream. -/
  | leave
  deriving DecidableEq, Repr

/-- The bytes that arrive with an event. -/
def Event.bytes : Event → Bytes
  | arrive bytes => bytes
  | _ => []

/-- The bytes that arrive. -/
def arrivals (events : List Event) : Bytes := events.flatMap Event.bytes

/-- So many times the producer goes on and then the consumer asks for an element. -/
def rounds : ℕ → List Event
  | 0 => []
  | count + 1 => .poll :: .next :: rounds count

/-- The stream brings the blocks of these items, the end line, and further bytes, as far as they have arrived. -/
structure Served (items : List Item) (further : Bytes) (events : List Event) : Prop where
  /-- What arrives are those bytes. -/
  arrives : arrivals events <+: blocksOf items ++ further
  /-- The stream does not end before the end line. -/
  closes : ∀ before after, events = before ++ .close :: after → blocksOf items <+: arrivals before

theorem served_iff {items : List Item} {further : Bytes} {events : List Event} : Served items further events ↔
    arrivals events <+: blocksOf items ++ further ∧ ∀ position < events.length,
      events[position]? = some .close → blocksOf items <+: arrivals (events.take position) := by
  refine ⟨fun h => ⟨h.arrives, fun position hlt hat => ?_⟩, fun h => ⟨h.1, fun before after heq => ?_⟩⟩
  · rw [List.getElem?_eq_getElem hlt, Option.some.injEq] at hat
    refine h.closes _ (events.drop (position + 1)) ?_
    rw [← hat, List.getElem_cons_drop, List.take_append_drop]
  · have hclose := h.2 before.length (by simp [heq]) (by simp [heq])
    rwa [heq, List.take_left] at hclose

instance (items : List Item) (further : Bytes) (events : List Event) : Decidable (Served items further events) :=
  decidable_of_iff _ served_iff.symm

theorem Served.initial {items : List Item} {further : Bytes} {before after : List Event}
    (h : Served items further (before ++ after)) : Served items further before where
  arrives := by
    refine List.IsPrefix.trans ?_ h.arrives
    rw [arrivals, arrivals, List.flatMap_append]
    exact List.prefix_append _ _
  closes start rest heq := h.closes start (rest ++ after) (by rw [heq, List.append_assoc, List.cons_append])

/-- The retrieval with another stream before it. -/
def withFeed (m : MultiGet) (feed : Feed) : MultiGet := { m with reader := { m.reader with feed } }

/-- A streamed retrieval and its past. -/
structure Chronicle where
  /-- The retrieval. -/
  retrieval : MultiGet
  /-- The elements that the channel accepted. -/
  accepted : List (Except ClientError Item)
  /-- The elements that the consumer received. -/
  received : List (Except ClientError Item)
  /-- Whether the consumer has seen the end. -/
  ended : Bool
  /-- The result of the producer, once it has finished. -/
  result : Option (Except ClientError Outcome)

namespace Chronicle

/-- A retrieval of which nothing has arrived. -/
def start (verb : Retrieval) (keys : List String) (capacity : ℕ) : Chronicle :=
  ⟨.start verb keys capacity ⟨[], false⟩, [], [], false, none⟩

/-- One event. The channel accepted what a poll of the producer puts behind the elements in its queue. -/
def handle (c : Chronicle) : Event → Chronicle
  | .arrive bytes => { c with retrieval := c.retrieval.withFeed (c.retrieval.reader.feed.arrive bytes) }
  | .close => { c with retrieval := c.retrieval.withFeed { c.retrieval.reader.feed with ended := true } }
  | .poll =>
    let (report, after) := c.retrieval.poll
    { c with
      retrieval := after
      accepted := c.accepted ++ after.channel.queue.drop c.retrieval.channel.queue.length
      result := report.result?.or c.result }
  | .next =>
    let (report, after) := c.retrieval.next
    { c with
      retrieval := after
      received := c.received ++ report.element?.toList
      ended := c.ended || report.isEnd }
  | .leave => { c with retrieval := c.retrieval.dropStream.2 }

/-- A run of a retrieval. -/
def run (verb : Retrieval) (keys : List String) (capacity : ℕ) (events : List Event) : Chronicle :=
  events.foldl handle (start verb keys capacity)

/-- How the producer stands to the stream, of which the bytes `later` have not arrived, and to the items that are not
taken. -/
inductive Stands (further later : Bytes) (left : List Item) (c : Chronicle) : Prop where
  /-- It waits for those items. -/
  | reading {reply : Reply} (producer : c.retrieval.producer = some reply)
    (producing : c.retrieval.channel.producing = true) (result : c.result = none)
    (awaits : Awaits further c.accepted.length (c.retrieval.reader.bytes ++ later) left reply)
  /-- It has counted the accepted items, and left what stands behind the end line. -/
  | finished (producer : c.retrieval.producer = none) (producing : c.retrieval.channel.producing = false)
    (result : c.result = some (.ok (.delivered c.accepted.length)))
    (behind : c.retrieval.reader.bytes ++ later = further) (nothing : left = [])

/-- The items are taken in order, and accepted as long as the consumer is there. -/
def Standing (items : List Item) (further arrived : Bytes) (c : Chronicle) : Prop :=
  ∃ taken left later, items = taken ++ left ∧ arrived ++ later = blocksOf items ++ further ∧
    c.accepted <+: taken.map .ok ∧ (c.retrieval.channel.consuming = true → c.accepted = taken.map .ok) ∧
    Stands further later left c

/-- What every event keeps in a retrieval to which these bytes have arrived. -/
structure Sound (items : List Item) (further : Bytes) (capacity : ℕ) (arrived : Bytes) (c : Chronicle) : Prop where
  /-- The producer waits for as long as it takes. -/
  patient : c.retrieval.reader.Patient
  /-- The stream has not ended before the end line. -/
  closed : c.retrieval.reader.feed.ended = true → blocksOf items <+: arrived
  /-- There is room for as many elements as was asked for, and for one at least. -/
  capacity : c.retrieval.channel.capacity = max capacity 1
  /-- The queue has room. -/
  fits : c.retrieval.channel.queue.length ≤ c.retrieval.channel.capacity
  /-- The consumer receives as long as it is there. -/
  consumer : c.retrieval.consumer = if c.retrieval.channel.consuming then .stream else .gone
  /-- As long as it is there, what was accepted was received or is queued. -/
  passed : c.retrieval.channel.consuming = true → c.accepted = c.received ++ c.retrieval.channel.queue
  /-- What was queued when it left is lost. -/
  lost : c.retrieval.channel.consuming = false → c.retrieval.channel.queue = [] ∧ c.received <+: c.accepted
  /-- The producer is as far as the bytes that have arrived let it be. -/
  standing : Standing items further arrived c
  /-- A consumer that has seen the end has received everything. -/
  ended : c.ended = true → c.received = items.map .ok ∧ c.retrieval.channel.queue = [] ∧ c.retrieval.producer = none

variable {items taken left : List Item} {further later arrived : Bytes} {capacity : ℕ} {c c' : Chronicle}

/-- What concerns the consumer only does not move the producer. -/
theorem Standing.congr (h : Standing items further arrived c) (producer : c'.retrieval.producer = c.retrieval.producer)
    (reader : c'.retrieval.reader.bytes = c.retrieval.reader.bytes)
    (producing : c'.retrieval.channel.producing = c.retrieval.channel.producing)
    (consuming : c'.retrieval.channel.consuming = true → c.retrieval.channel.consuming = true)
    (accepted : c'.accepted = c.accepted) (result : c'.result = c.result) : Standing items further arrived c' := by
  obtain ⟨taken, left, later, hitems, hlater, haccepted, hall, hstands⟩ := h
  refine ⟨taken, left, later, hitems, hlater, accepted ▸ haccepted, fun hc => accepted ▸ hall (consuming hc), ?_⟩
  cases hstands with
  | reading hproducer hproducing hresult awaits =>
    exact .reading (producer.trans hproducer) (producing.trans hproducing) (result.trans hresult)
      (by rwa [accepted, reader])
  | finished hproducer hproducing hresult behind nothing =>
    exact .finished (producer.trans hproducer) (producing.trans hproducing) (by rw [result, hresult, accepted])
      (by rwa [reader]) nothing

theorem bytes_arrive (r : Reader) (bytes : Bytes) :
    Reader.bytes { r with feed := r.feed.arrive bytes } = r.bytes ++ bytes := by
  rw [Reader.bytes, Reader.bytes, Feed.bytes, Feed.bytes, Feed.arrive, List.flatMap_append, List.append_assoc]
  simp [FeedEvent.bytes]

theorem sound_start (verb : Retrieval) (keys : List String) (h : ∀ item ∈ items, Legible item) :
    Sound items further capacity [] (start verb keys capacity) where
  patient := ⟨by simp [Reader.Chunked, start, MultiGet.start, Reader.ofFeed], rfl⟩
  closed hended := by simp [start, MultiGet.start, Reader.ofFeed] at hended
  capacity := rfl
  fits := Nat.zero_le _
  consumer := rfl
  passed _ := rfl
  lost hc := by simp [start, MultiGet.start, Channel.ofCapacity] at hc
  standing := ⟨[], items, blocksOf items ++ further, rfl, rfl, List.prefix_rfl, fun _ => rfl,
    .reading rfl rfl rfl (awaits_start h rfl 0)⟩
  ended hended := by simp [start] at hended

/-! ### One event -/

theorem Sound.arrive (h : Sound items further capacity arrived c) {bytes : Bytes}
    (harrives : arrived ++ bytes <+: blocksOf items ++ further) :
    Sound items further capacity (arrived ++ bytes) (c.handle (.arrive bytes)) where
  patient := by
    refine ⟨fun event hmem => ?_, h.patient.unlimited⟩
    rcases List.mem_append.mp hmem with hmem | hmem
    · exact h.patient.chunked event hmem
    · exact ⟨bytes, List.mem_singleton.mp hmem⟩
  closed hended := (h.closed hended).trans (List.prefix_append _ _)
  capacity := h.capacity
  fits := h.fits
  consumer := h.consumer
  passed := h.passed
  lost := h.lost
  standing := by
    obtain ⟨taken, left, later, hitems, hlater, haccepted, hall, hstands⟩ := h.standing
    obtain ⟨rest, hrest⟩ := harrives
    -- what has not arrived begins with what arrives now
    have hcut : later = bytes ++ rest := by
      rw [List.append_assoc, ← hlater, List.append_cancel_left_eq] at hrest
      exact hrest.symm
    refine ⟨taken, left, rest, hitems, hrest, haccepted, hall, ?_⟩
    cases hstands with
    | reading producer producing result awaits =>
      refine .reading producer producing result ?_
      rw [hcut, ← List.append_assoc, ← bytes_arrive] at awaits
      exact awaits
    | finished producer producing result behind nothing =>
      refine .finished producer producing result ?_ nothing
      rw [hcut, ← List.append_assoc, ← bytes_arrive] at behind
      exact behind
  ended := h.ended

theorem Sound.close (h : Sound items further capacity arrived c) (hcloses : blocksOf items <+: arrived) :
    Sound items further capacity arrived (c.handle .close) where
  patient := ⟨h.patient.chunked, h.patient.unlimited⟩
  closed _ := hcloses
  capacity := h.capacity
  fits := h.fits
  consumer := h.consumer
  passed := h.passed
  lost := h.lost
  standing := h.standing.congr rfl rfl rfl id rfl rfl
  ended := h.ended

theorem Sound.stream (h : Sound items further capacity arrived c) (hc : c.retrieval.channel.consuming = true) :
    c.retrieval.consumer = .stream := by
  rw [h.consumer, if_pos hc]

theorem Sound.gone (h : Sound items further capacity arrived c) (hc : c.retrieval.channel.consuming = false) :
    c.retrieval.consumer = .gone := by
  rw [h.consumer, if_neg (by simp [hc])]

theorem Sound.leave (h : Sound items further capacity arrived c) :
    Sound items further capacity arrived (c.handle .leave) ∧
      (c.handle .leave).retrieval.channel.consuming = false := by
  cases hc : c.retrieval.channel.consuming with
  | false =>
    have hconsumer := h.gone hc
    have heq : c.handle .leave = c := by
      obtain ⟨⟨command, producer, reader, channel, consumer⟩, accepted, received, ended, result⟩ := c
      obtain rfl := hconsumer
      rfl
    rw [heq]
    exact ⟨h, hc⟩
  | true =>
    have heq : c.handle .leave =
        { c with retrieval := { c.retrieval with consumer := .gone, channel := c.retrieval.channel.abandon } } := by
      simp only [handle, dropStream, h.stream hc, Consumer.leave]
    rw [heq]
    refine ⟨?_, rfl⟩
    exact {
      patient := h.patient
      closed := h.closed
      capacity := h.capacity
      fits := Nat.zero_le _
      consumer := rfl
      passed := fun hconsuming => Bool.noConfusion hconsuming
      lost := fun _ => ⟨rfl, by rw [h.passed hc]; exact List.prefix_append _ _⟩
      standing := h.standing.congr rfl rfl rfl (fun hconsuming => Bool.noConfusion hconsuming) rfl rfl
      ended := fun hended => ⟨(h.ended hended).1, rfl, (h.ended hended).2.2⟩ }

/-- A consumer that has left asks in vain. -/
theorem handle_next_of_gone (hconsumer : c.retrieval.consumer = .gone) : c.handle .next = c := by
  obtain ⟨⟨command, producer, reader, channel, consumer⟩, accepted, received, ended, result⟩ := c
  obtain rfl := hconsumer
  simp [handle, next, Consumer.next, StreamReport.element?, StreamReport.isEnd]

/-- A consumer receives the oldest element. -/
theorem handle_next_of_cons (hconsumer : c.retrieval.consumer = .stream) {element : Except ClientError Item}
    {queue : List (Except ClientError Item)} (hqueue : c.retrieval.channel.queue = element :: queue) :
    c.handle .next =
      { c with
        retrieval := { c.retrieval with channel := { c.retrieval.channel with queue } }
        received := c.received ++ [element] } := by
  simp [handle, next, hconsumer, Consumer.next, Channel.receive, hqueue, StreamReport.element?, StreamReport.isEnd]

/-- Without an element, a consumer sees the end or has to wait. -/
theorem handle_next_of_nil (hconsumer : c.retrieval.consumer = .stream) (hqueue : c.retrieval.channel.queue = []) :
    c.handle .next = { c with ended := c.ended || !c.retrieval.channel.producing } := by
  obtain ⟨⟨command, producer, reader, ⟨room, queue, producing, consuming⟩, consumer⟩, accepted, received, ended,
    result⟩ := c
  obtain rfl := hconsumer
  obtain rfl := hqueue
  cases producing <;>
    simp [handle, next, Consumer.next, Channel.receive, StreamReport.element?, StreamReport.isEnd]

theorem Sound.next (h : Sound items further capacity arrived c) :
    Sound items further capacity arrived (c.handle .next) := by
  cases hc : c.retrieval.channel.consuming with
  | false =>
    rw [handle_next_of_gone (h.gone hc)]
    exact h
  | true =>
    cases hqueue : c.retrieval.channel.queue with
    | cons element queue =>
      rw [handle_next_of_cons (h.stream hc) hqueue]
      have hpassed := h.passed hc
      have hfits := h.fits
      rw [hqueue] at hpassed hfits
      exact {
        patient := h.patient
        closed := h.closed
        capacity := h.capacity
        fits := Nat.le_of_succ_le hfits
        consumer := h.consumer
        passed := fun _ => by simp [hpassed]
        lost := fun hgone => Bool.noConfusion (hc.symm.trans hgone)
        standing := h.standing.congr rfl rfl rfl id rfl rfl
        ended := fun hended => by
          have hempty := (h.ended hended).2.1
          rw [hqueue] at hempty
          simp at hempty }
    | nil =>
      rw [handle_next_of_nil (h.stream hc) hqueue]
      exact { h with
        standing := h.standing.congr rfl rfl rfl id rfl rfl
        ended := fun hended => by
          cases hbefore : c.ended with
          | true => exact h.ended hbefore
          | false =>
            have hproducing : c.retrieval.channel.producing = false := by simpa [hbefore] using hended
            obtain ⟨taken, left, later, hitems, -, -, hall, hstands⟩ := h.standing
            cases hstands with
            | reading producer producing result awaits => simp [producing] at hproducing
            | finished producer producing result behind nothing =>
              have hpassed := h.passed hc
              rw [hqueue, List.append_nil] at hpassed
              subst nothing
              rw [List.append_nil] at hitems
              exact ⟨by rw [← hpassed, hall hc, hitems], hqueue, producer⟩ }

/-! ### A poll -/

/-- What a poll makes of a retrieval whose producer waits for the items of `left`. -/
structure Polled (further later : Bytes) (left : List Item) (c after : Chronicle) (taken : List Item) : Prop where
  /-- Items were taken, and others are left. -/
  standing : ∃ left', left = taken ++ left' ∧ Stands further later left' after
  /-- Of the items that were taken, the channel has accepted those that it keeps. -/
  accepted : after.accepted = c.accepted ++ (kept c.retrieval.channel taken).map .ok
  /-- They are queued. -/
  queue : after.retrieval.channel.queue =
    c.retrieval.channel.queue ++ (kept c.retrieval.channel taken).map .ok
  /-- The queue has room. -/
  fits : c.retrieval.channel.queue.length ≤ c.retrieval.channel.capacity →
    after.retrieval.channel.queue.length ≤ after.retrieval.channel.capacity
  /-- The channel is the same. -/
  capacity : after.retrieval.channel.capacity = c.retrieval.channel.capacity
  /-- The consumer is there, or not, as before. -/
  consuming : after.retrieval.channel.consuming = c.retrieval.channel.consuming
  /-- The consumer was not asked. -/
  rest : after.retrieval.consumer = c.retrieval.consumer ∧ after.received = c.received ∧ after.ended = c.ended
  /-- The stream is as it was. -/
  reader : after.retrieval.reader.Patient ∧
    after.retrieval.reader.feed.ended = c.retrieval.reader.feed.ended
  /-- If the producer waits although the end line has arrived, then it waits for room. -/
  ready : later.length ≤ further.length → after.retrieval.producer = none ∨
    after.retrieval.channel.consuming = true ∧
      after.retrieval.channel.capacity ≤ after.retrieval.channel.queue.length

theorem handle_poll_of_waits {reply reply' : Reply} {progress : Progress Reply.State Reply.Answer} {r : Reader}
    {channel : ItemChannel} (producer : c.retrieval.producer = some reply)
    (hread : c.retrieval.reader.readReply c.retrieval.command (reply, c.retrieval.channel) = (progress, r))
    (hwaits : progress = .waiting (reply', channel) ∨ progress = .held (reply', channel)) :
    c.handle .poll =
      { c with
        retrieval := { c.retrieval with producer := some reply', reader := r, channel }
        accepted := c.accepted ++ channel.queue.drop c.retrieval.channel.queue.length } := by
  rcases hwaits with rfl | rfl <;> simp [handle, poll, producer, hread, StreamReport.result?]

theorem handle_poll_of_done {reply : Reply} {result : Except ClientError Outcome} {r : Reader} {channel : ItemChannel}
    (producer : c.retrieval.producer = some reply)
    (hread : c.retrieval.reader.readReply c.retrieval.command (reply, c.retrieval.channel) =
      (.done (result, channel), r)) :
    c.handle .poll =
      { c with
        retrieval := { c.retrieval with producer := none, reader := r, channel := channel.finish }
        accepted := c.accepted ++ channel.queue.drop c.retrieval.channel.queue.length
        result := some result } := by
  simp [handle, poll, producer, hread, StreamReport.result?, Channel.finish]

theorem length_accepted (accepted : List (Except ClientError Item)) (new : List Item) :
    (accepted ++ new.map Except.ok).length = accepted.length + new.length := by
  rw [List.length_append, List.length_map]

theorem polled (h : ∀ item ∈ left, Legible item) (hr : c.retrieval.reader.Patient)
    (hopen : c.retrieval.reader.feed.ended = true → later.length ≤ further.length) {reply : Reply}
    (producer : c.retrieval.producer = some reply) (producing : c.retrieval.channel.producing = true)
    (result : c.result = none)
    (awaits : Awaits further c.accepted.length (c.retrieval.reader.bytes ++ later) left reply) :
    ∃ taken, Polled further later left c (c.handle .poll) taken := by
  obtain ⟨stop, r, hread, hstreams, hreader⟩ :=
    c.retrieval.reader.streams_readReply c.retrieval.command h hr hopen awaits c.retrieval.channel
  have hnew : ∀ {taken : List Item} {after : ItemChannel}, Handed c.retrieval.channel after taken →
      after.queue.drop c.retrieval.channel.queue.length = (kept c.retrieval.channel taken).map .ok := by
    intro taken after handed
    rw [handed.grew, List.drop_left]
  have hproducing : ∀ {taken : List Item} {after : ItemChannel}, Handed c.retrieval.channel after taken →
      after.producing = true := fun handed => by rw [handed.grew, producing]
  generalize hbytes : r.bytes = rest at hstreams
  cases hstreams with
  | @more taken left' reply' after parts handed awaits' =>
    rw [handle_poll_of_waits producer hread (.inl rfl), hnew handed]
    refine ⟨taken, ⟨left', parts, .reading rfl (hproducing handed) result ?_⟩, rfl, by rw [handed.grew], handed.fits,
      by rw [handed.grew], handed.consuming, ⟨rfl, rfl, rfl⟩, hreader, fun hlater => ?_⟩
    · rw [length_accepted, hbytes]
      exact awaits'
    · exact absurd awaits'.length_lt (Nat.not_lt.mpr hlater)
  | @held taken left' reply' after rest parts handed awaits' consuming full =>
    rw [handle_poll_of_waits producer hread (.inr rfl), hnew handed]
    refine ⟨taken, ⟨left', parts, .reading rfl (hproducing handed) result ?_⟩, rfl, by rw [handed.grew], handed.fits,
      by rw [handed.grew], handed.consuming, ⟨rfl, rfl, rfl⟩, hreader, fun _ => .inr ⟨consuming, full⟩⟩
    rw [length_accepted, hbytes]
    exact awaits'
  | @done after rest handed behind =>
    rw [handle_poll_of_done producer hread, hnew handed]
    refine ⟨left, ⟨[], (List.append_nil _).symm, .finished rfl rfl ?_ ?_ rfl⟩, rfl, ?_, handed.fits, ?_,
      handed.consuming, ⟨rfl, rfl, rfl⟩, hreader, fun _ => .inl rfl⟩
    · rw [length_accepted]
    · rw [← behind, ← hbytes]
    · rw [Channel.finish, handed.grew]
    · rw [Channel.finish, handed.grew]

theorem handle_poll_of_finished (producer : c.retrieval.producer = none) : c.handle .poll = c := by
  simp [handle, poll, producer, StreamReport.result?]

/-- If the end line has arrived, then what has not arrived is behind it. -/
theorem length_later_le (hlater : arrived ++ later = blocksOf items ++ further) (h : blocksOf items <+: arrived) :
    later.length ≤ further.length := by
  have hlength := congrArg List.length hlater
  rw [List.length_append, List.length_append] at hlength
  have hle := h.length_le
  omega

/-- A poll finds the producer gone, or it waits for items that it takes in their order. -/
theorem Sound.poll_cases (h : Sound items further capacity arrived c) (hitems : ∀ item ∈ items, Legible item) :
    c.handle .poll = c ∧ c.retrieval.producer = none ∨
      c.retrieval.producer ≠ none ∧ ∃ taken left later new, items = taken ++ left ∧
        arrived ++ later = blocksOf items ++ further ∧ c.accepted <+: taken.map .ok ∧
        (c.retrieval.channel.consuming = true → c.accepted = taken.map .ok) ∧
        Polled further later left c (c.handle .poll) new := by
  obtain ⟨taken, left, later, hparts, hlater, haccepted, hall, hstands⟩ := h.standing
  cases hstands with
  | finished producer producing result behind nothing => exact .inl ⟨handle_poll_of_finished producer, producer⟩
  | reading producer producing result awaits =>
    have hleft : ∀ item ∈ left, Legible item := fun item hmem =>
      hitems item (hparts ▸ List.mem_append_right taken hmem)
    obtain ⟨new, hpolled⟩ := polled hleft h.patient (fun hended => length_later_le hlater (h.closed hended)) producer
      producing result awaits
    exact .inr ⟨by simp [producer], taken, left, later, new, hparts, hlater, haccepted, hall, hpolled⟩

theorem Polled.standing_of {new : List Item} (h : Polled further later left c c' new) (hparts : items = taken ++ left)
    (hlater : arrived ++ later = blocksOf items ++ further) (haccepted : c.accepted <+: taken.map .ok)
    (hall : c.retrieval.channel.consuming = true → c.accepted = taken.map .ok) : Standing items further arrived c' := by
  obtain ⟨left', hnew, hstands⟩ := h.standing
  refine ⟨taken ++ new, left', later, by rw [hparts, hnew, List.append_assoc], hlater, ?_, fun hc => ?_, hstands⟩
  · rw [h.accepted, List.map_append]
    cases hc : c.retrieval.channel.consuming with
    | true => exact ⟨[], by rw [List.append_nil, kept_of_consuming hc, hall hc]⟩
    | false =>
      rw [kept_of_gone hc, List.map_nil, List.append_nil]
      exact haccepted.trans (List.prefix_append _ _)
  · rw [h.consuming] at hc
    rw [h.accepted, kept_of_consuming hc, hall hc, List.map_append]

theorem Sound.poll (h : Sound items further capacity arrived c) (hitems : ∀ item ∈ items, Legible item) :
    Sound items further capacity arrived (c.handle .poll) := by
  rcases h.poll_cases hitems with ⟨heq, -⟩ |
    ⟨hproducer, taken, left, later, new, hparts, hlater, haccepted, hall, hpolled⟩
  · rw [heq]
    exact h
  · obtain ⟨hconsumer, hreceived, hended⟩ := hpolled.rest
    exact {
      patient := hpolled.reader.1
      closed := fun hclosed => h.closed (hpolled.reader.2 ▸ hclosed)
      capacity := hpolled.capacity.trans h.capacity
      fits := hpolled.fits h.fits
      consumer := by rw [hconsumer, hpolled.consuming, h.consumer]
      passed := fun hc => by
        rw [hpolled.consuming] at hc
        rw [hpolled.accepted, hreceived, hpolled.queue, h.passed hc, List.append_assoc]
      lost := fun hc => by
        rw [hpolled.consuming] at hc
        rw [hpolled.queue, hpolled.accepted, hreceived, kept_of_gone hc, List.map_nil, List.append_nil, List.append_nil]
        exact h.lost hc
      standing := hpolled.standing_of hparts hlater haccepted hall
      ended := fun hend => absurd (h.ended (hended ▸ hend)).2.2 hproducer }

/-- Whether the consumer is there changes only when it leaves. -/
theorem Sound.consuming_handle (h : Sound items further capacity arrived c) (hitems : ∀ item ∈ items, Legible item)
    {event : Event} (hevent : event ≠ .leave) :
    (c.handle event).retrieval.channel.consuming = c.retrieval.channel.consuming := by
  cases event with
  | arrive bytes | close => rfl
  | leave => exact absurd rfl hevent
  | poll =>
    rcases h.poll_cases hitems with ⟨heq, -⟩ | ⟨-, taken, left, later, new, -, -, -, -, hpolled⟩
    · rw [heq]
    · exact hpolled.consuming
  | next =>
    cases hc : c.retrieval.channel.consuming with
    | false => rw [handle_next_of_gone (h.gone hc), hc]
    | true =>
      cases hqueue : c.retrieval.channel.queue with
      | cons element queue => rw [handle_next_of_cons (h.stream hc) hqueue, hc]
      | nil => rw [handle_next_of_nil (h.stream hc) hqueue, hc]

/-- When the consumer has left, nothing is accepted any more. -/
theorem Sound.accepted_handle (h : Sound items further capacity arrived c) (hitems : ∀ item ∈ items, Legible item)
    (hc : c.retrieval.channel.consuming = false) (event : Event) : (c.handle event).accepted = c.accepted := by
  cases event with
  | arrive bytes | close | leave | next => rfl
  | poll =>
    rcases h.poll_cases hitems with ⟨heq, -⟩ | ⟨-, taken, left, later, new, -, -, -, -, hpolled⟩
    · rw [heq]
    · rw [hpolled.accepted, kept_of_gone hc, List.map_nil, List.append_nil]

theorem Sound.handle {events : List Event} (h : Sound items further capacity (arrivals events) c)
    (hitems : ∀ item ∈ items, Legible item) {event : Event} (hserved : Served items further (events ++ [event])) :
    Sound items further capacity (arrivals (events ++ [event])) (c.handle event) := by
  have harrivals : arrivals (events ++ [event]) = arrivals events ++ event.bytes := by
    rw [arrivals, List.flatMap_append, List.flatMap_singleton, arrivals]
  have harrives := hserved.arrives
  rw [harrivals] at harrives ⊢
  cases event with
  | arrive bytes => exact h.arrive harrives
  | close => simpa [Event.bytes] using h.close (hserved.closes events [] rfl)
  | poll => simpa [Event.bytes] using h.poll hitems
  | next => simpa [Event.bytes] using h.next
  | leave => simpa [Event.bytes] using h.leave.1

end Chronicle

end MultiGet

end MemcachedClient
