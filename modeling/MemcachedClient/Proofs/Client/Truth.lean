import MemcachedClient.Proofs.Client.Lending
import MemcachedClient.Proofs.Client.Streaming

/-!
# How a stream of items ends

An `Account` is a client together with the past of one stream: the bytes that its relay has taken, the elements that its
consumer has received, and whether it has seen the end. The bytes tell some items and how the reply ends; the command has
an outcome if it ends with the end line, and an error otherwise. The stream brings exactly those items, in their order,
and behind them the error, if there is one (`Account.told`); then it ends. Collecting comes to the same.

A step is a step of the relay, or of the consumer, or leaves the stream as it is (`Moves`). So what a stream tells is true
at every time (`Truthful`), whatever the server sends, however the exchange fails, and whenever the consumer asks. A
consumer that keeps asking comes to the end, unless the exchange waits for its connection (`Account.Serves.comes_to_end`).
-/

namespace MemcachedClient

open Response

/-- The number of items that a consumer has collected so far. -/
def Consumer.gathered : Consumer → ℕ
  | collecting items => items.length
  | _ => 0

namespace Client

/-- The bytes that the relay under a name takes in a step of the client. -/
def takesIn (c : Client) (name : String) : Event → Bytes
  | .pollRelay other => if other = name then c.takes name else []
  | _ => []

/-- What the consumer of a stream sees in a step of the client, if it asks for an element. -/
def sees (c : Client) (name : String) : Event → Option StreamReport
  | .next other => if other = name then (c.next name).1 else none
  | _ => none

/-- How a consumer asks: for an element, or, if it collects, for all of them. -/
def pull? (name : String) : Consumer → Option Event
  | .stream => some (.next name)
  | .collecting _ => some (.pollCollect name)
  | .gone => none

/-- So many times a relay runs on and then the consumer asks. -/
def rounds (name : String) (pull : Event) : ℕ → List Event
  | 0 => []
  | count + 1 => .pollRelay name :: pull :: rounds name pull count

/-- A client and the past of one stream. -/
structure Account where
  /-- The client. -/
  client : Client
  /-- The bytes that the relay has taken. -/
  taken : Bytes
  /-- The elements that the consumer has received, one by one. -/
  received : List (Except ClientError Item)
  /-- Whether the consumer has seen the end. -/
  ended : Bool

theorem pull?_eq_some {name : String} {consumer : Consumer} {event : Event} (h : pull? name consumer = some event) :
    consumer = .stream ∧ event = .next name ∨ ∃ items, consumer = .collecting items ∧ event = .pollCollect name := by
  cases consumer with
  | stream => exact .inl ⟨rfl, (Option.some.inj h).symm⟩
  | collecting items => exact .inr ⟨items, rfl, (Option.some.inj h).symm⟩
  | gone => simp [pull?] at h

namespace Account

/-- A client in which nothing has happened. -/
def start (c : Client) : Account := ⟨c, [], [], false⟩

/-- One event. -/
def handle (name : String) (a : Account) (event : Event) : Account where
  client := a.client.step event
  taken := a.taken ++ a.client.takesIn name event
  received := a.received ++ ((a.client.sees name event).bind StreamReport.element?).toList
  ended := a.ended || (a.client.sees name event).any StreamReport.isEnd

/-- The account after some events. -/
def run (name : String) (a : Account) (events : List Event) : Account := events.foldl (handle name) a

/-- The items whose blocks are complete in the bytes that were taken. -/
def items (a : Account) : List Item := (ItemState.decode .start a.taken).1

/-- How those bytes end. -/
def tail (a : Account) : Tail := (ItemState.decode .start a.taken).2

/-- What the command of the stream came to, once it has ended. -/
def result? (a : Account) (name : String) : Option (Except ClientError Outcome) :=
  (a.client.streams.get? name).bind fun stream => a.client.exchanged? stream.item name

/-- What collecting the stream came to. -/
def collected? (a : Account) (name : String) : Option (Except ClientError (List Item)) :=
  (a.client.streams.get? name).bind Stream.collected

/-- The items so far, and behind them the error, if the command has failed. -/
def told (a : Account) (name : String) : List (Except ClientError Item) :=
  match a.result? name with
  | some result => elements a.items result
  | none => a.items.map .ok

/-- The consumer has seen the end, or has collected everything. -/
def IsDone (a : Account) (name : String) : Prop := a.ended = true ∨ (a.collected? name).isSome = true

/-- A stream is served. -/
def Serves (a : Account) (name : String) (relay : Relay) (stream : Stream) (x : Exchange) (handed : List Item)
    (put : List (Except ClientError Item)) : Prop :=
  a.client.Serves name a.taken a.received a.ended relay stream x handed put

/-- What an event does to a stream that is served. -/
inductive Moves (name : String) (a : Account) (relay : Relay) (stream : Stream) (x : Exchange) (handed : List Item)
    (put : List (Except ClientError Item)) : Event → Account → Prop where
  /-- It leaves the stream as it is. -/
  | rests {event : Event} {client : Client} (silent : event ≠ .pollRelay name ∧ pull? name stream.consumer ≠ some event)
    (serves : Serves { a with client } name relay stream x handed put) :
    Moves name a relay stream x handed put event { a with client }
  /-- The relay runs on, until it has ended, something is queued, or it waits for its connection. -/
  | pollRelay {client : Client} {taken : Bytes} {relay' : Relay} {x' : Exchange} {handed' : List Item}
    {put' : List (Except ClientError Item)} (serves : Serves { a with client, taken } name relay' stream x' handed' put')
    (stops : relay' = .over ∨ x'.channel.queue ≠ [] ∨ client.Awaits name) :
    Moves name a relay stream x handed put (.pollRelay name) { a with client, taken }
  /-- The consumer asks for an element. -/
  | next {client : Client} {x' : Exchange} {received : List (Except ClientError Item)} {ended : Bool}
    (consumer : stream.consumer = .stream)
    (received_eq : received = a.received ++ (Consumer.stream.next x.channel).1.element?.toList)
    (ended_eq : ended = (a.ended || (Consumer.stream.next x.channel).1.isEnd))
    (serves : Serves { a with client, received, ended } name relay stream x' handed put) :
    Moves name a relay stream x handed put (.next name) { a with client, received, ended }
  /-- The consumer begins to collect. -/
  | collect {client : Client} (consumer : stream.consumer = .stream)
    (serves : Serves { a with client } name relay { stream with consumer := .collecting [] } x handed put) :
    Moves name a relay stream x handed put (.collect name) { a with client }
  /-- A consumer that collects runs on. -/
  | pollCollect {client : Client} {stream' : Stream} {x' : Exchange} {items : List Item}
    (consumer : stream.consumer = .collecting items)
    (serves : Serves { a with client } name relay stream' x' handed put)
    (gathers : stream'.collected.isSome = true ∨ ∃ more : List Item, stream'.consumer = .collecting (items ++ more) ∧
      x.channel.queue = more.map .ok ∧ x.channel.producing = true) :
    Moves name a relay stream x handed put (.pollCollect name) { a with client }
  /-- The consumer leaves. -/
  | leave {client : Client} {x' : Exchange}
    (serves : Serves { a with client } name relay { stream with consumer := .gone } x' handed put) :
    Moves name a relay stream x handed put (.leave name) { a with client }

variable {name : String} {a : Account} {relay : Relay} {stream : Stream} {x : Exchange} {handed : List Item}
  {put : List (Except ClientError Item)} {event : Event} {k : ℕ}

/-- What is neither a step of the relay nor a question of the consumer is not noted. -/
theorem handle_eq (hrelay : event ≠ .pollRelay name) (hnext : event ≠ .next name) :
    a.handle name event = { a with client := a.client.step event } := by
  have htakes : a.client.takesIn name event = [] := by
    cases event with
    | pollRelay other => exact if_neg fun hsame => hrelay (congrArg Event.pollRelay hsame)
    | _ => rfl
  have hsees : a.client.sees name event = none := by
    cases event with
    | next other => exact if_neg fun hsame => hnext (congrArg Event.next hsame)
    | _ => rfl
  rw [handle, htakes, hsees]
  simp

/-- An event leaves the stream as it is, if it is neither of the relay nor of a consumer that asks. -/
theorem Moves.of_rests (hserves : Client.Serves (a.client.step event) name a.taken a.received a.ended relay stream x handed put)
    (hrelay : event ≠ .pollRelay name) (hnext : event ≠ .next name) (hpull : pull? name stream.consumer ≠ some event) :
    Moves name a relay stream x handed put event (a.handle name event) := by
  rw [handle_eq hrelay hnext]
  exact .rests ⟨hrelay, hpull⟩ hserves

/-- The relay runs on. -/
theorem Serves.moves_pollRelay (h : a.Serves name relay stream x handed put) (hc : Steady k a.client) :
    Moves name a relay stream x handed put (.pollRelay name) (a.handle name (.pollRelay name)) := by
  obtain ⟨relay', x', handed', put', hserves, hstops⟩ := Client.Serves.pollRelay h hc
  have heq : a.handle name (.pollRelay name) =
      { a with client := a.client.step (.pollRelay name), taken := a.taken ++ a.client.takes name } := by
    simp [handle, takesIn, sees]
  rw [heq]
  exact .pollRelay hserves hstops

/-- The consumer asks for an element, if it does. -/
theorem Serves.moves_next (h : a.Serves name relay stream x handed put) :
    Moves name a relay stream x handed put (.next name) (a.handle name (.next name)) := by
  by_cases hconsumer : stream.consumer = .stream
  · obtain ⟨hreport, hserves⟩ := Client.Serves.next h hconsumer
    have heq : a.handle name (.next name) = { a with
        client := (a.client.next name).2
        received := a.received ++ (Consumer.stream.next x.channel).1.element?.toList
        ended := a.ended || (Consumer.stream.next x.channel).1.isEnd } := by
      simp [handle, takesIn, sees, hreport, Client.step]
    rw [heq]
    exact .next hconsumer rfl rfl hserves
  · obtain ⟨hnext, -⟩ := Client.Serves.next_of_ne h hconsumer
    have heq : a.handle name (.next name) = { a with client := a.client } := by
      simp [handle, takesIn, sees, hnext, Client.step]
    rw [heq]
    refine .rests ⟨by simp, fun hpull => ?_⟩ h
    rcases pull?_eq_some hpull with ⟨hsame, -⟩ | ⟨items, -, hevent⟩
    · exact hconsumer hsame
    · simp at hevent

/-- The consumer runs on, if it collects. -/
theorem Serves.moves_pollCollect (h : a.Serves name relay stream x handed put) :
    Moves name a relay stream x handed put (.pollCollect name) (a.handle name (.pollCollect name)) := by
  by_cases hconsumer : ∃ items, stream.consumer = .collecting items
  · obtain ⟨items, hconsumer⟩ := hconsumer
    obtain ⟨stream', x', hserves, hgathers⟩ := Client.Serves.pollCollect h hconsumer
    rw [handle_eq (by simp) (by simp)]
    exact .pollCollect hconsumer hserves hgathers
  · have hsame : a.client.step (.pollCollect name) = a.client :=
      Client.Serves.pollCollect_of_ne h fun items hsame => hconsumer ⟨items, hsame⟩
    refine .of_rests (by rwa [hsame]) (by simp) (by simp) fun hpull => ?_
    rcases pull?_eq_some hpull with ⟨-, hevent⟩ | ⟨items, hsame, -⟩
    · simp at hevent
    · exact hconsumer ⟨items, hsame⟩

/-- **Every event is one of these moves.** -/
theorem Serves.moves (h : a.Serves name relay stream x handed put) (hc : Steady k a.client) (event : Event) :
    Moves name a relay stream x handed put event (a.handle name event) := by
  by_cases hname : event.name? = some name
  · have hasked : ∀ e, pull? name stream.consumer = some e → e = .next name ∨ e = .pollCollect name := fun e hpull =>
      (pull?_eq_some hpull).imp And.right fun ⟨_, hevent⟩ => hevent.2
    have hrests : a.client.step event = a.client → event ≠ .pollRelay name → event ≠ .next name →
        event ≠ .pollCollect name → Moves name a relay stream x handed put event (a.handle name event) :=
      fun hsame hrelay hnext hpoll => .of_rests (by rwa [hsame]) hrelay hnext
        fun hpull => (hasked event hpull).elim hnext hpoll
    cases event with
    | start other command =>
      obtain rfl := Option.some.inj hname
      exact hrests (h.of_call.1 command) (by simp) (by simp) (by simp)
    | poll other =>
      obtain rfl := Option.some.inj hname
      exact hrests h.of_call.2.1 (by simp) (by simp) (by simp)
    | drop other =>
      obtain rfl := Option.some.inj hname
      exact hrests h.of_call.2.2 (by simp) (by simp) (by simp)
    | pollRelay other =>
      obtain rfl := Option.some.inj hname
      exact h.moves_pollRelay hc
    | next other =>
      obtain rfl := Option.some.inj hname
      exact h.moves_next
    | collect other =>
      obtain rfl := Option.some.inj hname
      by_cases hconsumer : stream.consumer = .stream
      · rw [handle_eq (by simp) (by simp)]
        exact .collect hconsumer (Client.Serves.collect h hconsumer)
      · exact hrests (Client.Serves.next_of_ne h hconsumer).2 (by simp) (by simp) (by simp)
    | pollCollect other =>
      obtain rfl := Option.some.inj hname
      exact h.moves_pollCollect
    | leave other =>
      obtain rfl := Option.some.inj hname
      rw [handle_eq (by simp) (by simp)]
      exact .leave (Client.Serves.leave h)
    | dispose | advance | network => simp [Event.name?] at hname
  · have hne : ∀ e : Event, e.name? = some name → event ≠ e := by
      rintro e he rfl
      exact hname he
    refine .of_rests (Client.Serves.of_ne h hc hname) (hne _ rfl) (hne _ rfl) fun hpull => ?_
    rcases pull?_eq_some hpull with ⟨-, hevent⟩ | ⟨items, -, hevent⟩
    · exact hne _ rfl hevent
    · exact hne _ rfl hevent

/-- It is served after every event. -/
theorem Moves.serves {a' : Account} (h : Moves name a relay stream x handed put event a') :
    ∃ relay stream x handed put, a'.Serves name relay stream x handed put := by
  cases h with
  | rests silent serves => exact ⟨_, _, _, _, _, serves⟩
  | pollRelay serves => exact ⟨_, _, _, _, _, serves⟩
  | next consumer received_eq ended_eq serves => exact ⟨_, _, _, _, _, serves⟩
  | collect consumer serves => exact ⟨_, _, _, _, _, serves⟩
  | pollCollect consumer serves => exact ⟨_, _, _, _, _, serves⟩
  | leave serves => exact ⟨_, _, _, _, _, serves⟩

/-! ### Runs -/

theorem run_cons (name : String) (a : Account) (event : Event) (events : List Event) :
    a.run name (event :: events) = (a.handle name event).run name events := rfl

/-- The client runs by itself. -/
theorem client_run (name : String) (a : Account) (events : List Event) :
    (a.run name events).client = a.client.run events := by
  induction events generalizing a with
  | nil => rfl
  | cons event events ih => exact ih (a.handle name event)

/-- A stream is served, or there is none yet. -/
inductive Tracks (name : String) (a : Account) : Prop where
  /-- The call has not answered with a stream. -/
  | pending (pending : a.client.Pending name) (nothing : a.taken = [] ∧ a.received = [] ∧ a.ended = false)
  /-- It has. -/
  | serves {relay : Relay} {stream : Stream} {x : Exchange} {handed : List Item} {put : List (Except ClientError Item)}
    (serves : a.Serves name relay stream x handed put)

/-- **Every event keeps track of the stream.** -/
theorem Tracks.handle (h : a.Tracks name) (hc : Steady k a.client) (event : Event) :
    (a.handle name event).Tracks name := by
  cases h with
  | serves serves =>
    obtain ⟨relay, stream, x, handed, put, hserves⟩ := (serves.moves hc event).serves
    exact .serves hserves
  | pending pending nothing =>
    obtain ⟨client, taken, received, ended⟩ := a
    obtain ⟨rfl, rfl, rfl⟩ := nothing
    have htakes : client.takesIn name event = [] := by
      cases event with
      | pollRelay other =>
        rw [takesIn, takes, pending.relay]
        exact ite_self _
      | _ => rfl
    have hsees : client.sees name event = none := by
      cases event with
      | next other =>
        rw [sees]
        split
        · rw [Client.next, stream?, pending.stream]
        · rfl
      | _ => rfl
    have heq : Account.handle name ⟨client, [], [], false⟩ event = ⟨client.step event, [], [], false⟩ := by
      rw [Account.handle, htakes, hsees]
      rfl
    rw [heq]
    rcases pending.step hc event with hpending | ⟨relay, stream, x, handed, put, hserves⟩
    · exact .pending hpending ⟨rfl, rfl, rfl⟩
    · exact .serves hserves

theorem Tracks.run (h : a.Tracks name) (hc : Steady k a.client) (events : List Event) :
    (a.run name events).Tracks name := by
  induction events generalizing a with
  | nil => exact h
  | cons event events ih =>
    exact ih (h.handle hc event) (hc.step event)

theorem Serves.run (h : a.Serves name relay stream x handed put) (hc : Steady k a.client) (events : List Event) :
    ∃ relay stream x handed put, (a.run name events).Serves name relay stream x handed put := by
  induction events generalizing a relay stream x handed put with
  | nil => exact ⟨_, _, _, _, _, h⟩
  | cons event events ih =>
    obtain ⟨relay', stream', x', handed', put', hserves⟩ := (h.moves hc event).serves
    exact ih hserves (hc.step event)

/-! ### What is told -/

theorem Serves.result?_eq (h : a.Serves name relay stream x handed put) : a.result? name = x.result? := by
  rw [result?, h.found, Option.bind_some]
  exact exchanged?_of_exchange? h.exchange

theorem Serves.collected?_eq (h : a.Serves name relay stream x handed put) : a.collected? name = stream.collected := by
  rw [collected?, h.found]
  rfl

/-- When the producer is gone, everything was put. -/
theorem Serves.finished (h : a.Serves name relay stream x handed put) (hproducing : x.channel.producing = false) :
    ∃ result, a.result? name = some result ∧ put = elements a.items result := by
  have hputs := Client.Serves.puts h
  cases hputs with
  | exchanging producing | reporting producing => exact Bool.noConfusion (hproducing.symm.trans producing)
  | @done result _ ended =>
    refine ⟨result, h.result?_eq.trans ended, ?_⟩
    rw [items, (h.tells.of_result? ended).1]

/-- What was put is told. -/
theorem Serves.prefix_told (h : a.Serves name relay stream x handed put) : put <+: a.told name := by
  have hputs := Client.Serves.puts h
  have hitems : handed.map .ok <+: a.told name := by
    have hprefix : handed.map Except.ok <+: a.items.map (Except.ok : Item → Except ClientError Item) :=
      h.tells.prefix_decoded.map _
    rw [told]
    cases a.result? name with
    | none => exact hprefix
    | some result =>
      cases result with
      | ok outcome => exact hprefix
      | error cause => exact hprefix.trans (List.prefix_append _ _)
  cases hputs with
  | exchanging producing => exact hitems
  | reporting producing => exact hitems
  | done producing =>
    obtain ⟨result, hresult, heq⟩ := h.finished producing
    simp [told, hresult, heq]

/-- What was received and what is collected are not more than what is told. -/
theorem Serves.length_le (h : a.Serves name relay stream x handed put) :
    a.received.length + stream.consumer.gathered ≤ (a.told name).length := by
  have hput := h.prefix_told.length_le
  obtain ⟨place, -⟩ := Client.Serves.drawn h
  generalize stream.consumer = consumer at place ⊢
  generalize stream.collected = collected at place
  cases place with
  | stream consuming drawn =>
    rw [drawn, List.length_append] at hput
    exact Nat.le_trans (Nat.le_add_right _ _) hput
  | collecting consuming drawn =>
    rw [drawn, List.length_append, List.length_append, List.length_map] at hput
    rw [Consumer.gathered]
    omega
  | gone left drawn =>
    have hreceived := drawn.length_le
    exact Nat.le_trans hreceived hput

/-- What is told of the stream is true. -/
structure Faithful (a : Account) (name : String) : Prop where
  /-- An outcome means that the reply has ended with the end line, and an error that it has not. -/
  result : ∀ result, a.result? name = some result → a.tail.Allows result
  /-- The consumer has received the first of the elements that are told. -/
  received : a.received <+: a.told name
  /-- When it has seen the end, the command has ended, and the consumer has received all items, and behind them the
  error, if the command has failed. -/
  ended : a.ended = true → ∃ result, a.result? name = some result ∧ a.received = elements a.items result
  /-- Collecting after some items comes to all others, if the command has succeeded, and to its error, if it has failed. -/
  collected : ∀ answer, a.collected? name = some answer → ∃ result, a.result? name = some result ∧
    ∀ first : List Item, a.received = first.map .ok → ∃ rest, answer = result.map (fun _ => rest) ∧ a.items = first ++ rest

theorem Serves.faithful (h : a.Serves name relay stream x handed put) : a.Faithful name where
  result result hresult := (h.tells.of_result? (h.result?_eq.symm.trans hresult)).2
  received := (Client.Serves.drawn h).prefix_put.trans h.prefix_told
  ended hended := by
    obtain ⟨hproducing, hput⟩ := (Client.Serves.drawn h).seen hended
    obtain ⟨result, hresult, heq⟩ := h.finished hproducing
    exact ⟨result, hresult, hput.symm.trans heq⟩
  collected answer hanswer := by
    rw [h.collected?_eq] at hanswer
    have hplace := (Client.Serves.drawn h).place
    rw [hanswer] at hplace
    generalize stream.consumer = consumer at hplace
    cases hplace with
    | gone left drawn collects =>
      obtain ⟨hproducing, hcollects⟩ := collects answer rfl
      obtain ⟨result, hresult, heq⟩ := h.finished hproducing
      refine ⟨result, hresult, fun first hfirst => ?_⟩
      cases answer with
      | ok rest =>
        rw [Collects, heq, hfirst, ← List.map_append] at hcollects
        obtain ⟨⟨outcome, rfl⟩, hitems⟩ := elements_of_items hcollects
        exact ⟨rest, rfl, hitems⟩
      | error cause =>
        obtain ⟨rest, hrest⟩ := hcollects
        rw [heq, hfirst, ← List.append_assoc, ← List.map_append] at hrest
        obtain ⟨rfl, hitems⟩ := elements_of_error hrest
        exact ⟨rest, rfl, hitems⟩

/-! ### The end -/

/-- A consumer that has seen the end receives nothing more. -/
theorem Moves.received_of_ended {a' : Account} (h : Moves name a relay stream x handed put event a')
    (hserves : a.Serves name relay stream x handed put) (hended : a.ended = true) :
    a'.ended = true ∧ a'.received = a.received := by
  cases h with
  | next consumer received_eq ended_eq =>
    have hdrawn := Client.Serves.drawn hserves
    rw [consumer] at hdrawn
    obtain ⟨hproducing, hput⟩ := hdrawn.seen hended
    -- everything was received, so nothing is queued
    have hempty : x.channel.queue = [] := by
      have hplace := hdrawn.place
      generalize stream.collected = collected at hplace
      cases hplace with
      | stream consuming drawn =>
        rw [drawn] at hput
        simpa using hput
    refine ⟨?_, ?_⟩
    · rw [ended_eq, hended, Bool.true_or]
    · rw [received_eq, Consumer.next, Channel.receive, hempty, hproducing]
      exact List.append_nil _
  | _ => exact ⟨hended, rfl⟩

theorem Serves.received_run (h : a.Serves name relay stream x handed put) (hc : Steady k a.client)
    (hended : a.ended = true) (events : List Event) : (a.run name events).received = a.received := by
  induction events generalizing a relay stream x handed put with
  | nil => rfl
  | cons event events ih =>
    have hmoves := h.moves hc event
    obtain ⟨relay', stream', x', handed', put', hserves⟩ := hmoves.serves
    obtain ⟨hstill, hreceived⟩ := hmoves.received_of_ended h hended
    exact (ih hserves (hc.step event) hstill).trans hreceived

/-- Done is done. -/
theorem Moves.isDone {a' : Account} (h : Moves name a relay stream x handed put event a')
    (hserves : a.Serves name relay stream x handed put) (hdone : a.IsDone name) : a'.IsDone name := by
  rcases hdone with hended | hcollected
  · exact .inl (h.received_of_ended hserves hended).1
  · right
    rw [hserves.collected?_eq] at hcollected
    have hgone : stream.consumer = .gone := by
      by_contra hthere
      rw [(Client.Serves.drawn hserves).collected_eq_none hthere] at hcollected
      exact Bool.noConfusion hcollected
    cases h with
    | rests silent serves =>
      rw [serves.collected?_eq]
      exact hcollected
    | pollRelay serves =>
      rw [serves.collected?_eq]
      exact hcollected
    | leave serves =>
      rw [serves.collected?_eq]
      exact hcollected
    | next consumer | collect consumer | pollCollect consumer => simp [hgone] at consumer

theorem Serves.isDone_run (h : a.Serves name relay stream x handed put) (hc : Steady k a.client)
    (hdone : a.IsDone name) (events : List Event) : (a.run name events).IsDone name := by
  induction events generalizing a relay stream x handed put with
  | nil => exact hdone
  | cons event events ih =>
    have hmoves := h.moves hc event
    obtain ⟨relay', stream', x', handed', put', hserves⟩ := hmoves.serves
    exact ih hserves (hc.step event) (hmoves.isDone h hdone)

/-! ### A consumer that keeps asking -/

/-- The number of elements that the consumer has drawn: received, or collected so far. -/
def drawn (a : Account) (name : String) : ℕ :=
  a.received.length + (a.client.streams.get? name).elim 0 fun stream => stream.consumer.gathered

theorem Serves.drawn_eq (h : a.Serves name relay stream x handed put) :
    a.drawn name = a.received.length + stream.consumer.gathered := by
  rw [Account.drawn, h.found]
  rfl

/-- The relay has ended, or something is queued. -/
def Ready (relay : Relay) (x : Exchange) : Prop := relay = .over ∨ x.channel.queue ≠ []

/-- What a move brings a consumer that keeps asking: it is done, or can go on asking. -/
structure Brings (name : String) (pull event : Event) (a a' : Account) (relay : Relay) (x : Exchange) (relay' : Relay)
    (stream' : Stream) (x' : Exchange) : Prop where
  /-- It asks in the same way. -/
  way : pull? name stream'.consumer = some pull
  /-- It keeps what it has drawn. -/
  drawn : a.drawn name ≤ a'.drawn name
  /-- It draws something when it asks, if there is something. -/
  asks : event = pull → Ready relay x → a.drawn name < a'.drawn name
  /-- What there is stays until it asks. -/
  stays : event ≠ pull → event ≠ .pollRelay name → Ready relay x → Ready relay' x'
  /-- When the relay has run on there is something, or the exchange waits for its connection. -/
  runs : event = .pollRelay name → Ready relay' x' ∨ a'.client.Awaits name

theorem Moves.brings {a' : Account} {pull : Event} (h : Moves name a relay stream x handed put event a')
    (hserves : a.Serves name relay stream x handed put) (hpull : pull? name stream.consumer = some pull)
    (hleave : event ≠ .leave name) (hcollect : event ≠ .collect name) : a'.IsDone name ∨
      ∃ relay' stream' x' handed' put', a'.Serves name relay' stream' x' handed' put' ∧
        Brings name pull event a a' relay x relay' stream' x' := by
  -- a relay that has ended has let go of the channel
  have hready : Ready relay x → x.channel.queue ≠ [] ∨ x.channel.producing = false := by
    rintro (rfl | hqueue)
    · cases Client.Serves.puts hserves with
      | done producing => exact .inr producing
    · exact .inl hqueue
  cases h with
  | leave => exact absurd rfl hleave
  | collect => exact absurd rfl hcollect
  | rests silent serves =>
    refine .inr ⟨relay, stream, x, handed, put, serves, hpull, ?_, ?_, fun _ _ => id, ?_⟩
    · exact Nat.le_of_eq (hserves.drawn_eq.trans serves.drawn_eq.symm)
    · rintro rfl
      exact absurd hpull silent.2
    · exact fun hrelay => absurd hrelay silent.1
  | @pollRelay client taken relay' x' handed' put' serves stops =>
    have hstops : Ready relay' x' ∨ client.Awaits name := by
      rcases stops with hover | hqueue | hawaits
      · exact .inl (.inl hover)
      · exact .inl (.inr hqueue)
      · exact .inr hawaits
    refine .inr ⟨relay', stream, x', handed', put', serves, hpull, ?_, ?_, ?_, fun _ => hstops⟩
    · exact Nat.le_of_eq (hserves.drawn_eq.trans serves.drawn_eq.symm)
    · rintro rfl
      rcases pull?_eq_some hpull with ⟨-, hevent⟩ | ⟨items, -, hevent⟩ <;> simp at hevent
    · exact fun _ hne => absurd rfl hne
  | @next client x' received ended consumer received_eq ended_eq serves =>
    by_cases hended : ended = true
    · exact .inl (.inl hended)
    · rw [Bool.not_eq_true] at hended
      obtain rfl : .next name = pull := by
        rw [consumer] at hpull
        exact Option.some.inj hpull
      have hsees : (Consumer.stream.next x.channel).1.isEnd = false := by
        rw [hended] at ended_eq
        exact (Bool.or_eq_false_iff.mp ended_eq.symm).2
      refine .inr ⟨relay, stream, x', handed, put, hended ▸ serves, hpull, ?_, ?_, ?_, fun hrelay => by simp at hrelay⟩
      · rw [hserves.drawn_eq, Serves.drawn_eq serves, received_eq, List.length_append]
        omega
      · intro _ hnow
        have hasks := asks_next (hready hnow)
        rw [hsees, Bool.toNat_false] at hasks
        rw [hserves.drawn_eq, Serves.drawn_eq serves, received_eq, List.length_append]
        omega
      · exact fun hne => absurd rfl hne
  | @pollCollect client stream' x' items consumer serves gathers =>
    rcases gathers with hcollected | ⟨more, hmore, hqueue, hproducing⟩
    · left
      right
      rw [serves.collected?_eq]
      exact hcollected
    · obtain rfl : .pollCollect name = pull := by
        rw [consumer] at hpull
        exact Option.some.inj hpull
      have hdrawn : a.drawn name + more.length = a.received.length + stream'.consumer.gathered := by
        rw [hserves.drawn_eq, consumer, hmore, Consumer.gathered, Consumer.gathered, List.length_append]
        omega
      refine .inr ⟨relay, stream', x', handed, put, serves, ?_, ?_, ?_, ?_, fun hrelay => by simp at hrelay⟩
      · rw [hmore]
        rfl
      · rw [serves.drawn_eq]
        dsimp only
        omega
      · intro _ hnow
        have hne : more ≠ [] := by
          rintro rfl
          rcases hready hnow with hqueued | hfinished
          · exact hqueued hqueue
          · exact Bool.noConfusion (hfinished.symm.trans hproducing)
        have hpos := List.length_pos_iff.mpr hne
        rw [serves.drawn_eq]
        dsimp only
        omega
      · exact fun hne => absurd rfl hne

/-- Some time when the relay has run on, its exchange waits for its connection. -/
def Stalls (c : Client) (name : String) (events : List Event) : Prop :=
  ∃ before after, events = before ++ .pollRelay name :: after ∧ (c.run (before ++ [.pollRelay name])).Awaits name

theorem Stalls.cons {c : Client} {events : List Event} (h : Stalls (c.step event) name events) :
    Stalls c name (event :: events) := by
  obtain ⟨before, after, rfl, hawaits⟩ := h
  exact ⟨event :: before, after, rfl, hawaits⟩

/-- **A consumer that keeps asking** draws an element each time, unless it is done, or the exchange waits for its
connection. -/
theorem Serves.drawn_le_run {pull : Event} {more : List Event} (h : a.Serves name relay stream x handed put)
    (hc : Steady k a.client) (hpull : pull? name stream.consumer = some pull)
    (hmore : ∀ e ∈ more, e ≠ .leave name ∧ e ≠ .collect name) (count : ℕ) :
    ((rounds name pull count).Sublist more → (a.run name more).IsDone name ∨ Stalls a.client name more ∨
      a.drawn name + count ≤ (a.run name more).drawn name) ∧
    (Ready relay x → (pull :: rounds name pull count).Sublist more → (a.run name more).IsDone name ∨
      Stalls a.client name more ∨ a.drawn name + (count + 1) ≤ (a.run name more).drawn name) := by
  -- both at once: between a step of the relay and the next question there is something, whatever else happens
  induction more generalizing a relay stream x handed put count with
  | nil =>
    refine ⟨fun hsub => ?_, fun _ hsub => absurd (List.sublist_nil.mp hsub) (List.cons_ne_nil _ _)⟩
    cases count with
    | zero => exact .inr (.inr (Nat.le_refl _))
    | succ count => exact absurd (List.sublist_nil.mp hsub) (List.cons_ne_nil _ _)
  | cons event more ih =>
    obtain ⟨⟨hleave, hcollect⟩, hmore⟩ := List.forall_mem_cons.mp hmore
    have hmoves := h.moves hc event
    have hc' : Steady k (a.handle name event).client := hc.step event
    rw [run_cons]
    rcases hmoves.brings h hpull hleave hcollect with hdone | ⟨relay', stream', x', handed', put', hserves, hbrings⟩
    · obtain ⟨relay', stream', x', handed', put', hserves⟩ := hmoves.serves
      have hlater := hserves.isDone_run hc' hdone more
      exact ⟨fun _ => .inl hlater, fun _ _ => .inl hlater⟩
    · have hih := fun count => ih hserves hc' hbrings.way hmore count
      -- what is drawn later is drawn
      have hlater : ∀ {first last : ℕ}, a.drawn name + first ≤ (a.handle name event).drawn name + last →
          ((a.handle name event).run name more).IsDone name ∨ Stalls (a.handle name event).client name more ∨
            (a.handle name event).drawn name + last ≤ ((a.handle name event).run name more).drawn name →
          ((a.handle name event).run name more).IsDone name ∨ Stalls a.client name (event :: more) ∨
            a.drawn name + first ≤ ((a.handle name event).run name more).drawn name := by
        intro first last hle hout
        exact hout.imp_right (Or.imp Stalls.cons (Nat.le_trans hle))
      have hdrawn := hbrings.drawn
      constructor
      · intro hsub
        cases count with
        | zero => exact hlater (by omega) ((hih 0).1 (List.nil_sublist _))
        | succ count =>
          rw [rounds] at hsub
          cases hsub with
          | cons _ hsub => exact hlater (by omega) ((hih (count + 1)).1 hsub)
          | cons_cons _ hsub =>
            rcases hbrings.runs rfl with hready | hawaits
            · exact hlater (by omega) ((hih count).2 hready hsub)
            · exact .inr (.inl ⟨[], more, rfl, hawaits⟩)
      · intro hready hsub
        by_cases hevent : event = pull
        · have hasks := hbrings.asks hevent hready
          have hrest : (rounds name pull count).Sublist more := by
            cases hsub with
            | cons _ hsub => exact (List.sublist_cons_self _ _).trans hsub
            | cons_cons _ hsub => exact hsub
          exact hlater (by omega) ((hih count).1 hrest)
        · cases hsub with
          | cons_cons _ hsub => exact absurd rfl hevent
          | cons _ hsub =>
            by_cases hrelay : event = .pollRelay name
            · subst hrelay
              rcases hbrings.runs rfl with hready | hawaits
              · exact hlater (by omega) ((hih count).2 hready hsub)
              · exact .inr (.inl ⟨[], more, rfl, hawaits⟩)
            · exact hlater (by omega) ((hih count).2 (hbrings.stays hevent hrelay hready) hsub)

/-- **A consumer that keeps asking comes to the end**, if it asks once more often than there are elements and is not
interrupted, unless the exchange waits for its connection. -/
theorem Serves.comes_to_end {pull : Event} {more : List Event} (h : a.Serves name relay stream x handed put)
    (hc : Steady k a.client) (hpull : pull? name stream.consumer = some pull)
    (hmore : ∀ e ∈ more, e ≠ .leave name ∧ e ≠ .collect name)
    (hrounds : (rounds name pull (((a.run name more).told name).length + 1)).Sublist more) :
    (a.run name more).IsDone name ∨ Stalls a.client name more := by
  obtain ⟨_, stream', _, _, _, hserves⟩ := h.run hc more
  have hle : (a.run name more).drawn name ≤ ((a.run name more).told name).length := by
    rw [hserves.drawn_eq]
    exact hserves.length_le
  rcases (h.drawn_le_run hc hpull hmore _).1 hrounds with hdone | hstalls | hdrawn
  · exact .inl hdone
  · exact .inr hstalls
  · omega

/-- A stream of which the truth is told, now and whatever happens next. -/
structure Truthful (a : Account) (name : String) : Prop extends Faithful a name where
  /-- What the relay takes comes off the front of what its connection has not read, and the rest stays there, or is given
  up. -/
  takes : ∀ item before after rest, a.client.relays.get? name = some (.exchanging item) →
    a.client.connections[item]? = some before →
    (a.handle name (.pollRelay name)).client.connections[item]? = some after → after.connection.unread? = some rest →
    ∃ bytes, (a.handle name (.pollRelay name)).taken = a.taken ++ bytes ∧
      before.connection.unread? = some (bytes ++ rest)
  /-- A consumer that has seen the end receives nothing more. -/
  final : a.ended = true → ∀ more, (a.run name more).received = a.received
  /-- A consumer that keeps asking comes to the end, unless the exchange waits for its connection. -/
  comes : ∀ stream pull more, a.client.streams.get? name = some stream → pull? name stream.consumer = some pull →
    (∀ e ∈ more, e ≠ .leave name ∧ e ≠ .collect name) →
    (rounds name pull (((a.run name more).told name).length + 1)).Sublist more →
    (a.run name more).IsDone name ∨ Stalls a.client name more

theorem Serves.truthful (h : a.Serves name relay stream x handed put) (hc : Steady k a.client) : a.Truthful name where
  toFaithful := h.faithful
  takes item before after rest hrelay hbefore hafter hrest := by
    refine ⟨a.client.takes name, ?_, unread?_pollRelay hrelay hbefore hafter hrest⟩
    rw [handle, takesIn, if_pos rfl]
  final hended more := h.received_run hc hended more
  comes other pull more hget hpull hmore hrounds := by
    obtain rfl := Option.some.inj (h.found.symm.trans hget)
    exact h.comes_to_end hc hpull hmore hrounds

/-- In a client in which nothing has happened there is no stream. -/
theorem tracks_ofConfig {config : Config} {dial : Dial} {wall : Instant} {c : Client}
    (hclient : ofConfig config dial wall = .ok c) (name : String) : (start c).Tracks name := by
  obtain ⟨-, hconnections, hcalls, hrelays, hstreams⟩ := parts_ofConfig hclient
  refine .pending ⟨?_, ?_, fun hanswered => ?_, fun _ => ?_⟩ ⟨rfl, rfl, rfl⟩
  · rw [start, hrelays]
    rfl
  · rw [start, hstreams]
    rfl
  · obtain ⟨call, hget⟩ := answered?_eq_some hanswered
    rw [start, hcalls] at hget
    simp at hget
  · rw [hasExchanged, start, hconnections]
    rfl

end Account

/-- **A stream of items ends truthfully.** Whatever the server sends, however the retrieval fails, and whenever the
consumer asks: a call that has answered with a stream brings the items whose blocks are complete, in their order; then it
ends, if the reply has come to its end line, and otherwise brings the error of the command, as its last element. Who
collects has all items in the one case, and the error in the other. -/
theorem stream_ends_truthfully {config : Config} {dial : Dial} {wall : Instant} {start : Client} {name : String}
    {events : List Event} (hclient : ofConfig config dial wall = .ok start)
    (hstream : (start.run events).answered? name = some (.ok .stream)) :
    (Account.run name (.start start) events).Truthful name := by
  have hsteady : Steady config.maxConnections start := steady_ofConfig hclient
  have hclient_run : (Account.run name (.start start) events).client = start.run events := Account.client_run _ _ _
  cases (Account.tracks_ofConfig hclient name).run hsteady events with
  | pending pending =>
    rw [← hclient_run] at hstream
    exact absurd hstream pending.answered
  | serves serves =>
    refine serves.truthful (k := config.maxConnections) ?_
    rw [hclient_run]
    exact hsteady.run events

/-- The slow consumer wakes up: it receives an element, which makes room for the error, and goes on to the end. -/
def lateConsumer : List Event :=
  slowConsumer ++ .next "m" :: .pollRelay "m" :: List.replicate 17 (.next "m")

/-- It receives all items, then the error of its retrieval, and then sees the end. -/
theorem stream_ends_truthfully_of_late_consumer : ofConfig twoRequests .established (.ofParts 0 0) = .ok pair ∧
    (pair.run lateConsumer).answered? "m" = some (.ok .stream) ∧
    (Account.run "m" (.start pair) lateConsumer).ended = true ∧
    (Account.run "m" (.start pair) lateConsumer).received =
      List.replicate 16 (.ok ⟨"k", 0, none, []⟩) ++ [.error (.protocol (.malformedItem "?"))] ∧
    (Account.run "m" (.start pair) lateConsumer).Truthful "m" := by
  have hclient : ofConfig twoRequests .established (.ofParts 0 0) = .ok pair := rfl
  have hstream : (pair.run lateConsumer).answered? "m" = some (.ok .stream) := by decide +kernel
  exact ⟨hclient, hstream, by decide +kernel, by decide +kernel, stream_ends_truthfully hclient hstream⟩

end Client

end MemcachedClient
