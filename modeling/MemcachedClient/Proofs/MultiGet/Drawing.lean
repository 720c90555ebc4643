import MemcachedClient.Proofs.MultiGet.Chronicle
import MemcachedClient.Proofs.Response.Alone

/-!
# What a consumer draws from a channel

What was put into a channel is, in its order, what the consumer has received one by one, what it has collected since,
and what is queued (`Drawn`). Whatever one of the two sides does keeps this: items are handed over, an error is offered
and the producer leaves; the consumer receives, collects or leaves. So a consumer that has seen the end has received
everything, and one that has collected has the rest of it, or the error in it (`Collects`).

A consumer that asks for an element while something is queued, or when the producer is gone, does not ask in vain
(`asks_next`).
-/

namespace MemcachedClient

open Response

variable {channel after : ItemChannel} {put received : List (Except ClientError Item)} {ended : Bool}
  {consumer : Consumer} {collected : Option (Except ClientError (List Item))} {items : List Item}

/-- What collecting comes to, of what was put and not received before: all of it, or an error, behind some items. -/
def Collects (put received : List (Except ClientError Item)) : Except ClientError (List Item) → Prop
  | .ok items => put = received ++ items.map .ok
  | .error cause => ∃ items : List Item, received ++ (items.map .ok ++ [.error cause]) <+: put

/-- Where a consumer stands. -/
inductive Draws (channel : ItemChannel) (put received : List (Except ClientError Item)) :
    Consumer → Option (Except ClientError (List Item)) → Prop where
  /-- It receives one element at a time. -/
  | stream (consuming : channel.consuming = true) (drawn : put = received ++ channel.queue) :
    Draws channel put received .stream none
  /-- It collects, and has these items so far. -/
  | collecting {items : List Item} (consuming : channel.consuming = true)
    (drawn : put = received ++ (items.map .ok ++ channel.queue)) : Draws channel put received (.collecting items) none
  /-- It has left, or has collected everything. -/
  | gone {collected : Option (Except ClientError (List Item))} (left : channel.consuming = false)
    (drawn : received <+: put)
    (collects : ∀ answer, collected = some answer → channel.producing = false ∧ Collects put received answer) :
    Draws channel put received .gone collected

/-- A consumer draws what was put. -/
structure Drawn (channel : ItemChannel) (put received : List (Except ClientError Item)) (ended : Bool)
    (consumer : Consumer) (collected : Option (Except ClientError (List Item))) : Prop where
  /-- It has what is not queued. -/
  place : Draws channel put received consumer collected
  /-- When it has seen the end, the producer is gone, and it has received everything. -/
  seen : ended = true → channel.producing = false ∧ put = received

namespace Response.ItemChannel

/-- Draining takes all items, or those before the first error. -/
theorem drain_cases (items : List Item) (producing : Bool) (queue : List (Except ClientError Item)) :
    (∃ more : List Item, queue = more.map .ok ∧ drain items producing queue =
      (items ++ more, if producing then none else some (.ok (items ++ more)))) ∨
    ∃ (more : List Item) (cause : ClientError) (rest : List (Except ClientError Item)),
      queue = more.map .ok ++ .error cause :: rest ∧
        drain items producing queue = (items ++ more, some (.error cause)) := by
  induction queue generalizing items with
  | nil =>
    refine .inl ⟨[], rfl, ?_⟩
    rw [drain, List.append_nil]
  | cons element queue ih =>
    cases element with
    | error cause =>
      refine .inr ⟨[], cause, queue, rfl, ?_⟩
      rw [drain, List.append_nil]
    | ok item =>
      rw [drain]
      rcases ih (items ++ [item]) with ⟨more, rfl, heq⟩ | ⟨more, cause, rest, rfl, heq⟩
      · refine .inl ⟨item :: more, rfl, ?_⟩
        rw [heq, List.append_assoc, List.singleton_append]
      · refine .inr ⟨item :: more, cause, rest, rfl, ?_⟩
        rw [heq, List.append_assoc, List.singleton_append]

end Response.ItemChannel

namespace Drawn

theorem start (capacity : ℕ) : Drawn (Channel.ofCapacity capacity) [] [] false .stream none :=
  ⟨.stream rfl rfl, fun hended => Bool.noConfusion hended⟩

/-! ### The producer -/

/-- Items are handed over. -/
theorem handed (h : Drawn channel put received ended consumer collected) (hproducing : channel.producing = true)
    {new : List Item} (hhanded : Reply.Handed channel after new) :
    Drawn after (put ++ new.map .ok) received ended consumer collected := by
  have hgrew := hhanded.grew
  rw [Reply.Grew] at hgrew
  refine ⟨?_, fun hended => ?_⟩
  · cases h.place with
    | stream consuming drawn =>
      refine .stream (hhanded.consuming.trans consuming) ?_
      rw [hgrew, Reply.kept_of_consuming consuming, drawn, List.append_assoc]
    | collecting consuming drawn =>
      refine .collecting (hhanded.consuming.trans consuming) ?_
      rw [hgrew, Reply.kept_of_consuming consuming, drawn, List.append_assoc, List.append_assoc]
    | gone left drawn collects =>
      refine .gone (hhanded.consuming.trans left) (drawn.trans (List.prefix_append _ _)) fun answer hanswer => ?_
      exact Bool.noConfusion ((collects answer hanswer).1.symm.trans hproducing)
  · exact Bool.noConfusion ((h.seen hended).1.symm.trans hproducing)

/-- One more element is accepted. -/
theorem accepted (h : Drawn channel put received ended consumer collected) (hproducing : channel.producing = true)
    {element : Except ClientError Item} (haccepted : channel.offer element = .accepted after) :
    Drawn after (put ++ [element]) received ended consumer collected ∧ after.producing = true ∧
      after.capacity = channel.capacity := by
  have hconsuming : channel.consuming = true := by
    by_contra hgone
    rw [Channel.offer, if_pos hgone] at haccepted
    simp at haccepted
  obtain rfl : { channel with queue := channel.queue ++ [element] } = after := by
    rw [Channel.offer, if_neg (by simp [hconsuming])] at haccepted
    split at haccepted
    · simp at haccepted
    · exact Channel.Offer.accepted.inj haccepted
  refine ⟨⟨?_, fun hended => ?_⟩, hproducing, rfl⟩
  · cases h.place with
    | stream consuming drawn =>
      refine .stream consuming ?_
      rw [drawn, List.append_assoc]
    | collecting consuming drawn =>
      refine .collecting consuming ?_
      rw [drawn, List.append_assoc, List.append_assoc]
    | gone left => exact Bool.noConfusion (left.symm.trans hconsuming)
  · exact Bool.noConfusion ((h.seen hended).1.symm.trans hproducing)

/-- One more element is refused, since nobody would receive it. -/
theorem refused (h : Drawn channel put received ended consumer collected) (hproducing : channel.producing = true)
    {element : Except ClientError Item} (hrefused : channel.offer element = .refused) :
    Drawn channel (put ++ [element]) received ended consumer collected := by
  have hgone : channel.consuming = false := by
    by_contra hconsuming
    rw [Channel.offer, if_neg (by simpa using hconsuming)] at hrefused
    split at hrefused <;> simp at hrefused
  refine ⟨?_, fun hended => ?_⟩
  · cases h.place with
    | stream consuming | collecting consuming => exact Bool.noConfusion (hgone.symm.trans consuming)
    | gone left drawn collects =>
      refine .gone left (drawn.trans (List.prefix_append _ _)) fun answer hanswer => ?_
      exact Bool.noConfusion ((collects answer hanswer).1.symm.trans hproducing)
  · exact Bool.noConfusion ((h.seen hended).1.symm.trans hproducing)

/-- The producer leaves. -/
theorem finish (h : Drawn channel put received ended consumer collected) :
    Drawn channel.finish put received ended consumer collected := by
  refine ⟨?_, fun hended => ⟨rfl, (h.seen hended).2⟩⟩
  cases h.place with
  | stream consuming drawn => exact .stream consuming drawn
  | collecting consuming drawn => exact .collecting consuming drawn
  | gone left drawn collects => exact .gone left drawn fun answer hanswer => ⟨rfl, (collects answer hanswer).2⟩

/-! ### The consumer -/

/-- A consumer that has not left has not collected everything. -/
theorem collected_eq_none (h : Drawn channel put received ended consumer collected) (hthere : consumer ≠ .gone) :
    collected = none := by
  cases h.place with
  | stream | collecting => rfl
  | gone => exact absurd rfl hthere

/-- What was received was put. -/
theorem prefix_put (h : Drawn channel put received ended consumer collected) : received <+: put := by
  cases h.place with
  | stream consuming drawn => exact ⟨_, drawn.symm⟩
  | collecting consuming drawn => exact ⟨_, drawn.symm⟩
  | gone left drawn => exact drawn

/-- The consumer receives one element. -/
theorem next (h : Drawn channel put received ended .stream none) : Drawn (channel.handle .receive) put
    (received ++ (Consumer.stream.next channel).1.element?.toList)
    (ended || (Consumer.stream.next channel).1.isEnd) .stream none := by
  obtain ⟨capacity, queue, producing, consuming⟩ := channel
  obtain ⟨⟨consuming, drawn⟩, seen⟩ := h
  cases queue with
  | cons element queue =>
    refine ⟨.stream consuming ?_, fun hended => ?_⟩
    · rw [drawn]
      exact (List.append_assoc received [element] queue).symm
    · have hended : ended = true := by simpa [Consumer.next, Channel.receive, StreamReport.isEnd] using hended
      have hall := (seen hended).2
      rw [drawn] at hall
      simp at hall
  | nil =>
    rw [List.append_nil] at drawn
    cases producing with
    | true =>
      refine ⟨.stream consuming ?_, fun hended => ?_⟩
      · exact drawn.trans (by simp [Consumer.next, Channel.receive, StreamReport.element?, Channel.handle])
      · have hended : ended = true := by simpa [Consumer.next, Channel.receive, StreamReport.isEnd] using hended
        exact Bool.noConfusion (seen hended).1
    | false =>
      refine ⟨.stream consuming ?_, fun _ => ⟨rfl, ?_⟩⟩
      · exact drawn.trans (by simp [Consumer.next, Channel.receive, StreamReport.element?, Channel.handle])
      · exact drawn.trans (by simp [Consumer.next, Channel.receive, StreamReport.element?])

/-- The consumer begins to collect. -/
theorem collect (h : Drawn channel put received ended .stream none) :
    Drawn channel put received ended (.collecting []) none := by
  obtain ⟨⟨consuming, drawn⟩, seen⟩ := h
  exact ⟨.collecting consuming drawn, seen⟩

/-- A consumer that collects runs on. While there is a producer, no error was put. -/
theorem drain (h : Drawn channel put received ended (.collecting items) none)
    (hflow : ∀ cause, .error cause ∈ put → channel.producing = false) :
    (∃ answer, (Consumer.collecting items).collect channel = (.collected answer, .gone, channel.abandon) ∧
      Drawn (channel.handle .abandon) put received ended .gone (some answer)) ∨
    ∃ more : List Item, channel.queue = more.map .ok ∧ channel.producing = true ∧
      (Consumer.collecting items).collect channel = (.pending, .collecting (items ++ more), { channel with queue := [] }) ∧
        Drawn (channel.handle .drain) put received ended (.collecting (items ++ more)) none := by
  obtain ⟨⟨-⟩ | ⟨consuming, drawn⟩ | ⟨-⟩, seen⟩ := h
  have hprefix : received <+: put := ⟨_, drawn.symm⟩
  rcases Response.ItemChannel.drain_cases items channel.producing channel.queue with
    ⟨more, hqueue, heq⟩ | ⟨more, cause, rest, hqueue, heq⟩
  · rw [hqueue, ← List.map_append] at drawn
    cases hproducing : channel.producing with
    | true =>
      rw [hproducing] at heq
      refine .inr ⟨more, hqueue, rfl, ?_, .collecting consuming ?_, ?_⟩
      · simp only [Consumer.collect, hproducing, heq, if_true]
      · exact drawn.trans (by rw [Channel.handle, List.append_nil])
      · intro hended
        exact Bool.noConfusion ((seen hended).1.symm.trans hproducing)
    | false =>
      rw [hproducing] at heq
      refine .inl ⟨.ok (items ++ more), ?_, .gone rfl hprefix fun answer hanswer => ⟨hproducing, ?_⟩, seen⟩
      · simp only [Consumer.collect, hproducing, heq, Bool.false_eq_true, if_false]
      · obtain rfl := Option.some.inj hanswer
        exact drawn
  · rw [hqueue] at drawn
    have herror : .error cause ∈ put := by
      rw [drawn]
      simp
    refine .inl ⟨.error cause, ?_, .gone rfl hprefix fun answer hanswer => ⟨hflow cause herror, ?_⟩, seen⟩
    · simp only [Consumer.collect, heq]
    · obtain rfl := Option.some.inj hanswer
      refine ⟨items ++ more, rest, ?_⟩
      rw [drawn]
      simp

/-- The consumer leaves. -/
theorem leave (h : Drawn channel put received ended consumer collected) :
    Drawn (channel.handle .abandon) put received ended .gone collected := by
  refine ⟨.gone rfl h.prefix_put fun answer hanswer => ?_, h.seen⟩
  cases h.place with
  | stream | collecting => simp at hanswer
  | gone left drawn collects => exact collects answer hanswer

end Drawn

/-- A consumer that asks for an element receives one, or sees the end. -/
theorem asks_next (h : channel.queue ≠ [] ∨ channel.producing = false) :
    (Consumer.stream.next channel).1.element?.toList.length + (Consumer.stream.next channel).1.isEnd.toNat = 1 := by
  obtain ⟨capacity, queue, producing, consuming⟩ := channel
  cases queue with
  | cons element queue => rfl
  | nil =>
    obtain rfl := h.resolve_left fun hne => hne rfl
    rfl

end MemcachedClient
