import MemcachedClient.Proofs.Response.Cutting
import MemcachedClient.Proofs.Response.Replies

/-!
# A reply that is streamed

How the producer of a retrieval of several keys reads its reply, from wherever it stands in it. What it waits for
(`Reply.Awaits`) is said by the bytes that it has not read, which come in any pieces: the items of the blocks before it,
and behind the end line the bytes that are not its own. What a piece makes of that (`Reply.Streams`) depends on the
consumer in one place only, where a complete item is handed over (`Reply.deliver_cases`): the item is queued, or it is
lost because nobody receives, or the queue is full and the producer waits with it. The bytes that are read are those of
the reply each time, and so the producer comes to an end just with the end line (`Reader.streams_readReply`).
-/

namespace MemcachedClient.Response

/-- A scanner takes a byte at least for its answer. -/
theorem length_lt_of_done {σ α : Type} {step : σ → UInt8 → Step σ α} {state : σ} {answer : α} {bytes rest : Bytes}
    (h : scan step state bytes = (.done answer, rest)) : rest.length < bytes.length := by
  induction bytes generalizing state with
  | nil => simp at h
  | cons byte bytes ih =>
    rw [scan] at h
    cases hstep : step state byte with
    | more next =>
      rw [hstep] at h
      exact Nat.lt_succ_of_lt (ih h)
    | held next => simp [hstep] at h
    | done found =>
      simp only [hstep, Prod.mk.injEq] at h
      rw [h.2, List.length_cons]
      exact Nat.lt_succ_self _

namespace Reply

variable {command : Command} {further later rest piece : Bytes} {items : List Item} {item : Item}
  {channel between : ItemChannel} {count : ℕ} {reply : Reply} {block : ItemState}

/-- A retrieval of several keys that has these bytes before it, and so these items. It has counted `count` items; behind
the end line stand the bytes `further`. -/
inductive Awaits (further : Bytes) (count : ℕ) (rest : Bytes) : List Item → Reply → Prop where
  /-- A block comes to its end, and others follow. -/
  | item {item : Item} {items : List Item} {block : ItemState}
    (block_eq : scan ItemState.step block rest = (.done (.ok (some item)), blocksOf items ++ further)) :
    Awaits further count rest (item :: items) (many count block)
  /-- The end line comes to its end. -/
  | last {block : ItemState} (block_eq : scan ItemState.step block rest = (.done (.ok none), further)) :
    Awaits further count rest [] (many count block)
  /-- An item waits for room. -/
  | room {item : Item} {items : List Item} (rest_eq : rest = blocksOf items ++ further) :
    Awaits further count rest (item :: items) (offering count item)

theorem awaits_start (h : ∀ item ∈ items, Legible item) (hrest : rest = blocksOf items ++ further) (count : ℕ) :
    Awaits further count rest items (many count .start) := by
  subst hrest
  cases items with
  | nil => exact .last (ItemState.scan_end further)
  | cons item items =>
    rw [blocksOf_cons]
    exact .item (ItemState.scan_block (h item List.mem_cons_self) _)

/-- What a retrieval waits for is longer than what stands behind its reply. -/
theorem Awaits.length_lt (h : Awaits further count rest items reply) : further.length < rest.length := by
  cases h with
  | item heq =>
    have hlt := length_lt_of_done heq
    rw [List.length_append] at hlt
    omega
  | last heq => exact length_lt_of_done heq
  | @room item items heq =>
    have hend : 0 < (lineOf ["END"]).length := by decide
    rw [heq, blocksOf, List.length_append, List.length_append]
    omega

/-! ### Reading on -/

/-- What a piece of the stream makes of a retrieval that had these items before it: the items of `taken` were handed
over, and it waits for those of `left`, or it has come to the end. The bytes `later` come behind the piece. -/
inductive Streams (further : Bytes) (count : ℕ) (items : List Item) (channel : ItemChannel) (later : Bytes) :
    Step State Answer × Bytes → Prop where
  /-- It needs more bytes. -/
  | more {taken left : List Item} {reply : Reply} {after : ItemChannel} (parts : items = taken ++ left)
    (handed : Handed channel after taken)
    (awaits : Awaits further (count + (kept channel taken).length) later left reply) :
    Streams further count items channel later (.more (reply, after), [])
  /-- It waits for room. -/
  | held {taken left : List Item} {reply : Reply} {after : ItemChannel} {rest : Bytes} (parts : items = taken ++ left)
    (handed : Handed channel after taken)
    (awaits : Awaits further (count + (kept channel taken).length) (rest ++ later) left reply)
    (consuming : after.consuming = true) (full : after.capacity ≤ after.queue.length) :
    Streams further count items channel later (.held (reply, after), rest)
  /-- It has come to the end, with the last byte of the end line. -/
  | done {after : ItemChannel} {rest : Bytes} (handed : Handed channel after items) (behind : rest ++ later = further) :
    Streams further count items channel later
      (.done (.ok (.delivered (count + (kept channel items).length)), after), rest)

/-- Items that were handed over before count as well. -/
theorem Streams.hand {first : List Item} {result : Step State Answer × Bytes} (hfirst : Handed channel between first)
    (h : Streams further (count + (kept channel first).length) items between later result) :
    Streams further count (first ++ items) channel later result := by
  have hcount : ∀ taken, count + (kept channel first).length + (kept between taken).length =
      count + (kept channel (first ++ taken)).length := by
    intro taken
    rw [kept_append, List.length_append, ← Nat.add_assoc, kept, kept, kept, hfirst.consuming]
  cases h with
  | more parts handed awaits =>
    rw [hcount] at awaits
    exact .more (by rw [parts, List.append_assoc]) (hfirst.trans handed) awaits
  | held parts handed awaits consuming full =>
    rw [hcount] at awaits
    exact .held (by rw [parts, List.append_assoc]) (hfirst.trans handed) awaits consuming full
  | done handed behind =>
    rw [hcount]
    exact .done (hfirst.trans handed) behind

/-- A complete item is handed over, and then the rest of the piece is read. -/
theorem streams_deliver (hrest : piece ++ later = blocksOf items ++ further)
    (hscan : ∀ count channel,
      Streams further count items channel later (scan (step command) (many count .start, channel) piece)) :
    Streams further count (item :: items) channel later
      ((deliver count item channel).goOn (step command) piece) := by
  rcases deliver_cases count item channel with ⟨between, hhanded, heq⟩ | ⟨hc, hfull, heq⟩
  · rw [heq]
    exact (hscan _ between).hand hhanded
  · rw [heq]
    have hawaits : Awaits further (count + (kept channel []).length) (piece ++ later) (item :: items)
        (offering count item) := by
      rw [kept_nil]
      exact .room hrest
    exact .held (List.nil_append _).symm (Handed.refl channel) hawaits hc hfull

/-- **A piece of the stream** is read as far as the reply goes and the channel has room. -/
theorem streams_scan (command : Command) (h : ∀ item ∈ items, Legible item)
    (hawaits : Awaits further count (piece ++ later) items (many count block)) (channel : ItemChannel) :
    Streams further count items channel later (scan (step command) (many count block, channel) piece) := by
  induction piece generalizing items count block channel with
  | nil => exact .more (List.nil_append _).symm (Handed.refl channel) (by rwa [kept_nil])
  | cons byte piece ih =>
    rw [List.cons_append] at hawaits
    rw [scan, step_many]
    cases hawaits with
    | @item item items block heq =>
      rw [scan] at heq
      cases hstep : block.step byte with
      | more next =>
        rw [hstep] at heq
        exact ih h (.item heq) channel
      | held next => simp [hstep] at heq
      | done found =>
        rw [hstep] at heq
        obtain ⟨hfound, hrest⟩ := Prod.mk.inj heq
        obtain rfl := Step.done.inj hfound
        have hitems : ∀ item ∈ items, Legible item := fun other hmem => h other (List.mem_cons_of_mem item hmem)
        have hdeliver : Streams further count (item :: items) channel later
            ((deliver count item channel).goOn (step command) piece) :=
          streams_deliver hrest fun count channel => ih hitems (awaits_start hitems hrest count) channel
        rw [Step.embed, ofMany]
        cases hdelivered : deliver count item channel <;> rwa [hdelivered] at hdeliver
    | last heq =>
      rw [scan] at heq
      cases hstep : block.step byte with
      | more next =>
        rw [hstep] at heq
        exact ih h (.last heq) channel
      | held next => simp [hstep] at heq
      | done found =>
        rw [hstep] at heq
        obtain ⟨hfound, hrest⟩ := Prod.mk.inj heq
        obtain rfl := Step.done.inj hfound
        have hdone : Streams further count [] channel later
            (.done (.ok (.delivered (count + (kept channel []).length)), channel), piece) :=
          .done (Handed.refl channel) hrest
        rw [kept_nil] at hdone
        exact hdone

end Reply

namespace Reader

open Reply

variable {further later : Bytes} {items : List Item} {count : ℕ} {reply : Reply} {block : ItemState} {r : Reader}

theorem streams_run (command : Command) (h : ∀ item ∈ items, Legible item) (hr : r.Patient)
    (hopen : r.feed.ended = true → later.length ≤ further.length)
    (hawaits : Awaits further count (r.bytes ++ later) items (many count block)) (channel : ItemChannel) :
    ∃ stop after, r.run (Reply.step command) (many count block, channel) = (stop.soFar, after) ∧
      Streams further count items channel later (stop, after.bytes) ∧ after.Patient ∧
      after.feed.ended = r.feed.ended := by
  have hstreams := streams_scan command h hawaits channel
  obtain ⟨after, hrun, hbytes, hafter⟩ := run_of_patient (Reply.step command) hr (many count block, channel) (by
    intro hended state hmore
    generalize scan (Reply.step command) (many count block, channel) r.bytes = result at hstreams hmore
    cases hstreams with
    | more parts handed awaits => exact absurd awaits.length_lt (Nat.not_lt.mpr (hopen hended))
    | held parts handed awaits consuming full => simp at hmore
    | done handed behind => simp at hmore)
  exact ⟨_, after, hrun, hbytes ▸ hstreams, hafter⟩

/-- **Reading on**: the producer takes of the stream what belongs to its reply, as far as it has arrived and the channel
has room. -/
theorem streams_readReply (command : Command) (h : ∀ item ∈ items, Legible item) (hr : r.Patient)
    (hopen : r.feed.ended = true → later.length ≤ further.length)
    (hawaits : Awaits further count (r.bytes ++ later) items reply) (channel : ItemChannel) :
    ∃ stop after, r.readReply command (reply, channel) = (stop.soFar, after) ∧
      Streams further count items channel later (stop, after.bytes) ∧ after.Patient ∧
      after.feed.ended = r.feed.ended := by
  cases hawaits with
  | item heq => exact streams_run command h hr hopen (.item heq) channel
  | last heq => exact streams_run command h hr hopen (.last heq) channel
  | @room item items heq =>
    have hitems : ∀ item ∈ items, Legible item := fun other hmem => h other (List.mem_cons_of_mem item hmem)
    rw [readReply, resume]
    rcases deliver_cases count item channel with ⟨between, hhanded, hdeliver⟩ | ⟨hc, hfull, hdeliver⟩
    · rw [hdeliver]
      obtain ⟨stop, after, hrun, hstreams, hafter⟩ :=
        streams_run command hitems hr hopen (awaits_start hitems heq _) between
      exact ⟨stop, after, hrun, hstreams.hand hhanded, hafter⟩
    · rw [hdeliver]
      have hstreams : Streams further count (item :: items) channel later
          (.held (offering count item, channel), r.bytes) := by
        refine .held (List.nil_append _).symm (Handed.refl channel) ?_ hc hfull
        rw [kept_nil]
        exact .room heq
      exact ⟨_, r, rfl, hstreams, hr, rfl⟩

end Reader

end MemcachedClient.Response
