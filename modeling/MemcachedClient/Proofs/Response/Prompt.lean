import MemcachedClient.Proofs.Response.Cutting

/-!
# Streams whose reads neither fail nor come late

A stream may pause between its chunks. As long as none of its reads fails, and each comes within its limit
(`Reader.Prompt`), the pauses do not matter either: a scanner makes of the stream what it makes of its bytes in one
piece, and what is behind the answer is left (`Reader.run_of_prompt`). If the bytes are not enough for an answer,
the reading ends as the stream does (`Reader.starved`).
-/

namespace MemcachedClient.Response

variable {σ α : Type}

/-- None of these events is a failed read, and none makes a read take longer than its limit; `left` is what is left of
the limit of the present read. -/
def Feed.Prompt (limit : Option Duration) : Option Duration → List FeedEvent → Prop
  | _, [] => True
  | left, .chunk bytes :: events => Prompt limit (if bytes = [] then left else limit) events
  | _, .failure _ :: _ => False
  | none, .pause _ :: events => Prompt limit none events
  | some left, .pause time :: events => time ≤ left ∧ Prompt limit (some (left - time)) events

namespace Reader

/-- No read of what is still to come fails, and each comes within its limit. -/
def Prompt (r : Reader) : Prop := Feed.Prompt r.limit r.limit r.feed.events

/-- What becomes of a scanner that wants more than the stream has. -/
def starving (r : Reader) (state : σ) : Progress σ α :=
  if r.feed.ended then .ended state
  else if r.limit = none then .waiting state else .timedOut state

/-- What becomes of a scanner that was fed all of a stream. -/
def settle (r : Reader) : Step σ α → Progress σ α
  | .more state => r.starving state
  | .held state => .held state
  | .done answer => .done answer

/-- At the end of its events a stream leaves nothing. -/
theorem pull_nil (step : σ → UInt8 → Step σ α) (r : Reader) {left : Option Duration} (hleft : left.isSome = r.limit.isSome)
    (state : σ) (clock : Duration) : (pull step r left state clock []).1 = r.starving state ∧
      (pull step r left state clock []).2.bytes = [] := by
  rw [pull.eq_def]
  unfold starving
  cases hended : r.feed.ended with
  | true => simp [hended, bytes, Feed.bytes]
  | false => cases left <;> cases hlimit : r.limit <;> simp_all [bytes, Feed.bytes]

theorem pull_of_prompt (step : σ → UInt8 → Step σ α) (r : Reader) {events : List FeedEvent} {left : Option Duration}
    (h : Feed.Prompt r.limit left events) (hleft : left.isSome = r.limit.isSome) (state : σ) (clock : Duration) :
    ∃ after, pull step r left state clock events =
        (r.settle (scan step state (events.flatMap FeedEvent.bytes)).1, after) ∧
      after.bytes = (scan step state (events.flatMap FeedEvent.bytes)).2 := by
  induction events generalizing left state clock with
  | nil =>
    obtain ⟨hprogress, hrest⟩ := pull_nil step r hleft state clock
    exact ⟨_, Prod.ext hprogress rfl, hrest⟩
  | cons event events ih =>
    cases event with
    | failure cause => cases left <;> exact absurd h id
    | pause time =>
      cases left with
      | none => exact ih h hleft state (clock + time)
      | some left =>
        rw [pull, if_pos h.1]
        exact ih h.2 hleft state (clock + time)
    | chunk bytes =>
      cases bytes with
      | nil =>
        rw [Feed.Prompt, if_pos rfl] at h
        exact ih h hleft state clock
      | cons byte bytes =>
        rw [Feed.Prompt, if_neg (List.cons_ne_nil byte bytes)] at h
        rw [List.flatMap_cons, show (FeedEvent.chunk (byte :: bytes)).bytes = byte :: bytes from rfl, scan_append, pull]
        · generalize scan step state (byte :: bytes) = result
          obtain ⟨result, rest⟩ := result
          cases result with
          | more state => exact ih h rfl state clock
          | held state => exact ⟨_, rfl, rfl⟩
          | done answer => exact ⟨_, rfl, rfl⟩
        · simp

/-- **A stream whose reads neither fail nor come late is read as its bytes.** -/
theorem run_of_prompt (step : σ → UInt8 → Step σ α) {r : Reader} (h : r.Prompt) (state : σ) :
    ∃ after, r.run step state = (r.settle (scan step state r.bytes).1, after) ∧
      after.bytes = (scan step state r.bytes).2 := by
  rw [bytes, scan_append, run]
  generalize scan step state r.buffer = result
  obtain ⟨result, rest⟩ := result
  cases result with
  | more state => exact r.pull_of_prompt step h rfl state r.clock
  | held state => exact ⟨_, rfl, rfl⟩
  | done answer => exact ⟨_, rfl, rfl⟩

/-- A stream that has nothing but chunks before it is one of these. -/
theorem prompt_of_chunked {r : Reader} (h : r.Chunked) : r.Prompt := by
  unfold Prompt
  unfold Chunked at h
  generalize r.feed.events = events at h
  induction events with
  | nil => trivial
  | cons event events ih =>
    rw [List.forall_mem_cons] at h
    obtain ⟨⟨bytes, rfl⟩, hrest⟩ := h
    rw [Feed.Prompt]
    split <;> exact ih hrest

/-- The result of a call on a stream that has less than is called for; there is none as long as the stream stays
quiet. -/
def starved (r : Reader) : Option (Except ClientError α) :=
  if r.feed.ended then some (.error .endOfStream)
  else r.limit.map fun limit => .error (.timeout "receive" limit)

theorem result?_starving (r : Reader) (state : σ) :
    result? r.limit (r.starving state : Progress σ (Except ClientError α)) = r.starved := by
  unfold starving starved
  cases r.feed.ended with
  | true => rfl
  | false => cases r.limit <;> rfl

end Reader

end MemcachedClient.Response
