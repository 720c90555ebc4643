import MemcachedClient.Proofs.Response.Alone

/-!
# Scanners that run in pieces

Two ways in which a scanner can be run in pieces make no difference. The bytes may come in any chunks: a
reader that has nothing but chunks before it makes of them what its scanner makes of their bytes in one piece
(`Reader.run_of_scan`, and `Reader.run_of_more` where that is not enough). And a scanner may be part of another
one, which keeps its state and goes on from its answer (`scan_embed`): so a line is read inside a block, and a block
inside a reply.
-/

namespace MemcachedClient.Response

variable {σ τ α β : Type}

/-- The step of a scanner that keeps the state of another one, and goes on from its answer. -/
def Step.embed (keep : σ → τ) (finish : α → Step τ β) : Step σ α → Step τ β
  | more state => more (keep state)
  | held state => held (keep state)
  | done answer => finish answer

/-- Scanning goes on from a step, unless the scanner has stopped there. -/
def Step.goOn (step : σ → UInt8 → Step σ α) (rest : Bytes) : Step σ α → Step σ α × Bytes
  | more state => scan step state rest
  | stopped => (stopped, rest)

/-- Such a scanner takes what the other one takes for its answer, and goes on behind it. -/
theorem scan_embed {inner : σ → UInt8 → Step σ α} {outer : τ → UInt8 → Step τ β} {keep : σ → τ}
    {finish : α → Step τ β}
    (h : ∀ state byte, outer (keep state) byte = (inner state byte).embed keep finish)
    {state : σ} {bytes rest : Bytes} {answer : α} (hscan : scan inner state bytes = (.done answer, rest)) :
    scan outer (keep state) bytes = (finish answer).goOn outer rest := by
  induction bytes generalizing state with
  | nil => simp at hscan
  | cons byte bytes ih =>
    simp only [scan, h] at hscan ⊢
    cases hstep : inner state byte with
    | more state =>
      rw [hstep] at hscan
      exact ih hscan
    | held state => simp [hstep] at hscan
    | done found =>
      rw [hstep] at hscan
      obtain ⟨e, rfl⟩ := Prod.mk.inj hscan
      rw [Step.done.injEq] at e
      rw [Step.embed, e]
      cases finish answer <;> rfl

/-- As long as the other one wants more, so does it. -/
theorem scan_embed_more {inner : σ → UInt8 → Step σ α} {outer : τ → UInt8 → Step τ β} {keep : σ → τ}
    {finish : α → Step τ β}
    (h : ∀ state byte, outer (keep state) byte = (inner state byte).embed keep finish)
    {state after : σ} {bytes rest : Bytes} (hscan : scan inner state bytes = (.more after, rest)) :
    scan outer (keep state) bytes = (.more (keep after), rest) := by
  induction bytes generalizing state with
  | nil =>
    obtain ⟨rfl, rfl⟩ : state = after ∧ [] = rest := by simpa using hscan
    rfl
  | cons byte bytes ih =>
    simp only [scan, h] at hscan ⊢
    cases hstep : inner state byte with
    | more state =>
      rw [hstep] at hscan
      exact ih hscan
    | held state => simp [hstep] at hscan
    | done found => simp [hstep] at hscan

/-- What a scanner that has stopped makes of its reader. -/
def Step.stop? : Step σ α → Option (Progress σ α)
  | more _ => none
  | held state => some (.held state)
  | done answer => some (.done answer)

namespace Reader

/-- The stream has nothing but chunks before its end. -/
def Chunked (r : Reader) : Prop := ∀ event ∈ r.feed.events, ∃ bytes, event = .chunk bytes

variable {step : σ → UInt8 → Step σ α} {stopped : Step σ α} {progress : Progress σ α} {rest : Bytes}

theorem pull_of_scan (r : Reader) {events : List FeedEvent}
    (hchunks : ∀ event ∈ events, ∃ bytes, event = .chunk bytes) (left : Option Duration) (state : σ) (clock : Duration)
    (h : scan step state (events.flatMap FeedEvent.bytes) = (stopped, rest))
    (hstop : stopped.stop? = some progress) :
    ∃ after, pull step r left state clock events = (progress, after) ∧ after.bytes = rest ∧
      after.Chunked := by
  induction events generalizing left state with
  | nil =>
    rw [List.flatMap_nil, scan_nil, Prod.mk.injEq] at h
    rw [← h.1] at hstop
    simp [Step.stop?] at hstop
  | cons event events ih =>
    rw [List.forall_mem_cons] at hchunks
    obtain ⟨⟨bytes, rfl⟩, hrest⟩ := hchunks
    rw [List.flatMap_cons] at h
    cases bytes with
    | nil => exact ih hrest left state h
    | cons byte bytes =>
      rw [show (FeedEvent.chunk (byte :: bytes)).bytes = byte :: bytes from rfl, scan_append] at h
      rw [pull]
      · generalize scan step state (byte :: bytes) = result at h
        obtain ⟨result, tail⟩ := result
        cases result with
        | more state => exact ih hrest r.limit state h
        | held state =>
          obtain ⟨rfl, rfl⟩ := Prod.mk.inj h
          obtain rfl := Option.some.inj hstop
          exact ⟨{ r with buffer := tail, feed := { r.feed with events }, clock }, rfl, rfl, hrest⟩
        | done answer =>
          obtain ⟨rfl, rfl⟩ := Prod.mk.inj h
          obtain rfl := Option.some.inj hstop
          exact ⟨{ r with buffer := tail, feed := { r.feed with events }, clock }, rfl, rfl, hrest⟩
      · simp

/-- However the bytes before a reader are cut, it makes of them what its scanner makes of them in one piece,
and the bytes behind are left before it. -/
theorem run_of_scan {r : Reader} (hchunks : r.Chunked) {state : σ}
    (h : scan step state r.bytes = (stopped, rest)) (hstop : stopped.stop? = some progress) :
    ∃ after, r.run step state = (progress, after) ∧ after.bytes = rest ∧ after.Chunked := by
  rw [bytes, scan_append] at h
  rw [run]
  generalize scan step state r.buffer = result at h
  obtain ⟨result, tail⟩ := result
  cases result with
  | more state => exact r.pull_of_scan hchunks r.limit state r.clock h hstop
  | held state =>
    obtain ⟨rfl, rfl⟩ := Prod.mk.inj h
    obtain rfl := Option.some.inj hstop
    exact ⟨{ r with buffer := tail }, rfl, rfl, hchunks⟩
  | done answer =>
    obtain ⟨rfl, rfl⟩ := Prod.mk.inj h
    obtain rfl := Option.some.inj hstop
    exact ⟨{ r with buffer := tail }, rfl, rfl, hchunks⟩

/-- A scanner that wants more than there is comes to the end of the chunks. -/
theorem pull_of_more (r : Reader) {events : List FeedEvent}
    (hchunks : ∀ event ∈ events, ∃ bytes, event = .chunk bytes) {state after : σ} (clock : Duration)
    (h : scan step state (events.flatMap FeedEvent.bytes) = (.more after, rest)) :
    pull step r r.limit state clock events = pull step r r.limit after clock [] := by
  induction events generalizing state with
  | nil =>
    obtain ⟨rfl, -⟩ : after = state ∧ rest = [] := by simp_all
    rfl
  | cons event events ih =>
    rw [List.forall_mem_cons] at hchunks
    obtain ⟨⟨bytes, rfl⟩, hrest⟩ := hchunks
    rw [List.flatMap_cons] at h
    cases bytes with
    | nil => exact ih hrest h
    | cons byte bytes =>
      rw [show (FeedEvent.chunk (byte :: bytes)).bytes = byte :: bytes from rfl, scan_append] at h
      rw [pull]
      · generalize scan step state (byte :: bytes) = result at h
        obtain ⟨result, tail⟩ := result
        cases result with
        | more state => exact ih hrest h
        | held state => simp at h
        | done answer => simp at h
      · simp

/-- However the bytes before a reader are cut, a scanner that wants more of them comes to their end. -/
theorem run_of_more {r : Reader} (hchunks : r.Chunked) {state after : σ}
    (h : scan step state r.bytes = (.more after, rest)) :
    r.run step state = pull step r r.limit after r.clock [] := by
  rw [bytes, scan_append] at h
  rw [run]
  generalize scan step state r.buffer = result at h
  obtain ⟨result, tail⟩ := result
  cases result with
  | more between => exact r.pull_of_more hchunks r.clock h
  | held stopped => simp at h
  | done answer => simp at h

end Reader

end MemcachedClient.Response
