import MemcachedClient.Proofs.Response.Cutting

/-!
# Refills

A scanner that wants more bytes than its buffer has issues a read of the stream, and another one each time it has used
up what came. `Reader.refills` lists these reads as a reader without a limit issues them, each with the time at which it
is complete. Under a limit, each read counts for itself: as long as none of them takes longer, the limit does not show,
however long they take together (`Reader.run_of_within`). The first one that takes longer is given up just when the
limit has passed (`Reader.run_of_late`).

What a read that is given up was waiting for comes to the next one. The stream is as it was, but for the time that has
passed (`Feed.Elapsed`), and who reads on gets the same bytes at the same times as if it had gone on waiting
(`Reader.run_of_behind`).
-/

namespace MemcachedClient.Response

variable {σ α : Type}

/-! ### Time that passes -/

/-- What is still to come of the events after a time in which no read of them is complete. -/
inductive Feed.Elapsed (ended : Bool) (events : List FeedEvent) : Duration → List FeedEvent → Prop where
  /-- No time has passed. -/
  | start : Elapsed ended events 0 events
  /-- A pause is over. -/
  | pause {time more : Duration} {rest : List FeedEvent} (before : Elapsed ended events time (.pause more :: rest)) :
    Elapsed ended events (time + more) rest
  /-- A part of a pause is over. -/
  | part {time more part : Duration} {rest : List FeedEvent} (before : Elapsed ended events time (.pause more :: rest))
    (le : part ≤ more) : Elapsed ended events (time + part) (.pause (more - part) :: rest)
  /-- A chunk without bytes is passed over. -/
  | empty {time : Duration} {rest : List FeedEvent} (before : Elapsed ended events time (.chunk [] :: rest)) :
    Elapsed ended events time rest
  /-- The stream stays quiet. -/
  | quiet {time more : Duration} (before : Elapsed ended events time []) (quiet : ended = false) :
    Elapsed ended events (time + more) []

/-- The bytes that are still to come are those that were. -/
theorem Feed.Elapsed.bytes_eq {ended : Bool} {events rest : List FeedEvent} {time : Duration}
    (h : Feed.Elapsed ended events time rest) : rest.flatMap FeedEvent.bytes = events.flatMap FeedEvent.bytes := by
  induction h with
  | start => rfl
  | pause before ih => exact ih
  | part before le ih => exact ih
  | empty before ih => exact ih
  | quiet before quiet ih => exact ih

/-- A read of the stream. -/
structure Refill where
  /-- The reader when it issues the read. -/
  issuer : Reader
  /-- The time at which the read is complete, if it ever is. -/
  complete : Option Duration

namespace Refill

/-- The read is complete when the limit has passed since it was issued, or before. -/
def Within (limit : Duration) (refill : Refill) : Prop :=
  ∃ time ∈ refill.complete, time ≤ refill.issuer.clock + limit

instance (limit : Duration) (refill : Refill) : Decidable (refill.Within limit) :=
  inferInstanceAs (Decidable (∃ time ∈ refill.complete, time ≤ refill.issuer.clock + limit))

/-- The first of the reads that is not complete within the limit. -/
def firstLate? (limit : Duration) (refills : List Refill) : Option Refill :=
  refills.find? fun refill => ¬ refill.Within limit

variable {limit : Duration} {refill : Refill} {refills : List Refill}

theorem firstLate?_cons_of_within (h : refill.Within limit) :
    firstLate? limit (refill :: refills) = firstLate? limit refills :=
  List.find?_cons_of_neg (by simpa using h)

theorem firstLate?_cons_of_late (h : ¬ refill.Within limit) : firstLate? limit (refill :: refills) = some refill :=
  List.find?_cons_of_pos (by simpa using h)

theorem firstLate?_append (limit : Duration) (refills others : List Refill) :
    firstLate? limit (refills ++ others) = (firstLate? limit refills).or (firstLate? limit others) :=
  List.find?_append

theorem within_of_firstLate? (h : firstLate? limit (refill :: refills) = none) : refill.Within limit := by
  by_contra hlate
  rw [firstLate?_cons_of_late hlate] at h
  cases h

end Refill

namespace Reader

/-- The reader with another limit. -/
def withLimit (r : Reader) (limit : Option Duration) : Reader := { r with limit }

/-- The reader with an empty buffer, at this time and with these events to come. -/
def emptied (r : Reader) (clock : Duration) (events : List FeedEvent) : Reader :=
  { r with buffer := [], feed := { r.feed with events }, clock }

/-- The reads that a scanner issues without a limit, from the present one on, which was issued at the time `since` with
the events `issued` to come. -/
def refillsFrom (step : σ → UInt8 → Step σ α) (r : Reader) :
    Duration → List FeedEvent → σ → Duration → List FeedEvent → List Refill
  | since, issued, _, clock, [] => [⟨r.emptied since issued, if r.feed.ended then some clock else none⟩]
  | since, issued, state, clock, .chunk [] :: events => refillsFrom step r since issued state clock events
  | since, issued, state, clock, .chunk bytes :: events =>
    ⟨r.emptied since issued, some clock⟩ ::
      match scan step state bytes with
      | (.more state, _) => refillsFrom step r clock events state clock events
      | _ => []
  | since, issued, _, clock, .failure _ :: _ => [⟨r.emptied since issued, some clock⟩]
  | since, issued, state, clock, .pause time :: events => refillsFrom step r since issued state (clock + time) events

/-- The reads that a scanner issues without a limit. There is none if the buffer is enough. -/
def refills (step : σ → UInt8 → Step σ α) (state : σ) (r : Reader) : List Refill :=
  match scan step state r.buffer with
  | (.more state, _) => refillsFrom step r r.clock r.feed.events state r.clock r.feed.events
  | _ => []

variable {step : σ → UInt8 → Step σ α} {r later : Reader} {state : σ} {events issued : List FeedEvent}
  {limit left since clock time waited : Duration} {late : Refill}

@[simp] theorem withLimit_limit (limit : Option Duration) : (r.withLimit limit).limit = limit := rfl

@[simp] theorem withLimit_buffer (limit : Option Duration) : (r.withLimit limit).buffer = r.buffer := rfl

theorem pull_chunk (step : σ → UInt8 → Step σ α) (r : Reader) (left : Option Duration) (state : σ) (clock : Duration) (byte : UInt8)
    (bytes : Bytes) (events : List FeedEvent) : pull step r left state clock (.chunk (byte :: bytes) :: events) =
      match scan step state (byte :: bytes) with
      | (.more state, _) => pull step r r.limit state clock events
      | (.held state, rest) =>
        (.held state, { r with buffer := rest, feed := { r.feed with events }, clock })
      | (.done answer, rest) =>
        (.done answer, { r with buffer := rest, feed := { r.feed with events }, clock }) := by
  cases left <;> rfl

theorem refillsFrom_chunk (step : σ → UInt8 → Step σ α) (r : Reader) (since : Duration) (issued : List FeedEvent) (state : σ)
    (clock : Duration) (byte : UInt8) (bytes : Bytes) (events : List FeedEvent) :
    refillsFrom step r since issued state clock (.chunk (byte :: bytes) :: events) =
      ⟨r.emptied since issued, some clock⟩ ::
        match scan step state (byte :: bytes) with
        | (.more state, _) => refillsFrom step r clock events state clock events
        | _ => [] := rfl

theorem within_iff (issued : List FeedEvent) :
    (Refill.mk (r.emptied since issued) (some time)).Within limit ↔ time ≤ since + limit := by
  simp [Refill.Within, emptied]

/-- A read that has not used up its limit is within it. -/
theorem within_of_add_eq (h : time + left = since + limit) (issued : List FeedEvent) :
    (Refill.mk (r.emptied since issued) (some time)).Within limit :=
  (within_iff issued).mpr (h ▸ Duration.le_add_right time left)

/-- The present read is the first, and it is not complete yet. -/
theorem refillsFrom_eq_cons (step : σ → UInt8 → Step σ α) (r : Reader) (since : Duration) (issued : List FeedEvent)
    (state : σ) (clock : Duration) (events : List FeedEvent) :
    ∃ refill others, refillsFrom step r since issued state clock events = refill :: others ∧
      refill.issuer = r.emptied since issued ∧ ∀ limit, refill.Within limit → clock ≤ since + limit := by
  induction events generalizing clock with
  | nil =>
    refine ⟨_, _, rfl, rfl, fun limit => ?_⟩
    split
    · exact (within_iff issued).mp
    · rintro ⟨time, htime, -⟩
      cases htime
  | cons event events ih =>
    cases event with
    | failure cause => exact ⟨_, _, rfl, rfl, fun limit => (within_iff issued).mp⟩
    | pause time =>
      obtain ⟨refill, others, heq, hissuer, hle⟩ := ih (clock + time)
      refine ⟨refill, others, heq, hissuer, fun limit hwithin => ?_⟩
      have hover := hle limit hwithin
      grind
    | chunk bytes =>
      cases bytes with
      | nil => exact ih clock
      | cons byte bytes => exact ⟨_, _, rfl, rfl, fun limit => (within_iff issued).mp⟩

/-! ### Reads within the limit -/

theorem pull_of_within (hnone : r.limit = none) (hleft : since + limit = clock + left)
    (h : Refill.firstLate? limit (refillsFrom step r since issued state clock events) = none) :
    pull step (r.withLimit (some limit)) (some left) state clock events =
      (pull step r none state clock events).map id (·.withLimit (some limit)) := by
  induction events generalizing since issued state clock left with
  | nil =>
    cases hended : r.feed.ended with
    | true => simp [pull, hended, withLimit]
    | false =>
      obtain ⟨time, htime, -⟩ := Refill.within_of_firstLate? h
      simp [hended] at htime
  | cons event events ih =>
    cases event with
    | failure cause => rfl
    | pause time =>
      obtain ⟨refill, others, heq, -, hle⟩ := refillsFrom_eq_cons step r since issued state (clock + time) events
      have htime : time ≤ left := by
        rw [refillsFrom, heq] at h
        have hover := hle limit (Refill.within_of_firstLate? h)
        rwa [hleft, Duration.add_le_add_iff_left] at hover
      rw [pull.eq_def step r, pull, if_pos htime]
      exact ih (hleft.trans (Duration.add_add_sub clock htime).symm) h
    | chunk bytes =>
      cases bytes with
      | nil => exact ih hleft h
      | cons byte bytes =>
        rw [refillsFrom_chunk] at h
        have hfirst := Refill.within_of_firstLate? h
        rw [Refill.firstLate?_cons_of_within hfirst] at h
        rw [pull_chunk, pull_chunk]
        generalize scan step state (byte :: bytes) = result at h ⊢
        obtain ⟨result, rest⟩ := result
        cases result with
        | more state =>
          dsimp only
          rw [withLimit_limit, hnone]
          exact ih rfl h
        | held state => rfl
        | done answer => rfl

/-- **As long as each read is complete within it, a limit does not show**: the scanner comes to the same, at the same
time, and leaves the same. -/
theorem run_of_within (hnone : r.limit = none) (h : Refill.firstLate? limit (r.refills step state) = none) :
    (r.withLimit (some limit)).run step state = (r.run step state).map id (·.withLimit (some limit)) := by
  rw [refills] at h
  rw [run, run, withLimit_buffer]
  generalize scan step state r.buffer = result at h ⊢
  obtain ⟨result, rest⟩ := result
  cases result with
  | more state =>
    dsimp only
    rw [hnone]
    exact pull_of_within hnone rfl h
  | held state => rfl
  | done answer => rfl

/-! ### The first read that takes longer -/

/-- The present read was issued at the time `since` with the events `issued` to come, and has waited since then. -/
theorem pull_of_late (hlimit : clock + left = since + limit) (hwaited : waited + left = limit)
    (helapsed : Feed.Elapsed r.feed.ended issued waited events)
    (hlate : Refill.firstLate? limit (refillsFrom step r since issued state clock events) = some late) :
    ∃ stopped since issued rest, late.issuer = r.emptied since issued ∧
      Feed.Elapsed r.feed.ended issued limit rest ∧
      pull step (r.withLimit (some limit)) (some left) state clock events =
        (.timedOut stopped, (r.withLimit (some limit)).emptied (since + limit) rest) := by
  induction events generalizing since issued state clock left waited with
  | nil =>
    cases hended : r.feed.ended with
    | true =>
      rw [refillsFrom, if_pos hended, Refill.firstLate?_cons_of_within (within_of_add_eq hlimit issued)] at hlate
      cases hlate
    | false =>
      rw [refillsFrom, Refill.firstLate?_cons_of_late (by simp [Refill.Within, hended]), Option.some.injEq] at hlate
      refine ⟨state, since, issued, [], by rw [← hlate], ?_, ?_⟩
      · subst hwaited
        rw [hended] at helapsed
        exact helapsed.quiet rfl
      · simp [pull, hended, withLimit, emptied, hlimit]
  | cons event events ih =>
    cases event with
    | failure cause =>
      rw [refillsFrom, Refill.firstLate?_cons_of_within (within_of_add_eq hlimit issued)] at hlate
      cases hlate
    | pause time =>
      by_cases htime : time ≤ left
      · rw [pull, if_pos htime]
        exact ih ((Duration.add_add_sub clock htime).trans hlimit) ((Duration.add_add_sub waited htime).trans hwaited)
          helapsed.pause hlate
      · -- the read is not complete before the pause is over
        obtain ⟨refill, others, heq, hissuer, hle⟩ := refillsFrom_eq_cons step r since issued state (clock + time) events
        have hlong : ¬ refill.Within limit := by
          intro hwithin
          have hover := hle limit hwithin
          rw [← hlimit, Duration.add_le_add_iff_left] at hover
          exact htime hover
        rw [refillsFrom, heq, Refill.firstLate?_cons_of_late hlong, Option.some.injEq] at hlate
        refine ⟨state, since, issued, .pause (time - left) :: events, hlate ▸ hissuer, ?_, ?_⟩
        · rw [← hwaited]
          exact helapsed.part (Duration.le_of_not_le htime)
        · rw [pull, if_neg htime, hlimit]
          rfl
    | chunk bytes =>
      cases bytes with
      | nil => exact ih hlimit hwaited helapsed.empty hlate
      | cons byte bytes =>
        rw [refillsFrom_chunk, Refill.firstLate?_cons_of_within (within_of_add_eq hlimit issued)] at hlate
        rw [pull_chunk]
        generalize scan step state (byte :: bytes) = result at hlate ⊢
        obtain ⟨result, rest⟩ := result
        cases result with
        | more state => exact ih rfl (Duration.zero_add limit) .start hlate
        | held state => cases hlate
        | done answer => cases hlate

/-- **The first read that takes longer is given up when the limit has passed since it was issued**, and the time until
then has passed on the stream. -/
theorem run_of_late (hlate : Refill.firstLate? limit (r.refills step state) = some late) :
    ∃ stopped since issued rest, late.issuer = r.emptied since issued ∧
      Feed.Elapsed r.feed.ended issued limit rest ∧
      (r.withLimit (some limit)).run step state =
        (.timedOut stopped, (r.withLimit (some limit)).emptied (since + limit) rest) := by
  rw [refills] at hlate
  rw [run, withLimit_buffer]
  generalize scan step state r.buffer = result at hlate ⊢
  obtain ⟨result, rest⟩ := result
  cases result with
  | more state => exact pull_of_late rfl (Duration.zero_add limit) .start hlate
  | held state => cases hlate
  | done answer => cases hlate

/-- Without a limit no read is given up. -/
theorem pull_ne_timedOut (hnone : r.limit = none) (stopped : σ) :
    (pull step r none state clock events).1 ≠ .timedOut stopped := by
  induction events generalizing state clock with
  | nil =>
    rw [pull]
    split <;> simp
  | cons event events ih =>
    cases event with
    | failure cause => simp [pull]
    | pause time => exact ih
    | chunk bytes =>
      cases bytes with
      | nil => exact ih
      | cons byte bytes =>
        rw [pull_chunk]
        split
        · rw [hnone]
          exact ih
        · simp
        · simp

theorem run_ne_timedOut (hnone : r.limit = none) (stopped : σ) : (r.run step state).1 ≠ .timedOut stopped := by
  rw [run]
  split
  · rw [hnone]
    exact pull_ne_timedOut hnone stopped
  · simp
  · simp

/-! ### Reading on -/

/-- The reader without a limit, and the same one later, when time has passed in which no read of the stream is
complete. -/
structure Behind (r later : Reader) : Prop where
  /-- There is no limit. -/
  unlimited : r.limit = none
  /-- Nor is there one later. -/
  unlimited_later : later.limit = none
  /-- The buffer is the same. -/
  buffer : later.buffer = r.buffer
  /-- The stream has ended after the events or it has not. -/
  ended : later.feed.ended = r.feed.ended
  /-- Time has passed. -/
  elapsed : ∃ time, later.clock = r.clock + time ∧ Feed.Elapsed r.feed.ended r.feed.events time later.feed.events

theorem Behind.refl (hnone : r.limit = none) : Behind r r := ⟨hnone, hnone, rfl, rfl, 0, rfl, .start⟩

/-- Of the reader itself nothing counts but its limit and whether the stream ends. -/
theorem pull_congr (hlimit : later.limit = r.limit) (hended : later.feed.ended = r.feed.ended) (left : Option Duration) :
    pull step later left state clock events = pull step r left state clock events := by
  induction events generalizing left state clock with
  | nil => simp only [pull, hlimit, hended]
  | cons event events ih =>
    cases event with
    | failure cause => simp only [pull, hlimit, hended]
    | pause time =>
      cases left with
      | none => exact ih none
      | some left => simp only [pull, hlimit, hended, ih]
    | chunk bytes =>
      cases bytes with
      | nil => exact ih left
      | cons byte bytes => simp only [pull_chunk, hlimit, hended, ih]

/-- Who comes later finds the same, and is later by no more than the stream makes it. -/
theorem pull_of_elapsed (hnone : r.limit = none) (hnone' : later.limit = none)
    (hended : later.feed.ended = r.feed.ended) (h : Feed.Elapsed r.feed.ended issued time events) :
    (pull step later none state (clock + time) events).1 = (pull step r none state clock issued).1 ∧
      Behind (pull step r none state clock issued).2 (pull step later none state (clock + time) events).2 := by
  induction h with
  | start =>
    rw [Duration.add_zero, pull_congr (hnone'.trans hnone.symm) hended]
    exact ⟨rfl, .refl ((limit_pull _ _ _ _ _).trans hnone)⟩
  | pause before ih => rwa [pull, Duration.add_assoc] at ih
  | @part time more part rest before le ih =>
    have hover : clock + (time + part) + (more - part) = clock + time + more := by
      rw [← Duration.add_assoc, Duration.add_add_sub _ le]
    rw [pull] at ih
    rwa [pull, hover]
  | empty before ih => rwa [pull] at ih
  | @quiet time more before quiet ih =>
    rw [pull, if_neg (by simp [hended, quiet])] at ih ⊢
    obtain ⟨hsame, hbehind⟩ := ih
    obtain ⟨past, hpast, helapsed⟩ := hbehind.elapsed
    refine ⟨hsame, { hbehind with elapsed := ⟨past + more, ?_, helapsed.quiet ?_⟩ }⟩
    · change clock + (time + more) = _
      change clock + time = _ at hpast
      rw [← Duration.add_assoc, hpast, Duration.add_assoc]
    · rw [ended_pull, quiet]

/-- **Who reads on after a read that was given up gets what that read would have got**, and what comes after it. -/
theorem run_of_behind (h : Behind r later) (step : σ → UInt8 → Step σ α) (state : σ) :
    (later.run step state).1 = (r.run step state).1 ∧ Behind (r.run step state).2 (later.run step state).2 := by
  obtain ⟨time, hclock, helapsed⟩ := h.elapsed
  rw [run, run, h.buffer]
  generalize scan step state r.buffer = result
  obtain ⟨result, rest⟩ := result
  cases result with
  | more state =>
    dsimp only
    rw [h.unlimited, h.unlimited_later, hclock]
    exact pull_of_elapsed h.unlimited h.unlimited_later h.ended helapsed
  | held state => exact ⟨rfl, { h with buffer := rfl }⟩
  | done answer => exact ⟨rfl, { h with buffer := rfl }⟩

theorem refillsFrom_congr (hended : later.feed.ended = r.feed.ended) (since' : Duration) (issued' : List FeedEvent) :
    (refillsFrom step later since' issued' state clock events).map Refill.complete =
      (refillsFrom step r since issued state clock events).map Refill.complete := by
  induction events generalizing since since' issued issued' state clock with
  | nil => simp only [refillsFrom, hended, List.map_cons, List.map_nil]
  | cons event events ih =>
    cases event with
    | failure cause => rfl
    | pause time => exact ih since' issued'
    | chunk bytes =>
      cases bytes with
      | nil => exact ih since' issued'
      | cons byte bytes =>
        rw [refillsFrom_chunk, refillsFrom_chunk, List.map_cons, List.map_cons]
        split
        · exact congrArg _ (ih clock events)
        · rfl

theorem refillsFrom_of_elapsed (hended : later.feed.ended = r.feed.ended) (since' : Duration) (issued' : List FeedEvent)
    (h : Feed.Elapsed r.feed.ended issued time events) :
    (refillsFrom step later since' issued' state (clock + time) events).map Refill.complete =
      (refillsFrom step r since issued state clock issued).map Refill.complete := by
  induction h with
  | start => exact refillsFrom_congr hended since' issued'
  | pause before ih => rwa [refillsFrom, Duration.add_assoc] at ih
  | @part time more part rest before le ih =>
    have hover : clock + (time + part) + (more - part) = clock + time + more := by
      rw [← Duration.add_assoc, Duration.add_add_sub _ le]
    rw [refillsFrom] at ih
    rwa [refillsFrom, hover]
  | empty before ih => rwa [refillsFrom] at ih
  | quiet before quiet ih =>
    rw [refillsFrom, if_neg (by simp [hended, quiet])] at ih ⊢
    exact ih

/-- Its reads of the stream are complete when those would have been. -/
theorem refills_of_behind (h : Behind r later) :
    (later.refills step state).map Refill.complete = (r.refills step state).map Refill.complete := by
  obtain ⟨time, hclock, helapsed⟩ := h.elapsed
  rw [refills, refills, h.buffer, hclock]
  split
  · exact refillsFrom_of_elapsed h.ended _ _ helapsed
  · rfl

end Reader

end MemcachedClient.Response
