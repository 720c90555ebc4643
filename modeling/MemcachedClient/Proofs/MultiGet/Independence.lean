import MemcachedClient.Proofs.MultiGet.Chronicle
import Mathlib.Data.List.Induction

/-!
# A retrieval does not depend on its consumer

Whatever the consumer of a retrieval does, and whenever its producer goes on, the producer reads the same bytes: those
of its reply, and none behind (`independent_of_consumer`). What the consumer decides is which items are accepted.

That a consumer gets everything if it keeps pulling is counted in answers: each round in which the producer goes on and
then the consumer asks brings one more item, or the end (`pulls_le`). The rounds may be spread over the run in any
way.
-/

namespace MemcachedClient.MultiGet.Chronicle

open Response Response.Reply

variable {items : List Item} {further arrived : Bytes} {capacity : ℕ} {c : Chronicle}

/-! ### What a retrieval shows -/

theorem Sound.accepted_prefix (h : Sound items further capacity arrived c) : c.accepted <+: items.map .ok := by
  obtain ⟨taken, left, later, hitems, -, haccepted, -, -⟩ := h.standing
  rw [hitems, List.map_append]
  exact haccepted.trans (List.prefix_append _ _)

theorem Sound.received_prefix (h : Sound items further capacity arrived c) : c.received <+: items.map .ok := by
  refine List.IsPrefix.trans ?_ h.accepted_prefix
  cases hc : c.retrieval.channel.consuming with
  | false => exact (h.lost hc).2
  | true =>
    rw [h.passed hc]
    exact List.prefix_append _ _

/-- A producer that is gone has its result. -/
theorem Sound.result_of_gone (h : Sound items further capacity arrived c) (hnone : c.retrieval.producer = none) :
    c.result = some (.ok (.delivered c.accepted.length)) := by
  obtain ⟨taken, left, later, -, -, -, -, hstands⟩ := h.standing
  cases hstands with
  | reading producer producing result awaits => simp [producer] at hnone
  | finished producer producing result behind nothing => exact result

/-- A result counts the accepted items, and the stream stands just behind the end line. -/
theorem Sound.result_eq (h : Sound items further capacity arrived c) {result : Except ClientError Outcome}
    (hresult : c.result = some result) :
    result = .ok (.delivered c.accepted.length) ∧ arrived = blocksOf items ++ c.retrieval.reader.bytes := by
  obtain ⟨taken, left, later, -, hlater, -, -, hstands⟩ := h.standing
  cases hstands with
  | reading producer producing none awaits => simp [none] at hresult
  | finished producer producing done behind nothing =>
    rw [done, Option.some.injEq] at hresult
    rw [← behind, ← List.append_assoc] at hlater
    exact ⟨hresult.symm, List.append_cancel_right hlater⟩

/-- The producer does not come back. -/
theorem producer_foldl (h : c.retrieval.producer = none) (events : List Event) :
    (events.foldl Chronicle.handle c).retrieval.producer = none := by
  induction events generalizing c with
  | nil => exact h
  | cons event events ih =>
    refine ih ?_
    cases event with
    | arrive bytes | close | next | leave => exact h
    | poll => rwa [handle_poll_of_finished h]

/-! ### Answers to the consumer -/

/-- The consumer that asks now receives an element or sees the end, unless it has left. -/
def Ready (c : Chronicle) : Prop :=
  c.retrieval.producer = none ∨ c.retrieval.channel.consuming = true ∧ c.retrieval.channel.queue ≠ []

/-- Once the end line has arrived, the producer does not wait for bytes. -/
theorem Sound.ready_poll (h : Sound items further capacity arrived c) (hitems : ∀ item ∈ items, Legible item)
    (harrived : blocksOf items <+: arrived) : (c.handle .poll).Ready := by
  rcases h.poll_cases hitems with ⟨heq, hnone⟩ | ⟨-, taken, left, later, new, -, hlater, -, -, hpolled⟩
  · rw [heq]
    exact .inl hnone
  · rcases hpolled.ready (length_later_le hlater harrived) with hnone | ⟨hc, hfull⟩
    · exact .inl hnone
    · refine .inr ⟨hc, fun hempty => ?_⟩
      rw [hpolled.capacity, h.capacity, hempty, List.length_nil] at hfull
      omega

theorem Sound.ready_handle (h : Sound items further capacity arrived c) (hitems : ∀ item ∈ items, Legible item)
    (hready : c.Ready) {event : Event} (hleave : event ≠ .leave) (hnext : event ≠ .next) :
    (c.handle event).Ready := by
  cases event with
  | arrive bytes | close => exact hready
  | leave => exact absurd rfl hleave
  | next => exact absurd rfl hnext
  | poll =>
    rcases h.poll_cases hitems with ⟨heq, -⟩ | ⟨hproducer, taken, left, later, new, -, -, -, -, hpolled⟩
    · rwa [heq]
    · obtain ⟨hc, hne⟩ := hready.resolve_left hproducer
      refine .inr ⟨hpolled.consuming.trans hc, fun hempty => ?_⟩
      rw [hpolled.queue, List.append_eq_nil_iff] at hempty
      exact hne hempty.1

/-- How often the consumer was answered: by an element each time, and at last by the end. -/
def pulls (c : Chronicle) : ℕ := c.received.length + c.ended.toNat

theorem pulls_le_handle (c : Chronicle) (event : Event) : c.pulls ≤ (c.handle event).pulls := by
  cases event with
  | arrive bytes | close | poll | leave => exact Nat.le_refl _
  | next =>
    have hended : c.ended.toNat ≤ (c.ended || c.retrieval.next.1.isEnd).toNat := by
      cases c.ended <;> simp
    simp only [pulls, handle, List.length_append]
    omega

theorem pulls_le_foldl (c : Chronicle) (events : List Event) :
    c.pulls ≤ (events.foldl Chronicle.handle c).pulls := by
  induction events generalizing c with
  | nil => exact Nat.le_refl _
  | cons event events ih => exact Nat.le_trans (c.pulls_le_handle event) (ih _)

/-- A consumer that is there is answered when its turn has come. -/
theorem Sound.pulls_next (h : Sound items further capacity arrived c) (hc : c.retrieval.channel.consuming = true)
    (hready : c.Ready) : min (c.pulls + 1) (items.length + 1) ≤ (c.handle .next).pulls := by
  cases hqueue : c.retrieval.channel.queue with
  | cons element queue =>
    rw [handle_next_of_cons (h.stream hc) hqueue]
    simp only [pulls, List.length_append, List.length_singleton]
    omega
  | nil =>
    have hproducer := hready.resolve_right fun hne => hne.2 hqueue
    have hproducing : c.retrieval.channel.producing = false := by
      obtain ⟨taken, left, later, -, -, -, -, hstands⟩ := h.standing
      cases hstands with
      | reading producer producing result awaits => simp [producer] at hproducer
      | finished producer producing result behind nothing => exact producing
    rw [handle_next_of_nil (h.stream hc) hqueue, hproducing]
    cases hended : c.ended with
    | true =>
      have hlength := congrArg List.length (h.ended hended).1
      rw [List.length_map] at hlength
      simp [pulls, hlength]
    | false =>
      refine Nat.le_trans (Nat.min_le_left _ _) ?_
      simp [pulls, hended]

/-! ### Runs -/

section run

variable (verb : Retrieval) (keys : List String) (capacity : ℕ) {before after events : List Event}

theorem run_append (before after : List Event) :
    run verb keys capacity (before ++ after) = after.foldl Chronicle.handle (run verb keys capacity before) :=
  List.foldl_append

theorem run_concat (events : List Event) (event : Event) :
    run verb keys capacity (events ++ [event]) = (run verb keys capacity events).handle event :=
  run_append verb keys capacity events [event]

/-- **Every event keeps the order.** -/
theorem sound_run (hitems : ∀ item ∈ items, Legible item) (hserved : Served items further events) :
    Sound items further capacity (arrivals events) (run verb keys capacity events) := by
  induction events using List.reverseRecOn with
  | nil => exact sound_start verb keys hitems
  | append_singleton events event ih =>
    rw [run_concat]
    exact (ih hserved.initial).handle hitems hserved

/-- The consumer is there unless it has left. -/
theorem consuming_run (hitems : ∀ item ∈ items, Legible item) (hserved : Served items further events) :
    (run verb keys capacity events).retrieval.channel.consuming = true ↔ .leave ∉ events := by
  induction events using List.reverseRecOn with
  | nil => exact iff_of_true rfl List.not_mem_nil
  | append_singleton events event ih =>
    have hsound := sound_run verb keys capacity hitems hserved.initial
    rw [run_concat, List.mem_append, List.mem_singleton, not_or]
    by_cases hevent : event = .leave
    · subst hevent
      simp [hsound.leave.2]
    · rw [hsound.consuming_handle hitems hevent, ih hserved.initial]
      simp [Ne.symm hevent]

/-- **A consumer that keeps pulling is answered**, once for each round in which the producer goes on and then the
consumer asks, whatever else happens meanwhile, until it has seen the end. -/
theorem pulls_le (hitems : ∀ item ∈ items, Legible item) {more : List Event}
    (hserved : Served items further (before ++ more)) (hstays : .leave ∉ before ++ more)
    (harrived : blocksOf items <+: arrivals before) (count : ℕ) :
    ((rounds count).Sublist more → min ((run verb keys capacity before).pulls + count) (items.length + 1) ≤
      (run verb keys capacity (before ++ more)).pulls) ∧
    ((run verb keys capacity before).Ready → (.next :: rounds count).Sublist more →
      min ((run verb keys capacity before).pulls + (count + 1)) (items.length + 1) ≤
        (run verb keys capacity (before ++ more)).pulls) := by
  induction more generalizing before count with
  | nil =>
    rw [List.append_nil]
    refine ⟨fun hsub => ?_, fun _ hsub => absurd (List.sublist_nil.mp hsub) (List.cons_ne_nil _ _)⟩
    cases count with
    | zero => exact Nat.min_le_left _ _
    | succ count => exact absurd (List.sublist_nil.mp hsub) (List.cons_ne_nil _ _)
  | cons event more ih =>
    have hbefore : Served items further before := hserved.initial
    have hsound := sound_run verb keys capacity hitems hbefore
    have hmonotone := (run verb keys capacity before).pulls_le_handle event
    have hmore := (run verb keys capacity before).pulls_le_foldl (event :: more)
    rw [← run_append] at hmore
    have hassoc : before ++ event :: more = before ++ [event] ++ more := by simp
    rw [hassoc] at hserved hstays hmore ⊢
    have hleave : event ≠ .leave := fun heq => hstays (by simp [heq])
    have harrived' : blocksOf items <+: arrivals (before ++ [event]) := by
      rw [arrivals, List.flatMap_append]
      exact harrived.trans (List.prefix_append _ _)
    have hih := ih hserved hstays harrived'
    rw [run_concat] at hih
    constructor
    · intro hsub
      cases count with
      | zero => exact Nat.le_trans (Nat.min_le_left _ _) hmore
      | succ count =>
        rw [rounds] at hsub
        cases hsub with
        | cons _ hsub =>
          have hlater := (hih (count + 1)).1 hsub
          omega
        | cons_cons _ hsub =>
          have hlater := (hih count).2 (hsound.ready_poll hitems harrived) hsub
          omega
    · intro hready hsub
      by_cases hnext : event = .next
      · subst hnext
        have hc := (consuming_run verb keys capacity hitems hbefore).mpr
          fun hmem => hstays (by simp [hmem])
        have hpulls := hsound.pulls_next hc hready
        have hrest : (rounds count).Sublist more := by
          cases hsub with
          | cons _ hsub => exact (List.sublist_cons_self _ _).trans hsub
          | cons_cons _ hsub => exact hsub
        have hlater := (hih count).1 hrest
        omega
      · cases hsub with
        | cons _ hsub =>
          have hlater := (hih count).2 (hsound.ready_handle hitems hready hleave hnext) hsub
          omega
        | cons_cons _ hsub => exact absurd rfl hnext

/-- A consumer that keeps pulling gets everything. -/
theorem pulled_run (hitems : ∀ item ∈ items, Legible item) (hserved : Served items further (before ++ after))
    (hstays : .leave ∉ before ++ after) (harrived : blocksOf items <+: arrivals before)
    (hrounds : (rounds (items.length + 1)).Sublist after) :
    (run verb keys capacity (before ++ after)).received = items.map .ok ∧
      (run verb keys capacity (before ++ after)).ended = true ∧
        (run verb keys capacity (before ++ after)).result = some (.ok (.delivered items.length)) := by
  have hsound := sound_run verb keys capacity hitems hserved
  have hpulls := (pulls_le verb keys capacity hitems hserved hstays harrived _).1 hrounds
  have hlength := hsound.received_prefix.length_le
  rw [List.length_map] at hlength
  -- so many answers are more than there are items
  have hended : (run verb keys capacity (before ++ after)).ended = true := by
    by_contra hended
    rw [Bool.not_eq_true] at hended
    rw [pulls, pulls, hended, Bool.toNat_false] at hpulls
    omega
  obtain ⟨hreceived, hqueue, hproducer⟩ := hsound.ended hended
  have hc := (consuming_run verb keys capacity hitems hserved).mpr hstays
  refine ⟨hreceived, hended, ?_⟩
  rw [hsound.result_of_gone hproducer, hsound.passed hc, hqueue, List.append_nil, hreceived, List.length_map]

/-- A consumer that has left does not keep the producer. -/
theorem drained_run (hitems : ∀ item ∈ items, Legible item) (hserved : Served items further (before ++ .poll :: after))
    (hleft : .leave ∈ before) (harrived : blocksOf items <+: arrivals before) :
    (run verb keys capacity (before ++ .poll :: after)).result ≠ none := by
  have hbefore := sound_run verb keys capacity hitems hserved.initial
  have hsound := sound_run verb keys capacity hitems hserved
  have hgone := mt (consuming_run verb keys capacity hitems hserved.initial).mp
    (not_not_intro hleft)
  have hpolled : ((run verb keys capacity before).handle .poll).retrieval.producer = none := by
    refine (hbefore.ready_poll hitems harrived).resolve_right fun hthere => hgone ?_
    rw [← hbefore.consuming_handle hitems (by decide : Event.poll ≠ .leave)]
    exact hthere.1
  have hproducer := producer_foldl hpolled after
  rw [hsound.result_of_gone (by rw [run_append]; exact hproducer)]
  exact Option.some_ne_none _

/-- Nothing is accepted after the consumer has left. -/
theorem accepted_run (hitems : ∀ item ∈ items, Legible item)
    (hserved : Served items further (before ++ .leave :: after)) :
    (run verb keys capacity (before ++ .leave :: after)).accepted = (run verb keys capacity before).accepted := by
  induction after using List.reverseRecOn with
  | nil =>
    rw [run_concat]
    rfl
  | append_singleton after event ih =>
    rw [← List.cons_append, ← List.append_assoc] at hserved ⊢
    have hsound := sound_run verb keys capacity hitems hserved.initial
    have hgone := mt (consuming_run verb keys capacity hitems hserved.initial).mp
      (not_not_intro (by simp))
    rw [run_concat, hsound.accepted_handle hitems (by simpa using hgone), ih hserved.initial]

/-- What a retrieval shows in a run, whatever its consumer does. -/
structure Independent (items : List Item) (capacity : ℕ) (course : List Event → Chronicle) (events : List Event) :
    Prop where
  /-- At no time are more elements queued than there is room for. -/
  buffered : ∀ before, before <+: events → (course before).retrieval.channel.queue.length ≤ max capacity 1
  /-- The consumer receives the items in their order. -/
  received : (course events).received <+: items.map .ok
  /-- It sees the end behind the last of them. -/
  ended : (course events).ended = true → (course events).received = items.map .ok
  /-- When the producer has finished, its result is the number of accepted items, and of the bytes that have arrived it
  has taken those up to the end line. -/
  result : ∀ result, (course events).result = some result →
    result = .ok (.delivered (course events).accepted.length) ∧
      arrivals events = blocksOf items ++ (course events).retrieval.reader.bytes
  /-- The accepted items are the first ones. -/
  accepted : (course events).accepted <+: items.map .ok
  /-- None is accepted after the consumer has left. -/
  frozen : ∀ before after, events = before ++ .leave :: after →
    (course events).accepted = (course before).accepted
  /-- If it stays and keeps pulling, it receives all items and then the end, and all of them are counted. -/
  pulled : ∀ before after, events = before ++ after → .leave ∉ events → blocksOf items <+: arrivals before →
    (rounds (items.length + 1)).Sublist after →
      (course events).received = items.map .ok ∧ (course events).ended = true ∧
        (course events).result = some (.ok (.delivered items.length))
  /-- If it has left, the producer reads up to the end line all the same. -/
  drained : ∀ before after, events = before ++ .poll :: after → .leave ∈ before →
    blocksOf items <+: arrivals before → (course events).result ≠ none

/-- **A retrieval does not depend on its consumer**: whatever items the stream brings, in whatever pieces, with any
bytes behind the end line, and whenever the producer goes on, the consumer asks, or leaves. -/
theorem independent_of_consumer (hitems : ∀ item ∈ items, Legible item) (hserved : Served items further events) :
    Independent items capacity (run verb keys capacity) events := by
  have hsound := sound_run verb keys capacity hitems hserved
  exact {
    buffered := by
      rintro before ⟨after, rfl⟩
      have hbefore := sound_run verb keys capacity hitems hserved.initial
      rw [← hbefore.capacity]
      exact hbefore.fits
    received := hsound.received_prefix
    ended := fun hended => (hsound.ended hended).1
    result := fun result hresult => hsound.result_eq hresult
    accepted := hsound.accepted_prefix
    frozen := by
      rintro before after rfl
      exact accepted_run verb keys capacity hitems hserved
    pulled := by
      rintro before after rfl hstays harrived hrounds
      exact pulled_run verb keys capacity hitems hserved hstays harrived hrounds
    drained := by
      rintro before after rfl hleft harrived
      exact drained_run verb keys capacity hitems hserved hleft harrived }

end run

/-- Three items come in pieces. The consumer receives the first one, and leaves while the second one is queued and the
third one waits for room. -/
def departure : List Event :=
  [.arrive (Bytes.ofText "VALUE a 0 5\r\nEN"), .poll, .arrive (Bytes.ofText "D\r\n\r"), .next, .poll,
    .arrive (Bytes.ofText "\nVALUE b 7 0 3\r\n\r\nVALUE END 0 1\r\n\n\r\nEND\r\nSTO"), .poll, .next, .poll, .leave,
    .close, .poll]

theorem independent_of_consumer_departure :
    Independent [⟨"a", 0, none, Bytes.ofText "END\r\n"⟩, ⟨"b", 7, some 3, []⟩, ⟨"END", 0, none, [10]⟩] 0
        (run .gets ["a", "b", "END"] 0) departure ∧
      (run .gets ["a", "b", "END"] 0 departure).result = some (.ok (.delivered 2)) := by
  have hserved : Served [⟨"a", 0, none, Bytes.ofText "END\r\n"⟩, ⟨"b", 7, some 3, []⟩, ⟨"END", 0, none, [10]⟩]
      (Bytes.ofText "STO") departure := by decide +kernel
  exact ⟨independent_of_consumer .gets ["a", "b", "END"] 0 (by decide) hserved, rfl⟩

end MemcachedClient.MultiGet.Chronicle
