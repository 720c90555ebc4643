import MemcachedClient.Proofs.Semaphore
import Mathlib.Data.List.Count

/-!
# The tickets of a semaphore

A caller that queues is known by its ticket. The semaphore owes a caller as long as the caller's place is
in the queue, or its unit is on its way; `Semaphore.Serves` says that those whom it owes are exactly the
callers that are counted elsewhere, and that no ticket is out twice. Asking, taking and giving up keep
this, with one caller more or less, and giving a unit back changes nobody's turn but the first's.

Then the units on their way are as many as the callers that will find one (`Serves.count_delivered`).
-/

namespace MemcachedClient

/-- The ticket with which a caller queued. -/
def Handle.ticket? : Handle → Option ℕ
  | queued ticket => some ticket
  | _ => none

namespace Semaphore

variable {s : Semaphore} {place : Handle} {calls more : ℕ → ℕ} {ticket : ℕ}

/-- The number of places that a ticket has, in the queue or with a unit on its way. -/
def places (s : Semaphore) (ticket : ℕ) : ℕ :=
  s.delivered.count ticket + s.queue.countP (·.ticket = ticket)

/-- The number of units that a ticket will get, or has on its way. -/
def owes (s : Semaphore) (ticket : ℕ) : ℕ :=
  s.delivered.count ticket + s.queue.count ⟨ticket, false⟩

/-- The semaphore serves these callers, that many under each ticket, and no ticket is out twice. -/
structure Serves (s : Semaphore) (calls : ℕ → ℕ) : Prop where
  /-- A ticket that was given out has one place at most, and one that is to come has none. -/
  once : ∀ ticket, s.places ticket ≤ if ticket < s.nextTicket then 1 else 0
  /-- A unit goes to each caller that did not give up. -/
  owed : ∀ ticket, s.owes ticket = calls ticket

theorem owes_le_places (s : Semaphore) (ticket : ℕ) : s.owes ticket ≤ s.places ticket := by
  refine Nat.add_le_add_left ?_ _
  rw [List.count]
  refine List.countP_mono_left fun place _ h => ?_
  rw [beq_iff_eq] at h
  simp [h]

theorem serves_ofCount (count : ℕ) : (ofCount count).Serves fun _ => 0 :=
  ⟨fun _ => Nat.zero_le _, fun _ => rfl⟩

/-! ### Giving a unit back -/

theorem nextTicket_handOver (s : Semaphore) (queue : List Place) :
    (s.handOver queue).nextTicket = s.nextTicket := by
  induction queue with
  | nil => rfl
  | cons place rest ih =>
    rw [handOver]
    split
    · exact ih
    · rfl

/-- The caller to whom a unit goes was owed one, and those who are passed over gave up. -/
theorem owes_handOver (s : Semaphore) (queue : List Place) (ticket : ℕ) :
    (s.handOver queue).owes ticket = s.delivered.count ticket + queue.count ⟨ticket, false⟩ := by
  induction queue with
  | nil => rfl
  | cons place rest ih =>
    obtain ⟨other, abandoned⟩ := place
    rw [handOver]
    cases abandoned with
    | true => simpa using ih
    | false =>
      simp only [owes, List.count_cons, Bool.false_eq_true, if_false, beq_iff_eq, Place.mk.injEq,
        and_true]
      omega

theorem places_handOver_le (s : Semaphore) (queue : List Place) (ticket : ℕ) :
    (s.handOver queue).places ticket ≤
      s.delivered.count ticket + queue.countP (·.ticket = ticket) := by
  induction queue with
  | nil => exact Nat.le_refl _
  | cons place rest ih =>
    rw [handOver, List.countP_cons]
    split
    · omega
    · simp only [places, List.count_cons, beq_iff_eq, decide_eq_true_eq]
      omega

theorem Serves.signalOne (h : s.Serves calls) : s.signalOne.Serves calls where
  once ticket := by
    rw [Semaphore.signalOne, nextTicket_handOver]
    exact Nat.le_trans (s.places_handOver_le s.queue ticket) (h.once ticket)
  owed ticket := by
    rw [Semaphore.signalOne, owes_handOver]
    exact h.owed ticket

/-! ### Asking, taking and giving up -/

/-- Who asks is served too. -/
theorem Serves.wait (h : s.Serves calls) :
    s.wait.2.Serves fun ticket => calls ticket + if s.wait.1.ticket? = some ticket then 1 else 0 := by
  rw [Semaphore.wait]
  split
  · exact ⟨h.once, h.owed⟩
  · constructor
    · intro ticket
      have := h.once ticket
      simp only [places, List.countP_append, List.countP_singleton, decide_eq_true_eq] at this ⊢
      split at this <;> split_ifs <;> omega
    · intro ticket
      have := h.owed ticket
      simp only [owes, List.count_append, List.count_singleton, beq_iff_eq, Place.mk.injEq,
        and_true, Handle.ticket?, Option.some.injEq] at this ⊢
      omega

/-- A unit on its way that is taken back leaves one caller less. -/
theorem Serves.erase (h : s.Serves more) (hmem : ticket ∈ s.delivered)
    (hcalls : ∀ other, more other = calls other + if ticket = other then 1 else 0) :
    { s with delivered := s.delivered.erase ticket }.Serves calls := by
  constructor
  · intro other
    have := h.once other
    have := List.Sublist.count_le other (List.erase_sublist (a := ticket) (l := s.delivered))
    simp only [places] at *
    omega
  · intro other
    have howed := h.owed other
    have hother := hcalls other
    simp only [owes] at howed ⊢
    by_cases e : ticket = other
    · subst e
      have := List.count_pos_iff.mpr hmem
      rw [List.count_erase_self]
      rw [if_pos rfl] at hother
      omega
    · rw [List.count_erase_of_ne (Ne.symm e)]
      rw [if_neg e] at hother
      omega

/-- Who takes its unit is served no longer. -/
theorem Serves.poll (h : s.Serves more) (htaken : (s.poll place).1 = true)
    (hcalls : ∀ ticket, more ticket = calls ticket + if place.ticket? = some ticket then 1 else 0) :
    (s.poll place).2.2.Serves calls := by
  cases place with
  | granted => exact ⟨h.once, fun ticket => (h.owed ticket).trans (hcalls ticket)⟩
  | acquired => exact ⟨h.once, fun ticket => (h.owed ticket).trans (hcalls ticket)⟩
  | queued ticket =>
    rw [Semaphore.poll] at htaken ⊢
    split at htaken
    · next hmem =>
      rw [if_pos hmem]
      exact h.erase hmem fun other => by simpa [Handle.ticket?] using hcalls other
    · simp at htaken

/-- Who gives up is served no longer. -/
theorem Serves.drop (h : s.Serves more)
    (hcalls : ∀ ticket, more ticket = calls ticket + if place.ticket? = some ticket then 1 else 0) :
    (s.drop place).Serves calls := by
  cases place with
  | granted =>
    have h' : s.Serves calls := ⟨h.once, fun ticket => (h.owed ticket).trans (hcalls ticket)⟩
    exact h'.signalOne
  | acquired => exact ⟨h.once, fun ticket => (h.owed ticket).trans (hcalls ticket)⟩
  | queued ticket =>
    have hcalls' : ∀ other, more other = calls other + if ticket = other then 1 else 0 :=
      fun other => by simpa [Handle.ticket?] using hcalls other
    rw [Semaphore.drop]
    split
    · next hmem => exact (h.erase hmem hcalls').signalOne
    · next hmem =>
      constructor
      · intro other
        have hqueue : (s.queue.map fun place =>
            if place.ticket = ticket then { place with abandoned := true } else place).countP
              (·.ticket = other) = s.queue.countP (·.ticket = other) := by
          rw [List.countP_map]
          refine List.countP_congr fun place _ => ?_
          simp only [Function.comp]
          split <;> rfl
        simp only [places, hqueue]
        exact h.once other
      · intro other
        have howed := h.owed other
        have hother := hcalls' other
        simp only [owes, List.count, List.countP_map] at howed ⊢
        by_cases e : ticket = other
        · -- no place with this ticket waits any more, and one did before at most
          subst e
          have hone := Nat.le_trans (s.owes_le_places ticket) (h.once ticket)
          have hnone : s.queue.countP ((· == (⟨ticket, false⟩ : Place)) ∘ fun place =>
              if place.ticket = ticket then { place with abandoned := true } else place) = 0 := by
            rw [List.countP_eq_zero]
            rintro ⟨other, abandoned⟩ -
            by_cases e : other = ticket <;> simp [e]
          have hdelivered : s.delivered.countP (· == ticket) = 0 := List.count_eq_zero.mpr hmem
          rw [if_pos rfl] at hother
          simp only [owes, List.count] at hone
          split at hone <;> omega
        · have hsame : s.queue.countP ((· == (⟨other, false⟩ : Place)) ∘ fun place =>
              if place.ticket = ticket then { place with abandoned := true } else place) =
              s.queue.countP (· == (⟨other, false⟩ : Place)) := by
            refine List.countP_congr ?_
            rintro ⟨third, abandoned⟩ -
            by_cases e' : third = ticket <;> simp [e', e]
          rw [if_neg e] at hother
          omega

/-! ### Units on their way -/

section count

variable {α : Type} {callers : List α} {ticketOf : α → Option ℕ} {tickets : List ℕ}

/-- Callers under one of several tickets, of which each has one caller, are as many as the tickets. -/
theorem countP_any_mem (hnodup : tickets.Nodup)
    (hone : ∀ ticket ∈ tickets, callers.countP (fun caller => ticketOf caller == some ticket) = 1) :
    callers.countP (fun caller => (ticketOf caller).any (· ∈ tickets)) = tickets.length := by
  induction tickets with
  | nil => simp
  | cons ticket rest ih =>
    obtain ⟨hnew, hrest⟩ := List.nodup_cons.mp hnodup
    have hsplit : callers.countP (fun caller => (ticketOf caller).any (· ∈ ticket :: rest)) =
        callers.countP (fun caller => ticketOf caller == some ticket) +
          callers.countP (fun caller => (ticketOf caller).any (· ∈ rest)) := by
      clear hone ih
      induction callers with
      | nil => rfl
      | cons caller callers ih =>
        simp only [List.countP_cons, ih]
        cases ticketOf caller with
        | none => simp
        | some other =>
          by_cases e : other = ticket
          · simp [e, hnew]
            omega
          · by_cases e' : other ∈ rest <;> simp [e, e', Nat.add_assoc]
    rw [hsplit, hone ticket List.mem_cons_self,
      ih hrest fun other hother => hone other (List.mem_cons_of_mem _ hother), List.length_cons,
      Nat.add_comm]

/-- As many units are on their way as there are callers that will find one. -/
theorem Serves.count_delivered
    (h : s.Serves fun ticket => callers.countP fun caller => ticketOf caller == some ticket) :
    callers.countP (fun caller => (ticketOf caller).any (· ∈ s.delivered)) = s.delivered.length := by
  have hone : ∀ ticket, s.delivered.count ticket ≤ s.owes ticket ∧ s.owes ticket ≤ 1 := by
    intro ticket
    have hle := Nat.le_trans (s.owes_le_places ticket) (h.once ticket)
    exact ⟨Nat.le_add_right _ _, by split at hle <;> omega⟩
  refine countP_any_mem (List.nodup_iff_count_le_one.mpr fun ticket => ?_) fun ticket hmem => ?_
  · exact Nat.le_trans (hone ticket).1 (hone ticket).2
  · have howed := h.owed ticket
    have hpos := List.count_pos_iff.mpr hmem
    have := hone ticket
    omega

end count

end Semaphore

end MemcachedClient
