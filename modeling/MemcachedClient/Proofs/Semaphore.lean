import MemcachedClient.Semaphore
import Mathlib.Data.List.Nodup

/-!
# The units of a semaphore

A unit of a semaphore is available, or delivered to a caller that has not taken it, or in a handle:
`Semaphore.units` counts the first two and `Handle.units` the third. Asking for a unit, looking at the
answer and giving up keep their sum; giving a unit back adds one.

Of a semaphore with one unit more is true: as long as nobody gives up, the unit goes through the hands of
those who asked in the order in which they asked. `Semaphore.Lines` says in which order they stand.
-/

namespace MemcachedClient

/-- The unit that a handle holds. -/
def Handle.units : Handle → ℕ
  | granted => 1
  | queued _ => 0
  | acquired => 1

namespace Semaphore

/-- The units that are available or delivered. -/
def units (s : Semaphore) : ℕ := s.available + s.delivered.length

variable {s : Semaphore} {place : Handle}

theorem units_handOver (s : Semaphore) (queue : List Place) :
    (s.handOver queue).units = s.units + 1 := by
  induction queue with
  | nil =>
    simp only [handOver, units]
    omega
  | cons first rest ih =>
    rw [handOver]
    split
    · exact ih
    · simp only [units, List.length_cons]
      omega

theorem units_signalOne (s : Semaphore) : s.signalOne.units = s.units + 1 := s.units_handOver s.queue

theorem units_wait (s : Semaphore) : s.wait.2.units + s.wait.1.units = s.units := by
  rw [wait]
  split
  · simp only [units, Handle.units]
    omega
  · rfl

theorem units_poll (s : Semaphore) (place : Handle) :
    (s.poll place).2.2.units + (s.poll place).2.1.units = s.units + place.units := by
  cases place with
  | granted => rfl
  | acquired => rfl
  | queued ticket =>
    rw [poll]
    split
    · next hmem =>
      have hpos := List.length_pos_of_mem hmem
      simp only [units, Handle.units, List.length_erase_of_mem hmem]
      omega
    · rfl

/-- Who has taken its unit holds it. -/
theorem poll_eq_acquired (h : (s.poll place).1 = true) : (s.poll place).2.1 = .acquired := by
  cases place with
  | granted => rfl
  | acquired => rfl
  | queued ticket =>
    rw [poll] at h ⊢
    split at h
    · next hmem => rw [if_pos hmem]
    · simp at h

/-- A unit that is taken was available or delivered, or in the handle. -/
theorem units_poll_of_taken (h : (s.poll place).1 = true) :
    (s.poll place).2.2.units + 1 = s.units + place.units := by
  have hunits := s.units_poll place
  rwa [poll_eq_acquired h] at hunits

/-- Who has not taken its unit waits on, and nothing is changed. -/
theorem poll_eq_false (h : (s.poll place).1 = false) :
    ∃ ticket, place = .queued ticket ∧ ticket ∉ s.delivered ∧ s.poll place = (false, place, s) := by
  cases place with
  | granted => simp [poll] at h
  | acquired => simp [poll] at h
  | queued ticket =>
    rw [poll] at h ⊢
    split at h
    · simp at h
    · next hmem => exact ⟨ticket, rfl, hmem, if_neg hmem⟩

theorem units_drop (h : place ≠ .acquired) : (s.drop place).units = s.units + place.units := by
  cases place with
  | granted => exact s.units_signalOne
  | acquired => exact absurd rfl h
  | queued ticket =>
    rw [drop]
    split
    · next hmem =>
      have hpos := List.length_pos_of_mem hmem
      rw [units_signalOne]
      simp only [units, Handle.units, List.length_erase_of_mem hmem]
      omega
    · rfl

/-- Giving up a handle gives back no more than it held. -/
theorem units_drop_le (s : Semaphore) (place : Handle) :
    (s.drop place).units ≤ s.units + place.units := by
  by_cases h : place = .acquired
  · rw [h]
    exact Nat.le_add_right _ _
  · exact Nat.le_of_eq (units_drop h)

/-! ### One unit that is passed on -/

/-- These handles stand in line for the one unit of a semaphore: the first has it, or it is on its way
there, and the others queue. -/
inductive Lines : Semaphore → List Handle → Prop where
  /-- Nobody stands in line. -/
  | free {next : ℕ} : Lines ⟨1, [], [], next⟩ []
  /-- The first has the unit. -/
  | holding {first : Handle} {tickets : List ℕ} {next : ℕ} (has : first.units = 1)
    (nodup : tickets.Nodup) (old : ∀ ticket ∈ tickets, ticket < next) :
    Lines ⟨0, tickets.map (⟨·, false⟩), [], next⟩ (first :: tickets.map .queued)
  /-- The unit is on its way to the first. -/
  | delivered {first : ℕ} {tickets : List ℕ} {next : ℕ} (nodup : (first :: tickets).Nodup)
    (old : ∀ ticket ∈ first :: tickets, ticket < next) :
    Lines ⟨0, tickets.map (⟨·, false⟩), [first], next⟩ (.queued first :: tickets.map .queued)

namespace Lines

variable {first : Handle} {handles rest : List Handle}

private theorem nodup_concat {tickets : List ℕ} {next : ℕ} (nodup : tickets.Nodup)
    (old : ∀ ticket ∈ tickets, ticket < next) : (tickets ++ [next]).Nodup :=
  List.nodup_append.mpr ⟨nodup, List.nodup_singleton _, fun ticket hmem other hother => by
    have := old ticket hmem
    rw [List.mem_singleton] at hother
    omega⟩

private theorem lt_concat {tickets : List ℕ} {next : ℕ} (old : ∀ ticket ∈ tickets, ticket < next) :
    ∀ ticket ∈ tickets ++ [next], ticket < next + 1 := by
  intro ticket hmem
  rcases List.mem_append.mp hmem with hmem | hmem
  · have := old ticket hmem
    omega
  · rw [List.mem_singleton] at hmem
    omega

/-- Who asks stands at the end of the line. -/
theorem wait (h : s.Lines handles) : s.wait.2.Lines (handles ++ [s.wait.1]) := by
  cases h with
  | @free next => exact @holding .granted [] next rfl List.nodup_nil (by simp)
  | holding has nodup old =>
    have := holding has (nodup_concat nodup old) (lt_concat old)
    simpa [Semaphore.wait] using this
  | delivered nodup old =>
    have := delivered (nodup_concat nodup old) (lt_concat old)
    simpa [Semaphore.wait] using this

/-- The first takes the unit when it looks. -/
theorem poll (h : s.Lines (first :: rest)) : (s.poll first).2.2.Lines (.acquired :: rest) := by
  cases h with
  | holding has nodup old =>
    cases first with
    | queued ticket => simp [Handle.units] at has
    | granted => exact .holding rfl nodup old
    | acquired => exact .holding rfl nodup old
  | delivered nodup old =>
    have := @holding .acquired _ _ rfl (List.nodup_cons.mp nodup).2
      (fun ticket hmem => old ticket (List.mem_cons_of_mem _ hmem))
    simpa [Semaphore.poll] using this

/-- Nobody else takes the unit. -/
theorem poll_eq_false_of_mem (h : s.Lines (first :: rest)) (hmem : place ∈ rest) :
    (s.poll place).1 = false := by
  cases h with
  | holding has nodup old =>
    obtain ⟨ticket, -, rfl⟩ := List.mem_map.mp hmem
    rfl
  | @delivered first tickets next nodup old =>
    obtain ⟨ticket, hticket, rfl⟩ := List.mem_map.mp hmem
    have hne : ticket ≠ first := by
      rintro rfl
      exact (List.nodup_cons.mp nodup).1 hticket
    simp [Semaphore.poll, hne]

/-- The unit that the first gives back goes to the next. -/
theorem signalOne (h : s.Lines (.acquired :: rest)) : s.signalOne.Lines rest := by
  cases h with
  | @holding _ tickets next has nodup old =>
    cases tickets with
    | nil => exact .free
    | cons ticket tickets => exact .delivered nodup old

end Lines

end Semaphore

end MemcachedClient
