import MemcachedClient.Proofs.Semaphore.Tickets

/-!
# The line before a semaphore

The callers that still wait stand in line: `Semaphore.line` are their tickets, the oldest first, which is the
queue without the places that were given up. Giving units back is what moves the line, and only that: of
`count` units the first `count` of the line are handed one each, and what is left over becomes available
(`delivered_signal`, `available_signal`).

`withdraw` is the semaphore without the unit that is there for a handle: the handle took it, or it is to be
given back.
-/

namespace MemcachedClient.Semaphore

variable {s : Semaphore} {place : Handle} {calls more : ℕ → ℕ} {ticket : ℕ}

/-- The tickets of the callers that still wait, the oldest first. -/
def line (s : Semaphore) : List ℕ := (s.queue.filter (!·.abandoned)).map (·.ticket)

/-- A semaphore has units to spare only if its queue is empty. -/
def Spares (s : Semaphore) : Prop := 0 < s.available → s.queue = []

/-- Whether a unit is there for a handle that has not taken it. -/
def isReadyFor (s : Semaphore) : Handle → Bool
  | .granted => true
  | .queued ticket => ticket ∈ s.delivered
  | .acquired => false

/-- The semaphore without the unit on its way to a handle. -/
def withdraw (s : Semaphore) : Handle → Semaphore
  | .queued ticket => { s with delivered := s.delivered.erase ticket }
  | _ => s

/-! ### Giving units back -/

theorem handOver_of_filter_eq_nil {queue : List Place} (h : queue.filter (!·.abandoned) = []) :
    s.handOver queue = { s with queue := [], available := s.available + 1 } := by
  induction queue with
  | nil => rfl
  | cons first rest ih =>
    obtain ⟨ticket, abandoned⟩ := first
    cases abandoned with
    | true => exact ih (by simpa using h)
    | false => simp at h

theorem handOver_of_filter_eq_cons {queue : List Place} {first : Place} {rest : List Place}
    (h : queue.filter (!·.abandoned) = first :: rest) :
    ∃ behind : List Place, behind.filter (!·.abandoned) = rest ∧
      s.handOver queue = { s with queue := behind, delivered := first.ticket :: s.delivered } := by
  induction queue with
  | nil => simp at h
  | cons next queue ih =>
    obtain ⟨ticket, abandoned⟩ := next
    cases abandoned with
    | true => exact ih (by simpa using h)
    | false =>
      rw [List.filter_cons_of_pos (by rfl), List.cons.injEq] at h
      obtain ⟨rfl, h⟩ := h
      exact ⟨queue, h, rfl⟩

/-- Where nobody stands in line, a unit that is given back becomes available. -/
theorem signalOne_of_line_eq_nil (h : s.line = []) :
    s.signalOne = { s with queue := [], available := s.available + 1 } :=
  handOver_of_filter_eq_nil (List.map_eq_nil_iff.mp h)

/-- The first in line is handed the unit, whatever places that were given up stand before it. -/
theorem signalOne_of_line_eq_cons {rest : List ℕ} (h : s.line = ticket :: rest) :
    s.signalOne.line = rest ∧ s.signalOne.delivered = ticket :: s.delivered ∧
      s.signalOne.available = s.available := by
  obtain ⟨first, places, hfilter, rfl, rfl⟩ := List.map_eq_cons_iff.mp h
  obtain ⟨behind, hbehind, e⟩ := handOver_of_filter_eq_cons (s := s) hfilter
  rw [signalOne, e]
  exact ⟨congrArg _ hbehind, rfl, rfl⟩

theorem line_signalOne (s : Semaphore) : s.signalOne.line = s.line.drop 1 := by
  cases h : s.line with
  | nil => rw [signalOne_of_line_eq_nil h]; rfl
  | cons ticket rest => exact (signalOne_of_line_eq_cons h).1

theorem Spares.signalOne (h : s.Spares) : s.signalOne.Spares := by
  intro hpos
  cases hline : s.line with
  | nil => rw [signalOne_of_line_eq_nil hline]
  | cons ticket rest =>
    rw [(signalOne_of_line_eq_cons hline).2.2] at hpos
    rw [line, h hpos] at hline
    simp at hline

theorem line_signal (s : Semaphore) (count : ℕ) : (s.signal count).line = s.line.drop count := by
  induction count generalizing s with
  | zero => rfl
  | succ count ih => rw [signal, ih, line_signalOne, List.drop_drop, Nat.add_comm]

/-- Of `count` units, the first `count` in line are handed one each. -/
theorem delivered_signal (s : Semaphore) (count : ℕ) :
    (s.signal count).delivered = (s.line.take count).reverse ++ s.delivered := by
  induction count generalizing s with
  | zero => rfl
  | succ count ih =>
    rw [signal, ih, line_signalOne]
    cases h : s.line with
    | nil => rw [signalOne_of_line_eq_nil h]; simp
    | cons ticket rest => simp [(signalOne_of_line_eq_cons h).2.1]

/-- The units that nobody in line is handed become available. -/
theorem available_signal (s : Semaphore) (count : ℕ) :
    (s.signal count).available = s.available + (count - s.line.length) := by
  induction count generalizing s with
  | zero => simp
  | succ count ih =>
    rw [signal, ih, line_signalOne]
    cases h : s.line with
    | nil =>
      rw [signalOne_of_line_eq_nil h]
      simp only [List.drop_nil, List.length_nil]
      omega
    | cons ticket rest =>
      rw [(signalOne_of_line_eq_cons h).2.2]
      simp only [List.drop_succ_cons, List.drop_zero, List.length_cons]
      omega

theorem Spares.signal (h : s.Spares) (count : ℕ) : (s.signal count).Spares := by
  induction count generalizing s with
  | zero => exact h
  | succ count ih => exact ih h.signalOne

theorem Serves.signal (h : s.Serves calls) (count : ℕ) : (s.signal count).Serves calls := by
  induction count generalizing s with
  | zero => exact h
  | succ count ih => exact ih h.signalOne

theorem units_signal (s : Semaphore) (count : ℕ) : (s.signal count).units = s.units + count := by
  induction count generalizing s with
  | zero => rfl
  | succ count ih =>
    rw [signal, ih, units_signalOne]
    omega

/-! ### Tickets -/

/-- Nobody stands in line twice, and nobody in line has a unit on its way. -/
theorem Serves.line_disjoint (h : s.Serves calls) : s.line.Nodup ∧ ∀ t ∈ s.line, t ∉ s.delivered := by
  have hle : ∀ t, s.line.count t ≤ s.queue.countP (·.ticket = t) := by
    intro t
    rw [line, List.count, List.countP_map]
    exact Nat.le_trans (List.Sublist.countP_le List.filter_sublist) (Nat.le_of_eq rfl)
  have honce : ∀ t, s.delivered.count t + s.line.count t ≤ 1 := by
    intro t
    have hplaces := h.once t
    have := hle t
    rw [places] at hplaces
    split at hplaces <;> omega
  refine ⟨List.nodup_iff_count_le_one.mpr fun t => ?_, fun t hline hdelivered => ?_⟩
  · have := honce t
    omega
  · have hpos := List.count_pos_iff.mpr hline
    have hpos' := List.count_pos_iff.mpr hdelivered
    have := honce t
    omega

/-- No two callers have the same ticket. -/
theorem Serves.calls_le_one (h : s.Serves calls) (t : ℕ) : calls t ≤ 1 := by
  have hle := Nat.le_trans (s.owes_le_places t) (h.once t)
  rw [h.owed] at hle
  split at hle <;> omega

/-- No unit is on its way to a caller that is still to come. -/
theorem Serves.nextTicket_notMem (h : s.Serves calls) : s.nextTicket ∉ s.delivered := by
  intro hmem
  have hpos := List.count_pos_iff.mpr hmem
  have honce := h.once s.nextTicket
  rw [if_neg (Nat.lt_irrefl _), places] at honce
  omega

/-! ### Taking and giving up -/

theorem poll_of_isReadyFor (h : s.isReadyFor place = true) :
    s.poll place = (true, .acquired, s.withdraw place) := by
  cases place with
  | granted => rfl
  | queued ticket => exact if_pos (by simpa [isReadyFor] using h)
  | acquired => simp [isReadyFor] at h

theorem drop_of_isReadyFor (h : s.isReadyFor place = true) :
    s.drop place = (s.withdraw place).signalOne := by
  cases place with
  | granted => rfl
  | queued ticket => exact if_pos (by simpa [isReadyFor] using h)
  | acquired => simp [isReadyFor] at h

/-- Who gives up leaves the line, and the others keep their places. -/
theorem line_drop_queued (h : ticket ∉ s.delivered) :
    (s.drop (.queued ticket)).line = s.line.filter (· ≠ ticket) ∧
      (s.drop (.queued ticket)).delivered = s.delivered ∧
      (s.drop (.queued ticket)).available = s.available := by
  rw [drop, if_neg h]
  refine ⟨?_, rfl, rfl⟩
  simp only [line]
  induction s.queue with
  | nil => rfl
  | cons first rest ih =>
    obtain ⟨other, abandoned⟩ := first
    by_cases e : other = ticket <;> cases abandoned <;> simp_all

theorem Spares.drop_queued (h : s.Spares) (hmem : ticket ∉ s.delivered) :
    (s.drop (.queued ticket)).Spares := by
  rw [drop, if_neg hmem]
  intro hpos
  dsimp only
  rw [h hpos, List.map_nil]

theorem Spares.wait (h : s.Spares) : s.wait.2.Spares := by
  rw [Semaphore.wait]
  split
  · next hpos => exact fun _ => h hpos
  · next hnone => exact fun hpos => absurd hpos hnone

theorem Spares.poll (h : s.Spares) (place : Handle) : (s.poll place).2.2.Spares := by
  cases place with
  | granted => exact h
  | acquired => exact h
  | queued ticket =>
    rw [Semaphore.poll]
    split <;> exact h

theorem Spares.drop (h : s.Spares) (place : Handle) : (s.drop place).Spares := by
  cases place with
  | granted => exact h.signalOne
  | acquired => exact h
  | queued ticket =>
    by_cases hmem : ticket ∈ s.delivered
    · have herased : Spares { s with delivered := s.delivered.erase ticket } := h
      have hdrop : s.drop (.queued ticket) = { s with delivered := s.delivered.erase ticket }.signalOne := if_pos hmem
      rw [hdrop]
      exact herased.signalOne
    · exact h.drop_queued hmem

end MemcachedClient.Semaphore
