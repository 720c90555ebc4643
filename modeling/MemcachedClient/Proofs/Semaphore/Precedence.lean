import MemcachedClient.Proofs.Semaphore.Handing

/-!
# Who waits stands at the end

A unit that is given back goes to the caller that has waited longest, and a caller that comes finds a unit only if
nobody waits. So among the callers, in the order in which they came, those who wait stand behind those who do not
(`Session.Ranked`), and the first of those who wait is the first that is handed a unit (`Orderly.rear_signal`).
-/

namespace MemcachedClient.Semaphore.Session

variable {s : Session} {name : String} {holding : Holding}

/-- The callers that wait, in the order in which they came, with what they hold. -/
def rear (s : Session) : Table Holding := s.holdings.filter fun item => item.2.waits s.semaphore

theorem waiters_eq (s : Session) : s.waiters = s.rear.map (·.1) := rfl

/-- If nobody stands in line nobody waits. -/
theorem Orderly.rear_eq_nil (h : s.Orderly) (hline : s.semaphore.line = []) : s.rear = [] := by
  rw [rear, List.filter_eq_nil_iff]
  intro item hitem hwaits
  rw [← Holding.isSome_waiting?, Option.isSome_iff_exists] at hwaits
  obtain ⟨ticket, hticket⟩ := hwaits
  have hmem : ticket ∈ s.semaphore.line := by
    rw [h.line]
    exact List.mem_filterMap.mpr ⟨item, hitem, hticket⟩
  rw [hline] at hmem
  exact List.not_mem_nil hmem

/-- As many callers as units are given back are handed one, from the first on that waits. -/
theorem Orderly.rear_signal (h : s.Orderly) (count : ℕ) :
    rear ⟨s.semaphore.signal count, s.holdings, s.guards⟩ = s.rear.drop count := by
  have hnodup := h.serves.line_disjoint.1
  rw [h.line] at hnodup
  have hdelivered := delivered_signal s.semaphore count
  rw [h.line] at hdelivered
  have hwaits : ∀ item ∈ s.holdings, item.2.waits (s.semaphore.signal count) =
      (item.2.waiting? s.semaphore).any
        (· ∉ (s.holdings.filterMap fun item => item.2.waiting? s.semaphore).take count) := by
    intro item _
    rw [← Holding.isSome_waiting?, Holding.waiting?_of_delivered hdelivered]
    cases hticket : item.2.waiting? s.semaphore with
    | none => rfl
    | some ticket => by_cases hmem : ticket ∈ (s.holdings.filterMap fun item =>
        item.2.waiting? s.semaphore).take count <;> simp [Option.filter, hmem]
  have hsome : ∀ item ∈ s.holdings, (item.2.waiting? s.semaphore).isSome = item.2.waits s.semaphore :=
    fun item _ => Holding.isSome_waiting? s.semaphore item.2
  rw [rear, rear, List.filter_congr hwaits, (filter_tickets hnodup _).2, List.filter_congr hsome]

/-- The callers are in order, and those who wait stand behind those who do not. -/
structure Ranked (s : Session) : Prop where
  /-- The line before the semaphore are the callers that wait. -/
  orderly : s.Orderly
  /-- Who waits stands at the end. -/
  behind : s.rear <:+ s.holdings

namespace Ranked

theorem ofCount (count : ℕ) : (ofCount count).Ranked := ⟨orderly_ofCount count, List.suffix_refl _⟩

/-- A caller is gone, and the others wait as before. -/
theorem behind_remove (h : s.Ranked) {semaphore : Semaphore}
    (hsame : ∀ item ∈ s.holdings.remove name, item.2.waits semaphore = item.2.waits s.semaphore) :
    rear ⟨semaphore, s.holdings.remove name, s.guards⟩ <:+ s.holdings.remove name := by
  have hsuffix := h.behind.filter fun item => decide (item.1 ≠ name)
  rw [rear, List.filter_filter] at hsuffix
  rw [rear, List.filter_congr hsame, Table.remove, List.filter_filter]
  simpa only [Bool.and_comm] using hsuffix

/-- A caller that does not wait is put aside with its unit. -/
theorem withdraw (h : s.Ranked) (hget : s.holdings.get? name = some holding)
    (hwaits : holding.waits s.semaphore = false) :
    Ranked ⟨s.semaphore.withdraw holding.handle, s.holdings.remove name, s.guards⟩ where
  orderly := h.orderly.withdraw hget hwaits
  behind := h.behind_remove fun _ hitem => h.orderly.waits_withdraw hget hitem

/-- A caller gives up. -/
theorem giveUp (h : s.Ranked) (hget : s.holdings.get? name = some holding)
    (hwaits : holding.waits s.semaphore = true) :
    Ranked ⟨s.semaphore.drop holding.handle, s.holdings.remove name, s.guards⟩ where
  orderly := h.orderly.giveUp hget hwaits
  behind := by
    obtain ⟨ticket, hplace, hmem⟩ := keepsWaiting_iff.mp hwaits
    have hdelivered : (s.semaphore.drop holding.handle).delivered = s.semaphore.delivered := by
      rw [hplace]
      exact (line_drop_queued hmem).2.1
    refine h.behind_remove fun item _ => ?_
    rw [← Holding.isSome_waiting?, ← Holding.isSome_waiting?, Holding.waiting?_congr hdelivered]

/-- A caller takes its unit, and keeps its place among the callers. -/
theorem take (h : s.Ranked) (hget : s.holdings.get? name = some holding)
    (hwaits : holding.waits s.semaphore = false) (after : Holding) (hafter : after.handle = .acquired) :
    Ranked ⟨s.semaphore.withdraw holding.handle, s.holdings.put name after, s.guards⟩ where
  orderly := h.orderly.take hget hwaits after hafter
  behind := by
    have htaken := h.orderly.take hget hwaits after hafter
    -- those who wait are the same
    have hrear : rear ⟨s.semaphore.withdraw holding.handle, s.holdings.put name after, s.guards⟩ = s.rear := by
      have hothers := h.orderly.filter_withdraw hget hwaits fun _ => true
      simp only [Bool.and_true] at hothers
      rw [rear, ← htaken.distinct.filter_remove (Table.get?_put_self _ _ _) ?_, Table.remove_put_self, hothers, rear]
      simp [Holding.waits, hafter, keepsWaiting]
    -- and the caller is not among them
    have hnew : name ∉ s.rear.map (·.1) := by
      intro hmem
      obtain ⟨⟨other, found⟩, hitem, rfl⟩ := List.mem_map.mp hmem
      obtain ⟨hin, hfound⟩ := List.mem_filter.mp hitem
      have hsame := h.orderly.distinct.get?_of_mem hin
      rw [hget, Option.some.injEq] at hsame
      rw [← hsame] at hfound
      exact Bool.false_ne_true (hwaits.symm.trans hfound)
    obtain ⟨front, hfront⟩ := h.behind
    have hthere : Table.get? front name = some holding := by
      rw [← Table.get?_append_left hnew, hfront, hget]
    rw [hrear]
    exact ⟨Table.put front name after, by rw [← Table.put_append_of_get? hthere, hfront]⟩

/-- A caller asks for a unit. -/
theorem ask (h : s.Ranked) (hnew : s.holdings.get? name = none) (wrap : Handle → Holding)
    (hwrap : ∀ place, (wrap place).handle = place) :
    Ranked ⟨s.semaphore.wait.2, s.holdings.put name (wrap s.semaphore.wait.1), s.guards⟩ where
  orderly := h.orderly.ask hnew wrap hwrap
  behind := by
    have hdelivered : s.semaphore.wait.2.delivered = s.semaphore.delivered := by
      rw [wait]
      split <;> rfl
    have hsame : ∀ item ∈ s.holdings, item.2.waits s.semaphore.wait.2 = item.2.waits s.semaphore := by
      intro item _
      rw [← Holding.isSome_waiting?, ← Holding.isSome_waiting?, Holding.waiting?_congr hdelivered]
    have hrear : rear ⟨s.semaphore.wait.2, s.holdings ++ [(name, wrap s.semaphore.wait.1)], s.guards⟩ =
        s.rear ++ [(name, wrap s.semaphore.wait.1)].filter fun item => item.2.waits s.semaphore.wait.2 := by
      rw [rear, List.filter_append, List.filter_congr hsame, rear]
    rw [Table.put_eq_append hnew, hrear]
    by_cases hpos : 0 < s.semaphore.available
    · -- a unit is there, so nobody waits
      have hline : s.semaphore.line = [] := by
        rw [Semaphore.line, h.orderly.spares hpos]
        rfl
      have hgranted : (wrap s.semaphore.wait.1).waits s.semaphore.wait.2 = false := by
        rw [Holding.waits, hwrap, wait, if_pos hpos]
        rfl
      rw [h.orderly.rear_eq_nil hline, List.filter_cons_of_neg (by simp [hgranted])]
      exact List.nil_suffix
    · -- it waits behind all the others
      have hwaits : (wrap s.semaphore.wait.1).waits s.semaphore.wait.2 = true := by
        rw [Holding.waits, hwrap, keepsWaiting_iff]
        refine ⟨s.semaphore.nextTicket, by rw [wait, if_neg hpos], ?_⟩
        rw [hdelivered]
        exact h.orderly.serves.nextTicket_notMem
      obtain ⟨front, hfront⟩ := h.behind
      rw [List.filter_cons_of_pos (by simp [hwaits])]
      exact ⟨front, by rw [List.filter_nil, ← List.append_assoc, hfront]⟩

/-- Units are given back. -/
theorem signal (h : s.Ranked) (count : ℕ) : Ranked ⟨s.semaphore.signal count, s.holdings, s.guards⟩ where
  orderly := h.orderly.signal count
  behind := by
    rw [h.orderly.rear_signal]
    exact (List.drop_suffix count s.rear).trans h.behind

/-- If the first of all callers waits, so does everybody. -/
theorem waits_of_first (h : s.Ranked) {rest : Table Holding} (hholdings : s.holdings = (name, holding) :: rest)
    (hwaits : holding.waits s.semaphore = true) {item : String × Holding} (hitem : item ∈ s.holdings) :
    item.2.waits s.semaphore = true := by
  have hbehind := h.behind
  have hrear : s.rear = (name, holding) :: rest.filter fun item => item.2.waits s.semaphore := by
    rw [rear, hholdings, List.filter_cons_of_pos (by simpa using hwaits)]
  rw [hrear, hholdings, List.suffix_cons_iff] at hbehind
  rcases hbehind with hall | hlater
  · rw [hholdings, ← hall, ← hrear] at hitem
    exact (List.mem_filter.mp hitem).2
  · -- otherwise one more would wait among the rest than do
    have hlength := (hlater.filter fun item => item.2.waits s.semaphore).length_le
    rw [List.filter_cons_of_pos (by simpa using hwaits), List.filter_filter] at hlength
    simp only [Bool.and_self, List.length_cons] at hlength
    omega

end Ranked

end MemcachedClient.Semaphore.Session
