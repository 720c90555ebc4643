import MemcachedClient.Proofs.Semaphore.Callers

/-!
# Who is handed a unit

When units are given back, the callers that wait are handed one each, in the order in which they came, as long
as there are units (`Session.Orderly.handed_move`): that is so whether the units come from outside, from a
guard, or from a caller that leaves with a unit on its way to it, and places that were given up do not
matter. Whoever waits after an operation waited before and was not handed a unit, or was started by the
operation and found none (`Session.Orderly.waits_move`).
-/

namespace MemcachedClient.Semaphore

namespace Session

variable {s t : Session} {name : String}

/-- The callers that wait, in the order in which they came. -/
def waiters (s : Session) : List String :=
  (s.holdings.filter fun item => item.2.waits s.semaphore).map (·.1)

/-- The callers that wait in `s` and have a unit on its way in `t`. -/
def handed (s t : Session) : List String :=
  (s.holdings.filter fun item => item.2.waits s.semaphore && item.2.isDelivered t.semaphore).map (·.1)

theorem mem_handed : name ∈ s.handed t ↔ ∃ holding, (name, holding) ∈ s.holdings ∧
    holding.waits s.semaphore = true ∧ holding.isDelivered t.semaphore = true := by
  simp [handed, Bool.and_eq_true]

theorem returned_drop {holding : Holding} (h : s.holdings.get? name = some holding) :
    s.returned (.drop name) = if holding.returns s.semaphore then 1 else 0 := by
  simp [returned, h]

theorem returned_drop_of_mem_guards (h : s.holdings.get? name = none) (hmem : name ∈ s.guards) :
    s.returned (.drop name) = 1 := by
  simp [returned, h, hmem]

/-- Nobody is handed a unit where none is sent on its way. -/
theorem handed_eq_nil (h : ∀ ticket ∈ t.semaphore.delivered, ticket ∈ s.semaphore.delivered) :
    s.handed t = [] := by
  rw [handed, List.map_eq_nil_iff, List.filter_eq_nil_iff]
  rintro ⟨name, holding⟩ - hboth
  obtain ⟨hwaits, hdelivered⟩ := Bool.and_eq_true_iff.mp hboth
  obtain ⟨ticket, hplace, hmem⟩ := keepsWaiting_iff.mp hwaits
  rw [Holding.isDelivered, hplace] at hdelivered
  exact hmem (h ticket (by simpa [Handle.ticket?] using hdelivered))

/-- Of the entries of a list that have a ticket, those with one of the first `count` tickets are the first `count`, and
the others come behind them. -/
theorem filter_tickets {α : Type} {ticketOf : α → Option ℕ} {callers : List α}
    (h : (callers.filterMap ticketOf).Nodup) (count : ℕ) :
    (callers.filter fun caller => (ticketOf caller).any (· ∈ (callers.filterMap ticketOf).take count)) =
        (callers.filter fun caller => (ticketOf caller).isSome).take count ∧
      (callers.filter fun caller => (ticketOf caller).any (· ∉ (callers.filterMap ticketOf).take count)) =
        (callers.filter fun caller => (ticketOf caller).isSome).drop count := by
  induction callers generalizing count with
  | nil => simp
  | cons caller callers ih =>
    cases hticket : ticketOf caller with
    | none =>
      rw [List.filterMap_cons_none hticket] at h ⊢
      simpa [hticket] using ih h count
    | some ticket =>
      rw [List.filterMap_cons_some hticket] at h ⊢
      obtain ⟨hnew, hrest⟩ := List.nodup_cons.mp h
      cases count with
      | zero =>
        have hall : ∀ other : α, (ticketOf other).any (fun _ => true) = (ticketOf other).isSome := fun other => by
          cases ticketOf other <;> rfl
        simp [hall]
      | succ count =>
        -- the other callers have other tickets
        have hsame : ∀ other ∈ callers, ∀ holds : Bool → Bool,
            (ticketOf other).any (fun t => holds (t ∈ ticket :: (callers.filterMap ticketOf).take count)) =
              (ticketOf other).any fun t => holds (t ∈ (callers.filterMap ticketOf).take count) := by
          intro other hother holds
          cases hticket' : ticketOf other with
          | none => rfl
          | some ticket' =>
            have hne : ticket' ≠ ticket := by
              rintro rfl
              exact hnew (List.mem_filterMap.mpr ⟨other, hother, hticket'⟩)
            simp [hne]
        obtain ⟨hfirst, hothers⟩ := ih hrest count
        have hmem := List.filter_congr fun other hother => hsame other hother id
        have hnot := List.filter_congr fun other hother => hsame other hother not
        simp only [id, ← decide_not] at hmem hnot
        constructor
        · rw [List.take_succ_cons, List.filter_cons_of_pos (by simp [hticket]),
            List.filter_cons_of_pos (by simp [hticket]), List.take_succ_cons, hmem, hfirst]
        · rw [List.take_succ_cons, List.filter_cons_of_neg (by simp [hticket]),
            List.filter_cons_of_pos (by simp [hticket]), List.drop_succ_cons, hnot, hothers]

namespace Orderly

/-- Of the units that are given back, the callers in line are handed one each, from the first on. -/
theorem handed_of_delivered (h : s.Orderly) {count : ℕ}
    (hdelivered : t.semaphore.delivered = (s.semaphore.line.take count).reverse ++ s.semaphore.delivered) :
    s.handed t = s.waiters.take count := by
  obtain ⟨hnodup, -⟩ := h.serves.line_disjoint
  rw [h.line] at hnodup hdelivered
  have hmem : ∀ item ∈ s.holdings, (item.2.waits s.semaphore && item.2.isDelivered t.semaphore) =
      (item.2.waiting? s.semaphore).any
        (· ∈ (s.holdings.filterMap fun item => item.2.waiting? s.semaphore).take count) := by
    rintro ⟨name, holding⟩ -
    cases hwaits : holding.waits s.semaphore with
    | false => simp [Holding.waiting?, hwaits]
    | true =>
      obtain ⟨ticket, hplace, hticket⟩ := keepsWaiting_iff.mp hwaits
      have hwaiting : holding.waiting? s.semaphore = some ticket := by
        rw [Holding.waiting?, if_pos hwaits, hplace]
        rfl
      rw [Bool.true_and, Holding.isDelivered, hplace, hwaiting]
      show decide (ticket ∈ t.semaphore.delivered) = decide (ticket ∈ _)
      rw [decide_eq_decide, hdelivered, List.mem_append, List.mem_reverse]
      simp only [hticket, or_false]
  have hsome : ∀ item ∈ s.holdings,
      item.2.waits s.semaphore = (item.2.waiting? s.semaphore).isSome := fun item _ =>
    (Holding.isSome_waiting? s.semaphore item.2).symm
  rw [handed, waiters, List.filter_congr hmem, (filter_tickets hnodup _).1, List.filter_congr hsome,
    List.map_take]

/-- Putting a caller aside that does not wait changes nothing for those that do. -/
theorem filter_withdraw (h : s.Orderly) {holding : Holding}
    (hget : s.holdings.get? name = some holding) (hwaits : holding.waits s.semaphore = false)
    (also : String × Holding → Bool) :
    ((s.holdings.remove name).filter fun item =>
        item.2.waits (s.semaphore.withdraw holding.handle) && also item) =
      s.holdings.filter fun item => item.2.waits s.semaphore && also item := by
  have hrest : ∀ item ∈ s.holdings.remove name,
      (item.2.waits (s.semaphore.withdraw holding.handle) && also item) =
        (item.2.waits s.semaphore && also item) := by
    intro item hitem
    rw [← Holding.isSome_waiting?, ← Holding.isSome_waiting?, h.waiting?_withdraw hget hitem]
  rw [List.filter_congr hrest, h.distinct.filter_remove hget (by simp [hwaits])]

theorem handed_withdraw (h : s.Orderly) {holding : Holding}
    (hget : s.holdings.get? name = some holding) (hwaits : holding.waits s.semaphore = false)
    (t : Session) :
    (⟨s.semaphore.withdraw holding.handle, s.holdings.remove name, s.guards⟩ : Session).handed t =
      s.handed t :=
  congrArg _ (h.filter_withdraw hget hwaits _)

theorem waiters_withdraw (h : s.Orderly) {holding : Holding}
    (hget : s.holdings.get? name = some holding) (hwaits : holding.waits s.semaphore = false) :
    (⟨s.semaphore.withdraw holding.handle, s.holdings.remove name, s.guards⟩ : Session).waiters = s.waiters := by
  have hfilter := h.filter_withdraw hget hwaits fun _ => true
  simp only [Bool.and_true] at hfilter
  exact congrArg (List.map (·.1)) hfilter

theorem mem_delivered_of_withdraw {semaphore : Semaphore} {place : Handle} {ticket : ℕ}
    (h : ticket ∈ (semaphore.withdraw place).delivered) : ticket ∈ semaphore.delivered := by
  cases place with
  | granted => exact h
  | queued other => exact List.mem_of_mem_erase h
  | acquired => exact h

/-- Who is handed a unit by an operation: as many callers as it gives units back, in their order. -/
theorem handed_move {event : Event} (h : s.Orderly) (hm : s.Move event t) :
    s.handed t = s.waiters.take (s.returned event) := by
  cases hm with
  | stay starts finishes yields keeps returned =>
    rw [returned, List.take_zero]
    exact handed_eq_nil fun _ hmem => hmem
  | ask starts new wrap wraps =>
    have hreturned : s.returned event = 0 := by
      cases event <;> simp_all [starts?, Session.returned]
    rw [hreturned, List.take_zero]
    refine handed_eq_nil fun ticket hmem => ?_
    rw [wait] at hmem
    split at hmem <;> exact hmem
  | take gets ready => exact handed_eq_nil fun _ hmem => mem_delivered_of_withdraw hmem
  | yield gets settled free => exact handed_eq_nil fun _ hmem => mem_delivered_of_withdraw hmem
  | @giveUp name holding gets waits =>
    obtain ⟨ticket, hplace, hnot⟩ := keepsWaiting_iff.mp waits
    rw [returned_drop gets, if_neg (Holding.not_returns_of_waits waits), List.take_zero]
    refine handed_eq_nil fun other hmem => ?_
    rw [hplace] at hmem
    exact (line_drop_queued hnot).2.1 ▸ hmem
  | @giveBack name holding gets returns =>
    have hwaits : holding.waits s.semaphore = false := keepsWaiting_of_isReadyFor returns
    rw [returned_drop gets, if_pos returns, ← h.handed_withdraw gets hwaits, ← h.waiters_withdraw gets hwaits]
    exact (h.withdraw gets hwaits).handed_of_delivered (delivered_signal _ 1)
  | @leave name holding gets acquired =>
    have hreturned : s.returned (.drop name) = 0 := by
      simp [returned_drop gets, Holding.returns, acquired, isReadyFor]
    rw [hreturned, List.take_zero]
    exact handed_eq_nil fun _ hmem => hmem
  | release gets guards =>
    rw [returned_drop_of_mem_guards gets guards]
    exact h.handed_of_delivered (delivered_signal _ 1)
  | keep guards => exact handed_eq_nil fun _ hmem => hmem
  | signal count => exact h.handed_of_delivered (delivered_signal _ count)

/-- Where no unit on its way is taken, who waits on is who waited and is not handed one. -/
theorem waits_iff_of_subset (h : s.Orderly)
    (hsub : ∀ ticket ∈ s.semaphore.delivered, ticket ∈ t.semaphore.delivered)
    {item : String × Holding} (hitem : item ∈ s.holdings) :
    item.2.waits t.semaphore = true ↔
      item.2.waits s.semaphore = true ∧ item.1 ∉ s.handed t := by
  obtain ⟨name, holding⟩ := item
  have hhanded : name ∈ s.handed t ↔
      holding.waits s.semaphore = true ∧ holding.isDelivered t.semaphore = true := by
    rw [mem_handed]
    constructor
    · rintro ⟨found, hfound, hboth⟩
      have he := (h.distinct.get?_of_mem hitem).symm.trans (h.distinct.get?_of_mem hfound)
      rw [Option.some.injEq] at he
      exact he ▸ hboth
    · intro hboth
      exact ⟨holding, hitem, hboth⟩
  rw [hhanded]
  dsimp only
  constructor
  · intro hwaits
    obtain ⟨ticket, hplace, hmem⟩ := keepsWaiting_iff.mp hwaits
    have hwaits' : holding.waits s.semaphore = true :=
      keepsWaiting_iff.mpr ⟨ticket, hplace, fun hmem' => hmem (hsub ticket hmem')⟩
    refine ⟨hwaits', fun hboth => ?_⟩
    rw [Holding.isDelivered, hplace] at hboth
    exact hmem (by simpa [Handle.ticket?] using hboth.2)
  · rintro ⟨hwaits, hnot⟩
    obtain ⟨ticket, hplace, hmem⟩ := keepsWaiting_iff.mp hwaits
    refine keepsWaiting_iff.mpr ⟨ticket, hplace, fun hmem' => hnot ⟨hwaits, ?_⟩⟩
    rw [Holding.isDelivered, hplace]
    simpa [Handle.ticket?] using hmem'

/-- Where units are given back and nothing else happens, who waits on is who waited and is not handed one. -/
theorem waits_iff_of_signal (h : s.Orderly) (count : ℕ) (guards : List String) {item : String × Holding}
    (hitem : item ∈ s.holdings) :
    item.2.waits (s.semaphore.signal count) = true ↔
      item.2.waits s.semaphore = true ∧ item.1 ∉ s.handed ⟨s.semaphore.signal count, s.holdings, guards⟩ := by
  refine h.waits_iff_of_subset (t := ⟨_, s.holdings, guards⟩) (fun ticket hmem => ?_) hitem
  rw [delivered_signal]
  exact List.mem_append_right _ hmem

/-- Where a caller takes its unit, the others wait on as before. -/
theorem waits_withdraw (h : s.Orderly) {holding : Holding} (hget : s.holdings.get? name = some holding)
    {item : String × Holding} (hitem : item ∈ s.holdings.remove name) :
    item.2.waits (s.semaphore.withdraw holding.handle) = item.2.waits s.semaphore := by
  rw [← Holding.isSome_waiting?, ← Holding.isSome_waiting?, h.waiting?_withdraw hget hitem]

/-- Where a caller takes its unit, who waits on is who waited. -/
theorem waits_of_put (h : s.Orderly) {holding after : Holding} (hget : s.holdings.get? name = some holding)
    (hsettled : holding.waits s.semaphore = false) (hafter : after.handle = .acquired)
    {item : String × Holding} (hitem : item ∈ s.holdings.put name after) :
    ∃ old, (item.1, old) ∈ s.holdings ∧
      item.2.waits (s.semaphore.withdraw holding.handle) = old.waits s.semaphore := by
  have hput := h.distinct.put name after
  rcases Table.eq_or_of_get?_put (hput.get?_of_mem (show (item.1, item.2) ∈ _ from hitem)) with
    ⟨hname, htaken⟩ | ⟨hname, hold⟩
  · refine ⟨holding, hname ▸ Table.mem_of_get? hget, ?_⟩
    rw [hsettled, htaken, Holding.waits, hafter]
    rfl
  · have hmem := Table.mem_of_get? hold
    exact ⟨item.2, hmem, h.waits_withdraw hget (List.mem_filter.mpr ⟨hmem, by simpa using hname⟩)⟩

/-- Who waits after an operation: a caller that it started and that found no unit, or a caller that waited
and was not handed one. -/
theorem waits_move {event : Event} (h : s.Orderly) (hm : s.Move event t) {item : String × Holding}
    (hitem : item ∈ t.holdings) :
    s.starts? event = some item.1 ∧
        (item.2.waits t.semaphore = true ↔ s.semaphore.available = 0) ∨
      s.starts? event ≠ some item.1 ∧ ∃ holding, (item.1, holding) ∈ s.holdings ∧
        (item.2.waits t.semaphore = true ↔
          holding.waits s.semaphore = true ∧ item.1 ∉ s.handed t) := by
  have hhanded := h.handed_move hm
  cases hm with
  | stay starts =>
    refine Or.inr ⟨by simp [starts], item.2, hitem, ?_⟩
    exact h.waits_iff_of_subset (fun _ hmem => hmem) hitem
  | @ask event name starts new wrap wraps =>
    have hnew := (uses_eq_false_iff.mp new).1
    rw [Table.put_eq_append hnew, List.mem_append, List.mem_singleton] at hitem
    rcases hitem with hitem | rfl
    · have hne : name ≠ item.1 := by
        rintro rfl
        have hfound := h.distinct.get?_of_mem (show (item.1, item.2) ∈ s.holdings from hitem)
        rw [hnew] at hfound
        simp at hfound
      refine Or.inr ⟨by simpa [starts] using hne, item.2, hitem, ?_⟩
      refine h.waits_iff_of_subset (fun ticket hmem => ?_) hitem
      rw [wait]
      split <;> exact hmem
    · refine Or.inl ⟨starts, ?_⟩
      have hserves := h.serves
      rw [Holding.waits, wraps, wait]
      split
      · next hpos => simpa [keepsWaiting] using Nat.ne_of_gt hpos
      · next hzero =>
        have hfresh : s.semaphore.nextTicket ∉ s.semaphore.delivered := hserves.nextTicket_notMem
        simpa [keepsWaiting, hfresh] using Nat.eq_zero_of_not_pos hzero
  | @take name guard handle gets ready =>
    obtain ⟨old, hmem, hwaits⟩ := h.waits_of_put gets (keepsWaiting_of_isReadyFor ready) rfl hitem
    refine Or.inr ⟨by simp [starts?], old, hmem, ?_⟩
    rw [hhanded, ← hwaits]
    simp [returned, Holding.handle]
  | @yield name guard handle gets settled free =>
    suffices hold : ∃ old, (item.1, old) ∈ s.holdings ∧
        item.2.waits (s.semaphore.withdraw handle) = old.waits s.semaphore by
      obtain ⟨old, hmem, hwaits⟩ := hold
      refine Or.inr ⟨by simp [starts?], old, hmem, ?_⟩
      rw [hhanded, ← hwaits]
      simp [returned, Session.yield]
    rw [Session.yield] at hitem
    dsimp only at hitem
    split at hitem
    · exact ⟨item.2, (List.mem_filter.mp hitem).1, h.waits_withdraw gets hitem⟩
    · exact h.waits_of_put gets settled rfl hitem
  | @giveUp name holding gets waits =>
    obtain ⟨ticket, hplace, hnot⟩ := keepsWaiting_iff.mp waits
    have hmem := (List.mem_filter.mp hitem).1
    refine Or.inr ⟨by simp [starts?], item.2, hmem, ?_⟩
    refine h.waits_iff_of_subset (fun other hother => ?_) hmem
    rw [hplace, (line_drop_queued hnot).2.1]
    exact hother
  | @giveBack name holding gets returns =>
    have hwaits : holding.waits s.semaphore = false := keepsWaiting_of_isReadyFor returns
    refine Or.inr ⟨by simp [starts?], item.2, (List.mem_filter.mp hitem).1, ?_⟩
    have hbase := (h.withdraw gets hwaits).waits_iff_of_signal 1 s.guards hitem
    dsimp only at hbase
    rw [h.handed_withdraw gets hwaits, h.waits_withdraw gets hitem] at hbase
    exact hbase
  | @leave name holding gets acquired =>
    have hmem := (List.mem_filter.mp hitem).1
    refine Or.inr ⟨by simp [starts?], item.2, hmem, ?_⟩
    exact h.waits_iff_of_subset (fun _ hmem => hmem) hmem
  | release gets guards => exact Or.inr ⟨by simp [starts?], item.2, hitem, h.waits_iff_of_signal 1 _ hitem⟩
  | keep guards =>
    refine Or.inr ⟨by simp [starts?], item.2, hitem, ?_⟩
    exact h.waits_iff_of_subset (fun _ hmem => hmem) hitem
  | signal count => exact Or.inr ⟨by simp [starts?], item.2, hitem, h.waits_iff_of_signal count _ hitem⟩

end Orderly

end Session

end MemcachedClient.Semaphore
