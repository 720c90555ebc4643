import MemcachedClient.Proofs.Semaphore.Line
import MemcachedClient.Proofs.Table
import MemcachedClient.Semaphore.Session

/-!
# The callers of a semaphore

What the operations of the callers do to a semaphore. `Session.Move` lists it: a caller asks for a unit, takes
the one that is there for it, gives up, leaves with its unit or gives it back, or units are given back from
outside. `Session.move_step` says that the list is complete, and all that holds along a run is proved for each
line of it.

`Session.Orderly` is the invariant: the line before the semaphore are the callers that wait, in the order in
which they came.
-/

namespace MemcachedClient.Semaphore

/-- Whether a handle waits: it queued, and no unit is on its way to it. -/
def keepsWaiting (s : Semaphore) : Handle → Bool
  | .queued ticket => ticket ∉ s.delivered
  | _ => false

theorem keepsWaiting_iff {s : Semaphore} {place : Handle} :
    s.keepsWaiting place = true ↔ ∃ ticket, place = .queued ticket ∧ ticket ∉ s.delivered := by
  cases place <;> simp [keepsWaiting]

/-- Who does not wait has its unit, or takes it when it looks. -/
theorem poll_of_keepsWaiting_eq_false {s : Semaphore} {place : Handle}
    (h : s.keepsWaiting place = false) : s.poll place = (true, .acquired, s.withdraw place) := by
  cases place with
  | granted => rfl
  | queued ticket => exact if_pos (by simpa [keepsWaiting] using h)
  | acquired => rfl

/-- Where no unit is there to be taken, looking changes nothing. -/
theorem exists_poll_of_isReadyFor_eq_false {s : Semaphore} {place : Handle} (h : s.isReadyFor place = false) :
    ∃ taken, s.poll place = (taken, place, s) := by
  cases place with
  | granted => simp [isReadyFor] at h
  | queued ticket => exact ⟨false, if_neg (by simpa [isReadyFor] using h)⟩
  | acquired => exact ⟨true, rfl⟩

theorem keepsWaiting_of_isReadyFor {s : Semaphore} {place : Handle}
    (h : s.isReadyFor place = true) : s.keepsWaiting place = false := by
  cases place with
  | granted => rfl
  | queued ticket => simpa [keepsWaiting, isReadyFor] using h
  | acquired => rfl

namespace Holding

/-- Whether a unit was available when the caller asked for it, and the caller has not taken it. -/
def isGranted (holding : Holding) : Bool := holding.handle == .granted

/-- Whether a caller queued, and its unit is on its way. -/
def isDelivered (s : Semaphore) (holding : Holding) : Bool :=
  holding.handle.ticket?.any (· ∈ s.delivered)

/-- Whether a caller waits for its unit. -/
def waits (s : Semaphore) (holding : Holding) : Bool := s.keepsWaiting holding.handle

/-- The ticket of a caller that waits. -/
def waiting? (s : Semaphore) (holding : Holding) : Option ℕ :=
  if holding.waits s then holding.handle.ticket? else none

theorem ticket?_of_waiting? {s : Semaphore} {holding : Holding} {ticket : ℕ}
    (h : holding.waiting? s = some ticket) : holding.handle.ticket? = some ticket := by
  rw [waiting?] at h
  split at h
  · exact h
  · simp at h

@[simp] theorem isSome_waiting? (s : Semaphore) (holding : Holding) :
    (holding.waiting? s).isSome = holding.waits s := by
  rw [waiting?]
  cases hwaits : holding.waits s with
  | false => rfl
  | true =>
    obtain ⟨ticket, hplace, -⟩ := keepsWaiting_iff.mp hwaits
    simp [hplace, Handle.ticket?]

theorem waiting?_congr {s t : Semaphore} (h : t.delivered = s.delivered) (holding : Holding) :
    holding.waiting? t = holding.waiting? s := by
  have hwaits : holding.waits t = holding.waits s := by
    simp only [waits]
    cases holding.handle <;> simp [keepsWaiting, h]
  rw [waiting?, waiting?, hwaits]

/-- Who is handed a unit waits no longer. -/
theorem waiting?_of_delivered {s t : Semaphore} {handed : List ℕ}
    (h : t.delivered = handed ++ s.delivered) (holding : Holding) :
    holding.waiting? t = (holding.waiting? s).filter (· ∉ handed) := by
  cases hplace : holding.handle with
  | granted => simp [waiting?, waits, hplace, keepsWaiting]
  | acquired => simp [waiting?, waits, hplace, keepsWaiting]
  | queued ticket =>
    by_cases hs : ticket ∈ s.delivered <;> by_cases hnew : ticket ∈ handed <;>
      simp [waiting?, waits, hplace, keepsWaiting, Handle.ticket?, Option.filter, h, hs, hnew]

/-- Whether a caller has a unit that it gives back when its handle is dropped. A unit that it has taken is with the
wait that took it, or in a guard. -/
def returns (s : Semaphore) (holding : Holding) : Bool := s.isReadyFor holding.handle

theorem returns_eq (s : Semaphore) (holding : Holding) :
    holding.returns s = (holding.isGranted || holding.isDelivered s) := by
  rw [returns, isGranted, isDelivered]
  cases holding.handle <;> rfl

/-- Who waits has no unit to give back. -/
theorem not_returns_of_waits {s : Semaphore} {holding : Holding} (h : holding.waits s = true) :
    ¬ holding.returns s = true := by
  intro hreturns
  rw [waits, keepsWaiting_of_isReadyFor hreturns] at h
  simp at h

/-- A caller that does not wait has a unit to give back, or it has taken its unit. -/
theorem handle_of_not_returns {s : Semaphore} {holding : Holding} (hwaits : holding.waits s = false)
    (hreturns : holding.returns s = false) : holding.handle = .acquired := by
  rw [waits] at hwaits
  rw [returns] at hreturns
  cases hplace : holding.handle <;> simp_all [isReadyFor, keepsWaiting]

end Holding

theorem filter_notMem_take {tickets : List ℕ} (h : tickets.Nodup) (count : ℕ) :
    tickets.filter (· ∉ tickets.take count) = tickets.drop count := by
  have hall : ∀ first rest : List ℕ, (first ++ rest).Nodup →
      (first ++ rest).filter (· ∉ first) = rest := by
    intro first rest hnodup
    have hdisjoint := List.disjoint_of_nodup_append hnodup
    rw [List.filter_append, List.filter_eq_nil_iff.mpr (by simp), List.nil_append,
      List.filter_eq_self]
    intro ticket hmem
    simpa using fun hfirst => hdisjoint hfirst hmem
  simpa [List.take_append_drop] using hall (tickets.take count) (tickets.drop count)
    (by rwa [List.take_append_drop])

namespace Session

/-- The number of callers with a ticket. -/
def calls (s : Session) (ticket : ℕ) : ℕ :=
  s.holdings.count fun holding => holding.handle.ticket? == some ticket

/-- The caller that an operation starts. -/
def starts? (s : Session) : Event → Option String
  | .wait name => if s.uses name then none else some name
  | .waitAndSignal name => if s.uses name then none else some name
  | _ => none

/-- The plain wait that takes its unit in an operation. -/
def finishes? (s : Session) : Event → Option String
  | .poll name _ =>
    match s.holdings.get? name with
    | some (.plain handle) => if s.semaphore.isReadyFor handle then some name else none
    | _ => none
  | _ => none

/-- The handle that yields a guard in an operation, and the name of the guard. -/
def yields? (s : Session) : Event → Option (String × String)
  | .poll name guard =>
    match s.holdings.get? name with
    | some (.guarding handle) =>
      if (guard = name ∨ s.uses guard = false) ∧ s.semaphore.keepsWaiting handle = false then some (name, guard)
      else none
    | _ => none
  | _ => none

/-- Whether a handle yields a guard in an operation although it had taken its unit before. -/
def repeats (s : Session) (event : Event) : Bool :=
  (s.yields? event).any fun (name, _) => s.holdings.get? name = some (.guarding .acquired)

/-- The guard that is told in an operation to keep its unit. -/
def keeps? (s : Session) : Event → Option String
  | .forget name => if name ∈ s.guards then some name else none
  | _ => none

/-- The number of units that an operation gives back. -/
def returned (s : Session) : Event → ℕ
  | .signal count => count
  | .drop name =>
    match s.holdings.get? name with
    | some holding => if holding.returns s.semaphore then 1 else 0
    | none => if name ∈ s.guards then 1 else 0
  | _ => 0

/-- What an operation can do. -/
inductive Move (s : Session) : Event → Session → Prop where
  /-- Nothing. -/
  | stay {event : Event} (starts : s.starts? event = none) (finishes : s.finishes? event = none)
    (yields : s.yields? event = none) (keeps : s.keeps? event = none) (returned : s.returned event = 0) :
    Move s event s
  /-- A caller asks for a unit. -/
  | ask {event : Event} {name : String} (starts : s.starts? event = some name) (new : s.uses name = false)
    (wrap : Handle → Holding) (wraps : ∀ place, (wrap place).handle = place) :
    Move s event ⟨s.semaphore.wait.2, s.holdings.put name (wrap s.semaphore.wait.1), s.guards⟩
  /-- A plain wait takes the unit that is there for it. -/
  | take {name guard : String} {handle : Handle} (gets : s.holdings.get? name = some (.plain handle))
    (ready : s.semaphore.isReadyFor handle = true) :
    Move s (.poll name guard) ⟨s.semaphore.withdraw handle, s.holdings.put name (.plain .acquired), s.guards⟩
  /-- A handle that has taken its unit, or takes the one that is there for it, yields a guard. -/
  | yield {name guard : String} {handle : Handle} (gets : s.holdings.get? name = some (.guarding handle))
    (settled : s.semaphore.keepsWaiting handle = false) (free : guard = name ∨ s.uses guard = false) :
    Move s (.poll name guard) (s.yield (s.semaphore.withdraw handle) name guard)
  /-- A caller gives up. -/
  | giveUp {name : String} {holding : Holding} (gets : s.holdings.get? name = some holding)
    (waits : holding.waits s.semaphore = true) :
    Move s (.drop name) ⟨s.semaphore.drop holding.handle, s.holdings.remove name, s.guards⟩
  /-- A caller gives back the unit that is there for it. -/
  | giveBack {name : String} {holding : Holding} (gets : s.holdings.get? name = some holding)
    (returns : holding.returns s.semaphore = true) :
    Move s (.drop name) ⟨(s.semaphore.withdraw holding.handle).signalOne, s.holdings.remove name, s.guards⟩
  /-- A handle whose unit was taken goes. -/
  | leave {name : String} {holding : Holding} (gets : s.holdings.get? name = some holding)
    (acquired : holding.handle = .acquired) :
    Move s (.drop name) ⟨s.semaphore, s.holdings.remove name, s.guards⟩
  /-- A guard gives its unit back. -/
  | release {name : String} (gets : s.holdings.get? name = none) (guards : name ∈ s.guards) :
    Move s (.drop name) ⟨s.semaphore.signalOne, s.holdings, s.guards.erase name⟩
  /-- A guard leaves and keeps its unit. -/
  | keep {name : String} (guards : name ∈ s.guards) :
    Move s (.forget name) ⟨s.semaphore, s.holdings, s.guards.erase name⟩
  /-- Units are given back from outside. -/
  | signal (count : ℕ) : Move s (.signal count) ⟨s.semaphore.signal count, s.holdings, s.guards⟩

variable {s : Session} {name other : String} {holding : Holding}

/-- A handle yields a guard when it is looked at and does not wait. -/
theorem yields?_eq_some_iff {event : Event} {guard : String} : s.yields? event = some (name, guard) ↔
    event = .poll name guard ∧ ∃ handle, s.holdings.get? name = some (.guarding handle) ∧
      (guard = name ∨ s.uses guard = false) ∧ s.semaphore.keepsWaiting handle = false := by
  constructor
  · intro h
    cases event with
    | poll name' guard' =>
      simp only [yields?] at h
      split at h
      · next handle hget =>
        split at h
        · next hboth =>
          simp only [Option.some.injEq, Prod.mk.injEq] at h
          obtain ⟨rfl, rfl⟩ := h
          exact ⟨rfl, handle, hget, hboth⟩
        · simp at h
      · simp at h
    | _ => simp [yields?] at h
  · rintro ⟨rfl, handle, hget, hboth⟩
    simp only [yields?, hget, if_pos hboth]

theorem uses_eq_false_iff : s.uses name = false ↔ s.holdings.get? name = none ∧ name ∉ s.guards := by
  simp [uses, Table.has_eq_false_iff]

/-- A name that is in use starts nothing. -/
theorem uses_of_starts {event : Event} (h : s.starts? event = some name) : s.uses name = false := by
  cases event with
  | wait other | waitAndSignal other =>
    simp only [starts?] at h
    split at h
    · simp at h
    · next huses => exact Option.some.inj h ▸ Bool.eq_false_iff.mpr huses
  | _ => simp [starts?] at h

theorem uses_of_mem {item : String × Holding} (h : item ∈ s.holdings) : s.uses item.1 = true := by
  rw [← Bool.not_eq_false, uses_eq_false_iff, Table.get?_eq_none_iff]
  exact fun hnew => hnew.1 (List.mem_map_of_mem h)

/-- Looking at a handle does what is on the list. -/
theorem move_poll (s : Session) (name guard : String) :
    s.Move (.poll name guard) (s.step (.poll name guard)).2 := by
  cases hget : s.holdings.get? name with
  | none =>
    simp only [step, hget]
    exact .stay rfl (by simp [finishes?, hget]) (by simp [yields?, hget]) rfl rfl
  | some holding =>
    have hput := Table.put_of_get?_eq_some hget
    cases holding with
    | plain handle =>
      have hyields : s.yields? (.poll name guard) = none := by simp [yields?, hget]
      cases hready : s.semaphore.isReadyFor handle with
      | true =>
        simp only [step, hget, poll_of_isReadyFor hready]
        exact .take hget hready
      | false =>
        -- nothing is there to be taken, so nothing changes
        have hfinishes : s.finishes? (.poll name guard) = none := by simp [finishes?, hget, hready]
        obtain ⟨taken, hpoll⟩ := exists_poll_of_isReadyFor_eq_false hready
        simp only [step, hget, hpoll, hput]
        exact .stay rfl hfinishes hyields rfl rfl
    | guarding handle =>
      have hfinishes : s.finishes? (.poll name guard) = none := by simp [finishes?, hget]
      by_cases hused : guard ≠ name ∧ s.uses guard = true
      · have hfree : ¬ (guard = name ∨ s.uses guard = false) := by simpa using hused
        simp only [step, hget, if_pos hused]
        exact .stay rfl hfinishes (by simp [yields?, hget, hfree]) rfl rfl
      · have hfree : guard = name ∨ s.uses guard = false := by
          simpa [Classical.or_iff_not_imp_left] using hused
        simp only [step, hget, if_neg hused]
        cases hwaits : s.semaphore.keepsWaiting handle with
        | true =>
          obtain ⟨ticket, rfl, hmem⟩ := keepsWaiting_iff.mp hwaits
          have hpoll : s.semaphore.poll (.queued ticket) = (false, .queued ticket, s.semaphore) := if_neg hmem
          simp only [hpoll, Bool.false_eq_true, if_false, hput]
          exact .stay rfl hfinishes (by simp [yields?, hget, hwaits]) rfl rfl
        | false =>
          simp only [poll_of_keepsWaiting_eq_false hwaits, if_true]
          exact .yield hget hwaits hfree

/-- Dropping a handle or a guard does what is on the list. -/
theorem move_drop (s : Session) (name : String) : s.Move (.drop name) (s.step (.drop name)).2 := by
  cases hget : s.holdings.get? name with
  | none =>
    by_cases hmem : name ∈ s.guards
    · simp only [step, hget, if_pos hmem]
      exact .release hget hmem
    · simp only [step, hget, if_neg hmem]
      exact .stay rfl rfl rfl rfl (by simp [returned, hget, hmem])
  | some holding =>
    simp only [step, hget]
    cases hwaits : holding.waits s.semaphore with
    | true => exact .giveUp hget hwaits
    | false =>
      cases hreturns : holding.returns s.semaphore with
      | true =>
        rw [drop_of_isReadyFor hreturns]
        exact .giveBack hget hreturns
      | false =>
        have hacquired := Holding.handle_of_not_returns hwaits hreturns
        rw [hacquired]
        exact .leave hget hacquired

/-- What an operation does is on the list. -/
theorem move_step (s : Session) (event : Event) : s.Move event (s.step event).2 := by
  cases event with
  | wait name =>
    simp only [step]
    cases huses : s.uses name with
    | true => exact .stay (if_pos huses) rfl rfl rfl rfl
    | false => exact .ask (by simp [starts?, huses]) huses .plain fun _ => rfl
  | waitAndSignal name =>
    simp only [step]
    cases huses : s.uses name with
    | true => exact .stay (if_pos huses) rfl rfl rfl rfl
    | false => exact .ask (by simp [starts?, huses]) huses .guarding fun _ => rfl
  | isReady name =>
    have hsame : (s.step (.isReady name)).2 = s := by
      simp only [step]
      split <;> rfl
    rw [hsame]
    exact .stay rfl rfl rfl rfl rfl
  | poll name guard => exact s.move_poll name guard
  | drop name => exact s.move_drop name
  | forget name =>
    by_cases hmem : name ∈ s.guards
    · simp only [step, if_pos hmem]
      exact .keep hmem
    · simp only [step, if_neg hmem]
      exact .stay rfl rfl rfl (if_neg hmem) rfl
  | signal count => exact .signal count

/-- The guards of before are left, and the one that is yielded comes to them. -/
theorem mem_guards_move {event : Event} {t : Session} {guard : String} (hm : s.Move event t)
    (hmem : guard ∈ t.guards) : guard ∈ s.guards ∨ ∃ name, s.yields? event = some (name, guard) := by
  cases hm with
  | @yield name guard' handle gets settled free =>
    rcases List.mem_cons.mp hmem with rfl | hmem
    · exact Or.inr ⟨name, yields?_eq_some_iff.mpr ⟨rfl, handle, gets, free, settled⟩⟩
    · exact Or.inl hmem
  | release gets guards => exact Or.inl (List.mem_of_mem_erase hmem)
  | keep guards => exact Or.inl (List.mem_of_mem_erase hmem)
  | stay | ask | take | giveUp | giveBack | leave | signal => exact Or.inl hmem

/-- No name stands for a handle and for a guard. -/
def Apart (s : Session) : Prop := ∀ guard ∈ s.guards, s.holdings.get? guard = none

theorem Apart.move {event : Event} {t : Session} (h : s.Apart) (hm : s.Move event t) : t.Apart := by
  intro guard hmem
  have hput : ∀ {name holding} after, s.holdings.get? name = some holding → guard ∈ s.guards →
      (s.holdings.put name after).get? guard = none := by
    intro name holding after hget hmem
    rw [Table.get?_put_of_ne _ _ fun e => by simp [← e, h guard hmem] at hget]
    exact h guard hmem
  have hremove : ∀ name, guard ∈ s.guards → (s.holdings.remove name).get? guard = none := by
    intro name hmem
    rw [Table.get?_remove, h guard hmem, ite_self]
  cases hm with
  | stay => exact h guard hmem
  | ask starts new wrap wraps =>
    have hne : guard ≠ _ := ne_of_mem_of_not_mem hmem (uses_eq_false_iff.mp new).2
    rw [Table.get?_put_of_ne _ _ hne]
    exact h guard hmem
  | take gets ready => exact hput _ gets hmem
  | @yield name guard' handle gets settled free =>
    dsimp only [Session.yield] at hmem ⊢
    split
    · next e =>
      rcases List.mem_cons.mp hmem with rfl | hmem
      · rw [e, Table.get?_remove_self]
      · exact hremove name hmem
    · next hne =>
      rcases List.mem_cons.mp hmem with rfl | hmem
      · rw [Table.get?_put_of_ne _ _ hne]
        exact (uses_eq_false_iff.mp (free.resolve_left hne)).1
      · exact hput _ gets hmem
  | giveUp gets waits => exact hremove _ hmem
  | giveBack gets returns => exact hremove _ hmem
  | leave gets acquired => exact hremove _ hmem
  | release gets guards => exact h guard (List.mem_of_mem_erase hmem)
  | keep guards => exact h guard (List.mem_of_mem_erase hmem)
  | signal count => exact h guard hmem

/-- The line before the semaphore are the callers that wait, in the order in which they came. -/
structure Orderly (s : Session) : Prop where
  /-- No name stands for two callers. -/
  distinct : s.holdings.Distinct
  /-- The semaphore serves the callers. -/
  serves : s.semaphore.Serves s.calls
  /-- There are units to spare only if the queue is empty. -/
  spares : s.semaphore.Spares
  /-- Who waits stands in line. -/
  line : s.semaphore.line = s.holdings.filterMap fun item => item.2.waiting? s.semaphore

theorem orderly_ofCount (count : ℕ) : (ofCount count).Orderly where
  distinct := Table.distinct_nil
  serves := serves_ofCount count
  spares := fun _ => rfl
  line := rfl

namespace Orderly

/-- The guards do not stand in line. -/
theorem withGuards (h : s.Orderly) (guards : List String) : Orderly ⟨s.semaphore, s.holdings, guards⟩ := { h with }

/-- No other caller has the ticket of a caller. -/
theorem alone (h : s.Orderly) (hget : s.holdings.get? name = some holding) {ticket : ℕ}
    (hticket : holding.handle.ticket? = some ticket) {item : String × Holding}
    (hitem : item ∈ s.holdings.remove name) : item.2.handle.ticket? ≠ some ticket := by
  intro hother
  have hle := h.serves.calls_le_one ticket
  rw [calls, h.distinct.count_eq_remove _ hget, hticket] at hle
  have hpos : 0 < (s.holdings.remove name).count fun holding => holding.handle.ticket? == some ticket :=
    Table.count_pos_iff.mpr ⟨item, hitem, by simp [hother]⟩
  simp only [beq_self_eq_true, Bool.toNat_true] at hle
  omega

/-- The callers without one of them. -/
theorem calls_eq (h : s.Orderly) (hget : s.holdings.get? name = some holding) (ticket : ℕ) :
    s.calls ticket = (⟨s.semaphore, s.holdings.remove name, s.guards⟩ : Session).calls ticket +
      if holding.handle.ticket? = some ticket then 1 else 0 := by
  rw [calls, h.distinct.count_eq_remove _ hget, calls]
  by_cases e : holding.handle.ticket? = some ticket <;> simp [e]

/-- A unit on its way to one caller concerns nobody else. -/
theorem waiting?_withdraw (h : s.Orderly) (hget : s.holdings.get? name = some holding)
    {item : String × Holding} (hitem : item ∈ s.holdings.remove name) :
    item.2.waiting? (s.semaphore.withdraw holding.handle) = item.2.waiting? s.semaphore := by
  obtain ⟨other, found⟩ := item
  cases hplace : holding.handle with
  | granted => rfl
  | acquired => rfl
  | queued ticket =>
    have hticket : holding.handle.ticket? = some ticket := by rw [hplace]; rfl
    have hne := h.alone hget hticket hitem
    have hwaits : found.waits (s.semaphore.withdraw (.queued ticket)) = found.waits s.semaphore := by
      simp only [Holding.waits, withdraw]
      cases hfound : found.handle with
      | granted => rfl
      | acquired => rfl
      | queued ticket' =>
        have hne' : ticket' ≠ ticket := by
          rintro rfl
          exact hne (by rw [hfound]; rfl)
        simp [keepsWaiting, List.mem_erase_of_ne hne']
    rw [Holding.waiting?, Holding.waiting?, hwaits]

/-- A caller that does not wait is put aside with its unit. -/
theorem withdraw (h : s.Orderly) (hget : s.holdings.get? name = some holding)
    (hwaits : holding.waits s.semaphore = false) :
    Orderly ⟨s.semaphore.withdraw holding.handle, s.holdings.remove name, s.guards⟩ where
  distinct := h.distinct.remove name
  serves := by
    have hpoll := poll_of_keepsWaiting_eq_false hwaits
    have := h.serves.poll (by rw [hpoll]) (h.calls_eq hget)
    rwa [hpoll] at this
  spares := by
    have hspares := h.spares
    cases holding.handle <;> exact hspares
  line := by
    have hline : (s.semaphore.withdraw holding.handle).line = s.semaphore.line := by
      cases holding.handle <;> rfl
    have hnone : holding.waiting? s.semaphore = none := by simp [Holding.waiting?, hwaits]
    rw [hline, h.line, ← h.distinct.filterMap_remove hget hnone]
    exact List.filterMap_congr fun item hitem => (h.waiting?_withdraw hget hitem).symm

/-- A caller takes its unit. -/
theorem take (h : s.Orderly) (hget : s.holdings.get? name = some holding)
    (hwaits : holding.waits s.semaphore = false) (after : Holding) (hafter : after.handle = .acquired) :
    Orderly ⟨s.semaphore.withdraw holding.handle, s.holdings.put name after, s.guards⟩ where
  distinct := h.distinct.put name _
  serves := by
    have hserves := (h.withdraw hget hwaits).serves
    refine ⟨hserves.once, fun ticket => ?_⟩
    rw [hserves.owed, calls, calls, h.distinct.count_put]
    simp [hafter, Handle.ticket?]
  spares := (h.withdraw hget hwaits).spares
  line := by
    have hput := h.distinct.put name after
    have hget' := Table.get?_put_self s.holdings name after
    have hnone : after.waiting? (s.semaphore.withdraw holding.handle) = none := by
      simp [Holding.waiting?, Holding.waits, hafter, keepsWaiting]
    rw [(h.withdraw hget hwaits).line, ← hput.filterMap_remove hget' hnone, Table.remove_put_self]

/-- The caller under a name has taken its unit and yields a guard. -/
theorem yield (h : s.Orderly) (hget : s.holdings.get? name = some holding)
    (hwaits : holding.waits s.semaphore = false) (guard : String) :
    (s.yield (s.semaphore.withdraw holding.handle) name guard).Orderly := by
  rw [Session.yield]
  split
  · exact (h.withdraw hget hwaits).withGuards _
  · exact Orderly.withGuards (h.take hget hwaits _ rfl) _

/-- A caller gives up. -/
theorem giveUp (h : s.Orderly) (hget : s.holdings.get? name = some holding)
    (hwaits : holding.waits s.semaphore = true) :
    Orderly ⟨s.semaphore.drop holding.handle, s.holdings.remove name, s.guards⟩ := by
  obtain ⟨ticket, hplace, hmem⟩ := keepsWaiting_iff.mp hwaits
  have hticket : holding.handle.ticket? = some ticket := by rw [hplace]; rfl
  refine ⟨h.distinct.remove name, h.serves.drop (h.calls_eq hget), ?_, ?_⟩
  · rw [hplace]
    exact h.spares.drop_queued hmem
  · obtain ⟨hline, hdelivered, -⟩ := line_drop_queued hmem
    simp only [hplace]
    rw [hline, h.line, List.filter_filterMap, Table.remove, List.filterMap_filter]
    refine List.filterMap_congr fun item hitem => ?_
    rw [Holding.waiting?_congr hdelivered]
    by_cases hname : item.1 = name
    · obtain ⟨other, found⟩ := item
      obtain rfl : other = name := hname
      have hfound := h.distinct.get?_of_mem hitem
      rw [hget, Option.some.injEq] at hfound
      simp [← hfound, Holding.waiting?, hwaits, hticket]
    · have hrest : item ∈ s.holdings.remove name := List.mem_filter.mpr ⟨hitem, by simpa using hname⟩
      have hne := h.alone hget hticket hrest
      rw [if_pos (by simpa using hname)]
      cases hwaiting : item.2.waiting? s.semaphore with
      | none => rfl
      | some other =>
        have hother : other ≠ ticket := by
          rintro rfl
          exact hne (Holding.ticket?_of_waiting? hwaiting)
        simp [Option.filter, hother]

/-- A caller asks for a unit. -/
theorem ask (h : s.Orderly) (hnew : s.holdings.get? name = none) (wrap : Handle → Holding)
    (hwrap : ∀ place, (wrap place).handle = place) :
    Orderly ⟨s.semaphore.wait.2, s.holdings.put name (wrap s.semaphore.wait.1), s.guards⟩ where
  distinct := h.distinct.put name _
  serves := by
    refine ⟨h.serves.wait.once, fun ticket => ?_⟩
    rw [h.serves.wait.owed, calls, calls, h.distinct.count_put, Table.remove_of_get?_eq_none hnew,
      hwrap]
    by_cases e : s.semaphore.wait.1.ticket? = some ticket <;> simp [e]
  spares := by
    have hspares := h.spares
    intro hpos
    rw [wait] at hpos ⊢
    split at hpos
    · next havailable =>
      rw [if_pos havailable]
      exact hspares havailable
    · next hnone => exact absurd hpos hnone
  line := by
    have hfresh := h.serves.nextTicket_notMem
    have hsame : ∀ holding : Holding,
        holding.waiting? s.semaphore.wait.2 = holding.waiting? s.semaphore := by
      refine Holding.waiting?_congr ?_
      rw [wait]
      split <;> rfl
    simp only [hsame]
    rw [Table.put_eq_append hnew, List.filterMap_append, ← h.line]
    rw [wait]
    split
    · have hnone : (wrap .granted).waiting? s.semaphore = none := by
        simp [Holding.waiting?, Holding.waits, hwrap, keepsWaiting]
      simp [Semaphore.line, hnone]
    · have hsome : (wrap (.queued s.semaphore.nextTicket)).waiting? s.semaphore =
          some s.semaphore.nextTicket := by
        simp [Holding.waiting?, Holding.waits, hwrap, keepsWaiting, hfresh, Handle.ticket?]
      simp [Semaphore.line, hsome]

/-- Units are given back from outside. -/
theorem signal (h : s.Orderly) (count : ℕ) :
    Orderly ⟨s.semaphore.signal count, s.holdings, s.guards⟩ where
  distinct := h.distinct
  serves := h.serves.signal count
  spares := h.spares.signal count
  line := by
    have hdelivered := delivered_signal s.semaphore count
    have hwaiting := fun holding : Holding => Holding.waiting?_of_delivered hdelivered holding
    simp only [hwaiting, List.mem_reverse]
    rw [line_signal, ← List.filter_filterMap, ← h.line,
      filter_notMem_take h.serves.line_disjoint.1]

/-- Every operation keeps the callers in order. -/
theorem move {event : Event} {t : Session} (h : s.Orderly) (hm : s.Move event t) : t.Orderly := by
  cases hm with
  | stay => exact h
  | ask starts new wrap wraps => exact h.ask (uses_eq_false_iff.mp new).1 wrap wraps
  | take gets ready => exact h.take gets (keepsWaiting_of_isReadyFor ready) _ rfl
  | @yield name guard handle gets settled free => exact h.yield gets settled guard
  | giveUp gets waits => exact h.giveUp gets waits
  | giveBack gets returns => exact (h.withdraw gets (keepsWaiting_of_isReadyFor returns)).signal 1
  | @leave name holding gets acquired =>
    have hwaits : holding.waits s.semaphore = false := by
      rw [Holding.waits, acquired]
      rfl
    have hleft := h.withdraw gets hwaits
    rw [acquired] at hleft
    exact hleft
  | release gets guards => exact (h.signal 1).withGuards _
  | keep guards => exact h.withGuards _
  | signal count => exact h.signal count

/-- An operation adds the caller that it starts behind the others, and the others keep their order. -/
theorem names_move {event : Event} {t : Session} (hm : s.Move event t) :
    (∃ name, s.starts? event = some name ∧ name ∉ s.holdings.map (·.1) ∧
        t.holdings.map (·.1) = s.holdings.map (·.1) ++ [name]) ∨
      s.starts? event = none ∧ (t.holdings.map (·.1)).Sublist (s.holdings.map (·.1)) := by
  have hput : ∀ {name holding} after, s.holdings.get? name = some holding →
      (s.holdings.put name after).map (·.1) = s.holdings.map (·.1) := by
    intro name holding after hget
    rw [Table.map_fst_put, if_pos (List.mem_map.mpr ⟨_, Table.mem_of_get? hget, rfl⟩)]
  cases hm with
  | stay starts => exact Or.inr ⟨starts, List.Sublist.refl _⟩
  | @ask event name starts new wrap wraps =>
    have hnew := (uses_eq_false_iff.mp new).1
    refine Or.inl ⟨name, starts, Table.get?_eq_none_iff.mp hnew, ?_⟩
    rw [Table.put_eq_append hnew, List.map_append]
    rfl
  | take gets ready => exact Or.inr ⟨rfl, hput _ gets ▸ List.Sublist.refl _⟩
  | yield gets settled free =>
    refine Or.inr ⟨rfl, ?_⟩
    rw [Session.yield]
    split
    · exact List.filter_sublist.map _
    · exact hput _ gets ▸ List.Sublist.refl _
  | giveUp gets waits => exact Or.inr ⟨rfl, List.filter_sublist.map _⟩
  | giveBack gets returns => exact Or.inr ⟨rfl, List.filter_sublist.map _⟩
  | leave gets acquired => exact Or.inr ⟨rfl, List.filter_sublist.map _⟩
  | release gets guards => exact Or.inr ⟨rfl, List.Sublist.refl _⟩
  | keep guards => exact Or.inr ⟨rfl, List.Sublist.refl _⟩
  | signal count => exact Or.inr ⟨rfl, List.Sublist.refl _⟩

theorem step (h : s.Orderly) (event : Event) : (s.step event).2.Orderly := h.move (s.move_step event)

end Orderly

end Session

end MemcachedClient.Semaphore
