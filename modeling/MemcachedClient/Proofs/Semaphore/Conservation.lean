import MemcachedClient.Proofs.Semaphore.Chronicle

/-!
# The units of a semaphore

A unit is available, or a caller has it: in a handle that found it available and has not taken it, on its way to
a handle that queued, or in a guard. A plain wait that took its unit keeps it for good, and so does a guard that
was told to, so these two are counted by the history of the callers and not by what they hold. No operation
changes the sum, except that units which are given back from outside are added, and that a handle which is looked at
again after it took its unit yields one more guard for that unit (`Session.Orderly.units_move`).

So units are conserved in a run if and only if no handle yields a second guard in it (`Chronicle.conserved_iff`).
Every number in the sum is at most the sum, so the count of available units fits its counter as long as the sum does.
-/

namespace MemcachedClient.Semaphore

/-- The units that an operation brings from outside. -/
def Event.signalled : Event → ℕ
  | .signal count => count
  | _ => 0

/-- The units that the operations of a run bring from outside. -/
def signalled : List Event → ℕ
  | [] => 0
  | event :: rest => event.signalled + signalled rest

namespace Session

variable {s t : Session}

/-- The guards that handles yield in a run although they had taken their unit before. -/
def surplus (s : Session) : List Event → ℕ
  | [] => 0
  | event :: rest => (s.repeats event).toNat + (s.step event).2.surplus rest

/-- The units that are available and those that callers have and can give back. -/
def units (s : Session) : ℕ :=
  s.semaphore.available + s.holdings.count (·.isGranted) +
    s.holdings.count (·.isDelivered s.semaphore) + s.guards.length

/-- The units without the way on which they are: those of the semaphore, and those of the callers. -/
theorem Orderly.units_eq (h : s.Orderly) :
    s.units = s.semaphore.units + s.holdings.count (·.isGranted) + s.guards.length := by
  have hdelivered : s.holdings.count (·.isDelivered s.semaphore) = s.semaphore.delivered.length :=
    h.serves.count_delivered
  rw [units, hdelivered, Semaphore.units]
  omega

theorem units_withdraw {semaphore : Semaphore} {place : Handle} (h : semaphore.isReadyFor place = true) :
    (semaphore.withdraw place).units + 1 = semaphore.units + (place == .granted).toNat := by
  have hpoll := poll_of_isReadyFor h
  have htaken : (semaphore.poll place).1 = true := by rw [hpoll]
  have hunits := units_poll_of_taken htaken
  rw [hpoll] at hunits
  rw [show (semaphore.withdraw place).units + 1 = _ from hunits]
  cases place with
  | granted => rfl
  | queued ticket => rfl
  | acquired => simp [isReadyFor] at h

/-- What a handle that yields a guard does to the units: if it had taken its unit before, the guard is one too many. -/
theorem Orderly.units_yield (h : s.Orderly) {name guard : String} {handle : Handle}
    (gets : s.holdings.get? name = some (.guarding handle)) (settled : s.semaphore.keepsWaiting handle = false)
    (free : guard = name ∨ s.uses guard = false) :
    (s.yield (s.semaphore.withdraw handle) name guard).units = s.units + (s.repeats (.poll name guard)).toNat := by
  have horderly : (s.yield (s.semaphore.withdraw handle) name guard).Orderly := h.yield gets settled guard
  have hyields := yields?_eq_some_iff.mpr ⟨rfl, handle, gets, free, settled⟩
  have hrepeats : s.repeats (.poll name guard) = (handle == .acquired) := by
    rw [repeats, hyields]
    cases handle <;> simp [gets]
  have hgranted := h.distinct.count_eq_remove (·.isGranted) gets
  have hcount : (s.yield (s.semaphore.withdraw handle) name guard).holdings.count (·.isGranted) =
      (s.holdings.remove name).count (·.isGranted) := by
    rw [Session.yield]
    dsimp only
    split
    · rfl
    · rw [h.distinct.count_put]
      rfl
  have hunits : (s.semaphore.withdraw handle).units + 1 =
      s.semaphore.units + (handle == .granted).toNat + (handle == .acquired).toNat := by
    cases hready : s.semaphore.isReadyFor handle with
    | true =>
      rw [units_withdraw hready]
      cases handle with
      | acquired => simp [isReadyFor] at hready
      | _ => rfl
    | false =>
      have hacquired : (Holding.guarding handle).handle = .acquired := Holding.handle_of_not_returns settled hready
      obtain rfl : handle = .acquired := hacquired
      rfl
  rw [horderly.units_eq, h.units_eq, hcount, hgranted, hrepeats]
  simp only [Session.yield, List.length_cons, Holding.isGranted, Holding.handle]
  omega

/-- What an operation does to the units: those from outside are added, those that a plain wait takes or a guard keeps
are theirs, and a guard that a handle yields beyond its unit counts as one more. -/
theorem Orderly.units_move {event : Event} (h : s.Orderly) (hm : s.Move event t) :
    t.units + (s.finishes? event).toList.length + (s.keeps? event).toList.length =
      s.units + event.signalled + (s.repeats event).toNat := by
  have hmove := h.move hm
  cases hm with
  | stay starts finishes yields keeps returned =>
    have hsignalled : event.signalled = 0 := by
      cases event <;> first | rfl | exact returned
    simp [finishes, keeps, hsignalled, repeats, yields]
  | @ask event name starts new wrap wraps =>
    have hwait := s.semaphore.units_wait
    have hplace : s.semaphore.wait.1.units = (s.semaphore.wait.1 == .granted).toNat := by
      rw [wait]
      split <;> rfl
    have hother : s.finishes? event = none ∧ s.keeps? event = none ∧ event.signalled = 0 ∧
        s.repeats event = false := by
      cases event <;> simp_all [starts?, finishes?, keeps?, Event.signalled, repeats, yields?]
    obtain ⟨hfinishes, hkeeps, hsignalled, hrepeats⟩ := hother
    rw [hmove.units_eq, h.units_eq, hfinishes, hkeeps, hsignalled, hrepeats, h.distinct.count_put,
      Table.remove_of_get?_eq_none (uses_eq_false_iff.mp new).1, Holding.isGranted, wraps, ← hplace]
    simp only [Option.toList_none, List.length_nil, Bool.toNat_false]
    omega
  | @take name guard handle gets ready =>
    have hunits := units_withdraw ready
    have hgranted : (Holding.plain .acquired).isGranted = false := rfl
    have hfinishes : s.finishes? (.poll name guard) = some name := by
      simp only [finishes?, gets]
      exact if_pos ready
    have hrepeats : s.repeats (.poll name guard) = false := by simp [repeats, yields?, gets]
    rw [hmove.units_eq, h.units_eq, h.distinct.count_put, h.distinct.count_eq_remove (·.isGranted) gets, hgranted,
      hfinishes, hrepeats]
    simp only [Holding.isGranted, Holding.handle, keeps?, Event.signalled, Option.toList_some, Option.toList_none,
      List.length_singleton, List.length_nil, Bool.toNat_false]
    omega
  | @yield name guard handle gets settled free =>
    have hfinishes : s.finishes? (.poll name guard) = none := by simp [finishes?, gets]
    rw [h.units_yield gets settled free, hfinishes]
    rfl
  | @giveUp name holding gets waits =>
    obtain ⟨ticket, hplace, -⟩ := keepsWaiting_iff.mp waits
    have hqueued : Handle.queued ticket ≠ .acquired := by simp
    have hunits := units_drop (s := s.semaphore) hqueued
    rw [hmove.units_eq, h.units_eq, h.distinct.count_eq_remove (·.isGranted) gets, Holding.isGranted, hplace,
      show (s.semaphore.drop (.queued ticket)).units = _ from hunits]
    rfl
  | @giveBack name holding gets returns =>
    have hone := (s.semaphore.withdraw holding.handle).units_signalOne
    have hunits := units_withdraw returns
    rw [hmove.units_eq, h.units_eq, h.distinct.count_eq_remove (·.isGranted) gets,
      show (signalOne _).units = _ from hone, Holding.isGranted]
    simp only [finishes?, keeps?, Event.signalled, repeats, yields?, Option.toList_none, Option.any_none,
      List.length_nil, Bool.toNat_false]
    omega
  | @leave name holding gets acquired =>
    rw [hmove.units_eq, h.units_eq, h.distinct.count_eq_remove (·.isGranted) gets, Holding.isGranted, acquired]
    rfl
  | release gets guards =>
    have hone := s.semaphore.units_signalOne
    have hpos := List.length_pos_of_mem guards
    rw [hmove.units_eq, h.units_eq, show (signalOne _).units = _ from hone, List.length_erase_of_mem guards]
    simp only [finishes?, keeps?, Event.signalled, repeats, yields?, Option.toList_none, Option.any_none,
      List.length_nil, Bool.toNat_false]
    omega
  | keep guards =>
    have hpos := List.length_pos_of_mem guards
    rw [hmove.units_eq, h.units_eq, List.length_erase_of_mem guards, keeps?, if_pos guards]
    simp only [finishes?, Event.signalled, repeats, yields?, Option.toList_none, Option.toList_some, Option.any_none,
      List.length_nil, List.length_singleton, Bool.toNat_false]
    omega
  | signal count =>
    rw [hmove.units_eq, h.units_eq, units_signal]
    simp only [finishes?, keeps?, Event.signalled, repeats, yields?, Option.toList_none, Option.any_none,
      List.length_nil, Bool.toNat_false]
    omega

theorem Orderly.length_waiters (h : s.Orderly) : s.waiters.length = s.semaphore.line.length := by
  rw [h.line, List.length_filterMap_eq_countP, waiters, List.length_map, ← List.countP_eq_length_filter]
  exact List.countP_congr fun item _ => by rw [Holding.isSome_waiting?]

/-- A unit that somebody is given was available, or is one that is given back. -/
theorem Orderly.available_move {event : Event} (h : s.Orderly) (hm : s.Move event t) :
    t.semaphore.available + (if (s.starts? event).isSome ∧ 0 < s.semaphore.available then 1 else 0) +
        min (s.returned event) s.waiters.length =
      s.semaphore.available + s.returned event := by
  have hwithdraw : ∀ place, (s.semaphore.withdraw place).available = s.semaphore.available ∧
      (s.semaphore.withdraw place).line = s.semaphore.line := by
    intro place
    cases place <;> exact ⟨rfl, rfl⟩
  rw [h.length_waiters]
  cases hm with
  | stay starts finishes yields keeps returned => simp [starts, returned]
  | ask starts new wrap wraps =>
    have hreturned : s.returned event = 0 := by
      cases event <;> simp_all [starts?, Session.returned]
    rw [starts, hreturned, wait]
    split <;> simp_all
    omega
  | take gets ready => simp [starts?, Session.returned, hwithdraw]
  | yield gets settled free => simp [starts?, Session.returned, Session.yield, hwithdraw]
  | @giveUp name holding gets waits =>
    obtain ⟨ticket, hplace, hnot⟩ := keepsWaiting_iff.mp waits
    rw [returned_drop gets, if_neg (Holding.not_returns_of_waits waits), hplace]
    simpa [starts?] using (line_drop_queued hnot).2.2
  | @giveBack name holding gets returns =>
    have havailable := available_signal (s.semaphore.withdraw holding.handle) 1
    rw [Semaphore.signal, signal_zero, (hwithdraw _).1, (hwithdraw _).2] at havailable
    rw [returned_drop gets, if_pos returns, show (signalOne _).available = _ from havailable]
    simp only [starts?, Option.isSome_none, Bool.false_eq_true, false_and, if_false]
    omega
  | leave gets acquired =>
    rw [returned_drop gets]
    simp [starts?, Holding.returns, acquired, isReadyFor]
  | release gets guards =>
    have havailable := available_signal s.semaphore 1
    rw [Semaphore.signal, signal_zero] at havailable
    rw [returned_drop_of_mem_guards gets guards, show (signalOne _).available = _ from havailable]
    simp only [starts?, Option.isSome_none, Bool.false_eq_true, false_and, if_false]
    omega
  | keep guards => simp [starts?, Session.returned]
  | signal count =>
    rw [available_signal]
    simp only [starts?, Session.returned, Option.isSome_none, Bool.false_eq_true, false_and, if_false]
    omega

end Session

namespace Chronicle

variable {c : Chronicle} {event : Event} {name guard : String}

/-- The units of a history: those of its session, and those that plain waits and guards kept for good. -/
def units (c : Chronicle) : ℕ := c.session.units + c.finished.length + c.kept.length

theorem Recorded.units_step (h : Recorded c) (event : Event) :
    (c.step event).units = c.units + event.signalled + (c.session.repeats event).toNat := by
  have hunits := h.orderly.units_move (c.session.move_step event)
  simp only [units, Chronicle.step, List.length_append, List.length_map]
  omega

theorem Recorded.units_run (h : Recorded c) (events : List Event) :
    (c.run events).units = c.units + signalled events + c.session.surplus events := by
  induction events generalizing c with
  | nil => rfl
  | cons event events ih =>
    have hstep := h.units_step event
    have hrun := ih (h.step event)
    rw [session_step] at hrun
    rw [signalled, Session.surplus, show (c.run (event :: events)).units = _ from hrun]
    omega

/-- A unit that somebody is given was available, or is one that is given back, and no other is given. -/
theorem Recorded.available_step (h : Recorded c) (event : Event) :
    (c.step event).session.semaphore.available + (c.step event).given.length =
      c.session.semaphore.available + c.given.length + c.session.returned event := by
  have havailable := h.orderly.available_move (c.session.move_step event)
  rw [h.given_step, session_step, List.length_append, List.length_append, List.length_take, waiting,
    List.length_map]
  split at havailable
  · next hboth =>
    rw [if_pos hboth, List.length_singleton]
    omega
  · next hboth =>
    rw [if_neg hboth, List.length_nil]
    omega

/-- Who is told that it has its unit was given one. -/
theorem Recorded.given_of_poll (h : Recorded c)
    (hpoll : (c.session.step (.poll name guard)).1 = some true ∨
      (c.session.step (.isReady name)).1 = some true) : c.numbers name ∈ c.given := by
  cases hget : c.session.holdings.get? name with
  | none => simp [Session.step, hget] at hpoll
  | some holding =>
    refine (h.given (name, holding) (Table.mem_of_get? hget)).mpr ?_
    rw [← Bool.not_eq_true]
    intro hwaits
    obtain ⟨ticket, hplace, hnot⟩ := keepsWaiting_iff.mp hwaits
    cases holding with
    | plain handle =>
      obtain rfl : handle = .queued ticket := hplace
      simp [Session.step, hget, poll, hnot, Handle.isReady] at hpoll
    | guarding handle =>
      obtain rfl : handle = .queued ticket := hplace
      simp only [Session.step, hget, poll, if_neg hnot] at hpoll
      split at hpoll <;> simp at hpoll

/-- Who is told at once that it has its unit is given one. -/
theorem Recorded.given_of_wait (h : Recorded c) (hwait : (c.session.step (.wait name)).1 = some true) :
    c.created ∈ (c.step (.wait name)).given := by
  rw [h.mem_given_step]
  simp only [Session.step] at hwait
  split at hwait
  · simp at hwait
  · next hhas =>
    refine Or.inr (Or.inl ⟨rfl, by simp [Session.starts?, hhas], ?_⟩)
    rw [wait] at hwait
    split at hwait
    · assumption
    · simp [Handle.isReady] at hwait

/-- What conservation says of a history in which `total` units came to the semaphore. -/
structure Conserved (total : ℕ) (c : Chronicle) : Prop where
  /-- The units are all there: available, in handles that found one available, on their way, in guards, with the
  plain waits that finished, and with the guards that kept theirs. -/
  units : c.session.semaphore.available + c.session.holdings.count (·.isGranted) +
    c.session.holdings.count (·.isDelivered c.session.semaphore) + c.session.guards.length +
    c.finished.length + c.kept.length = total
  /-- A handle that says that it has its unit was given one. -/
  reports : ∀ name guard, (c.session.step (.poll name guard)).1 = some true ∨
    (c.session.step (.isReady name)).1 = some true → c.numbers name ∈ c.given
  /-- A handle that says so at once is given one. -/
  reportsAtOnce : ∀ name, (c.session.step (.wait name)).1 = some true →
    c.created ∈ (c.step (.wait name)).given
  /-- No handle was given two. -/
  once : c.given.Nodup
  /-- A unit that is given was available or is given back, and one that is given back goes to a handle that waits
  or becomes available. -/
  gives : ∀ event, (c.step event).session.semaphore.available + (c.step event).given.length =
    c.session.semaphore.available + c.given.length + c.session.returned event
  /-- A drop of a handle gives back one unit if the handle has its unit or has it on its way and has not taken it, and
  none if not. -/
  returns : ∀ name holding, c.session.holdings.get? name = some holding →
    c.session.returned (.drop name) =
      if holding.isGranted || holding.isDelivered c.session.semaphore then 1 else 0
  /-- A drop of a guard gives back one unit. -/
  guardReturns : ∀ guard ∈ c.session.guards, c.session.returned (.drop guard) = 1

/-- What is conserved whatever the callers of a semaphore do: every unit is one that was there at the start or was given
back from outside, or it is the second guard that a handle yields for its unit. -/
theorem conserved_run (count : ℕ) (events : List Event) :
    Conserved (count + signalled events + (Session.ofCount count).surplus events) ((ofCount count).run events) := by
  have hrecorded := (recorded_ofCount count).run events
  constructor
  · have hunits := (recorded_ofCount count).units_run events
    have hstart : (ofCount count).units = count := rfl
    rw [hstart] at hunits
    exact hunits
  · intro name guard hpoll
    exact hrecorded.given_of_poll hpoll
  · intro name hwait
    exact hrecorded.given_of_wait hwait
  · exact hrecorded.once
  · intro event
    exact hrecorded.available_step event
  · intro name holding hget
    rw [Session.returned_drop hget, Holding.returns_eq]
  · intro guard hmem
    exact Session.returned_drop_of_mem_guards (hrecorded.apart guard hmem) hmem

/-- **When units are conserved.** Whatever the callers of a semaphore do, its units are those that it had at the start
and those that were given back from outside if and only if no handle that had taken its unit was looked at again and
yielded another guard; each such guard counts as one unit more. All else that conservation says always holds: nobody is
told that it has a unit that it was not given, and a drop gives back exactly the unit that is to be given back. -/
theorem conserved_iff (count : ℕ) (events : List Event) :
    ((ofCount count).run events).session = (Session.ofCount count).run events ∧
      Conserved (count + signalled events + (Session.ofCount count).surplus events) ((ofCount count).run events) ∧
      (Conserved (count + signalled events) ((ofCount count).run events) ↔
        (Session.ofCount count).surplus events = 0) := by
  have hrun := conserved_run count events
  refine ⟨session_run (ofCount count) events, hrun, fun h => ?_, fun hnone => ?_⟩
  · have hunits := h.units.symm.trans hrun.units
    omega
  · rw [hnone] at hrun
    exact hrun

/-- Of the one unit of a semaphore a handle has two guards once it was looked at twice, and when they are dropped two
units are available. -/
theorem not_conserved_of_second_look :
    let events : List Event := [.waitAndSignal "f", .poll "f" "g", .poll "f" "h"]
    ¬ Conserved (1 + signalled events) ((ofCount 1).run events) ∧
      ((Session.ofCount 1).run events).guards = ["h", "g"] ∧
      ((Session.ofCount 1).run (events ++ [.drop "g", .drop "h", .drop "f"])).semaphore.available = 2 := by
  refine ⟨fun h => ?_, by decide, by decide⟩
  exact absurd h.units (by decide)

end Chronicle

end MemcachedClient.Semaphore
