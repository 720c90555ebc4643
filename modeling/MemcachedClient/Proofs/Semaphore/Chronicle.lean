import MemcachedClient.Proofs.Semaphore.Handing

/-!
# What became of the callers of a semaphore

A session knows neither the order in which its callers came nor what became of those that have left, so a
`Chronicle` does: it numbers the handles in the order of their creation, and notes which of them were given a
unit, which plain waits have taken theirs, and which guards were told to keep theirs. A guard has the number of the handle
that yielded it.

A handle is given a unit when it finds one available, or when one is sent on its way to it. `Recorded` is what
every history keeps: the handles that were given a unit are those that do not wait, none was given two, and
nobody who waits was overtaken (`Recorded.first`). From this, units are given in the order in which the handles
were created (`first_come_first_served`).
-/

namespace MemcachedClient.Semaphore

/-- A session and the history of its callers. -/
structure Chronicle where
  /-- The session. -/
  session : Session
  /-- The number of handles that were created. -/
  created : ℕ
  /-- The number of the handle that was created last under each name, counted from 0, or of the handle that yielded
  the guard under the name. -/
  numbers : String → ℕ
  /-- The numbers of the handles that were given a unit. -/
  given : List ℕ
  /-- The numbers of the plain waits that took their unit. -/
  finished : List ℕ
  /-- The numbers of the guards that were told to keep their unit. -/
  kept : List ℕ

namespace Chronicle

/-- A semaphore with `count` units that nobody has used. -/
def ofCount (count : ℕ) : Chronicle := ⟨.ofCount count, 0, fun _ => 0, [], [], []⟩

/-- One operation. A handle that it creates gets the next number, and is given a unit if one is available; each
caller that is handed a unit is given it. -/
def step (c : Chronicle) (event : Event) : Chronicle where
  session := (c.session.step event).2
  created := if (c.session.starts? event).isSome then c.created + 1 else c.created
  numbers :=
    match c.session.starts? event with
    | some name => Function.update c.numbers name c.created
    | none =>
      match c.session.yields? event with
      | some (name, guard) => Function.update c.numbers guard (c.numbers name)
      | none => c.numbers
  given :=
    c.given
      ++ (if (c.session.starts? event).isSome ∧ 0 < c.session.semaphore.available then [c.created]
          else [])
      ++ (c.session.handed (c.session.step event).2).map c.numbers
  finished := c.finished ++ (c.session.finishes? event).toList.map c.numbers
  kept := c.kept ++ (c.session.keeps? event).toList.map c.numbers

/-- The history of a run. -/
def run (c : Chronicle) (events : List Event) : Chronicle := events.foldl step c

/-- The handles that wait, in the order in which they were created. -/
def waiting (c : Chronicle) : List ℕ := c.session.waiters.map c.numbers

/-- What a history keeps. -/
structure Recorded (c : Chronicle) : Prop where
  /-- The callers are in order. -/
  orderly : c.session.Orderly
  /-- No name stands for a handle and for a guard. -/
  apart : c.session.Apart
  /-- The callers stand in the order in which their handles were created. -/
  ascending : (c.session.holdings.map fun item => c.numbers item.1).Pairwise (· < ·)
  /-- The handles of the callers were created. -/
  old : ∀ item ∈ c.session.holdings, c.numbers item.1 < c.created
  /-- The handles that were given a unit were created. -/
  givenOld : ∀ number ∈ c.given, number < c.created
  /-- A caller was given a unit if and only if it does not wait. -/
  given : ∀ item ∈ c.session.holdings,
    (c.numbers item.1 ∈ c.given ↔ item.2.waits c.session.semaphore = false)
  /-- A guard is from a handle that was given a unit. -/
  guarded : ∀ guard ∈ c.session.guards, c.numbers guard ∈ c.given
  /-- No handle was given two units. -/
  once : c.given.Nodup
  /-- Those that were given a unit came before each that waits. -/
  first : ∀ number ∈ c.waiting, ∀ other ∈ c.given, other < number

variable {c : Chronicle} {event : Event} {name : String}

theorem session_run (c : Chronicle) (events : List Event) :
    (c.run events).session = c.session.run events := by
  induction events generalizing c with
  | nil => rfl
  | cons event events ih => exact ih (c.step event)

theorem session_step (c : Chronicle) (event : Event) :
    (c.step event).session = (c.session.step event).2 := rfl

theorem recorded_ofCount (count : ℕ) : Recorded (ofCount count) where
  orderly := Session.orderly_ofCount count
  apart := by simp [Session.Apart, ofCount, Session.ofCount]
  ascending := List.Pairwise.nil
  old := by simp [ofCount, Session.ofCount]
  givenOld := by simp [ofCount]
  given := by simp [ofCount, Session.ofCount]
  guarded := by simp [ofCount, Session.ofCount]
  once := List.nodup_nil
  first := by simp [ofCount]

theorem created_le_step (c : Chronicle) (event : Event) : c.created ≤ (c.step event).created := by
  simp only [step]
  split <;> omega

theorem created_step_of_starts (h : c.session.starts? event = some name) :
    (c.step event).created = c.created + 1 := by
  simp [step, h]

/-- A handle that is created gets the next number. -/
theorem numbers_step_of_starts (h : c.session.starts? event = some name) :
    (c.step event).numbers name = c.created := by
  simp [step, h]

/-- The callers of before keep their numbers. -/
theorem numbers_step_of_uses (h : c.session.uses name = true) (event : Event) :
    (c.step event).numbers name = c.numbers name := by
  simp only [step]
  cases hstarts : c.session.starts? event with
  | some other =>
    have hne : name ≠ other := by
      rintro rfl
      have hnew := Session.uses_of_starts hstarts
      exact Bool.false_ne_true (hnew.symm.trans h)
    exact Function.update_of_ne hne _ _
  | none =>
    dsimp only
    cases hyields : c.session.yields? event with
    | none => rfl
    | some both =>
      obtain ⟨old, guard⟩ := both
      obtain ⟨-, handle, -, hfree, -⟩ := Session.yields?_eq_some_iff.mp hyields
      by_cases hname : name = guard
      · subst hname
        rcases hfree with rfl | hfree
        · exact Function.update_self ..
        · exact absurd (hfree.symm.trans h) Bool.false_ne_true
      · exact Function.update_of_ne hname _ _

/-- A guard gets the number of the handle that yields it. -/
theorem numbers_step_of_yields {guard : String} (h : c.session.yields? event = some (name, guard)) :
    (c.step event).numbers guard = c.numbers name := by
  obtain ⟨rfl, -⟩ := Session.yields?_eq_some_iff.mp h
  simp [step, h, Session.starts?]

namespace Recorded

/-- Two callers with the same number are the same. -/
theorem eq_of_numbers_eq (h : Recorded c) {item other : String × Holding}
    (hitem : item ∈ c.session.holdings) (hother : other ∈ c.session.holdings)
    (e : c.numbers item.1 = c.numbers other.1) : item = other :=
  List.inj_on_of_nodup_map (h.ascending.imp Nat.ne_of_lt) hitem hother e

/-- The handles that wait are in the order in which they were created. -/
theorem sorted (h : Recorded c) : c.waiting.Pairwise (· < ·) := by
  rw [waiting, Session.waiters, List.map_map]
  exact h.ascending.sublist (List.filter_sublist.map _)

theorem mem_waiting {number : ℕ} : number ∈ c.waiting ↔
    ∃ item ∈ c.session.holdings, item.2.waits c.session.semaphore = true ∧
      c.numbers item.1 = number := by
  simp [waiting, Session.waiters, and_assoc]

theorem lt_created_of_mem_waiting (h : Recorded c) {number : ℕ} (hmem : number ∈ c.waiting) :
    number < c.created := by
  obtain ⟨item, hitem, -, rfl⟩ := mem_waiting.mp hmem
  exact h.old item hitem

/-- A caller that waits was not given a unit. -/
theorem notMem_given_of_mem_waiting (h : Recorded c) {number : ℕ} (hmem : number ∈ c.waiting) :
    number ∉ c.given := by
  obtain ⟨item, hitem, hwaits, rfl⟩ := mem_waiting.mp hmem
  rw [h.given item hitem, hwaits]
  simp

/-- As long as somebody waits, no unit is available. -/
theorem available_of_mem_waiting (h : Recorded c) {number : ℕ} (hmem : number ∈ c.waiting) :
    c.session.semaphore.available = 0 := by
  obtain ⟨item, hitem, hwaits, -⟩ := mem_waiting.mp hmem
  obtain ⟨ticket, hwaiting⟩ := Option.isSome_iff_exists.mp
    ((Holding.isSome_waiting? c.session.semaphore item.2).trans hwaits)
  have hline : ticket ∈ c.session.semaphore.line := by
    rw [h.orderly.line]
    exact List.mem_filterMap.mpr ⟨item, hitem, hwaiting⟩
  by_contra hne
  rw [line, h.orderly.spares (Nat.pos_of_ne_zero hne)] at hline
  simp at hline

/-- Who is given a unit by an operation: a handle that it creates and that finds one available, and of the
handles that wait as many as units are given back, the oldest first. -/
theorem given_step (h : Recorded c) (event : Event) :
    (c.step event).given =
      c.given
        ++ (if (c.session.starts? event).isSome ∧ 0 < c.session.semaphore.available then [c.created]
            else [])
        ++ c.waiting.take (c.session.returned event) := by
  rw [waiting, ← List.map_take, ← h.orderly.handed_move (c.session.move_step event)]
  rfl

/-- The callers after an operation are in the order in which their handles were created. -/
theorem ascending_step (h : Recorded c) (event : Event) :
    ((c.step event).session.holdings.map fun item => (c.step event).numbers item.1).Pairwise (· < ·) ∧
      ∀ item ∈ (c.step event).session.holdings,
        (c.step event).numbers item.1 < (c.step event).created := by
  have hnames := Session.Orderly.names_move (c.session.move_step event)
  have hascending := h.ascending
  have hold : ∀ name ∈ c.session.holdings.map (·.1), c.numbers name < c.created := by
    intro name hname
    obtain ⟨item, hitem, rfl⟩ := List.mem_map.mp hname
    exact h.old item hitem
  have hsame : ∀ name ∈ c.session.holdings.map (·.1), (c.step event).numbers name = c.numbers name := by
    intro name hname
    obtain ⟨item, hitem, rfl⟩ := List.mem_map.mp hname
    exact numbers_step_of_uses (Session.uses_of_mem hitem) event
  have hle := created_le_step c event
  rw [show (fun item : String × Holding => c.numbers item.1) = c.numbers ∘ (·.1) from rfl,
    ← List.map_map] at hascending
  suffices hall : (((c.step event).session.holdings.map (·.1)).map (c.step event).numbers).Pairwise
        (· < ·) ∧
      ∀ name ∈ (c.step event).session.holdings.map (·.1),
        (c.step event).numbers name < (c.step event).created by
    refine ⟨?_, fun item hitem => hall.2 item.1 (List.mem_map_of_mem hitem)⟩
    simpa [List.map_map, Function.comp_def] using hall.1
  rw [session_step]
  rcases hnames with ⟨name, hstarts, hnew, hnames⟩ | ⟨hstarts, hsub⟩
  · have hname := numbers_step_of_starts hstarts
    have hcreated := created_step_of_starts hstarts
    rw [hnames]
    constructor
    · rw [List.map_append, List.map_congr_left hsame, List.map_singleton, hname, List.pairwise_append]
      refine ⟨hascending, List.pairwise_singleton _ _, fun number hnumber other hother => ?_⟩
      obtain ⟨found, hfound, rfl⟩ := List.mem_map.mp hnumber
      rw [List.mem_singleton.mp hother]
      exact hold found hfound
    · intro other hother
      rcases List.mem_append.mp hother with hmem | hmem
      · rw [hsame other hmem]
        exact Nat.lt_of_lt_of_le (hold other hmem) hle
      · rw [List.mem_singleton.mp hmem, hname, hcreated]
        exact Nat.lt_succ_self _
  · constructor
    · rw [List.map_congr_left fun name hname => hsame name (hsub.subset hname)]
      exact hascending.sublist (hsub.map _)
    · intro name hname
      rw [hsame name (hsub.subset hname)]
      exact Nat.lt_of_lt_of_le (hold name (hsub.subset hname)) hle

/-- Who was given a unit after an operation. -/
theorem mem_given_step (h : Recorded c) (event : Event) {number : ℕ} :
    number ∈ (c.step event).given ↔ number ∈ c.given ∨
      (number = c.created ∧ (c.session.starts? event).isSome ∧ 0 < c.session.semaphore.available) ∨
      number ∈ c.waiting.take (c.session.returned event) := by
  rw [h.given_step, List.mem_append, List.mem_append, or_assoc]
  by_cases hboth : (c.session.starts? event).isSome ∧ 0 < c.session.semaphore.available
  · simp [hboth]
  · simp [hboth]

/-- A caller keeps its number, and whether it was handed a unit can be read off the numbers. -/
theorem mem_take_waiting (h : Recorded c) (event : Event) {item : String × Holding}
    (hitem : item ∈ c.session.holdings) :
    c.numbers item.1 ∈ c.waiting.take (c.session.returned event) ↔
      item.1 ∈ c.session.handed (c.step event).session := by
  have hhanded := h.orderly.handed_move (c.session.move_step event)
  rw [waiting, ← List.map_take, ← hhanded]
  constructor
  · intro hmem
    obtain ⟨name, hname, hnumbers⟩ := List.mem_map.mp hmem
    obtain ⟨holding, hholding, -⟩ := Session.mem_handed.mp hname
    have hsame := h.eq_of_numbers_eq hholding hitem hnumbers
    exact hsame ▸ hname
  · intro hmem
    exact List.mem_map_of_mem hmem

/-- Who waits after an operation: a handle that it created and that found no unit, or one that waited and whose
turn did not come. -/
theorem mem_waiting_step (h : Recorded c) (event : Event) {number : ℕ}
    (hmem : number ∈ (c.step event).waiting) :
    (number = c.created ∧ c.session.semaphore.available = 0) ∨
      number ∈ c.waiting.drop (c.session.returned event) := by
  obtain ⟨item, hitem, hwaits, rfl⟩ := mem_waiting.mp hmem
  rcases h.orderly.waits_move (c.session.move_step event) hitem with
    ⟨hstarts, hiff⟩ | ⟨hstarts, holding, hholding, hiff⟩
  · rw [numbers_step_of_starts hstarts]
    exact Or.inl ⟨rfl, hiff.mp hwaits⟩
  · rw [numbers_step_of_uses (Session.uses_of_mem hholding)]
    obtain ⟨hwaited, hnot⟩ := hiff.mp hwaits
    have hwaiting : c.numbers item.1 ∈ c.waiting := mem_waiting.mpr ⟨_, hholding, hwaited, rfl⟩
    rw [← List.take_append_drop (c.session.returned event) c.waiting, List.mem_append] at hwaiting
    rcases hwaiting with htake | hdrop
    · exact absurd ((h.mem_take_waiting event hholding).mp htake) hnot
    · exact Or.inr hdrop

/-- Who was given a unit after an operation is who does not wait. -/
theorem mem_given_step_iff (h : Recorded c) (event : Event) {item : String × Holding}
    (hitem : item ∈ (c.step event).session.holdings) :
    (c.step event).numbers item.1 ∈ (c.step event).given ↔
      item.2.waits (c.step event).session.semaphore = false := by
  rw [← Bool.not_eq_true]
  rcases h.orderly.waits_move (c.session.move_step event) hitem with
    ⟨hstarts, hiff⟩ | ⟨hstarts, holding, hholding, hiff⟩
  · -- the handle was created by the operation: it has a unit if one was available
    have hgiven : c.created ∉ c.given := fun hmem => Nat.lt_irrefl _ (h.givenOld _ hmem)
    have htaken : c.created ∉ c.waiting.take (c.session.returned event) := fun hmem =>
      Nat.lt_irrefl _ (h.lt_created_of_mem_waiting (List.mem_of_mem_take hmem))
    rw [numbers_step_of_starts hstarts, h.mem_given_step, hstarts, session_step, hiff]
    simp [hgiven, htaken, Nat.pos_iff_ne_zero]
  · -- the handle is older: it had a unit, or it is handed one
    have hold : c.numbers item.1 ≠ c.created := Nat.ne_of_lt (h.old (item.1, holding) hholding)
    have hgiven := h.given (item.1, holding) hholding
    have htake := h.mem_take_waiting event hholding
    dsimp only at hgiven htake
    rw [numbers_step_of_uses (Session.uses_of_mem hholding), h.mem_given_step, htake, session_step, hiff, hgiven]
    simp [hold, imp_iff_not_or]

/-- A guard after an operation is from a handle that was given a unit. -/
theorem guarded_step (h : Recorded c) (event : Event) {guard : String}
    (hguard : guard ∈ (c.step event).session.guards) : (c.step event).numbers guard ∈ (c.step event).given := by
  have hgiven : ∀ number ∈ c.given, number ∈ (c.step event).given := fun number hmem =>
    (h.mem_given_step event).mpr (Or.inl hmem)
  rcases Session.mem_guards_move (c.session.move_step event) hguard with hmem | ⟨name, hyields⟩
  · have huses : c.session.uses guard = true := by simp [Session.uses, hmem]
    rw [numbers_step_of_uses huses]
    exact hgiven _ (h.guarded guard hmem)
  · obtain ⟨-, handle, hget, -, hsettled⟩ := Session.yields?_eq_some_iff.mp hyields
    rw [numbers_step_of_yields hyields]
    exact hgiven _ ((h.given (name, .guarding handle) (Table.mem_of_get? hget)).mpr hsettled)

/-- Every operation keeps the record. -/
theorem step (h : Recorded c) (event : Event) : Recorded (c.step event) where
  orderly := h.orderly.step event
  apart := h.apart.move (c.session.move_step event)
  ascending := (h.ascending_step event).1
  old := (h.ascending_step event).2
  givenOld number hmem := by
    have hle := created_le_step c event
    rcases h.mem_given_step event |>.mp hmem with hgiven | ⟨rfl, hstarts, -⟩ | htake
    · have := h.givenOld number hgiven
      omega
    · obtain ⟨name, hname⟩ := Option.isSome_iff_exists.mp hstarts
      rw [created_step_of_starts hname]
      omega
    · have := h.lt_created_of_mem_waiting (List.mem_of_mem_take htake)
      omega
  given item hitem := h.mem_given_step_iff event hitem
  guarded guard hguard := h.guarded_step event hguard
  once := by
    rw [h.given_step, List.nodup_append, List.nodup_append]
    refine ⟨⟨h.once, by split <;> simp, fun number hgiven other hown => ?_⟩,
      (h.sorted.imp Nat.ne_of_lt).sublist (List.take_sublist _ _), fun number hmem other htake => ?_⟩
    · have hlt := h.givenOld number hgiven
      split at hown <;> simp_all
      omega
    · have hwaiting := List.mem_of_mem_take htake
      rintro rfl
      rcases List.mem_append.mp hmem with hgiven | hown
      · exact h.notMem_given_of_mem_waiting hwaiting hgiven
      · have hlt := h.lt_created_of_mem_waiting hwaiting
        split at hown <;> simp_all
  first number hmem other hother := by
    have hother := (h.mem_given_step event).mp hother
    rcases h.mem_waiting_step event hmem with ⟨rfl, hnone⟩ | hdrop
    · rcases hother with hgiven | ⟨-, -, hpos⟩ | htake
      · exact h.givenOld other hgiven
      · omega
      · exact h.lt_created_of_mem_waiting (List.mem_of_mem_take htake)
    · have hwaiting := List.mem_of_mem_drop hdrop
      rcases hother with hgiven | ⟨-, -, hpos⟩ | htake
      · exact h.first number hwaiting other hgiven
      · have hnone := h.available_of_mem_waiting hwaiting
        omega
      · have hsorted := h.sorted
        rw [← List.take_append_drop (c.session.returned event) c.waiting, List.pairwise_append]
          at hsorted
        exact hsorted.2.2 other htake number hdrop

theorem run (h : Recorded c) (events : List Event) : Recorded (c.run events) := by
  induction events generalizing c with
  | nil => exact h
  | cons event events ih => exact ih (h.step event)

/-- Who is given a unit by an operation that creates no handle: the oldest of those that wait. -/
theorem given_step_of_starts_eq_none (h : Recorded c) (hstarts : c.session.starts? event = none) :
    (c.step event).given = c.given ++ c.waiting.take (c.session.returned event) := by
  rw [h.given_step, hstarts]
  simp

end Recorded

/-- What is fair about a history. -/
structure Fair (c : Chronicle) : Prop where
  /-- Units are available only while nobody queues. -/
  spares : 0 < c.session.semaphore.available → c.session.semaphore.queue = []
  /-- A handle was given a unit if and only if it does not wait, so that it has its unit when it looks. -/
  given : ∀ item ∈ c.session.holdings,
    (c.numbers item.1 ∈ c.given ↔ item.2.waits c.session.semaphore = false)
  /-- A guard is from a handle that was given a unit. -/
  guarded : ∀ guard ∈ c.session.guards, c.numbers guard ∈ c.given
  /-- A handle that was not dropped was given a unit if a younger one was, whether that was dropped or not. -/
  ordered : ∀ item ∈ c.session.holdings, ∀ other ∈ c.given, c.numbers item.1 < other → c.numbers item.1 ∈ c.given
  /-- Those that wait are the handles that were not dropped and not given a unit, the oldest first. -/
  waiting : c.waiting = (c.session.holdings.map fun item => c.numbers item.1).filter (· ∉ c.given) ∧
    c.waiting.Pairwise (· < ·)
  /-- Units that are given back go to the oldest handles that wait, one to each as long as there are any. -/
  signals : ∀ event, c.session.starts? event = none →
    (c.step event).given = c.given ++ c.waiting.take (c.session.returned event)

/-- First come, first served: whatever the callers of a semaphore do, units are given to them in the order in
which they asked. -/
theorem first_come_first_served (count : ℕ) (events : List Event) :
    ((ofCount count).run events).session = (Session.ofCount count).run events ∧
      Fair ((ofCount count).run events) := by
  have hrecorded := (recorded_ofCount count).run events
  refine ⟨session_run (ofCount count) events, ?_⟩
  constructor
  · exact hrecorded.orderly.spares
  · exact hrecorded.given
  · exact hrecorded.guarded
  · intro item hitem other hgiven hlt
    by_contra hnot
    rw [hrecorded.given item hitem, Bool.not_eq_false] at hnot
    have hfirst := hrecorded.first _ (Recorded.mem_waiting.mpr ⟨item, hitem, hnot, rfl⟩) _ hgiven
    omega
  · refine ⟨?_, hrecorded.sorted⟩
    rw [Chronicle.waiting, Session.waiters, List.map_map, List.filter_map]
    congr 1
    refine List.filter_congr fun item hitem => ?_
    have hgiven := hrecorded.given item hitem
    cases hwaits : item.2.waits ((ofCount count).run events).session.semaphore <;> simp_all
  · intro event hstarts
    exact hrecorded.given_step_of_starts_eq_none hstarts

end Chronicle

end MemcachedClient.Semaphore
