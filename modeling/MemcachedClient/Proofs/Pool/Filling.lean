import MemcachedClient.Proofs.Pool.Filled
import MemcachedClient.Proofs.Pool.Sharing

/-!
# Filling a shared pool

A borrower that is started is put on a slot or in the queue, and goes on from there like one that was polled
(`Filled.joins`). So a pool that is filled stays so along every run in which nothing is ended and nothing fails,
whenever the creations come to their results (`Filled.run`). `fills_in_order` says what there is to see of that: the
units on each slot, who waits in the queue, for which slots the source of items was called, and who has a lease.
-/

namespace MemcachedClient.Pool.Shared

/-- An operation that ends nothing: a borrower is started or goes on, or a lease is marked. -/
def Event.fills : Event → Bool
  | .borrow _ _ => true
  | .poll _ _ => true
  | .corrupt _ => true
  | _ => false

/-- The borrower that an operation starts or goes on with. -/
def Event.runs? : Event → Option String
  | .borrow _ name => some name
  | .poll _ name => some name
  | _ => none

/-- The borrower that an operation is to start. -/
def Event.borrower? : Event → Option String
  | .borrow _ name => some name
  | _ => none

/-- The borrowers that a run is to start, in their order. -/
def borrowed (events : List Event) : List String := events.filterMap Event.borrower?

/-- The slots for whose items a run calls the source of items, one entry for each call. -/
def called (p : Shared) : List Event → List ℕ
  | [] => []
  | event :: events =>
    (if p.created < (p.step event).created then (p.unit? event).toList else []) ++ (p.step event).called events

theorem borrowed_append (events more : List Event) : borrowed (events ++ more) = borrowed events ++ borrowed more :=
  List.filterMap_append

theorem borrowed_singleton (event : Event) : borrowed [event] = event.borrower?.toList := by
  cases h : event.borrower? <;> simp [borrowed, h]

/-- A run that ends nothing and is told of no failure. It starts borrowers under names of their own, which are not those
of the borrowers that were started before. -/
structure Filling (names : List String) (events : List Event) : Prop where
  /-- Nothing is ended. -/
  fills : ∀ event ∈ events, event.fills = true
  /-- No creation fails. -/
  fine : ∀ event ∈ events, event.FailsBy fun _ => False
  /-- Each borrower has a name of its own. -/
  nodup : (names ++ borrowed events).Nodup

/-- A run that fills a pool can be broken off and gone on with. -/
theorem Filling.split {names : List String} {events more : List Event} (h : Filling names (events ++ more)) :
    Filling names events ∧ Filling (names ++ borrowed events) more := by
  have hnodup := h.nodup
  rw [borrowed_append, ← List.append_assoc] at hnodup
  exact ⟨⟨fun e he => h.fills e (List.mem_append_left _ he), fun e he => h.fine e (List.mem_append_left _ he),
      (List.nodup_append.mp hnodup).1⟩,
    fun e he => h.fills e (List.mem_append_right _ he), fun e he => h.fine e (List.mem_append_right _ he), hnodup⟩

/-- Who came first came at the same place among all. -/
theorem getElem?_of_mem_left {names more : List String} {name : String} {i : ℕ} (hnodup : (names ++ more).Nodup)
    (hi : (names ++ more)[i]? = some name) (hmem : name ∈ names) : names[i]? = some name := by
  by_cases hlt : i < names.length
  · rwa [List.getElem?_append_left hlt] at hi
  · rw [List.getElem?_append_right (Nat.not_lt.mp hlt)] at hi
    exact absurd rfl ((List.nodup_append.mp hnodup).2.2 name hmem name (List.mem_of_getElem? hi))

/-! ### Newcomers -/

/-- While there is room everybody is placed. -/
theorem placed_eq_of_lt {p : Shared} {names : List String} (hroom : names.length < p.target * p.depth) :
    p.placed names = names.length :=
  Nat.min_eq_left (Nat.le_of_lt hroom)

theorem placed_concat (p : Shared) (names : List String) (name : String) :
    p.placed (names ++ [name]) = min (names.length + 1) (p.target * p.depth) := by
  rw [placed, List.length_append, List.length_singleton]

/-! A borrower that is started goes on like one that was in the table before. -/

section put

variable (p : Shared) (made : Creations) (name : String) (borrow : SharedBorrow) (slot : ℕ)

theorem settle_put (result : Except ClientError ℕ) :
    ({ p with borrows := p.borrows.put name borrow }.settle name slot result).2 = (p.settle name slot result).2 := by
  cases result <;> simp only [Shared.settle, Table.remove_put_self]

theorem proceed_put (item : ℕ) :
    ({ p with borrows := p.borrows.put name borrow }.proceed made name slot item).2 =
      (p.proceed made name slot item).2 := by
  simp only [Shared.proceed]
  cases made item with
  | none => simp only [Table.put_put_self]
  | some result => exact settle_put (p.updateSlot slot _) name borrow slot _

theorem await_put (place : Handle) (turn : Semaphore) :
    ({ p with borrows := p.borrows.put name borrow }.await made name slot place turn).2 =
      (p.await made name slot place turn).2 := by
  simp only [Shared.await]
  split
  · exact proceed_put { p.updateSlot slot _ with created := p.created + 1 } made name borrow slot _
  · simp only [updateSlot_borrows, Table.put_put_self]
    rfl

theorem enter_put {s : Slot} (hs : p.slot? slot = some s) :
    ({ p with borrows := p.borrows.put name borrow }.enter made name slot).2 = (p.enter made name slot).2 := by
  have hs' : Shared.slot? { p with borrows := p.borrows.put name borrow } slot = some s := hs
  simp only [Shared.enter, hs, hs']
  cases s.made with
  | some result => exact settle_put p name borrow slot result
  | none => exact await_put p made name borrow slot _ _

end put

/-- The turn of a new slot with the borrower that opens it. -/
def taken : Semaphore := (Semaphore.ofCount 1).wait.2

namespace Filled

variable {p q : Shared} {names : List String} {name : String} {i : ℕ} {made : Creations}

theorem live_eq (h : Filled p names) : p.live = p.slots :=
  List.filter_eq_self.mpr fun s hs => by rw [(h.of_mem hs).1]; rfl

/-- When all units are placed, there is none for a newcomer. -/
theorem assign?_eq_none (h : Filled p names) (hfull : p.target * p.depth ≤ names.length) : p.assign? = none := by
  have hplaced : p.placed names = p.target * p.depth := Nat.min_eq_right hfull
  have hdiv : p.placed names / p.depth = p.target := by rw [hplaced, Nat.mul_div_cancel _ h.depth_pos]
  have hmod : p.placed names % p.depth = 0 := by rw [hplaced, Nat.mul_mod_left]
  rw [assign?_eq_none_iff, h.live_eq]
  constructor
  · intro s hs
    rcases (h.of_mem hs).2 with ⟨-, hload⟩ | ⟨hrest, -⟩
    · exact Nat.le_of_eq hload.symm
    · exact absurd hmod hrest
  · rw [h.length_slots, layout, hmod, hdiv]
    simp

/-- Where all slots are full, a newcomer opens one. -/
theorem assign?_eq_open (h : Filled p names) (hroom : names.length < p.target * p.depth)
    (hrest : names.length % p.depth = 0) : p.assign? = some (p.nextSlot,
      { p with slots := p.slots ++ [.ofId p.nextSlot], nextSlot := p.nextSlot + 1 }) := by
  have hplaced := placed_eq_of_lt hroom
  have hfull : Slot.leastLoaded? p.depth p.slots = none := by
    refine Slot.leastLoaded?_eq_none_iff.mpr fun s hs => ?_
    rw [← Bool.not_eq_true, Slot.hasRoom_iff]
    rintro ⟨-, hload⟩
    rcases (h.of_mem hs).2 with ⟨-, e⟩ | ⟨hne, -⟩
    · omega
    · exact hne (hplaced ▸ hrest)
  have hlength : p.live.length < p.target := by
    rw [h.live_eq, h.length_slots, hplaced, (layout_open h.depth_pos hrest).2]
    exact (Nat.div_lt_iff_lt_mul h.depth_pos).mpr hroom
  simp [Shared.assign?, hfull, hlength]

/-- A newcomer takes a unit of the one slot that has some to spare. -/
theorem assign?_eq_take (h : Filled p names) (hroom : names.length < p.target * p.depth)
    (hrest : names.length % p.depth ≠ 0) : p.assign? = some (names.length / p.depth,
      p.updateSlot (names.length / p.depth) .take) := by
  have hplaced := placed_eq_of_lt hroom
  have hmod := Nat.mod_lt names.length h.depth_pos
  cases hbest : Slot.leastLoaded? p.depth p.slots with
  | none =>
    -- the last slot has room
    have hlast : (names.length / p.depth, names.length % p.depth, false) ∈ p.slots.map Slot.load := by
      rw [h.loads, hplaced]
      exact mem_layout.mpr ⟨rfl, Or.inr ⟨hrest, rfl, rfl⟩⟩
    obtain ⟨s, hs, e⟩ := List.mem_map.mp hlast
    simp only [Slot.load, Prod.mk.injEq] at e
    have hfull := Slot.leastLoaded?_eq_none_iff.mp hbest s hs
    rw [← Bool.not_eq_true, Slot.hasRoom_iff] at hfull
    exact absurd ⟨e.2.2, by omega⟩ hfull
  | some best =>
    obtain ⟨hmem, hhas⟩ := Slot.leastLoaded?_eq_some hbest
    obtain ⟨-, hload⟩ := Slot.hasRoom_iff.mp hhas
    have hid : best.id = names.length / p.depth := by
      rcases (h.of_mem hmem).2 with ⟨-, e⟩ | ⟨-, e, -⟩
      · omega
      · rw [e, hplaced]
    simp only [Shared.assign?, hbest, hid]

/-- **A newcomer** joins those for whom the pool was filled, if it is put in its place and nobody else is concerned. -/
theorem extend (h : Filled p names) (hnew : name ∉ names) (hlimits : q.limits = p.limits)
    (hopened : q.disposed = p.disposed) {borrow : SharedBorrow} (hborrows : q.borrows = p.borrows.put name borrow)
    (hleases : q.leases = p.leases)
    (hloads : q.slots.map Slot.load = layout p.depth (p.placed (names ++ [name])))
    (hnext : q.nextSlot = q.slots.length) (hcreated : q.created = q.slots.length)
    (hqueue : q.queue.length + p.placed (names ++ [name]) = names.length + 1)
    (hslots : ∀ x ∈ q.slots, (∃ s ∈ p.slots, s.id = x.id ∧ s.made = x.made ∧ s.turn.units = x.turn.units) ∨
      x.made = none ∧ x.turn.units = 0 ∧ x.id * p.depth = names.length ∧ borrow = .creating x.id x.id)
    (hself : p.placed (names ++ [name]) ≤ names.length ∧ (∃ ticket, borrow = .queued ticket) ∨
      names.length < p.placed (names ++ [name]) ∧ Seated q names.length name) :
    Filled q (names ++ [name]) := by
  obtain ⟨htarget, hdepth⟩ := limits_eq_iff.mp hlimits
  have hplaced : q.placed (names ++ [name]) = p.placed (names ++ [name]) := by rw [placed, htarget, hdepth]; rfl
  have hget : ∀ other, other ≠ name → q.borrows.get? other = p.borrows.get? other := by
    intro other hne
    rw [hborrows, Table.get?_put_of_ne _ _ hne]
  have hgetSelf : q.borrows.get? name = some borrow := by rw [hborrows, Table.get?_put_self]
  -- who came before stands where it stood
  have hcases : ∀ {i other}, (names ++ [name])[i]? = some other → names[i]? = some other ∧ other ≠ name ∧
      (p.placed (names ++ [name]) ≤ i ↔ p.placed names ≤ i) ∨ i = names.length ∧ other = name := by
    intro i other hi
    by_cases hlt : i < names.length
    · rw [List.getElem?_append_left hlt] at hi
      refine Or.inl ⟨hi, ?_, ?_⟩
      · rintro rfl
        exact hnew (List.mem_of_getElem? hi)
      · simp only [placed, List.length_append, List.length_singleton]
        omega
    · rw [List.getElem?_append_right (Nat.not_lt.mp hlt), List.getElem?_singleton] at hi
      split at hi
      · exact Or.inr ⟨by omega, (Option.some.inj hi).symm⟩
      · simp at hi
  refine ⟨hdepth ▸ h.depth_pos, hopened.trans h.opened, fun other hother => ?_, ?_, ?_, hnext, hcreated, ?_,
    fun i other hi hle => ?_, fun i other hi hlt => ?_, fun x hx => ?_, fun x hx => ?_⟩
  · rw [List.mem_append, List.mem_singleton, not_or] at hother
    rw [hget other hother.2, hleases]
    exact h.known other hother.1
  · rw [List.nodup_append]
    refine ⟨h.nodup, List.nodup_singleton _, fun a ha b hb => ?_⟩
    rw [List.mem_singleton.mp hb]
    rintro rfl
    exact hnew ha
  · rw [hloads, hdepth, hplaced]
  · rw [hplaced, hqueue, List.length_append, List.length_singleton]
  · rw [hplaced] at hle
    rcases hcases hi with ⟨hi, hne, hiff⟩ | ⟨rfl, rfl⟩
    · obtain ⟨ticket, hw⟩ := h.waits i other hi (hiff.mp hle)
      exact ⟨ticket, (hget other hne).trans hw⟩
    · rcases hself with ⟨-, ticket, rfl⟩ | ⟨hlt, -⟩
      · exact ⟨ticket, hgetSelf⟩
      · omega
  · rw [hplaced] at hlt
    rcases hcases hi with ⟨hi, hne, hiff⟩ | ⟨rfl, rfl⟩
    · refine (h.seated i other hi (by omega)).of_same hdepth (hget other hne) (by rw [hleases]) fun _ hidle x hx hid =>
        ?_
      rcases hslots x hx with ⟨s, hs, hid', hmade, -⟩ | ⟨hmade, -⟩
      · rw [← hmade]
        exact hidle s hs (hid'.trans hid)
      · exact hmade
    · exact (hself.resolve_left fun hle => by omega).2
  · rcases hslots x hx with ⟨s, hs, -, -, hunits⟩ | ⟨-, hunits, -⟩
    · rw [← hunits]
      exact h.turn s hs
    · exact hunits
  · rw [hdepth]
    rcases hslots x hx with ⟨s, hs, hid, hmade, -⟩ | ⟨hmade, -, hfirst, rfl⟩
    · rw [← hid, ← hmade]
      refine (h.making s hs).imp_right ?_
      rintro ⟨hnone, other, hfirst, hcreating⟩
      have hmem := List.mem_of_getElem? hfirst
      refine ⟨hnone, other, ?_, (hget other fun e => hnew (e ▸ hmem)).trans hcreating⟩
      rw [List.getElem?_append_left (List.getElem?_eq_some_iff.mp hfirst).1]
      exact hfirst
    · refine Or.inr ⟨hmade, name, ?_, hgetSelf⟩
      rw [hfirst, List.getElem?_append_right (Nat.le_refl _), Nat.sub_self]
      rfl

theorem id_lt (h : Filled p names) {s : Slot} (hs : s ∈ p.slots) : s.id < p.slots.length := by
  rw [← List.mem_range, ← h.map_id_slots]
  exact List.mem_map_of_mem hs

theorem borrow_eq (h : Filled p names) (hnew : name ∉ names) (made : Creations) : p.borrow made name =
    match p.assign? with
    | some (slot, q) => q.enter made name slot
    | none => (.pending, { p with
      queue := p.queue ++ [p.nextTicket]
      nextTicket := p.nextTicket + 1
      borrows := p.borrows.put name (.queued p.nextTicket) }) := by
  obtain ⟨hb, hl⟩ := h.known name hnew
  rw [Shared.borrow, Table.has_eq_false_iff.mpr hb, Table.has_eq_false_iff.mpr hl, h.opened]
  rfl

/-- Who opens a slot creates its item. -/
theorem enter_open (h : Filled p names) (made : Creations) (name : String) :
    (Shared.enter { p with slots := p.slots ++ [.ofId p.nextSlot], nextSlot := p.nextSlot + 1 } made name
      p.nextSlot).2 =
    (Shared.proceed { p with
      slots := p.slots ++ [{ Slot.ofId p.nextSlot with turn := taken }]
      nextSlot := p.nextSlot + 1
      created := p.created + 1 } made name p.nextSlot p.created).2 := by
  have hlt : ∀ s ∈ p.slots, s.id ≠ p.nextSlot := fun s hs => by
    rw [h.nextSlot]
    exact Nat.ne_of_lt (h.id_lt hs)
  have hslot : (p.slots ++ [Slot.ofId p.nextSlot]).find? (fun s => s.id = p.nextSlot) =
      some (Slot.ofId p.nextSlot) := by
    rw [List.find?_append, List.find?_eq_none.mpr fun s hs => by simpa using hlt s hs]
    simp [Slot.ofId]
  have hupdate : (p.slots ++ [Slot.ofId p.nextSlot]).map (fun s =>
      if s.id = p.nextSlot then { s with turn := taken } else s) =
      p.slots ++ [{ Slot.ofId p.nextSlot with turn := taken }] := by
    rw [List.map_append]
    congr 1
    · exact (List.map_congr_left fun s hs => if_neg (hlt s hs)).trans (List.map_id _)
    · simp [Slot.ofId]
  rw [← hupdate]
  simp only [Shared.enter, Shared.slot?, hslot]
  rfl

/-- A newcomer stands in its place in `q`, and goes on from there. -/
structure Joins (p : Shared) (names : List String) (made : Creations) (name : String) (q : Shared) : Prop where
  /-- The pool was filled by it, too. -/
  filled : Filled q (names ++ [name])
  /-- Nothing is lost. -/
  grows : Grows p q
  /-- It goes on. -/
  goesOn : (p.borrow made name).2 = (q.poll made name).2

/-- It opens a slot. -/
theorem joins_open (h : Filled p names) (hnew : name ∉ names) (made : Creations)
    (hroom : names.length < p.target * p.depth) (hrest : names.length % p.depth = 0) :
    Joins p names made name { p with
      slots := p.slots ++ [{ Slot.ofId p.nextSlot with turn := taken }]
      nextSlot := p.nextSlot + 1
      created := p.created + 1
      borrows := p.borrows.put name (.creating p.nextSlot p.nextSlot) } := by
  have hplaced := placed_eq_of_lt hroom
  have hplaced' : p.placed (names ++ [name]) = names.length + 1 := by rw [placed_concat, Nat.min_eq_left hroom]
  have hqueue := h.queue
  have hfirst : names.length / p.depth = p.nextSlot := by
    rw [h.nextSlot, h.length_slots, hplaced, (layout_open h.depth_pos hrest).2]
  have hmul : p.nextSlot * p.depth = names.length := by
    rw [← hfirst, Nat.div_mul_cancel (Nat.dvd_of_mod_eq_zero hrest)]
  refine ⟨?_, ⟨?_, fun _ _ hl => hl⟩, ?_⟩
  · refine h.extend hnew rfl rfl rfl rfl ?_ ?_ ?_ ?_ (fun x hx => ?_) (Or.inr ⟨by omega, ?_⟩)
    · rw [hplaced', (layout_open h.depth_pos hrest).1, List.map_append, h.loads, hplaced, hfirst]
      rfl
    · simp [h.nextSlot]
    · simp [h.created]
    · show p.queue.length + _ = _
      omega
    · rcases List.mem_append.mp hx with hx | hx
      · exact Or.inl ⟨x, hx, rfl, rfl, rfl⟩
      · rw [List.mem_singleton.mp hx]
        exact Or.inr ⟨rfl, rfl, hmul, rfl⟩
    · refine .creating (?_ : Table.get? _ _ = _) (h.known name hnew).2 (hfirst ▸ hmul).symm fun x hx hid => ?_
      · rw [Table.get?_put_self]
        exact hfirst ▸ rfl
      · rcases List.mem_append.mp hx with hx | hx
        · have hlt := h.id_lt hx
          rw [h.nextSlot] at hfirst
          exact absurd (hid.trans hfirst) (Nat.ne_of_lt hlt)
        · rw [List.mem_singleton.mp hx]
          rfl
  · rintro slot ⟨s, hs, hitem⟩
    exact ⟨s, List.mem_append_left _ hs, hitem⟩
  · rw [h.borrow_eq hnew, h.assign?_eq_open hroom hrest]
    dsimp only
    rw [h.enter_open]
    simp only [Shared.poll, Table.get?_put_self]
    rw [h.created, ← h.nextSlot]
    exact (proceed_put _ made name _ _ _).symm

/-- It takes a unit of the last slot. -/
theorem joins_take (h : Filled p names) (hnew : name ∉ names) (made : Creations)
    (hroom : names.length < p.target * p.depth) (hrest : names.length % p.depth ≠ 0) :
    Joins p names made name { p.updateSlot (names.length / p.depth) .take with
      borrows := p.borrows.put name (.assigned (names.length / p.depth)) } := by
  have hplaced := placed_eq_of_lt hroom
  have hplaced' : p.placed (names ++ [name]) = names.length + 1 := by rw [placed_concat, Nat.min_eq_left hroom]
  have hqueue := h.queue
  have hfilled : Filled { p.updateSlot (names.length / p.depth) .take with
      borrows := p.borrows.put name (.assigned (names.length / p.depth)) } (names ++ [name]) := by
    refine h.extend hnew rfl rfl rfl rfl ?_ ?_ ?_ ?_ (fun x hx => ?_) (Or.inr ⟨by omega, ?_⟩)
    · rw [hplaced', layout_take h.depth_pos hrest, ← hplaced, ← h.loads, List.map_map]
      show (p.slots.map fun s => if s.id = p.placed names / p.depth then s.take else s).map Slot.load = _
      rw [List.map_map]
      refine List.map_congr_left fun s _ => ?_
      simp only [Function.comp, Slot.load]
      split <;> next hown => simp only [hown, if_true, if_false, Slot.take]
    · exact h.nextSlot.trans (List.length_map _).symm
    · exact h.created.trans (List.length_map _).symm
    · show p.queue.length + _ = _
      omega
    · obtain ⟨s, hs, rfl⟩ := mem_updateSlot.mp hx
      refine Or.inl ⟨s, hs, ?_⟩
      split <;> exact ⟨rfl, rfl, rfl⟩
    · exact .waiting (Table.get?_put_self _ _ _) (h.known name hnew).2 (Or.inl rfl)
  refine ⟨hfilled, ⟨?_, fun _ _ hl => hl⟩, ?_⟩
  · rintro slot ⟨s, hs, hitem⟩
    refine ⟨_, mem_updateSlot.mpr ⟨s, hs, rfl⟩, ?_⟩
    split <;> exact hitem
  · have hlt : names.length < p.placed (names ++ [name]) := by omega
    obtain ⟨s, hs⟩ := hfilled.exists_slot? hlt
    rw [h.borrow_eq hnew, h.assign?_eq_take hroom hrest]
    simp only [Shared.poll, Table.get?_put_self]
    exact (enter_put (p.updateSlot (names.length / p.depth) .take) made name _ _ hs).symm

/-- It queues. -/
theorem joins_queue (h : Filled p names) (hnew : name ∉ names) (made : Creations)
    (hfull : p.target * p.depth ≤ names.length) :
    Joins p names made name { p with
      queue := p.queue ++ [p.nextTicket]
      nextTicket := p.nextTicket + 1
      borrows := p.borrows.put name (.queued p.nextTicket) } := by
  have hplaced : p.placed names = p.target * p.depth := Nat.min_eq_right hfull
  have hplaced' : p.placed (names ++ [name]) = p.target * p.depth := by
    rw [placed_concat, Nat.min_eq_right (Nat.le_succ_of_le hfull)]
  have hqueue := h.queue
  refine ⟨?_, ⟨fun _ hitem => hitem, fun _ _ hl => hl⟩, ?_⟩
  · refine h.extend hnew rfl rfl rfl rfl ?_ h.nextSlot h.created ?_ (fun x hx => Or.inl ⟨x, hx, rfl, rfl, rfl⟩)
      (Or.inl ⟨by omega, _, rfl⟩)
    · rw [hplaced', ← hplaced, h.loads]
    · rw [List.length_append, List.length_singleton]
      omega
  · rw [h.borrow_eq hnew, h.assign?_eq_none hfull]
    simp only [Shared.poll, Table.get?_put_self]

/-- **Starting a borrower** puts it in its place, and it goes on from there. -/
theorem joins (h : Filled p names) (hnew : name ∉ names) (made : Creations) : ∃ q, Joins p names made name q := by
  by_cases hroom : names.length < p.target * p.depth
  · by_cases hrest : names.length % p.depth = 0
    · exact ⟨_, h.joins_open hnew made hroom hrest⟩
    · exact ⟨_, h.joins_take hnew made hroom hrest⟩
  · exact ⟨_, h.joins_queue hnew made (Nat.not_lt.mp hroom)⟩

/-! ### Runs -/

theorem ofOptions (kind : String) (options : SharedOptions) : Filled (Shared.ofOptions kind options) [] where
  depth_pos := Nat.lt_of_lt_of_le Nat.zero_lt_one (Nat.le_max_right _ _)
  opened := rfl
  known _ _ := ⟨rfl, rfl⟩
  nodup := List.nodup_nil
  loads := by simp [Shared.ofOptions, placed, layout]
  nextSlot := rfl
  created := rfl
  queue := by simp [Shared.ofOptions, placed]
  waits i name hi := by simp at hi
  seated i name hi := by simp at hi
  turn s hs := by simp [Shared.ofOptions] at hs
  making s hs := by simp [Shared.ofOptions] at hs

/-- A slot whose creation has come to a result has its item. -/
theorem stocked_of_recorded (h : Filled p names) {slot item : ℕ} (hrecorded : Recorded p slot [.ok item]) :
    p.Stocked slot ∧ item = slot := by
  have hlt : slot < p.slots.length := by
    rw [← h.nextSlot]
    by_contra hle
    simpa using hrecorded.unopened (Nat.not_lt.mp hle)
  rw [← List.mem_range, ← h.map_id_slots, List.mem_map] at hlt
  obtain ⟨s, hs, hid⟩ := hlt
  have hkept := Option.toList_eq_singleton_iff.mp (hrecorded.kept s hs hid)
  rcases h.making s hs with hmade | ⟨hmade, -⟩ <;> rw [hkept] at hmade
  · obtain rfl : item = s.id := by simpa using hmade
    exact ⟨⟨s, hs, hid, hid ▸ hkept⟩, hid⟩
  · simp at hmade

/-- The marks of leases do not matter. -/
theorem mark (h : Filled p names) (leases : Table SharedLease)
    (hsame : ∀ other, (leases.get? other).map (fun lease => (lease.slot, lease.item)) =
      (p.leases.get? other).map fun lease => (lease.slot, lease.item)) :
    Filled { p with leases := leases } names ∧ Grows p { p with leases := leases } := by
  have hlends : ∀ other slot, p.Lends other slot → Lends { p with leases := leases } other slot := by
    rintro other slot ⟨lease, hget, hslot, hitem⟩
    have := hsame other
    rw [hget, Option.map_some, Option.map_eq_some_iff] at this
    obtain ⟨marked, hmarked, e⟩ := this
    rw [Prod.mk.injEq] at e
    exact ⟨marked, hmarked, e.1.trans hslot, e.2.trans hitem⟩
  have hnone : ∀ other, p.leases.get? other = none → leases.get? other = none := by
    intro other hget
    have := hsame other
    rwa [hget, Option.map_none, Option.map_eq_none_iff] at this
  refine ⟨⟨h.depth_pos, h.opened, fun other hother => ?_, h.nodup, h.loads, h.nextSlot, h.created, h.queue, h.waits,
    fun i other hi hlt => ?_, h.turn, h.making⟩, fun _ hitem => hitem, hlends⟩
  · exact (h.known other hother).imp_right (hnone other)
  · cases h.seated i other hi hlt with
    | leased lends gone => exact .leased (hlends _ _ lends) gone
    | waiting get unleased waits => exact .waiting get (hnone _ unleased) waits
    | creating get unleased first idle => exact .creating get (hnone _ unleased) first idle

/-- A borrower that is started is new. -/
theorem not_mem_of_filling {made : Creations} (hf : Filling names [.borrow made name]) : name ∉ names := fun hmem =>
  (List.nodup_append.mp hf.nodup).2.2 name hmem name List.mem_cons_self rfl

/-- What one operation leads to. -/
structure Stepped (p : Shared) (names : List String) (event : Event) (q : Shared) : Prop where
  /-- The pool is filled. -/
  filled : Filled q names
  /-- Nothing is lost. -/
  grows : Grows p q
  /-- Who goes on has a lease if the item of its slot is there. -/
  lends : ∀ i name, event.runs? = some name → names[i]? = some name → i < q.placed names →
    q.Stocked (i / q.depth) → q.Lends name (i / q.depth)

/-- **One operation.** -/
theorem step (h : Filled p names) {event : Event} (hf : Filling names [event]) :
    Stepped p (names ++ borrowed [event]) event (p.step event) := by
  have hfine := hf.fine event List.mem_cons_self
  cases event with
  | borrow made name =>
    obtain ⟨q, hjoins⟩ := h.joins (not_mem_of_filling hf) made
    have hi : (names ++ [name])[names.length]? = some name := by simp
    have hgoes := hjoins.filled.poll hi fun item e htold => hfine item e htold
    have hstep : p.step (.borrow made name) = (q.poll made name).2 := hjoins.goesOn
    rw [hstep]
    refine ⟨hgoes.filled, hjoins.grows.trans hgoes.grows, fun i other hruns hother => ?_⟩
    obtain rfl := Option.some.inj hruns
    rw [hgoes.filled.index_eq hother hi]
    exact hgoes.lends
  | poll made name =>
    show Stepped p (names ++ []) (.poll made name) (p.poll made name).2
    rw [List.append_nil]
    by_cases hmem : name ∈ names
    · obtain ⟨i, hi⟩ := List.mem_iff_getElem?.mp hmem
      have hgoes := h.poll hi fun item e htold => hfine item e htold
      refine ⟨hgoes.filled, hgoes.grows, fun j other hruns hother => ?_⟩
      obtain rfl := Option.some.inj hruns
      rw [hgoes.filled.index_eq hother hi]
      exact hgoes.lends
    · have hsame : (p.poll made name).2 = p := by simp only [Shared.poll, (h.known name hmem).1]
      rw [hsame]
      refine ⟨h, .refl p, fun i other hruns hother => ?_⟩
      obtain rfl := Option.some.inj hruns
      exact absurd (List.mem_of_getElem? hother) hmem
  | corrupt name =>
    show Stepped p (names ++ []) (.corrupt name) (p.corrupt name).2
    rw [List.append_nil, Shared.corrupt]
    cases hget : p.leases.get? name with
    | none => exact ⟨h, .refl p, fun i other hruns => by simp [Event.runs?] at hruns⟩
    | some lease =>
      have hmarked := h.mark (p.leases.put name { lease with corrupted := true }) fun other => by
        rw [Table.get?_put]
        split
        · next e => rw [e, hget]; rfl
        · rfl
      exact ⟨hmarked.1, hmarked.2, fun i other hruns => by simp [Event.runs?] at hruns⟩
  | cancel | release | dispose =>
    have hfills := hf.fills _ List.mem_cons_self
    simp [Event.fills] at hfills

/-- An operation calls the source of items for the next slot, if it calls it. -/
theorem range_created_step (h : Filled p names) {event : Event} (hf : Filling names [event]) :
    List.range (p.step event).created = List.range p.created ++
      if p.created < (p.step event).created then (p.unit? event).toList else [] := by
  have hstep := (h.step hf).filled
  obtain ⟨htarget, hdepth⟩ := limits_eq_iff.mp (p.step_limits event)
  have hcreated' : (p.step event).created = (layout p.depth (p.placed (names ++ borrowed [event]))).length := by
    rw [hstep.created, hstep.length_slots, placed, htarget, hdepth]
    rfl
  have hcreated : p.created = (layout p.depth (p.placed names)).length := h.created.trans h.length_slots
  have hsame : (p.step event).created = p.created → List.range (p.step event).created = List.range p.created ++
      if p.created < (p.step event).created then (p.unit? event).toList else [] := by
    intro e
    rw [e, if_neg (Nat.lt_irrefl _), List.append_nil]
  cases event with
  | borrow made name =>
    rw [show borrowed [.borrow made name] = [name] from rfl, placed_concat] at hcreated'
    by_cases hroom : names.length < p.target * p.depth
    · rw [Nat.min_eq_left hroom] at hcreated'
      rw [placed_eq_of_lt hroom] at hcreated
      by_cases hrest : names.length % p.depth = 0
      · have hnext : (p.step (.borrow made name)).created = p.created + 1 := by
          rw [hcreated', (layout_open h.depth_pos hrest).1, List.length_append, ← hcreated]
          rfl
        have hadmits : p.admits name = true := by
          obtain ⟨hb, hl⟩ := h.known name (not_mem_of_filling hf)
          exact admits_iff.mpr ⟨hb, hl, h.opened⟩
        rw [hnext, if_pos (Nat.lt_succ_self _), unit?, if_pos hadmits, h.assign?_eq_open hroom hrest, List.range_succ,
          h.created, ← h.nextSlot]
        rfl
      · refine hsame ?_
        rw [hcreated', layout_take h.depth_pos hrest, List.length_map, ← hcreated]
    · refine hsame ?_
      have hfull := Nat.not_lt.mp hroom
      rw [hcreated', hcreated, Nat.min_eq_right (Nat.le_succ_of_le hfull), placed, Nat.min_eq_right hfull]
  | _ =>
    refine hsame (hcreated'.trans ?_)
    rw [hcreated]
    exact congrArg (fun names => (layout p.depth (p.placed names)).length) (List.append_nil names)

/-- What a run leads to. -/
structure Ran (p : Shared) (names : List String) (events : List Event) : Prop where
  /-- The pool is filled. -/
  filled : Filled (p.run events) (names ++ borrowed events)
  /-- Nothing is lost. -/
  grows : Grows p (p.run events)
  /-- The source of items is called for one slot after another. -/
  calls : List.range (p.run events).created = List.range p.created ++ p.called events

/-- **A run.** -/
theorem run (h : Filled p names) {events : List Event} (hf : Filling names events) : Ran p names events := by
  induction events generalizing p names with
  | nil =>
    refine ⟨?_, .refl p, (List.append_nil _).symm⟩
    rw [borrowed, List.filterMap_nil, List.append_nil]
    exact h
  | cons event events ih =>
    obtain ⟨hfirst, hrest⟩ : Filling names [event] ∧ Filling (names ++ borrowed [event]) events := Filling.split hf
    have hstep := h.step hfirst
    have hran := ih hstep.filled hrest
    refine ⟨?_, hstep.grows.trans hran.grows, ?_⟩
    · have hfilled := hran.filled
      rw [List.append_assoc, ← borrowed_append] at hfilled
      exact hfilled
    · rw [called, ← List.append_assoc, ← h.range_created_step hfirst]
      exact hran.calls

/-- Whoever was started and goes on when the item of its slot is there has a lease from then on. -/
theorem lends_at (h : Filled p names) {before after : List Event} {event : Event}
    (hf : Filling names (before ++ [event] ++ after)) (hruns : event.runs? = some name)
    (hi : (names ++ borrowed (before ++ [event]))[i]? = some name) (hlt : i < p.target * p.depth)
    (hitem : (p.run (before ++ [event])).Stocked (i / p.depth)) :
    (p.run (before ++ [event] ++ after)).Lends name (i / p.depth) := by
  obtain ⟨hsofar, hafter⟩ := hf.split
  obtain ⟨hbefore, hnow⟩ := hsofar.split
  have hstep := (h.run hbefore).filled.step hnow
  obtain ⟨htarget, hdepth⟩ := limits_eq_iff.mp (p.run_limits (before ++ [event]))
  rw [run_concat] at hitem htarget hdepth
  rw [borrowed_append, ← List.append_assoc] at hi
  have hlength := (List.getElem?_eq_some_iff.mp hi).1
  have hlends := hstep.lends i name hruns hi
  rw [placed, htarget, hdepth] at hlends
  have hgrows := ((h.run hsofar).filled.run hafter).grows
  rw [run_append p (before ++ [event])]
  refine hgrows.lends name _ ?_
  rw [run_concat]
  exact hlends (Nat.lt_min.mpr ⟨hlength, hlt⟩) hitem

/-- Whoever is started or goes on when the item of its slot is there has a lease at the end. -/
theorem lends_run (h : Filled p names) {before after : List Event} {event : Event}
    (hf : Filling names (before ++ [event] ++ after)) (hruns : event.runs? = some name)
    (hi : (names ++ borrowed (before ++ [event] ++ after))[i]? = some name) (hlt : i < p.target * p.depth)
    (hitem : (p.run (before ++ [event])).Stocked (i / p.depth)) :
    (p.run (before ++ [event] ++ after)).Lends name (i / p.depth) := by
  have hnodup := hf.nodup
  rw [borrowed_append (before ++ [event]), ← List.append_assoc] at hi hnodup
  by_cases hthere : name ∈ names ++ borrowed (before ++ [event])
  · exact h.lends_at hf hruns (getElem?_of_mem_left hnodup hi hthere) hlt hitem
  -- it is started after that
  have hlater := (List.mem_append.mp (List.mem_of_getElem? hi)).resolve_left hthere
  obtain ⟨last, hlast, hname⟩ := List.mem_filterMap.mp hlater
  obtain ⟨between, rest, rfl⟩ : ∃ between rest, after = between ++ [last] ++ rest := by
    obtain ⟨between, rest, rfl⟩ := List.append_of_mem hlast
    exact ⟨between, rest, by simp⟩
  obtain ⟨hsofar, hafter⟩ := hf.split
  have hran := h.run hsofar
  have hruns' : last.runs? = some name := by
    cases last with
    | borrow => exact hname
    | _ => simp [Event.borrower?] at hname
  have hmem : name ∈ names ++ borrowed (before ++ [event]) ++ borrowed (between ++ [last]) := by
    rw [borrowed_append between, borrowed_singleton, hname]
    simp
  rw [borrowed_append (between ++ [last]), ← List.append_assoc] at hi hnodup
  obtain ⟨htarget, hdepth⟩ := limits_eq_iff.mp (p.run_limits (before ++ [event]))
  rw [run_append p (before ++ [event]), ← hdepth]
  refine hran.filled.lends_at hafter hruns' (getElem?_of_mem_left hnodup hi hmem) (by rwa [htarget, hdepth]) ?_
  rw [hdepth]
  exact (hran.filled.run hafter.split.1).grows.stocked _ hitem

end Filled

/-- **Filling.** Take any run from the start in which borrowers are started and go on, and leases may be marked, and
which is told of no creation that has failed; `names` are the borrowers that it starts. Each slot is filled before the
next is opened, until there are as many slots as the options ask for: the first borrowers have a unit, borrower `i` one
of slot `i / m`, and the others wait in the queue. The source of items is called once for each slot. Whoever is started
or goes on after the creation for its slot has succeeded has a lease of that item from then on. -/
theorem fills_in_order (kind : String) (options : SharedOptions) (events : List Event)
    (hfills : ∀ event ∈ events, event.fills = true) (hfine : ∀ event ∈ events, event.FailsBy fun _ => False)
    (hnodup : (borrowed events).Nodup) :
    let start := Shared.ofOptions kind options
    let p := start.run events
    let names := borrowed events
    let m := options.atLeastOne.maxRequestsPerItem
    let count := min names.length (options.atLeastOne.targetItemCount * m)
    p.loads = List.replicate (count / m) m ++ (if count % m = 0 then [] else [count % m]) ∧
      p.waiting = names.length - count ∧
      (∀ i name, names[i]? = some name → ((∃ ticket, p.Waits name ticket) ↔ count ≤ i)) ∧
      p.created = p.loads.length ∧ start.called events = p.live.map (·.id) ∧
      ∀ i name, names[i]? = some name → i < count → p.Has name (i / m) ∧
        ∀ before event after item, events = before ++ [event] ++ after → event.runs? = some name →
          start.completions (i / m) (before ++ [event]) = [.ok item] →
            ∃ lease, p.leases.get? name = some lease ∧ lease.slot = i / m ∧ lease.item = item := by
  intro start p names m count
  have hstart : Filled start [] := .ofOptions kind options
  have hf : Filling [] events := ⟨hfills, hfine, hnodup⟩
  have hrun := hstart.run hf
  have hfilled : Filled p names := hrun.filled
  obtain ⟨htarget, hdepth⟩ := limits_eq_iff.mp (start.run_limits events)
  have hdepth : p.depth = m := hdepth
  have hplaced : p.placed names = count := by rw [placed, hdepth, htarget]; rfl
  have hlive := hfilled.live_eq
  have hqueue := hfilled.queue
  refine ⟨?_, ?_, fun i name hi => ⟨fun hw => ?_, fun hle => ?_⟩, ?_, ?_, fun i name hi hlt => ⟨?_, ?_⟩⟩
  · rw [loads, hlive, show p.slots.map (·.inFlight) = (p.slots.map Slot.load).map (·.2.1) by rw [List.map_map]; rfl,
      hfilled.loads, hplaced, hdepth, layout, List.map_append, List.map_map]
    congr 1
    · rw [← List.length_range (n := count / m), ← List.map_const', List.length_range]
      rfl
    · split <;> rfl
  · show p.queue.length = _
    omega
  · obtain ⟨ticket, hw⟩ := hw
    by_contra hlt
    exact (hfilled.seated i name hi (by omega)).not_waits ticket hw
  · exact hfilled.waits i name hi (by omega)
  · rw [loads, hlive, List.length_map, hfilled.created]
  · rw [hlive, hfilled.map_id_slots, ← hfilled.created]
    exact hrun.calls.symm
  · exact hdepth ▸ (hfilled.seated i name hi (by omega)).has
  · rintro before event after item rfl hruns hresult
    -- the creation has succeeded, so the slot has its item
    obtain ⟨hrecorded, -⟩ :=
      (Recorded.ofOptions kind options (i / m)).run (Balanced.ofOptions kind options) (before ++ [event])
    rw [List.nil_append, hresult] at hrecorded
    obtain ⟨hitem, rfl⟩ := (hstart.run hf.split.1).filled.stocked_of_recorded hrecorded
    exact hstart.lends_run hf hruns hi (Nat.lt_of_lt_of_le hlt (Nat.min_le_right _ _)) hitem

/-- Seven borrowers for two slots of three units, of which the first one waits for its item. -/
theorem fills_in_order_seven :
    let late : Creations := fun _ => none
    let prompt : Creations := fun _ => some (.ok ())
    let events : List Event := [.borrow late "a", .borrow late "b", .borrow prompt "c", .borrow prompt "d",
      .borrow prompt "e", .borrow late "f", .borrow prompt "g", .poll prompt "a", .poll late "c"]
    let p := (Shared.ofOptions "item" ⟨2, 3⟩).run events
    p.loads = [3, 3] ∧ p.waiting = 1 ∧ (∃ ticket, p.Waits "g" ticket) ∧ p.created = 2 ∧
      ∃ lease, p.leases.get? "c" = some lease ∧ lease.slot = 0 ∧ lease.item = 0 := by
  intro late prompt events p
  have hfills : ∀ event ∈ events, event.fills = true := by decide
  have hfine : ∀ event ∈ events, event.FailsBy fun _ => False := by
    have htold : ∀ event ∈ events, event.told = late ∨ event.told = prompt := by simp [events, Event.told]
    intro event hmem item e hfails
    rcases htold event hmem with h | h <;> rw [h] at hfails <;> simp [late, prompt] at hfails
  obtain ⟨hloads, hwaiting, hqueued, hcreated, -, hplaced⟩ :=
    fills_in_order "item" ⟨2, 3⟩ events hfills hfine (by decide)
  have hlease := (hplaced 2 "c" rfl (by decide)).2 (events.take 8) (.poll late "c") [] 0 rfl rfl (by decide)
  have hloads : p.loads = [3, 3] := hloads.trans (by decide)
  exact ⟨hloads, hwaiting, (hqueued 6 "g" rfl).mpr (by decide), hcreated.trans (by rw [hloads]; rfl), hlease⟩

end MemcachedClient.Pool.Shared
