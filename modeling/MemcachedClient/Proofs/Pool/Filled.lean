import MemcachedClient.Proofs.Pool.Moves
import MemcachedClient.Proofs.Semaphore

/-!
# Filled pools

As long as nobody leaves and no creation fails, the borrowers of a shared pool take the units in the order in which
they are started: the first slot is filled, then the next one is opened, until there are as many slots as the pool wants
and all of them are full (`layout`). Who is started after that waits in the queue. The borrower that opens a slot
creates its item, and the others of the slot wait for that.

`Filled p names` says this of a pool for which the borrowers `names` were started. A borrower that goes on keeps it so:
it takes its lease if the item of its slot is there, and waits on otherwise (`Filled.poll`).
-/

namespace MemcachedClient.Pool

/-- The number, the units and the retirement of a slot. -/
def Slot.load (s : Slot) : ℕ × ℕ × Bool := (s.id, s.inFlight, s.retired)

theorem Slot.Keeps.load {f : Slot → Slot} (h : Keeps f) (s : Slot) : (f s).load = s.load := by
  rw [Slot.load, h.id, h.inFlight, h.retired]
  rfl

namespace Shared

/-! ### The slots in the order of opening -/

/-- The numbers, the units and the retirement of slots on which so many units are placed, one slot after another. -/
def layout (depth units : ℕ) : List (ℕ × ℕ × Bool) :=
  (List.range (units / depth)).map (fun slot => (slot, depth, false)) ++
    if units % depth = 0 then [] else [(units / depth, units % depth, false)]

section layout

variable {depth units : ℕ}

/-- The units may fill the last slot. -/
theorem layout_eq (hpos : 0 < depth) (full : ℕ) {rest : ℕ} (hle : rest ≤ depth) :
    layout depth (depth * full + rest) = (List.range full).map (fun slot => (slot, depth, false)) ++
      if rest = 0 then [] else [(full, rest, false)] := by
  rcases Nat.lt_or_eq_of_le hle with hlt | rfl
  · rw [layout, Nat.mul_add_div hpos, Nat.mul_add_mod, Nat.div_eq_of_lt hlt, Nat.mod_eq_of_lt hlt, Nat.add_zero]
  · have hsucc : rest * full + rest = rest * (full + 1) := by rw [Nat.mul_succ]
    rw [hsucc, layout, Nat.mul_div_cancel_left _ hpos, Nat.mul_mod_right, if_pos rfl, List.append_nil,
      if_neg (Nat.ne_of_gt hpos), List.range_succ, List.map_append]
    rfl

theorem mem_layout {slot load : ℕ} {retired : Bool} : (slot, load, retired) ∈ layout depth units ↔
    retired = false ∧ (slot < units / depth ∧ load = depth ∨
      units % depth ≠ 0 ∧ slot = units / depth ∧ load = units % depth) := by
  rw [layout, List.mem_append, List.mem_map]
  constructor
  · rintro (⟨slot, hslot, e⟩ | hlast)
    · simp only [Prod.mk.injEq] at e
      obtain ⟨rfl, rfl, rfl⟩ := e
      exact ⟨rfl, Or.inl ⟨List.mem_range.mp hslot, rfl⟩⟩
    · split at hlast
      · simp at hlast
      · next hne =>
        simp only [List.mem_singleton, Prod.mk.injEq] at hlast
        obtain ⟨rfl, rfl, rfl⟩ := hlast
        exact ⟨rfl, Or.inr ⟨hne, rfl, rfl⟩⟩
  · rintro ⟨rfl, ⟨hlt, rfl⟩ | ⟨hne, rfl, rfl⟩⟩
    · exact Or.inl ⟨slot, List.mem_range.mpr hlt, rfl⟩
    · exact Or.inr (by simp [hne])

theorem map_fst_layout : (layout depth units).map (·.1) = List.range (layout depth units).length := by
  rw [layout]
  split
  · simp [Function.comp_def]
  · simp [Function.comp_def, List.range_succ]

/-- The slot of a unit that is placed is open. -/
theorem div_mem_layout {i : ℕ} (hlt : i < units) : ∃ load, (i / depth, load, false) ∈ layout depth units := by
  have hle : i / depth ≤ units / depth := Nat.div_le_div_right (Nat.le_of_lt hlt)
  rcases Nat.lt_or_eq_of_le hle with h | h
  · exact ⟨depth, mem_layout.mpr ⟨rfl, Or.inl ⟨h, rfl⟩⟩⟩
  · refine ⟨units % depth, mem_layout.mpr ⟨rfl, Or.inr ⟨fun hzero => ?_, h, rfl⟩⟩⟩
    -- all units before the first of a slot are on the slots before it
    have hunits := Nat.div_add_mod units depth
    have hi := Nat.div_add_mod i depth
    rw [h] at hi
    omega

/-- The next unit opens a slot where all are full. -/
theorem layout_open (hpos : 0 < depth) (hrest : units % depth = 0) :
    layout depth (units + 1) = layout depth units ++ [(units / depth, 1, false)] ∧
      (layout depth units).length = units / depth := by
  have hunits := Nat.div_add_mod units depth
  rw [hrest] at hunits
  have hone : 1 ≤ depth := hpos
  have hnext := layout_eq hpos (units / depth) hone
  rw [show depth * (units / depth) + 1 = units + 1 by omega] at hnext
  rw [hnext, layout, hrest]
  simp

/-- The next unit is placed on the last slot where that has room. -/
theorem layout_take (hpos : 0 < depth) (hrest : units % depth ≠ 0) :
    layout depth (units + 1) = (layout depth units).map fun s =>
        if s.1 = units / depth then (s.1, s.2.1 + 1, s.2.2) else s := by
  have hunits := Nat.div_add_mod units depth
  have hroom : units % depth + 1 ≤ depth := Nat.mod_lt units hpos
  have hnext := layout_eq hpos (units / depth) hroom
  rw [show depth * (units / depth) + (units % depth + 1) = units + 1 by omega] at hnext
  rw [hnext, layout, if_neg (Nat.succ_ne_zero _), if_neg hrest, List.map_append, List.map_map, List.map_singleton,
    if_pos rfl]
  congr 1
  refine List.map_congr_left fun slot hslot => ?_
  simp [Nat.ne_of_lt (List.mem_range.mp hslot)]

end layout

/-! ### Filled pools -/

/-- The number of the borrowers that have a unit when so many were started. -/
def placed (p : Shared) (names : List String) : ℕ := min names.length (p.target * p.depth)

/-- The slot has its item. -/
def Stocked (p : Shared) (slot : ℕ) : Prop := ∃ s ∈ p.slots, s.id = slot ∧ s.made = some (.ok slot)

/-- There is a lease of the item of a slot under this name. -/
def Lends (p : Shared) (name : String) (slot : ℕ) : Prop :=
  ∃ lease, p.leases.get? name = some lease ∧ lease.slot = slot ∧ lease.item = slot

/-- What the borrower is doing that came as number `i`, counted from 0. -/
inductive Seated (p : Shared) (i : ℕ) (name : String) : Prop where
  /-- It has a lease. -/
  | leased (lends : p.Lends name (i / p.depth)) (gone : p.borrows.get? name = none)
  /-- It waits for the item of its slot. -/
  | waiting {borrow : SharedBorrow} (get : p.borrows.get? name = some borrow) (unleased : p.leases.get? name = none)
    (waits : borrow = .assigned (i / p.depth) ∨ ∃ ticket, borrow = .awaiting (i / p.depth) (.queued ticket))
  /-- It is the first on its slot, and creates the item. -/
  | creating (get : p.borrows.get? name = some (.creating (i / p.depth) (i / p.depth)))
    (unleased : p.leases.get? name = none) (first : i = i / p.depth * p.depth)
    (idle : ∀ s ∈ p.slots, s.id = i / p.depth → s.made = none)

theorem Seated.has {p : Shared} {i : ℕ} {name : String} (h : p.Seated i name) : p.Has name (i / p.depth) := by
  cases h with
  | leased lends gone =>
    obtain ⟨lease, hget, hslot, -⟩ := lends
    exact Or.inr ⟨lease, hget, hslot⟩
  | waiting get unleased waits => exact Or.inl ⟨_, get, by rcases waits with rfl | ⟨ticket, rfl⟩ <;> rfl⟩
  | creating get unleased first idle => exact Or.inl ⟨_, get, rfl⟩

theorem Seated.not_waits {p : Shared} {i : ℕ} {name : String} (h : p.Seated i name) (ticket : ℕ) :
    ¬ p.Waits name ticket := by
  intro hw
  have hget : p.borrows.get? name = some (.queued ticket) := hw
  cases h with
  | leased lends gone => simp [gone] at hget
  | waiting get unleased waits =>
    rw [get, Option.some.injEq] at hget
    rcases waits with rfl | ⟨ticket, rfl⟩ <;> simp at hget
  | creating get unleased first idle => simp [get] at hget

/-- Who is not concerned stands where it stood, unless a result comes to the slot for which it creates. -/
theorem Seated.of_same {p q : Shared} {i : ℕ} {name : String} (h : p.Seated i name) (hdepth : q.depth = p.depth)
    (hborrows : q.borrows.get? name = p.borrows.get? name) (hleases : q.leases.get? name = p.leases.get? name)
    (hidle : i = i / p.depth * p.depth → (∀ s ∈ p.slots, s.id = i / p.depth → s.made = none) →
      ∀ s ∈ q.slots, s.id = i / p.depth → s.made = none) : q.Seated i name := by
  cases h with
  | leased lends gone =>
    obtain ⟨lease, hget, hlease⟩ := lends
    exact .leased ⟨lease, hleases.trans hget, hdepth ▸ hlease⟩ (hborrows.trans gone)
  | waiting get unleased waits => exact .waiting (hborrows.trans get) (hleases.trans unleased) (hdepth ▸ waits)
  | creating get unleased first idle =>
    exact .creating (hdepth ▸ hborrows.trans get) (hleases.trans unleased) (hdepth ▸ first)
      (hdepth ▸ hidle first idle)

/-- The pool was filled by these borrowers, in this order. -/
structure Filled (p : Shared) (names : List String) : Prop where
  /-- A slot may have units in flight. -/
  depth_pos : 0 < p.depth
  /-- The pool is not disposed. -/
  opened : p.disposed = false
  /-- Nobody else borrows or has a lease. -/
  known : ∀ name, name ∉ names → p.borrows.get? name = none ∧ p.leases.get? name = none
  /-- Each borrower has a name of its own. -/
  nodup : names.Nodup
  /-- The units are placed one slot after another. -/
  loads : p.slots.map Slot.load = layout p.depth (p.placed names)
  /-- The next slot is the next in the order. -/
  nextSlot : p.nextSlot = p.slots.length
  /-- One creation was started for each slot. -/
  created : p.created = p.slots.length
  /-- The others are in the queue. -/
  queue : p.queue.length + p.placed names = names.length
  /-- Who came after the units were placed waits. -/
  waits : ∀ i name, names[i]? = some name → p.placed names ≤ i → ∃ ticket, p.Waits name ticket
  /-- Who came before has a unit. -/
  seated : ∀ i name, names[i]? = some name → i < p.placed names → p.Seated i name
  /-- No turn to create an item is to be had. -/
  turn : ∀ s ∈ p.slots, s.turn.units = 0
  /-- A slot has its item, or the first of its borrowers creates it. -/
  making : ∀ s ∈ p.slots, s.made = some (.ok s.id) ∨ s.made = none ∧ ∃ name,
    names[s.id * p.depth]? = some name ∧ p.borrows.get? name = some (.creating s.id s.id)

/-- Items and leases stay. -/
structure Grows (p q : Shared) : Prop where
  /-- A slot keeps its item. -/
  stocked : ∀ slot, p.Stocked slot → q.Stocked slot
  /-- A borrower keeps its lease. -/
  lends : ∀ name slot, p.Lends name slot → q.Lends name slot

theorem not_stocked_of_idle {p : Shared} {slot : ℕ} (h : ∀ s ∈ p.slots, s.id = slot → s.made = none) :
    ¬ p.Stocked slot := by
  rintro ⟨s, hs, hid, hitem⟩
  rw [h s hs hid] at hitem
  simp at hitem

theorem Grows.refl (p : Shared) : Grows p p := ⟨fun _ h => h, fun _ _ h => h⟩

theorem Grows.trans {p q r : Shared} (h : Grows p q) (h' : Grows q r) : Grows p r :=
  ⟨fun slot hs => h'.stocked slot (h.stocked slot hs), fun name slot hl => h'.lends name slot (h.lends name slot hl)⟩

/-- Who asks for a turn that is not to be had queues. -/
theorem wait_of_units_eq_zero {turn : Semaphore} (h : turn.units = 0) :
    ∃ ticket, turn.wait.1 = .queued ticket ∧ turn.wait.2.units = 0 := by
  have hunits := turn.units_wait
  have havailable : ¬ 0 < turn.available := by
    rw [Semaphore.units] at h
    omega
  refine ⟨turn.nextTicket, ?_, by omega⟩
  rw [Semaphore.wait, if_neg havailable]

/-- The borrower waits for a turn that is not to be had. -/
theorem await_snd (p : Shared) {turn : Semaphore} (hturn : turn.units = 0) (made : Creations) (name : String)
    (slot ticket : ℕ) :
    (p.await made name slot (.queued ticket) turn).2 = { p.updateSlot slot fun s => { s with turn := turn } with
      borrows := p.borrows.put name (.awaiting slot (.queued ticket)) } := by
  have hdelivered : turn.delivered = [] := by
    rw [Semaphore.units] at hturn
    exact List.eq_nil_of_length_eq_zero (by omega)
  simp [Shared.await, Semaphore.poll, hdelivered, Shared.updateSlot]

namespace Filled

variable {p q : Shared} {names : List String} {name : String} {i : ℕ} {made : Creations}

/-- A slot takes borrowers, and it is full unless it is the last. -/
theorem of_mem (h : Filled p names) {s : Slot} (hs : s ∈ p.slots) : s.retired = false ∧
    (s.id < p.placed names / p.depth ∧ s.inFlight = p.depth ∨ p.placed names % p.depth ≠ 0 ∧
      s.id = p.placed names / p.depth ∧ s.inFlight = p.placed names % p.depth) := by
  have hmem : s.load ∈ layout p.depth (p.placed names) := h.loads ▸ List.mem_map_of_mem hs
  exact mem_layout.mp hmem

theorem length_slots (h : Filled p names) : p.slots.length = (layout p.depth (p.placed names)).length := by
  rw [← h.loads, List.length_map]

/-- The numbers of the slots are those before the next. -/
theorem map_id_slots (h : Filled p names) : p.slots.map (·.id) = List.range p.slots.length := by
  have hids : p.slots.map (·.id) = (p.slots.map Slot.load).map (·.1) := by
    rw [List.map_map]
    rfl
  rw [hids, h.loads, map_fst_layout, h.length_slots]

/-- The slot of a borrower that was placed. -/
theorem exists_slot? (h : Filled p names) (hlt : i < p.placed names) : ∃ s, p.slot? (i / p.depth) = some s := by
  obtain ⟨load, hmem⟩ : ∃ load, (i / p.depth, load, false) ∈ layout p.depth (p.placed names) := div_mem_layout hlt
  rw [← h.loads, List.mem_map] at hmem
  obtain ⟨s, hs, e⟩ := hmem
  refine exists_slot?_of_mem (List.mem_map.mpr ⟨s, hs, ?_⟩)
  exact congrArg Prod.fst e

/-- There is one slot of each number. -/
theorem eq_of_id (h : Filled p names) {s x : Slot} (hs : s ∈ p.slots) (hx : x ∈ p.slots) (hid : x.id = s.id) : x = s :=
  eq_of_id_eq (h.map_id_slots ▸ List.nodup_range) hx hs hid

/-- Each borrower came at one place. -/
theorem index_eq (h : Filled p names) {j : ℕ} (hi : names[i]? = some name) (hj : names[j]? = some name) : i = j :=
  (List.getElem?_inj (List.getElem?_eq_some_iff.mp hi).1 h.nodup).mp (hi.trans hj.symm)

/-- **A borrower goes on.** What is said of a filled pool holds on, if the borrower has its unit still, and its slot
takes no result but the item that the borrower created. -/
theorem change (h : Filled p names) (hi : names[i]? = some name) (hlt : i < p.placed names)
    {borrows : Table SharedBorrow} {leases : Table SharedLease} {f : Slot → Slot} (hf : Slot.Keeps f)
    (hborrows : ∀ other, other ≠ name → borrows.get? other = p.borrows.get? other)
    (hleases : ∀ other, other ≠ name → leases.get? other = p.leases.get? other)
    (hturn : ∀ s ∈ p.slots, s.id = i / p.depth → (f s).turn.units = 0)
    (hmade : ∀ s ∈ p.slots, s.id = i / p.depth →
      (f s).made = s.made ∧ (∀ slot item, p.borrows.get? name = some (.creating slot item) →
        borrows.get? name = some (.creating slot item)) ∨
      (f s).made = some (.ok s.id) ∧ i = i / p.depth * p.depth)
    (hseat : Seated { p.updateSlot (i / p.depth) f with borrows := borrows, leases := leases } i name) :
    Filled { p.updateSlot (i / p.depth) f with borrows := borrows, leases := leases } names where
  depth_pos := h.depth_pos
  opened := h.opened
  known other hother := by
    have hne : other ≠ name := by
      rintro rfl
      exact hother (List.mem_of_getElem? hi)
    obtain ⟨hb, hl⟩ := h.known other hother
    exact ⟨(hborrows other hne).trans hb, (hleases other hne).trans hl⟩
  nodup := h.nodup
  loads := by
    refine Eq.trans ?_ h.loads
    show (p.slots.map fun s => if s.id = i / p.depth then f s else s).map Slot.load = p.slots.map Slot.load
    rw [List.map_map]
    refine List.map_congr_left fun s _ => ?_
    simp only [Function.comp]
    split
    · exact hf.load s
    · rfl
  nextSlot := h.nextSlot.trans (List.length_map _).symm
  created := h.created.trans (List.length_map _).symm
  queue := h.queue
  waits j other hj hle := by
    have hne : other ≠ name := by
      rintro rfl
      have := h.index_eq hi hj
      have hle : p.placed names ≤ j := hle
      omega
    obtain ⟨ticket, hw⟩ := h.waits j other hj hle
    exact ⟨ticket, (hborrows other hne).trans hw⟩
  seated j other hj hlt' := by
    by_cases hne : other = name
    · subst hne
      rw [← h.index_eq hi hj]
      exact hseat
    refine (h.seated j other hj hlt').of_same rfl (hborrows other hne) (hleases other hne)
      fun hfirst hidle x hx hid => ?_
    obtain ⟨s, hs, rfl⟩ := mem_updateSlot.mp hx
    by_cases hown : s.id = i / p.depth
    · rw [if_pos hown] at hid ⊢
      have hid : s.id = j / p.depth := (hf.id s).symm.trans hid
      rcases hmade s hs hown with ⟨hsame, -⟩ | ⟨-, hfirst'⟩
      · rw [hsame]
        exact hidle s hs hid
      · -- a slot has one first borrower
        have hij : i = j := by rw [hfirst', hfirst, ← hown, hid]
        subst hij
        exact absurd (Option.some.inj (hj.symm.trans hi)) hne
    · rw [if_neg hown] at hid ⊢
      exact hidle s hs hid
  turn x hx := by
    obtain ⟨s, hs, rfl⟩ := mem_updateSlot.mp hx
    split
    · next hown => exact hturn s hs hown
    · exact h.turn s hs
  making x hx := by
    obtain ⟨s, hs, rfl⟩ := mem_updateSlot.mp hx
    by_cases hown : s.id = i / p.depth
    · rw [if_pos hown, hf.id]
      rcases hmade s hs hown with ⟨hsame, hkeeps⟩ | ⟨hitem, -⟩
      · rw [hsame]
        refine (h.making s hs).imp_right ?_
        rintro ⟨hnone, other, hfirst, hget⟩
        refine ⟨hnone, other, hfirst, ?_⟩
        by_cases hne : other = name
        · subst hne
          exact hkeeps _ _ hget
        · exact (hborrows other hne).trans hget
      · exact Or.inl hitem
    · rw [if_neg hown]
      refine (h.making s hs).imp_right ?_
      rintro ⟨hnone, other, hfirst, hget⟩
      refine ⟨hnone, other, hfirst, ?_⟩
      have hne : other ≠ name := by
        rintro rfl
        refine hown ?_
        rw [h.index_eq hi hfirst, Nat.mul_div_cancel _ h.depth_pos]
      exact (hborrows other hne).trans hget

/-- Nothing is lost when a borrower without a lease goes on. -/
theorem grows_change {borrows : Table SharedBorrow} {leases : Table SharedLease} {slot : ℕ} {f : Slot → Slot}
    (hf : Slot.Keeps f) (hnone : p.leases.get? name = none)
    (hleases : ∀ other, other ≠ name → leases.get? other = p.leases.get? other)
    (hmade : ∀ s ∈ p.slots, s.id = slot → (f s).made = s.made ∨ (f s).made = some (.ok s.id)) :
    Grows p { p.updateSlot slot f with borrows := borrows, leases := leases } where
  stocked own := by
    rintro ⟨s, hs, rfl, hitem⟩
    refine ⟨_, mem_updateSlot.mpr ⟨s, hs, rfl⟩, ?_⟩
    by_cases hown : s.id = slot
    · rw [if_pos hown]
      exact ⟨hf.id s, (hmade s hs hown).elim (fun hsame => hsame.trans hitem) id⟩
    · rw [if_neg hown]
      exact ⟨rfl, hitem⟩
  lends other own := by
    rintro ⟨lease, hget, hlease⟩
    have hne : other ≠ name := by
      rintro rfl
      rw [hnone] at hget
      simp at hget
    exact ⟨lease, (hleases other hne).trans hget, hlease⟩

/-- What goes on with the borrower that came as number `i` leads to. -/
structure Advances (p : Shared) (names : List String) (i : ℕ) (name : String) (q : Shared) : Prop where
  /-- The pool is filled as before. -/
  filled : Filled q names
  /-- Nothing is lost. -/
  grows : Grows p q
  /-- If the item of its slot is there, the borrower has a lease of it. -/
  lends : i < q.placed names → q.Stocked (i / q.depth) → q.Lends name (i / q.depth)

/-- The borrower takes its lease. -/
theorem lease (h : Filled p names) (hi : names[i]? = some name) (hlt : i < p.placed names)
    (hnone : p.leases.get? name = none) {f : Slot → Slot} (hf : Slot.Keeps f)
    (hturn : ∀ s ∈ p.slots, s.id = i / p.depth → (f s).turn.units = 0)
    (hmade : ∀ s ∈ p.slots, s.id = i / p.depth →
      (f s).made = s.made ∧ (∀ slot item, p.borrows.get? name ≠ some (.creating slot item)) ∨
      (f s).made = some (.ok s.id) ∧ i = i / p.depth * p.depth) :
    Advances p names i name { p.updateSlot (i / p.depth) f with
      borrows := p.borrows.remove name
      leases := p.leases.put name ⟨i / p.depth, i / p.depth, false⟩ } := by
  have hleases : ∀ other, other ≠ name →
      (p.leases.put name ⟨i / p.depth, i / p.depth, false⟩).get? other = p.leases.get? other :=
    fun other hne => Table.get?_put_of_ne _ _ hne
  have hlends : Lends { p.updateSlot (i / p.depth) f with
      borrows := p.borrows.remove name
      leases := p.leases.put name ⟨i / p.depth, i / p.depth, false⟩ } name (i / p.depth) :=
    ⟨_, Table.get?_put_self _ _ _, rfl, rfl⟩
  refine ⟨?_, grows_change hf hnone hleases fun s hs hid => (hmade s hs hid).imp And.left And.left, fun _ _ => hlends⟩
  refine h.change hi hlt hf (fun other hne => Table.get?_remove_of_ne _ hne) hleases hturn (fun s hs hid => ?_)
    (.leased hlends (Table.get?_remove_self _ _))
  refine (hmade s hs hid).imp_left fun ⟨hsame, hnot⟩ => ⟨hsame, fun slot item hget => ?_⟩
  exact absurd hget (hnot slot item)

/-- The borrower waits on. -/
theorem wait (h : Filled p names) (hi : names[i]? = some name) (hlt : i < p.placed names)
    (hnone : p.leases.get? name = none) (idle : ∀ s ∈ p.slots, s.id = i / p.depth → s.made = none)
    (hnot : ∀ slot item, p.borrows.get? name ≠ some (.creating slot item)) {turn : Semaphore}
    (hturn : turn.units = 0) (ticket : ℕ) :
    Advances p names i name { p.updateSlot (i / p.depth) fun s => { s with turn := turn } with
      borrows := p.borrows.put name (.awaiting (i / p.depth) (.queued ticket)) } := by
  have hf : Slot.Keeps fun s => { s with turn := turn } := Slot.keeps_turn _
  refine ⟨?_, grows_change hf hnone (fun _ _ => rfl) fun _ _ _ => Or.inl rfl, fun _ hitem => ?_⟩
  · refine h.change hi hlt hf (fun other hne => Table.get?_put_of_ne _ _ hne) (fun _ _ => rfl)
      (fun _ _ _ => hturn) (fun _ _ _ => Or.inl ⟨rfl, fun slot item hget => absurd hget (hnot slot item)⟩) ?_
    exact .waiting (Table.get?_put_self _ _ _) hnone (Or.inr ⟨ticket, rfl⟩)
  · refine absurd hitem (not_stocked_of_idle fun x hx hid => ?_)
    obtain ⟨s, hs, rfl⟩ := mem_updateSlot.mp hx
    split at hid
    · next hown =>
      rw [if_pos hown]
      exact idle s hs hown
    · next hown => exact absurd hid hown

/-- **Going on.** A borrower that goes on takes its lease if the item of its slot is there or it has created it, and
waits on otherwise. -/
theorem poll (h : Filled p names) (hi : names[i]? = some name) (hfine : ∀ item e, made item ≠ some (.error e)) :
    Advances p names i name (p.poll made name).2 := by
  by_cases hlt : p.placed names ≤ i
  · obtain ⟨ticket, hw⟩ := h.waits i name hi hlt
    have hget : p.borrows.get? name = some (.queued ticket) := hw
    simp only [Shared.poll, hget]
    exact ⟨h, .refl p, fun hlt' => absurd hlt' (Nat.not_lt.mpr hlt)⟩
  rw [Nat.not_le] at hlt
  obtain ⟨s, hs⟩ := h.exists_slot? hlt
  obtain ⟨hmem, hid⟩ := slot?_eq_some hs
  have hself : (p.updateSlot (i / p.depth) fun s => s) = p := by simp [Shared.updateSlot]
  cases h.seated i name hi hlt with
  | leased lends gone =>
    simp only [Shared.poll, gone]
    exact ⟨h, .refl p, fun _ _ => lends⟩
  | @waiting borrow get unleased waits =>
    have hnot : ∀ slot item, p.borrows.get? name ≠ some (.creating slot item) := by
      intro slot item hget
      rw [get, Option.some.injEq] at hget
      rcases waits with rfl | ⟨ticket, rfl⟩ <;> simp at hget
    rcases h.making s hmem with hitem | ⟨hnone, -⟩
    · -- the item is there
      have hpoll : (p.poll made name).2 = { p with
          borrows := p.borrows.remove name
          leases := p.leases.put name ⟨i / p.depth, i / p.depth, false⟩ } := by
        rw [hid] at hitem
        rcases waits with rfl | ⟨ticket, rfl⟩
        · simp only [Shared.poll, get, Shared.enter, hs, hitem, Shared.settle]
        · simp only [Shared.poll, get, hs, hitem, Shared.settle]
      rw [hpoll]
      have hlease := h.lease hi hlt unleased (f := fun s => s) ⟨fun _ => rfl, fun _ => rfl, fun _ => rfl⟩
        (fun s hs _ => h.turn s hs) (fun _ _ _ => Or.inl ⟨rfl, hnot⟩)
      rwa [hself] at hlease
    · have idle : ∀ x ∈ p.slots, x.id = i / p.depth → x.made = none := by
        intro x hx hid'
        rw [h.eq_of_id hmem hx (hid'.trans hid.symm)]
        exact hnone
      have hturn := h.turn s hmem
      rcases waits with rfl | ⟨ticket, rfl⟩
      · -- it asks for the turn
        obtain ⟨ticket, hplace, hunits⟩ := wait_of_units_eq_zero hturn
        simp only [Shared.poll, get, Shared.enter, hs, hnone]
        rw [hplace, await_snd _ hunits]
        exact h.wait hi hlt unleased idle hnot hunits ticket
      · simp only [Shared.poll, get, hs, hnone]
        rw [await_snd _ hturn]
        exact h.wait hi hlt unleased idle hnot hturn ticket
  | creating get unleased first idle =>
    simp only [Shared.poll, get, Shared.proceed]
    cases htold : made (i / p.depth) with
    | none =>
      dsimp only
      rw [Table.put_of_get?_eq_some get]
      exact ⟨h, .refl p, fun _ hitem => absurd hitem (not_stocked_of_idle idle)⟩
    | some result =>
      cases result with
      | error e => exact absurd htold (hfine _ e)
      | ok =>
        have hf : Slot.Keeps fun s => { s with made := some (.ok (i / p.depth)) } := Slot.keeps_made _
        refine h.lease hi hlt unleased hf (fun s hs _ => h.turn s hs) fun s _ hid => Or.inr ⟨?_, first⟩
        rw [hid]
        rfl

end Filled

end Shared

end MemcachedClient.Pool
