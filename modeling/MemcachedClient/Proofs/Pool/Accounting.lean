import MemcachedClient.Proofs.Pool.Run

/-!
# The units of a shared pool

A unit of a slot is carried by one borrower or one lease at a time: it is assigned to a borrower that
has not seen it, it belongs to a borrower that waits for the creation of the slot's item or runs it,
or it belongs to a lease (`unitsOn`). `Accounted` says that the number that each slot keeps of its
units in flight is the number of those, that no slot has more than the pool allows, that no more
slots take borrowers than the pool wants, and that a retired slot is there only while it has units.

A unit is for a moment in nobody's hands while an operation moves it. `Accounted p (some slot)` says
that the books of `p` balance with one unit of that slot in hand, and there is one lemma for each
function of the pool that says how the hand changes: `assign?` fills it, `giveUnit` and the table of
borrowers empty it. From these, every operation keeps the books (`Accounted.step`), and so does every
run.
-/

namespace MemcachedClient.Pool.Shared

/-- The units of a slot that borrowers and leases have. -/
def unitsOn (p : Shared) (slot : ℕ) : ℕ :=
  p.borrows.count (fun borrow => borrow.slot? == some slot) +
    p.leases.count (fun lease => lease.slot == slot)

/-- The books of a pool balance, with a unit of the slot `hand` in hand. -/
structure Accounted (p : Shared) (hand : Option ℕ) : Prop where
  /-- Each borrower has a name of its own. -/
  borrows : p.borrows.Distinct
  /-- Each lease has a name of its own. -/
  leases : p.leases.Distinct
  /-- No name is that of a borrower and of a lease. -/
  apart : ∀ name, p.borrows.has name = true → p.leases.has name = false
  /-- Each slot has a number of its own. -/
  ids : (p.slots.map (·.id)).Nodup
  /-- The numbers of slots to come are not in use. -/
  ids_lt : ∀ s ∈ p.slots, s.id < p.nextSlot
  /-- The units in flight are those that somebody has. -/
  load : ∀ s ∈ p.slots, s.inFlight = p.unitsOn s.id + if hand = some s.id then 1 else 0
  /-- A unit that somebody has is of a slot that is there. -/
  listed : ∀ slot, 0 < p.unitsOn slot ∨ hand = some slot → slot ∈ p.slots.map (·.id)
  /-- A slot may have units in flight. -/
  depth_pos : 0 < p.depth
  /-- No slot has more units in flight than the pool allows. -/
  depth : ∀ s ∈ p.slots, s.inFlight ≤ p.depth
  /-- No more slots take borrowers than the pool wants. -/
  target : p.live.length ≤ p.target
  /-- A retired slot has units in flight. -/
  drained : ∀ s ∈ p.slots, s.retired = true → 0 < s.inFlight

namespace Accounted

variable {p : Shared} {hand : Option ℕ} {name : String} {slot : ℕ}

theorem ofOptions (kind : String) (options : SharedOptions) :
    Accounted (.ofOptions kind options) none := by
  constructor <;>
    simp [Shared.ofOptions, Table.Distinct, unitsOn, Table.count, live, Table.has]
  exact Nat.lt_of_lt_of_le Nat.zero_lt_one (Nat.le_max_right _ _)

/-- A slot of which a unit is in hand is there. -/
theorem exists_slot? (h : Accounted p (some slot)) : ∃ s, p.slot? slot = some s :=
  exists_slot?_of_mem (h.listed slot (Or.inr rfl))

/-- Who borrows has no lease. -/
theorem no_lease (h : Accounted p hand) {borrow : SharedBorrow} (hget : p.borrows.get? name = some borrow) :
    p.leases.get? name = none :=
  Table.has_eq_false_iff.mp (h.apart name (Table.has_eq_true_iff.mpr ⟨borrow, hget⟩))

/-- Who has a lease does not borrow. -/
theorem no_borrow (h : Accounted p hand) {lease : SharedLease} (hget : p.leases.get? name = some lease) :
    p.borrows.get? name = none := by
  cases hborrow : p.borrows.get? name with
  | none => rfl
  | some borrow =>
    rw [h.no_lease hborrow] at hget
    simp at hget

/-! ### Changing the table of borrowers and the leases -/

theorem unitsOn_put (hd : p.borrows.Distinct) (name : String) (borrow : SharedBorrow) (slot : ℕ) :
    unitsOn { p with borrows := p.borrows.put name borrow } slot =
      unitsOn (p.without name) slot + if borrow.slot? = some slot then 1 else 0 := by
  simp only [unitsOn, without, hd.count_put]
  by_cases hs : borrow.slot? = some slot <;> simp [hs]
  omega

theorem unitsOn_eq_without (hd : p.borrows.Distinct) {borrow : SharedBorrow}
    (h : p.borrows.get? name = some borrow) (slot : ℕ) :
    p.unitsOn slot =
      unitsOn (p.without name) slot + if borrow.slot? = some slot then 1 else 0 := by
  rw [← unitsOn_put hd, Table.put_of_get?_eq_some h]

/-- The books balance with the unit that a borrower had in hand once the borrower is gone. -/
theorem without (h : Accounted p hand) {borrow : SharedBorrow}
    (hget : p.borrows.get? name = some borrow) (hone : hand = none ∨ borrow.slot? = none) :
    Accounted (p.without name) (hand.or borrow.slot?) where
  borrows := h.borrows.remove name
  leases := h.leases
  apart other ho := by
    refine h.apart other ?_
    rw [Table.has_eq_true_iff] at ho ⊢
    obtain ⟨b, hb⟩ := ho
    refine ⟨b, ?_⟩
    simp only [Shared.without, Table.get?_remove] at hb
    split at hb
    · simp at hb
    · exact hb
  ids := h.ids
  ids_lt := h.ids_lt
  load s hs := by
    have := h.load s hs
    rw [unitsOn_eq_without h.borrows hget] at this
    rcases hone with rfl | hnone
    · simp only [reduceCtorEq, if_false, Nat.add_zero] at this
      exact this
    · simp only [hnone, reduceCtorEq, if_false, Nat.add_zero] at this
      rw [hnone, Option.or_none]
      exact this
  listed slot hslot := by
    refine h.listed slot ?_
    rw [unitsOn_eq_without h.borrows hget]
    rcases hslot with hpos | he
    · exact Or.inl (by omega)
    · rcases hone with rfl | hnone
      · rw [Option.none_or] at he
        exact Or.inl (by rw [if_pos he]; omega)
      · rw [hnone, Option.or_none] at he
        exact Or.inr he
  depth_pos := h.depth_pos
  depth := h.depth
  target := h.target
  drained := h.drained

/-- A borrower takes the unit in hand. -/
theorem put {borrow : SharedBorrow} (hd : p.borrows.Distinct)
    (h : Accounted (p.without name) borrow.slot?) (hl : p.leases.has name = false) :
    Accounted { p with borrows := p.borrows.put name borrow } none where
  borrows := hd.put name borrow
  leases := h.leases
  apart other ho := by
    by_cases hn : other = name
    · exact hn ▸ hl
    · refine h.apart other ?_
      rw [Table.has_eq_true_iff] at ho ⊢
      obtain ⟨b, hb⟩ := ho
      refine ⟨b, ?_⟩
      simp only [Table.get?_put, if_neg hn] at hb
      simp only [Shared.without, Table.get?_remove, if_neg hn]
      exact hb
  ids := h.ids
  ids_lt := h.ids_lt
  load s hs := by
    rw [unitsOn_put hd]
    simpa using h.load s hs
  listed slot hslot := by
    refine h.listed slot ?_
    rw [unitsOn_put hd] at hslot
    by_cases hs : borrow.slot? = some slot
    · exact Or.inr hs
    · refine Or.inl ?_
      simpa [hs] using hslot
  depth_pos := h.depth_pos
  depth := h.depth
  target := h.target
  drained := h.drained

theorem unitsOn_removeLease (hd : p.leases.Distinct) {lease : SharedLease}
    (h : p.leases.get? name = some lease) (slot : ℕ) :
    p.unitsOn slot = unitsOn { p with leases := p.leases.remove name } slot +
      if lease.slot = slot then 1 else 0 := by
  simp only [unitsOn, hd.count_eq_remove _ h]
  by_cases hs : lease.slot = slot <;> simp [hs]
  omega

theorem unitsOn_putLease (hd : p.leases.Distinct) (name : String) (lease : SharedLease) (slot : ℕ) :
    unitsOn { p with leases := p.leases.put name lease } slot =
      unitsOn { p with leases := p.leases.remove name } slot + if lease.slot = slot then 1 else 0 := by
  simp only [unitsOn, hd.count_put]
  by_cases hs : lease.slot = slot <;> simp [hs]
  omega

/-- The books balance with the unit of a lease in hand once the lease is gone. -/
theorem removeLease (h : Accounted p none) {lease : SharedLease}
    (hget : p.leases.get? name = some lease) :
    Accounted { p with leases := p.leases.remove name } (some lease.slot) where
  borrows := h.borrows
  leases := h.leases.remove name
  apart other ho := by
    have := h.apart other ho
    rw [Table.has_eq_false_iff] at this ⊢
    rw [Table.get?_remove, this, ite_self]
  ids := h.ids
  ids_lt := h.ids_lt
  load s hs := by
    have := h.load s hs
    rw [unitsOn_removeLease h.leases hget] at this
    simpa using this
  listed slot hslot := by
    refine h.listed slot (Or.inl ?_)
    rw [unitsOn_removeLease h.leases hget]
    rcases hslot with hpos | he
    · omega
    · simp [Option.some.inj he]
  depth_pos := h.depth_pos
  depth := h.depth
  target := h.target
  drained := h.drained

/-- A lease takes the unit in hand. -/
theorem putLease (lease : SharedLease) (hd : p.leases.Distinct)
    (h : Accounted { p with leases := p.leases.remove name } (some lease.slot))
    (hb : p.borrows.has name = false) :
    Accounted { p with leases := p.leases.put name lease } none where
  borrows := h.borrows
  leases := hd.put name lease
  apart other ho := by
    have hne : other ≠ name := by
      rintro rfl
      rw [hb] at ho
      exact Bool.false_ne_true ho
    have := h.apart other ho
    rw [Table.has_eq_false_iff, Table.get?_remove, if_neg hne] at this
    rw [Table.has_eq_false_iff, Table.get?_put, if_neg hne, this]
  ids := h.ids
  ids_lt := h.ids_lt
  load s hs := by
    rw [unitsOn_putLease hd]
    simpa using h.load s hs
  listed slot hslot := by
    refine h.listed slot ?_
    rw [unitsOn_putLease hd] at hslot
    by_cases hs : lease.slot = slot
    · exact Or.inr (congrArg some hs)
    · refine Or.inl ?_
      simpa [hs] using hslot
  depth_pos := h.depth_pos
  depth := h.depth
  target := h.target
  drained := h.drained

/-! ### Changing slots -/

theorem length_live_updateSlot (p : Shared) (id : ℕ) {f : Slot → Slot}
    (hf : ∀ s, (f s).retired = s.retired) : (p.updateSlot id f).live.length = p.live.length := by
  simp only [live, updateSlot, ← List.countP_eq_length_filter, List.countP_map]
  refine List.countP_congr fun s _ => ?_
  simp only [Function.comp]
  split
  · rw [hf]
  · rfl

/-- What is not said in the books may be changed. -/
theorem updateSlot (h : Accounted p hand) (id : ℕ) {f : Slot → Slot} (hf : Slot.Keeps f) :
    Accounted (p.updateSlot id f) hand := by
  have hall : ∀ s ∈ (p.updateSlot id f).slots, ∃ old ∈ p.slots,
      s.id = old.id ∧ s.inFlight = old.inFlight ∧ s.retired = old.retired := by
    intro s hs
    obtain ⟨old, hold, rfl⟩ := mem_updateSlot.mp hs
    refine ⟨old, hold, ?_⟩
    split
    · exact ⟨hf.id old, hf.inFlight old, hf.retired old⟩
    · exact ⟨rfl, rfl, rfl⟩
  refine ⟨h.borrows, h.leases, h.apart, ?_, ?_, ?_, ?_, h.depth_pos, ?_, ?_, ?_⟩
  · rw [map_id_updateSlot p id hf.id]
    exact h.ids
  · intro s hs
    obtain ⟨old, hold, e, -, -⟩ := hall s hs
    rw [e]
    exact h.ids_lt old hold
  · intro s hs
    obtain ⟨old, hold, e, e', -⟩ := hall s hs
    rw [e, e']
    exact h.load old hold
  · rw [map_id_updateSlot p id hf.id]
    exact h.listed
  · intro s hs
    obtain ⟨old, hold, -, e, -⟩ := hall s hs
    rw [e]
    exact h.depth old hold
  · rw [length_live_updateSlot p id hf.retired]
    exact h.target
  · intro s hs hr
    obtain ⟨old, hold, -, e, e'⟩ := hall s hs
    rw [e]
    exact h.drained old hold (e' ▸ hr)

/-- A unit that is taken of a slot is in hand. -/
theorem take (h : Accounted p none) {best : Slot} (hmem : best ∈ p.slots)
    (hroom : best.inFlight < p.depth) :
    Accounted (p.updateSlot best.id .take) (some best.id) := by
  have hids := map_id_updateSlot p best.id (f := Slot.take) fun _ => rfl
  refine ⟨h.borrows, h.leases, h.apart, hids ▸ h.ids, ?_, ?_, ?_, h.depth_pos, ?_, ?_, ?_⟩
  · intro s hs
    obtain ⟨old, hold, rfl⟩ := mem_updateSlot.mp hs
    have := h.ids_lt old hold
    split <;> exact this
  · intro s hs
    obtain ⟨old, hold, rfl⟩ := mem_updateSlot.mp hs
    have := h.load old hold
    simp only [reduceCtorEq, if_false, Nat.add_zero] at this
    split
    · next e =>
      simp only [Slot.take, e, if_true]
      rw [this, e]
      rfl
    · next e =>
      rw [if_neg fun e' => e (Option.some.inj e').symm]
      exact this
  · intro slot hslot
    rw [hids]
    rcases hslot with hpos | he
    · exact h.listed slot (Or.inl hpos)
    · rw [← Option.some.inj he]
      exact List.mem_map_of_mem hmem
  · intro s hs
    obtain ⟨old, hold, rfl⟩ := mem_updateSlot.mp hs
    split
    · next e =>
      rw [eq_of_id_eq h.ids hold hmem e]
      exact hroom
    · exact h.depth old hold
  · rw [length_live_updateSlot p best.id (f := Slot.take) fun _ => rfl]
    exact h.target
  · intro s hs
    obtain ⟨old, hold, rfl⟩ := mem_updateSlot.mp hs
    split
    · exact fun _ => Nat.succ_pos _
    · exact h.drained old hold

/-- A slot that is opened starts with its first unit in hand. -/
theorem opened (h : Accounted p none) (hlt : p.live.length < p.target) :
    Accounted { p with slots := p.slots ++ [.ofId p.nextSlot], nextSlot := p.nextSlot + 1 }
      (some p.nextSlot) := by
  have hnew : p.nextSlot ∉ p.slots.map (·.id) := by
    intro hmem
    obtain ⟨s, hs, e⟩ := List.mem_map.mp hmem
    have := h.ids_lt s hs
    omega
  have hall : ∀ {P : Slot → Prop}, (∀ s ∈ p.slots, P s) → P (.ofId p.nextSlot) →
      ∀ s ∈ p.slots ++ [.ofId p.nextSlot], P s := by
    intro P hold hofId s hs
    rcases List.mem_append.mp hs with hs | hs
    · exact hold s hs
    · rw [List.mem_singleton.mp hs]
      exact hofId
  refine ⟨h.borrows, h.leases, h.apart, ?_, hall ?_ ?_, hall ?_ ?_, ?_, h.depth_pos,
    hall h.depth ?_, ?_, hall h.drained ?_⟩
  · rw [List.map_append, List.nodup_append]
    refine ⟨h.ids, List.nodup_singleton _, fun a ha b hb => ?_⟩
    rw [List.map_singleton, List.mem_singleton] at hb
    rintro rfl
    rw [hb] at ha
    exact hnew ha
  · intro s hs
    exact Nat.lt_succ_of_lt (h.ids_lt s hs)
  · exact Nat.lt_succ_self _
  · intro s hs
    have := h.load s hs
    simp only [reduceCtorEq, if_false, Nat.add_zero] at this
    rw [if_neg]
    · exact this
    · intro e
      rw [Option.some.inj e] at hnew
      exact hnew (List.mem_map_of_mem hs)
  · have hzero : p.unitsOn p.nextSlot = 0 := by
      by_contra hpos
      exact hnew (h.listed _ (Or.inl (Nat.pos_of_ne_zero hpos)))
    simp only [Slot.ofId, if_true]
    rw [show ∀ q : Shared, q.borrows = p.borrows → q.leases = p.leases →
      q.unitsOn p.nextSlot = 0 from fun q hb hl => by rw [unitsOn, hb, hl]; exact hzero]
    · rfl
    · rfl
  · intro slot hslot
    rw [List.map_append, List.mem_append]
    rcases hslot with hpos | he
    · exact Or.inl (h.listed slot (Or.inl hpos))
    · exact Or.inr (by simp [Slot.ofId, Option.some.inj he])
  · exact h.depth_pos
  · simp only [live, List.filter_append, List.length_append] at hlt ⊢
    exact hlt
  · intro hr
    simp [Slot.ofId] at hr

/-- The unit that `assign?` answers is in hand. -/
theorem assign? (h : Accounted p none) {q : Shared} (ha : p.assign? = some (slot, q)) :
    Accounted q (some slot) := by
  rcases assign?_cases ha with ⟨best, hmem, -, hroom, rfl, rfl⟩ | ⟨hlt, rfl, rfl⟩
  · exact h.take hmem hroom
  · exact h.opened hlt

/-- The books speak of the slots, the borrowers and the leases only. -/
theorem congr (h : Accounted p hand) {q : Shared} (hb : q.borrows = p.borrows)
    (hl : q.leases = p.leases) (hs : q.slots = p.slots) (hn : q.nextSlot = p.nextSlot)
    (hd : q.depth = p.depth) (ht : q.target = p.target) : Accounted q hand := by
  have hunits : q.unitsOn = p.unitsOn := by
    funext slot
    rw [unitsOn, hb, hl]
    rfl
  refine ⟨hb ▸ h.borrows, hl ▸ h.leases, hb ▸ hl ▸ h.apart, hs ▸ h.ids, hs ▸ hn ▸ h.ids_lt,
    hs ▸ hunits ▸ h.load, hs ▸ hunits ▸ h.listed, hd ▸ h.depth_pos, hs ▸ hd ▸ h.depth, ?_,
    hs ▸ h.drained⟩
  rw [live, hs, ht]
  exact h.target

/-- The unit in hand goes back to a slot that takes borrowers. -/
theorem give (h : Accounted p (some slot))
    (hlive : ∀ s ∈ p.slots, s.id = slot → s.retired = false) :
    Accounted (p.updateSlot slot .give) none := by
  have hids := map_id_updateSlot p slot (f := Slot.give) fun _ => rfl
  refine ⟨h.borrows, h.leases, h.apart, hids ▸ h.ids, ?_, ?_, ?_, h.depth_pos, ?_, ?_, ?_⟩
  · intro s hs
    obtain ⟨old, hold, rfl⟩ := mem_updateSlot.mp hs
    have := h.ids_lt old hold
    split <;> exact this
  · intro s hs
    obtain ⟨old, hold, rfl⟩ := mem_updateSlot.mp hs
    have := h.load old hold
    split
    · next e =>
      rw [if_pos (by rw [e])] at this
      simp only [Slot.give, this, Nat.add_sub_cancel]
      rfl
    · next e =>
      rw [if_neg fun e' => e (Option.some.inj e').symm] at this
      exact this
  · intro id hid
    rw [hids]
    exact h.listed id (hid.imp_right fun e => by simp at e)
  · intro s hs
    obtain ⟨old, hold, rfl⟩ := mem_updateSlot.mp hs
    have := h.depth old hold
    split
    · exact Nat.le_trans (Nat.sub_le _ _) this
    · exact this
  · rw [length_live_updateSlot p slot (f := Slot.give) fun _ => rfl]
    exact h.target
  · intro s hs hr
    obtain ⟨old, hold, rfl⟩ := mem_updateSlot.mp hs
    split at hr
    · next e =>
      rw [show old.give.retired = old.retired from rfl, hlive old hold e] at hr
      simp at hr
    · next e =>
      rw [if_neg e]
      exact h.drained old hold hr

end Accounted

/-! ### Retiring a slot -/

theorem mem_retireSlot {p : Shared} {s x : Slot} (hs : s ∈ p.slots) :
    x ∈ (p.retireSlot s).slots ↔
      x ∈ p.slots ∧ x.id ≠ s.id ∨ x = { s.give with retired := true } ∧ 1 < s.inFlight := by
  have hmem : x ∈ (p.updateSlot s.id fun _ => { s.give with retired := true }).slots ↔
      x ∈ p.slots ∧ x.id ≠ s.id ∨ x = { s.give with retired := true } := by
    rw [mem_updateSlot]
    constructor
    · rintro ⟨old, hold, rfl⟩
      split
      · exact Or.inr rfl
      · next e => exact Or.inl ⟨hold, e⟩
    · rintro (⟨hx, hne⟩ | rfl)
      · exact ⟨x, hx, if_neg hne⟩
      · exact ⟨s, hs, if_pos rfl⟩
  rw [retireSlot, dropDrained]
  by_cases hempty : s.inFlight - 1 = 0
  · have hle : ¬ 1 < s.inFlight := by omega
    simp only [Slot.give, hempty, beq_self_eq_true, Bool.and_self, if_true, List.mem_filter, hle,
      and_false, or_false] at hmem ⊢
    rw [hmem]
    constructor
    · rintro ⟨hx | rfl, hne⟩
      · exact hx
      · simp at hne
    · rintro hx
      exact ⟨Or.inl hx, by simpa using hx.2⟩
  · have hlt : 1 < s.inFlight := by omega
    simp only [Slot.give, Bool.true_and, beq_iff_eq, hempty, if_false, hlt, and_true] at hmem ⊢
    exact hmem

theorem map_id_retireSlot (p : Shared) (s : Slot) :
    ((p.retireSlot s).slots.map (·.id)).Sublist (p.slots.map (·.id)) := by
  have hids : (p.updateSlot s.id fun _ => { s.give with retired := true }).slots.map (·.id) =
      p.slots.map (·.id) := by
    rw [updateSlot, List.map_map]
    refine List.map_congr_left fun x _ => ?_
    simp only [Function.comp]
    split
    · next e => exact e.symm
    · rfl
  rw [retireSlot, dropDrained]
  split
  · rw [← hids]
    exact List.filter_sublist.map _
  · rw [hids]

/-- A slot that is retired is not among those that take borrowers; the others stay. -/
theorem live_retireSlot (p : Shared) (s : Slot) :
    (p.retireSlot s).live = p.live.filter fun x => x.id ≠ s.id := by
  have hlive : (p.updateSlot s.id fun _ => { s.give with retired := true }).live =
      p.live.filter fun x => x.id ≠ s.id := by
    simp only [live, updateSlot, List.filter_filter]
    induction p.slots with
    | nil => rfl
    | cons x rest ih =>
      rw [List.map_cons, List.filter_cons, List.filter_cons, ih]
      by_cases e : x.id = s.id <;> simp [e]
  rw [retireSlot, dropDrained]
  split
  · rw [← hlive]
    simp only [live, List.filter_filter]
    refine List.filter_congr fun x hx => ?_
    rw [Bool.and_eq_left_iff_imp]
    intro hr
    obtain ⟨old, -, rfl⟩ := mem_updateSlot.mp hx
    split at hr
    · simp at hr
    · next e =>
      rw [if_neg e, decide_eq_true_eq]
      exact e
  · exact hlive

namespace Accounted

variable {p : Shared} {hand : Option ℕ} {name : String} {slot : ℕ}

/-- The unit in hand ends with the retirement of its slot. -/
theorem retireSlot (h : Accounted p (some slot)) {s : Slot} (hs : p.slot? slot = some s) :
    Accounted (p.retireSlot s) none := by
  obtain ⟨hmem, rfl⟩ := slot?_eq_some hs
  have hall : ∀ x ∈ (p.retireSlot s).slots, x ∈ p.slots ∧ x.id ≠ s.id ∨
      x = { s.give with retired := true } ∧ 1 < s.inFlight := fun x hx =>
    (mem_retireSlot hmem).mp hx
  have hload := h.load s hmem
  rw [if_pos rfl] at hload
  obtain ⟨hb, hl, -, -, hn, -⟩ := p.retireSlot_parts s
  obtain ⟨ht, hd⟩ := limits_eq_iff.mp (p.retireSlot_limits s)
  have hunits : (p.retireSlot s).unitsOn = p.unitsOn := by
    funext id
    rw [unitsOn, hb, hl]
    rfl
  refine ⟨hb ▸ h.borrows, hl ▸ h.leases, hb ▸ hl ▸ h.apart,
    (map_id_retireSlot p s).nodup h.ids, ?_, ?_, ?_, hd ▸ h.depth_pos, ?_, ?_, ?_⟩
  · intro x hx
    rw [hn]
    rcases hall x hx with ⟨hx, -⟩ | ⟨rfl, -⟩
    · exact h.ids_lt x hx
    · exact h.ids_lt s hmem
  · intro x hx
    rw [hunits]
    rcases hall x hx with ⟨hx, hne⟩ | ⟨rfl, -⟩
    · have := h.load x hx
      rw [if_neg fun e => hne (Option.some.inj e).symm] at this
      simpa using this
    · simp only [Slot.give, hload, Nat.add_sub_cancel, reduceCtorEq, if_false, Nat.add_zero]
  · rintro id (hpos | e)
    · rw [hunits] at hpos
      obtain ⟨x, hx, rfl⟩ := List.mem_map.mp (h.listed id (Or.inl hpos))
      by_cases e : x.id = s.id
      · rw [e] at hpos ⊢
        exact List.mem_map.mpr ⟨_, (mem_retireSlot hmem).mpr (Or.inr ⟨rfl, by omega⟩), rfl⟩
      · exact List.mem_map_of_mem ((mem_retireSlot hmem).mpr (Or.inl ⟨hx, e⟩))
    · simp at e
  · intro x hx
    rw [hd]
    rcases hall x hx with ⟨hx, -⟩ | ⟨rfl, -⟩
    · exact h.depth x hx
    · exact Nat.le_trans (Nat.sub_le _ _) (h.depth s hmem)
  · rw [live_retireSlot, ht]
    exact Nat.le_trans (List.length_filter_le _ _) h.target
  · intro x hx hr
    rcases hall x hx with ⟨hx, -⟩ | ⟨rfl, hlt⟩
    · exact h.drained x hx hr
    · exact Nat.sub_pos_of_lt hlt

/-- The unit in hand goes to the first borrower in the queue or back to its slot. -/
theorem handOn (h : Accounted p (some slot))
    (hlive : ∀ s ∈ p.slots, s.id = slot → s.retired = false) (queue : List ℕ) :
    Accounted (p.handOn slot queue) none := by
  rcases handOn_cases p slot queue with ⟨_, ticket, rest, name, -, -, hw, e⟩ | ⟨-, e⟩
  · rw [e]
    have hget := waiter?_eq_some h.borrows hw
    have hbooks : Accounted (p.without name) (some slot) := h.without hget (Or.inr rfl)
    have hname : p.borrows.has name = true := Table.has_eq_true_iff.mpr ⟨_, hget⟩
    have hput : Accounted { p with borrows := p.borrows.put name (.assigned slot) } none :=
      hbooks.put h.borrows (h.apart name hname)
    exact hput.congr rfl rfl rfl rfl rfl rfl
  · rw [e]
    have hq : Accounted { p with queue := [] } (some slot) := h.congr rfl rfl rfl rfl rfl rfl
    exact hq.give hlive

/-- The slot of a unit that `assign?` answers takes borrowers. -/
theorem retired_eq_false_of_assign? (h : Accounted p none) {q : Shared}
    (ha : p.assign? = some (slot, q)) : ∀ s ∈ q.slots, s.id = slot → s.retired = false := by
  rcases assign?_cases ha with ⟨best, hmem, hr, -, rfl, rfl⟩ | ⟨-, rfl, rfl⟩
  · intro s hs hid
    obtain ⟨old, hold, rfl⟩ := mem_updateSlot.mp hs
    have hold_id : old.id = best.id := by
      split at hid
      · exact hid
      · exact hid
    rw [if_pos hold_id, eq_of_id_eq h.ids hold hmem hold_id]
    exact hr
  · intro s hs hid
    rcases List.mem_append.mp hs with hs | hs
    · have := h.ids_lt s hs
      omega
    · rw [List.mem_singleton.mp hs]
      rfl

/-- The unit in hand is given back, whatever becomes of its slot. -/
theorem giveUnit (h : Accounted p (some slot)) (retire : Bool) :
    Accounted (p.giveUnit slot retire) none := by
  obtain ⟨s, hs⟩ := h.exists_slot?
  obtain ⟨hmem, hid⟩ := slot?_eq_some hs
  have hretired := h.retireSlot hs
  rw [giveUnit_eq hs]
  split
  · next hstay =>
    refine h.handOn ?_ p.queue
    intro x hx hxid
    rw [eq_of_id_eq h.ids hx hmem (hxid.trans hid.symm)]
    exact hstay.2
  · split
    · exact hretired
    · split
      · exact hretired
      · next other q ha =>
        exact (hretired.assign? ha).handOn (hretired.retired_eq_false_of_assign? ha) q.queue

end Accounted

/-! ### Borrowers and leases -/

/-- The unit in hand is that of a borrower that runs. -/
structure Running (p : Shared) (name : String) (slot : ℕ) : Prop where
  /-- Each borrower has a name of its own. -/
  borrows : p.borrows.Distinct
  /-- Without the borrower the books balance with its unit in hand. -/
  books : Accounted (p.without name) (some slot)
  /-- There is no lease under its name. -/
  lease : p.leases.has name = false

namespace Running

variable {p : Shared} {name : String} {slot : ℕ}

/-- A borrower that has a unit and goes on. -/
theorem of_get? (h : Accounted p none) {borrow : SharedBorrow}
    (hget : p.borrows.get? name = some borrow) (hslot : borrow.slot? = some slot) :
    Running p name slot where
  borrows := h.borrows
  books := hslot ▸ h.without hget (Or.inl rfl)
  lease := h.apart name (Table.has_eq_true_iff.mpr ⟨_, hget⟩)

/-- A borrower that starts with a unit. -/
theorem of_new (h : Accounted p (some slot)) (hb : p.borrows.has name = false)
    (hl : p.leases.has name = false) : Running p name slot where
  borrows := h.borrows
  books := by
    rw [without_of_get?_eq_none (Table.has_eq_false_iff.mp hb)]
    exact h
  lease := hl

theorem updateSlot (h : Running p name slot) (id : ℕ) {f : Slot → Slot} (hf : Slot.Keeps f) :
    Running (p.updateSlot id f) name slot :=
  ⟨h.borrows, h.books.updateSlot id hf, h.lease⟩

theorem created (h : Running p name slot) (created : ℕ) :
    Running { p with created } name slot :=
  ⟨h.borrows, h.books.congr rfl rfl rfl rfl rfl rfl, h.lease⟩

/-- A borrower that stays a borrower keeps its unit. -/
theorem put (h : Running p name slot) {borrow : SharedBorrow} (hslot : borrow.slot? = some slot) :
    Accounted { p with borrows := p.borrows.put name borrow } none :=
  Accounted.put h.borrows (hslot ▸ h.books) h.lease

/-- A borrower that has seen the result of the creation has a lease or has given its unit back. -/
theorem settle (h : Running p name slot) (result : Except ClientError ℕ) :
    Accounted (p.settle name slot result).2 none := by
  cases result with
  | ok item =>
    have hb : (p.without name).borrows.has name = false := by
      rw [Table.has_eq_false_iff]
      exact Table.get?_remove_self _ _
    have hl : p.leases.remove name = p.leases :=
      Table.remove_of_get?_eq_none (Table.has_eq_false_iff.mp h.lease)
    exact Accounted.putLease (p := p.without name) ⟨slot, item, false⟩ h.books.leases
      (h.books.congr rfl hl rfl rfl rfl rfl) hb
  | error cause => exact h.books.giveUnit true

theorem proceed (h : Running p name slot) (made : Creations) (item : ℕ) :
    Accounted (p.proceed made name slot item).2 none := by
  simp only [Shared.proceed]
  split
  · exact h.put rfl
  · exact (h.updateSlot slot (Slot.keeps_made _)).settle _

theorem await (h : Running p name slot) (made : Creations) (place : Handle) (turn : Semaphore) :
    Accounted (p.await made name slot place turn).2 none := by
  have hrun := h.updateSlot slot (Slot.keeps_turn fun _ => (turn.poll place).2.2)
  simp only [Shared.await]
  split
  · exact (hrun.created _).proceed made _
  · exact hrun.put rfl

theorem enter (h : Running p name slot) (made : Creations) :
    Accounted (p.enter made name slot).2 none := by
  obtain ⟨s, hs⟩ := h.books.exists_slot?
  have hs' : p.slot? slot = some s := hs
  simp only [Shared.enter, hs']
  split
  · exact h.settle _
  · exact h.await made _ _

end Running

namespace Accounted

variable {p : Shared}

theorem borrow (h : Accounted p none) (made : Creations) (name : String) :
    Accounted (p.borrow made name).2 none := by
  simp only [Shared.borrow]
  split
  · exact h
  next hfree =>
  rw [Bool.or_eq_true, not_or, Bool.not_eq_true, Bool.not_eq_true] at hfree
  obtain ⟨hb, hl⟩ := hfree
  split
  · exact h
  split
  · next slot q ha =>
    obtain ⟨hborrows, hleases, -⟩ := assign?_parts ha
    refine (Running.of_new (h.assign? ha) ?_ ?_).enter made
    · rw [hborrows]
      exact hb
    · rw [hleases]
      exact hl
  · have hbooks : Accounted (p.without name) none := by
      rw [without_of_get?_eq_none (Table.has_eq_false_iff.mp hb)]
      exact h
    have hput : Accounted { p with borrows := p.borrows.put name (.queued p.nextTicket) } none :=
      hbooks.put h.borrows hl
    exact hput.congr rfl rfl rfl rfl rfl rfl

theorem poll (h : Accounted p none) (made : Creations) (name : String) :
    Accounted (p.poll made name).2 none := by
  simp only [Shared.poll]
  split
  · exact h
  · exact h
  · next hget => exact h.without hget (Or.inl rfl)
  · next slot hget => exact (Running.of_get? h hget rfl).enter made
  · next slot item hget => exact (Running.of_get? h hget rfl).proceed made item
  · next slot place hget =>
    have hrun : Running p name slot := .of_get? h hget rfl
    split
    · exact h
    · split
      · exact hrun.settle _
      · exact hrun.await made _ _

theorem cancel (h : Accounted p none) (name : String) : Accounted (p.cancel name).2 none := by
  simp only [Shared.cancel]
  split
  · exact h
  · next borrow hget =>
    have hbooks := h.without hget (Or.inl rfl)
    split
    · exact hbooks
    · exact hbooks
    · exact hbooks.giveUnit false
    · exact (hbooks.updateSlot _ (Slot.keeps_turn _)).giveUnit false
    · exact (hbooks.updateSlot _ (Slot.keeps_turn _)).giveUnit false

theorem release (h : Accounted p none) (accepts : ℕ → Bool) (name : String) :
    Accounted (p.release accepts name).2 none := by
  simp only [Shared.release]
  split
  · exact h
  · next lease hget => exact (h.removeLease hget).giveUnit _

theorem corrupt (h : Accounted p none) (name : String) : Accounted (p.corrupt name).2 none := by
  simp only [Shared.corrupt]
  split
  · exact h
  · next lease hget =>
    have hb : p.borrows.has name = false := by
      by_contra hb
      rw [Bool.not_eq_false] at hb
      have := h.apart name hb
      rw [Table.has_eq_false_iff, hget] at this
      simp at this
    have hbooks := h.removeLease hget
    exact Accounted.putLease { lease with corrupted := true } h.leases hbooks hb

theorem dispose (h : Accounted p none) : Accounted p.dispose none := by
  have hunits : ∀ slot, p.dispose.unitsOn slot = p.unitsOn slot := by
    intro slot
    rw [unitsOn, dispose_borrows, Table.count_map p.borrows fun borrow => by
      rw [SharedBorrow.slot?_turnedAway]]
    rfl
  have hall : ∀ s ∈ p.dispose.slots, ∃ old ∈ p.slots, 0 < old.inFlight ∧ s.id = old.id ∧
      s.inFlight = old.inFlight ∧ s.retired = true := by
    intro s hs
    obtain ⟨old, hold, rfl⟩ := List.mem_map.mp hs
    obtain ⟨hmem, hne⟩ := List.mem_filter.mp hold
    exact ⟨old, hmem, Nat.pos_of_ne_zero (by simpa using hne), rfl, rfl, rfl⟩
  have hids : (p.dispose.slots.map (·.id)).Sublist (p.slots.map (·.id)) := by
    rw [Shared.dispose, List.map_map]
    exact List.filter_sublist.map _
  refine ⟨?_, h.leases, ?_, hids.nodup h.ids, ?_, ?_, ?_, h.depth_pos, ?_, ?_, ?_⟩
  · rw [dispose_borrows]
    exact h.borrows.map _
  · intro name hname
    refine h.apart name ?_
    rw [dispose_borrows, Table.has, Table.get?_map, Option.isSome_map] at hname
    exact hname
  · intro s hs
    obtain ⟨old, hold, -, e, -⟩ := hall s hs
    rw [e]
    exact h.ids_lt old hold
  · intro s hs
    obtain ⟨old, hold, -, e, e', -⟩ := hall s hs
    rw [e, e', hunits]
    exact h.load old hold
  · rintro slot (hpos | e)
    · rw [hunits] at hpos
      obtain ⟨s, hs, rfl⟩ := List.mem_map.mp (h.listed slot (Or.inl hpos))
      have := h.load s hs
      refine List.mem_map.mpr ⟨{ s with retired := true }, ?_, rfl⟩
      refine List.mem_map.mpr ⟨s, List.mem_filter.mpr ⟨hs, ?_⟩, rfl⟩
      rw [bne_iff_ne]
      omega
    · simp at e
  · intro s hs
    obtain ⟨old, hold, -, -, e, -⟩ := hall s hs
    rw [e]
    exact h.depth old hold
  · have hlive : p.dispose.live = [] := by
      rw [live, List.filter_eq_nil_iff]
      intro s hs
      obtain ⟨-, -, -, -, -, hr⟩ := hall s hs
      simp [hr]
    rw [hlive]
    exact Nat.zero_le _
  · intro s hs _
    obtain ⟨old, -, hpos, -, e, -⟩ := hall s hs
    rw [e]
    exact hpos

/-- Every operation keeps the books. -/
theorem step (h : Accounted p none) (event : Event) : Accounted (p.step event) none := by
  cases event with
  | borrow made name => exact h.borrow made name
  | poll made name => exact h.poll made name
  | cancel name => exact h.cancel name
  | release accepts name => exact h.release accepts name
  | corrupt name => exact h.corrupt name
  | dispose => exact h.dispose

/-- The books of a pool balance after every run. -/
theorem run (kind : String) (options : SharedOptions) (events : List Event) :
    Accounted ((Shared.ofOptions kind options).run events) none :=
  run_induction (P := fun p => Accounted p none) (ofOptions kind options)
    (fun _ event h => h.step event) events

end Accounted

/-- **Unit accounting.** After every run, each slot has a number of its own; the units in flight on a
slot are those that borrowers and leases have, at most as many as the options allow; a slot that was
retired is there only while it has some; no more slots take borrowers than the options ask for. A
unit that somebody has is counted on a slot that is there, so giving it back takes one from a number
that is not 0. When nobody has a unit, no slot counts one. -/
theorem units_accounted (kind : String) (options : SharedOptions) (events : List Event) :
    let p := (Shared.ofOptions kind options).run events
    (p.slots.map (·.id)).Nodup ∧
      (∀ s ∈ p.slots, s.inFlight = p.unitsOn s.id ∧
        s.inFlight ≤ options.atLeastOne.maxRequestsPerItem ∧ (s.retired = true → 1 ≤ s.inFlight)) ∧
      p.live.length ≤ options.atLeastOne.targetItemCount ∧
      (∀ slot, 0 < p.unitsOn slot → ∃ s, p.slot? slot = some s ∧ 1 ≤ s.inFlight) ∧
      (p.borrows = [] → p.leases = [] → ∀ s ∈ p.slots, s.inFlight = 0) := by
  intro p
  have h : Accounted p none := .run kind options events
  have hlimits : p.limits = options.atLeastOne := run_limits _ events
  have hload : ∀ s ∈ p.slots, s.inFlight = p.unitsOn s.id := fun s hs => h.load s hs
  refine ⟨h.ids, ?_, ?_, ?_, ?_⟩
  · intro s hs
    refine ⟨hload s hs, ?_, h.drained s hs⟩
    rw [← hlimits]
    exact h.depth s hs
  · rw [← hlimits]
    exact h.target
  · intro slot hpos
    obtain ⟨s, hs⟩ := exists_slot?_of_mem (h.listed slot (Or.inl hpos))
    obtain ⟨hmem, rfl⟩ := slot?_eq_some hs
    refine ⟨s, hs, ?_⟩
    rw [hload s hmem]
    exact hpos
  · intro hb hl s hs
    rw [hload s hs, unitsOn, hb, hl]
    rfl

end MemcachedClient.Pool.Shared
