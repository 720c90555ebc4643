import MemcachedClient.Proofs.Pool.Accounting
import MemcachedClient.Proofs.Semaphore

/-!
# The turn to create the item of a slot

The item of a slot is created by one borrower at a time, and no creation is started once one has come to its
result: the one unit of the slot's `turn` is there to be taken, or a borrower that creates holds it, or it went
into the result and is not given back (`Turned.turn`). So a result that is kept with a slot is never replaced,
and every lease of the slot is one of the slot's item (`Turned.leases`).

Inside an operation the turn of a slot may be in the hands of the borrower whose operation goes on:
`Turned p (some slot)` says so.
-/

namespace MemcachedClient.Pool

/-- Whether a borrower creates the item of a slot. -/
def SharedBorrow.creates (slot : ℕ) : SharedBorrow → Bool
  | creating other _ => other == slot
  | _ => false

/-- Who creates the item of a slot has a unit of it. -/
theorem SharedBorrow.slot?_of_creates {slot : ℕ} {borrow : SharedBorrow}
    (h : borrow.creates slot = true) : borrow.slot? = some slot := by
  cases borrow <;> simp_all [creates, slot?]

/-- A creation is one of one slot. -/
theorem SharedBorrow.toNat_creates (slot item other : ℕ) :
    ((creating slot item).creates other).toNat = if some slot = some other then 1 else 0 := by
  by_cases h : slot = other
  · rw [if_pos (congrArg some h), creates, beq_iff_eq.mpr h]
    rfl
  · rw [if_neg fun e => h (Option.some.inj e), creates, beq_eq_false_iff_ne.mpr h]
    rfl

@[simp] theorem SharedBorrow.creates_turnedAway (slot : ℕ) (borrow : SharedBorrow) :
    borrow.turnedAway.creates slot = borrow.creates slot := by
  cases borrow <;> rfl

namespace Shared

/-- The number of borrowers that create the item of a slot. -/
def creators (p : Shared) (slot : ℕ) : ℕ := p.borrows.count (·.creates slot)

/-- The turns of the slots are in order, with the turn of the slot `hand` in hand. -/
structure Turned (p : Shared) (hand : Option ℕ) : Prop where
  /-- The turn of a slot is to be taken, or held by a borrower that creates, or in hand, or spent. -/
  turn : ∀ s ∈ p.slots, s.turn.units + p.creators s.id + (if hand = some s.id then 1 else 0) +
    s.made.isSome.toNat = 1
  /-- Who waits for a turn does not have it. -/
  awaits : ∀ name slot place, p.borrows.get? name = some (.awaiting slot place) → place.units = 0
  /-- A lease has the item of its slot. -/
  leases : ∀ name lease, p.leases.get? name = some lease → ∀ s ∈ p.slots, s.id = lease.slot →
    s.made = some (.ok lease.item)

section creators

variable {p : Shared} {name : String} {borrow : SharedBorrow}

theorem creators_put (hd : p.borrows.Distinct) (name : String) (borrow : SharedBorrow) (slot : ℕ) :
    creators { p with borrows := p.borrows.put name borrow } slot =
      (p.without name).creators slot + (borrow.creates slot).toNat :=
  hd.count_put _ name borrow

theorem creators_eq_without (hd : p.borrows.Distinct) (h : p.borrows.get? name = some borrow) (slot : ℕ) :
    p.creators slot = (p.without name).creators slot + (borrow.creates slot).toNat :=
  hd.count_eq_remove _ h

/-- Nobody creates the item of a slot of which nobody has a unit. -/
theorem creators_le_unitsOn (p : Shared) (slot : ℕ) : p.creators slot ≤ p.unitsOn slot := by
  refine Nat.le_trans (List.countP_mono_left fun item _ h => ?_) (Nat.le_add_right _ _)
  exact beq_iff_eq.mpr (SharedBorrow.slot?_of_creates h)

end creators

namespace Turned

variable {p q : Shared} {hand : Option ℕ} {name : String} {slot : ℕ}

theorem ofOptions (kind : String) (options : SharedOptions) :
    Turned (Shared.ofOptions kind options) none := by
  constructor <;> simp [Shared.ofOptions]

/-- What does not concern the creations keeps the turns in order. -/
theorem of_parts (h : Turned p hand)
    (hslots : ∀ s ∈ q.slots, ∃ old ∈ p.slots, old.id = s.id ∧ old.turn = s.turn ∧ old.made = s.made)
    (hcreators : q.creators = p.creators)
    (hawaits : ∀ name slot place, q.borrows.get? name = some (.awaiting slot place) →
      p.borrows.get? name = some (.awaiting slot place))
    (hleases : ∀ name lease, q.leases.get? name = some lease →
      ∃ old, p.leases.get? name = some old ∧ old.slot = lease.slot ∧ old.item = lease.item) :
    Turned q hand where
  turn s hs := by
    obtain ⟨old, hold, hid, hturn, hmade⟩ := hslots s hs
    rw [hcreators, ← hid, ← hturn, ← hmade]
    exact h.turn old hold
  awaits name slot place hget := h.awaits name slot place (hawaits name slot place hget)
  leases name lease hget s hs hid := by
    obtain ⟨old, hold, hslot, hitem⟩ := hleases name lease hget
    obtain ⟨old', hold', hid', -, hmade⟩ := hslots s hs
    rw [← hmade, ← hitem]
    exact h.leases name old hold old' hold' (by rw [hid', hid, hslot])

/-- A change of a slot that is not about its creation keeps the turns in order. -/
theorem updateSlot (h : Turned p hand) (id : ℕ) {f : Slot → Slot}
    (hf : ∀ s, (f s).id = s.id ∧ (f s).turn = s.turn ∧ (f s).made = s.made) :
    Turned (p.updateSlot id f) hand := by
  refine h.of_parts (fun s hs => ?_) rfl (fun _ _ _ hget => hget) fun _ lease hget =>
    ⟨lease, hget, rfl, rfl⟩
  obtain ⟨old, hold, rfl⟩ := mem_updateSlot.mp hs
  refine ⟨old, hold, ?_⟩
  split
  · exact ⟨(hf old).1.symm, (hf old).2.1.symm, (hf old).2.2.symm⟩
  · exact ⟨rfl, rfl, rfl⟩

/-- A borrower that does not create may leave. -/
theorem without (h : Turned p hand) (hd : p.borrows.Distinct) {borrow : SharedBorrow}
    (hget : p.borrows.get? name = some borrow) (hcreates : ∀ slot, borrow.creates slot = false) :
    Turned (p.without name) hand := by
  refine h.of_parts (fun s hs => ⟨s, hs, rfl, rfl, rfl⟩) ?_ (fun other slot place hother => ?_)
    fun _ lease hget => ⟨lease, hget, rfl, rfl⟩
  · funext slot
    rw [creators_eq_without hd hget, hcreates]
    rfl
  · rw [Shared.without, Table.get?_remove] at hother
    split at hother
    · simp at hother
    · exact hother

/-- A borrower that does not create may be put in the place of one that does not. -/
theorem put (h : Turned (p.without name) hand) (hd : p.borrows.Distinct) {borrow : SharedBorrow}
    (hcreates : ∀ slot, borrow.creates slot = false)
    (hawaits : ∀ slot place, borrow = .awaiting slot place → place.units = 0) :
    Turned { p with borrows := p.borrows.put name borrow } hand where
  turn s hs := by
    rw [creators_put hd, hcreates]
    exact h.turn s hs
  awaits other slot place hget := by
    rcases Table.eq_or_of_get?_put hget with ⟨-, e⟩ | ⟨hne, hget⟩
    · exact hawaits slot place e.symm
    · refine h.awaits other slot place ?_
      rw [Shared.without, Table.get?_remove, if_neg hne]
      exact hget
  leases := h.leases

/-- The borrower that has the turn in hand creates. -/
theorem put_creating (h : Turned (p.without name) (some slot)) (hd : p.borrows.Distinct) (item : ℕ) :
    Turned { p with borrows := p.borrows.put name (.creating slot item) } none where
  turn s hs := by
    have hturn := h.turn s hs
    rw [creators_put hd, SharedBorrow.toNat_creates]
    simp only [reduceCtorEq, if_false]
    omega
  awaits other slot' place hget := by
    rcases Table.eq_or_of_get?_put hget with ⟨-, e⟩ | ⟨hne, hget⟩
    · simp at e
    · refine h.awaits other slot' place ?_
      rw [Shared.without, Table.get?_remove, if_neg hne]
      exact hget
  leases := h.leases

/-- Who creates has the turn in hand. -/
theorem without_creating (h : Turned p none) (hd : p.borrows.Distinct) {item : ℕ}
    (hget : p.borrows.get? name = some (.creating slot item)) : Turned (p.without name) (some slot) where
  turn s hs := by
    have hturn := h.turn s hs
    rw [creators_eq_without hd hget, SharedBorrow.toNat_creates] at hturn
    simp only [reduceCtorEq, if_false] at hturn
    show s.turn.units + (p.without name).creators s.id + _ + _ = 1
    omega
  awaits other slot' place hother := by
    rw [Shared.without, Table.get?_remove] at hother
    split at hother
    · simp at hother
    · exact h.awaits other slot' place hother
  leases := h.leases

/-- The turn that is in hand goes into the result of the creation. -/
theorem made (h : Turned p (some slot)) (result : Except ClientError ℕ) :
    Turned (p.updateSlot slot fun s => { s with made := some result }) none where
  turn s hs := by
    obtain ⟨old, hold, rfl⟩ := mem_updateSlot.mp hs
    have hturn := h.turn old hold
    by_cases e : old.id = slot
    · rw [if_pos (by rw [e])] at hturn
      rw [if_pos e]
      show old.turn.units + p.creators old.id + 0 + 1 = 1
      omega
    · rw [if_neg fun e' => e (Option.some.inj e').symm] at hturn
      rw [if_neg e]
      exact hturn
  awaits := h.awaits
  leases name lease hget s hs hid := by
    obtain ⟨old, hold, rfl⟩ := mem_updateSlot.mp hs
    have hturn := h.turn old hold
    by_cases e : old.id = slot
    · -- the slot has no result before, so it has no lease
      rw [if_pos e] at hid
      rw [h.leases name lease hget old hold hid, if_pos (by rw [e])] at hturn
      simp only [Option.isSome_some, Bool.toNat_true] at hturn
      omega
    · rw [if_neg e] at hid ⊢
      exact h.leases name lease hget old hold hid

/-- The turn of a slot may go from its semaphore into the hand and back. -/
theorem turnTo (h : Turned p hand) {after : Option ℕ} {f : Slot → Semaphore}
    (hslot : ∀ s ∈ p.slots, s.id = slot → (f s).units + (if after = some slot then 1 else 0) =
      s.turn.units + if hand = some slot then 1 else 0)
    (hother : ∀ other, other ≠ slot → (after = some other ↔ hand = some other)) :
    Turned (p.updateSlot slot fun s => { s with turn := f s }) after where
  turn s hs := by
    obtain ⟨old, hold, rfl⟩ := mem_updateSlot.mp hs
    have hturn := h.turn old hold
    by_cases e : old.id = slot
    · have hunits := hslot old hold e
      rw [if_pos e]
      show (f old).units + p.creators old.id + (if after = some old.id then 1 else 0) +
        old.made.isSome.toNat = 1
      rw [← e] at hunits
      omega
    · rw [if_neg e]
      simp only [hother old.id e]
      exact hturn
  awaits := h.awaits
  leases name lease hget s hs hid := by
    obtain ⟨old, hold, rfl⟩ := mem_updateSlot.mp hs
    have hmade := h.leases name lease hget old hold
    split at hid
    · next e =>
      rw [if_pos e]
      exact hmade hid
    · next e =>
      rw [if_neg e]
      exact hmade hid

/-! ### Handing units out and taking them back -/

theorem assign? (h : Turned p none) (books : Accounted p none) (ha : p.assign? = some (slot, q)) :
    Turned q none := by
  rcases assign?_cases ha with ⟨best, -, -, -, -, rfl⟩ | ⟨-, -, rfl⟩
  · exact h.updateSlot best.id fun _ => ⟨rfl, rfl, rfl⟩
  · -- nobody has a unit of the slot that is opened
    have hnew : p.unitsOn p.nextSlot = 0 := by
      by_contra hpos
      obtain ⟨s, hs, hid⟩ :=
        List.mem_map.mp (books.listed p.nextSlot (Or.inl (Nat.pos_of_ne_zero hpos)))
      have := books.ids_lt s hs
      omega
    refine ⟨fun s hs => ?_, h.awaits, fun name lease hget s hs hid => ?_⟩
    · rcases List.mem_append.mp hs with hs | hs
      · exact h.turn s hs
      · rw [List.mem_singleton.mp hs]
        have hle := p.creators_le_unitsOn p.nextSlot
        have hcreators : p.creators p.nextSlot = 0 := by omega
        show (Semaphore.ofCount 1).units + p.creators p.nextSlot + 0 + 0 = 1
        rw [hcreators]
        rfl
    · rcases List.mem_append.mp hs with hs | hs
      · exact h.leases name lease hget s hs hid
      · rw [List.mem_singleton.mp hs] at hid
        have hid : p.nextSlot = lease.slot := hid
        have hpos : 0 < p.unitsOn p.nextSlot := by
          refine Nat.add_pos_right _ (Table.count_pos_iff.mpr ⟨_, Table.mem_of_get? hget, ?_⟩)
          simp [hid]
        omega

theorem handOn (h : Turned p hand) (hd : p.borrows.Distinct) (slot : ℕ) (queue : List ℕ) :
    Turned (p.handOn slot queue) hand := by
  rcases handOn_cases p slot queue with ⟨_, ticket, rest, name, -, -, hw, e⟩ | ⟨-, e⟩
  · rw [e]
    have hget := waiter?_eq_some hd hw
    have hgone := h.without hd hget fun _ => rfl
    have hput : Turned { p with borrows := p.borrows.put name (.assigned slot) } hand :=
      hgone.put hd (fun _ => rfl) fun _ _ e => by simp at e
    exact ⟨hput.turn, hput.awaits, hput.leases⟩
  · rw [e]
    have hqueue : Turned { p with queue := [] } hand := ⟨h.turn, h.awaits, h.leases⟩
    exact hqueue.updateSlot slot fun _ => ⟨rfl, rfl, rfl⟩

theorem retireSlot (h : Turned p hand) {s : Slot} (hs : s ∈ p.slots) :
    Turned (p.retireSlot s) hand := by
  obtain ⟨hb, hl, -⟩ := p.retireSlot_parts s
  refine h.of_parts (fun x hx => ?_) (by funext slot; rw [creators, hb]; rfl)
    (fun _ _ _ hget => hb ▸ hget) fun _ lease hget => ⟨lease, hl ▸ hget, rfl, rfl⟩
  rcases (mem_retireSlot hs).mp hx with ⟨hx, -⟩ | ⟨rfl, -⟩
  · exact ⟨x, hx, rfl, rfl, rfl⟩
  · exact ⟨s, hs, rfl, rfl, rfl⟩

theorem giveUnit (h : Turned p none) (books : Accounted p (some slot)) (retire : Bool) :
    Turned (p.giveUnit slot retire) none := by
  obtain ⟨s, hs⟩ := books.exists_slot?
  have hretired := h.retireSlot (slot?_eq_some hs).1
  have hbooks := books.retireSlot hs
  rw [giveUnit_eq hs]
  split
  · exact h.handOn books.borrows slot p.queue
  split
  · exact hretired
  split
  · exact hretired
  · next other q ha =>
    exact (hretired.assign? hbooks ha).handOn (hbooks.assign? ha).borrows other q.queue

/-! ### Operations -/

theorem settle (h : Turned (p.without name) none) (hrun : Running p name slot)
    {result : Except ClientError ℕ} (hmade : ∀ s ∈ p.slots, s.id = slot → s.made = some result) :
    Turned (p.settle name slot result).2 none := by
  cases result with
  | ok item =>
    refine ⟨h.turn, h.awaits, fun other lease hget s hs hid => ?_⟩
    rcases Table.eq_or_of_get?_put hget with ⟨-, rfl⟩ | ⟨-, hget⟩
    · exact hmade s hs hid
    · exact h.leases other lease hget s hs hid
  | error cause => exact h.giveUnit hrun.books true

theorem proceed (h : Turned (p.without name) (some slot)) (hrun : Running p name slot)
    (made : Creations) (item : ℕ) : Turned (p.proceed made name slot item).2 none := by
  simp only [Shared.proceed]
  split
  · exact h.put_creating hrun.borrows item
  · next result _ =>
    have hmade : Turned ((p.updateSlot slot fun s => { s with made := some (result.map fun _ => item) }).without
        name) none := h.made (result.map fun _ => item)
    refine hmade.settle (hrun.updateSlot slot (Slot.keeps_made _)) fun s hs hid => ?_
    obtain ⟨old, -, rfl⟩ := mem_updateSlot.mp hs
    split
    · rfl
    · next hne =>
      rw [if_neg hne] at hid
      exact absurd hid hne

/-- Goes on with a borrower that looks whether its turn has come. -/
theorem await (h : Turned (p.without name) none) (hrun : Running p name slot) (made : Creations)
    {place : Handle} {turn : Semaphore} (hturn : ∀ s ∈ p.slots, s.id = slot →
      turn.units + place.units = s.turn.units) :
    Turned (p.await made name slot place turn).2 none := by
  have hpoll := turn.units_poll place
  have hrun' := hrun.updateSlot slot (Slot.keeps_turn fun _ => (turn.poll place).2.2)
  simp only [Shared.await]
  split
  · next htaken =>
    have hunits := Semaphore.units_poll_of_taken htaken
    have hin : Turned ((p.updateSlot slot fun s => { s with turn := (turn.poll place).2.2 }).without
        name) (some slot) := by
      refine Turned.turnTo (p := p.without name) h (fun s hs hid => ?_) fun other hne => ?_
      · have := hturn s hs hid
        rw [if_pos rfl]
        simp only [reduceCtorEq, if_false]
        omega
      · simp [Ne.symm hne]
    have hstart : Turned ({ p.updateSlot slot fun s => { s with turn := (turn.poll place).2.2 } with
        created := p.created + 1 }.without name) (some slot) := ⟨hin.turn, hin.awaits, hin.leases⟩
    exact hstart.proceed (hrun'.created _) made _
  · next hwaits =>
    rw [Bool.not_eq_true] at hwaits
    obtain ⟨ticket, rfl, -, hsame⟩ := Semaphore.poll_eq_false hwaits
    have hplace : (turn.poll (.queued ticket)).2.1.units = 0 := by rw [hsame]; rfl
    have hout : Turned ((p.updateSlot slot fun s =>
        { s with turn := (turn.poll (.queued ticket)).2.2 }).without name) none := by
      refine Turned.turnTo (p := p.without name) h (fun s hs hid => ?_) fun _ _ => Iff.rfl
      have := hturn s hs hid
      rw [hplace] at hpoll
      simp only [reduceCtorEq, if_false]
      omega
    refine hout.put hrun.borrows (fun _ => rfl) fun _ other e => ?_
    obtain ⟨-, rfl⟩ := SharedBorrow.awaiting.inj e
    exact hplace

theorem enter (h : Turned (p.without name) none) (hrun : Running p name slot) (made : Creations) :
    Turned (p.enter made name slot).2 none := by
  obtain ⟨s, hs⟩ := hrun.books.exists_slot?
  have hs' : p.slot? slot = some s := hs
  obtain ⟨hmem, rfl⟩ := slot?_eq_some hs'
  have hone : ∀ x ∈ p.slots, x.id = s.id → x = s := fun x hx e =>
    eq_of_id_eq hrun.books.ids hx hmem e
  simp only [Shared.enter, hs']
  split
  · next result hmade =>
    refine h.settle hrun fun x hx hid => ?_
    rw [hone x hx hid, hmade]
  · refine h.await hrun made fun x hx hid => ?_
    rw [hone x hx hid]
    exact s.turn.units_wait

/-- Every operation keeps the turns in order. -/
theorem step (h : Turned p none) (books : Accounted p none) (event : Event) :
    Turned (p.step event) none := by
  cases event with
  | borrow made name =>
    simp only [Shared.step, Shared.borrow]
    split
    · exact h
    next hfree =>
    rw [Bool.or_eq_true, not_or, Bool.not_eq_true, Bool.not_eq_true] at hfree
    obtain ⟨hb, hl⟩ := hfree
    have hnone := Table.has_eq_false_iff.mp hb
    split
    · exact h
    split
    · next slot q ha =>
      obtain ⟨hborrows, hleases, -⟩ := assign?_parts ha
      have hq := h.assign? books ha
      have hq : Turned (q.without name) none := by
        rwa [without_of_get?_eq_none (hborrows ▸ hnone)]
      exact hq.enter (Running.of_new (books.assign? ha) (hborrows ▸ hb) (hleases ▸ hl)) made
    · have hwithout : Turned (p.without name) none := by rwa [without_of_get?_eq_none hnone]
      have hput : Turned { p with borrows := p.borrows.put name (.queued p.nextTicket) } none :=
        hwithout.put books.borrows (fun _ => rfl) fun _ _ e => by simp at e
      exact ⟨hput.turn, hput.awaits, hput.leases⟩
  | poll made name =>
    simp only [Shared.step, Shared.poll]
    split
    · exact h
    · exact h
    · next hget => exact h.without books.borrows hget fun _ => rfl
    · next slot hget =>
      exact (h.without books.borrows hget fun _ => rfl).enter (.of_get? books hget rfl) made
    · next slot item hget =>
      have hrun : Running p name slot := .of_get? books hget rfl
      exact (h.without_creating books.borrows hget).proceed hrun made item
    · next slot place hget =>
      have hrun : Running p name slot := .of_get? books hget rfl
      have hgone := h.without books.borrows hget fun _ => rfl
      split
      · exact h
      · next s hs =>
        obtain ⟨hmem, rfl⟩ := slot?_eq_some hs
        have hone : ∀ x ∈ p.slots, x.id = s.id → x = s := fun x hx e =>
          eq_of_id_eq books.ids hx hmem e
        split
        · next result hmade =>
          refine hgone.settle hrun fun x hx hid => ?_
          rw [hone x hx hid, hmade]
        · refine hgone.await hrun made fun x hx hid => ?_
          rw [hone x hx hid, h.awaits name s.id place hget, Nat.add_zero]
  | cancel name =>
    simp only [Shared.step, Shared.cancel]
    split
    · exact h
    · next borrow hget =>
      have hbooks := books.without hget (Or.inl rfl)
      split
      · exact h.without books.borrows hget fun _ => rfl
      · exact h.without books.borrows hget fun _ => rfl
      · exact (h.without books.borrows hget fun _ => rfl).giveUnit hbooks false
      · next slot place =>
        have hplace := h.awaits name slot place hget
        have hleft : Turned ((p.without name).updateSlot slot fun s =>
            { s with turn := s.turn.drop place }) none := by
          refine (h.without books.borrows hget fun _ => rfl).turnTo (fun s _ _ => ?_) fun _ _ => Iff.rfl
          have hdrop : (s.turn.drop place).units = s.turn.units + place.units := by
            refine Semaphore.units_drop ?_
            rintro rfl
            simp [Handle.units] at hplace
          simp only [reduceCtorEq, if_false]
          omega
        exact hleft.giveUnit (hbooks.updateSlot slot (Slot.keeps_turn _)) false
      · next slot item =>
        -- the turn that the borrower had goes back to the slot
        have hleft : Turned ((p.without name).updateSlot slot fun s =>
            { s with turn := s.turn.signalOne }) none := by
          refine (h.without_creating books.borrows hget).turnTo (fun s _ _ => ?_) fun other hne => ?_
          · rw [if_pos rfl, Semaphore.units_signalOne]
            simp
          · simp [Ne.symm hne]
        exact hleft.giveUnit (hbooks.updateSlot slot (Slot.keeps_turn _)) false
  | release accepts name =>
    simp only [Shared.step, Shared.release]
    split
    · exact h
    · next lease hget =>
      have hremoved : Turned { p with leases := p.leases.remove name } none := by
        refine ⟨h.turn, h.awaits, fun other found hother => h.leases other found ?_⟩
        rw [Table.get?_remove] at hother
        split at hother
        · simp at hother
        · exact hother
      exact hremoved.giveUnit (books.removeLease hget) _
  | corrupt name =>
    simp only [Shared.step, Shared.corrupt]
    split
    · exact h
    · next lease hget =>
      refine ⟨h.turn, h.awaits, fun other found hother s hs hid => ?_⟩
      rcases Table.eq_or_of_get?_put hother with ⟨rfl, rfl⟩ | ⟨-, hother⟩
      · exact h.leases other lease hget s hs hid
      · exact h.leases other found hother s hs hid
  | dispose =>
    refine h.of_parts (fun s hs => ?_) ?_ (fun name slot place hget => ?_) fun _ lease hget =>
      ⟨lease, hget, rfl, rfl⟩
    · obtain ⟨old, hold, rfl⟩ := List.mem_map.mp hs
      exact ⟨old, (List.mem_filter.mp hold).1, rfl, rfl, rfl⟩
    · funext slot
      simp only [Shared.step, creators]
      rw [dispose_borrows]
      exact Table.count_map p.borrows fun borrow => SharedBorrow.creates_turnedAway slot borrow
    · simp only [Shared.step] at hget
      rw [dispose_borrows, Table.get?_map, Option.map_eq_some_iff] at hget
      obtain ⟨old, hget, e⟩ := hget
      cases old <;> simp_all [SharedBorrow.turnedAway]

end Turned

end Shared

end MemcachedClient.Pool
