import MemcachedClient.Proofs.Pool.Fairness
import MemcachedClient.Proofs.Pool.Leasing
import MemcachedClient.Proofs.Pool.Passing
import Mathlib.Algebra.BigOperators.Group.List.Basic
import Mathlib.Algebra.GroupWithZero.Nat

/-!
# Nobody is stranded in the queue of a shared pool

A borrower that queues has to count on the units that others have: it is served when one of them is given
back. So there must be such a unit as long as there is a queue, and giving units back must come to the end of
the queue. The measure is the number of units that somebody has (`units`) and the length of the queue taken
together. A unit that is given back takes one ticket off the queue at least, or there is one unit less; no
operation but the start of a borrower raises the measure (`Accounted.units_step`). And when the last unit is
given back the queue is empty, since a queue without units would find a slot to open.

`releases` counts, along a run, the operations after which a borrower or a lease no longer has the unit that
it had: a lease that ends, whether its item is used again or not, a creation that fails, a borrower that is
dropped. `nobody_stranded` puts the parts together.
-/

namespace MemcachedClient.Pool.Shared

/-- An operation that goes on with what there is: no borrower is started, and the pool is not disposed. -/
def Event.goesOn : Event → Bool
  | borrow _ _ => false
  | dispose => false
  | _ => true

/-- The number of units that borrowers and leases have. -/
def units (p : Shared) : ℕ := p.borrows.count (fun borrow => borrow.slot?.isSome) + p.leases.length

/-- The number of units in flight, over all slots. -/
def inFlight (p : Shared) : ℕ := (p.slots.map (·.inFlight)).sum

theorem holds_iff {p : Shared} {name : String} : p.Holds name ↔
    (((p.borrows.get? name).bind (·.slot?)).isSome || p.leases.has name) = true := by
  rw [Bool.or_eq_true, Option.isSome_iff_exists, Table.has_eq_true_iff]
  constructor
  · rintro ⟨slot, ⟨borrow, hget, hslot⟩ | ⟨lease, hget, -⟩⟩
    · exact Or.inl ⟨slot, by rw [hget]; exact hslot⟩
    · exact Or.inr ⟨lease, hget⟩
  · rintro (⟨slot, hslot⟩ | ⟨lease, hget⟩)
    · obtain ⟨borrow, hget, hslot⟩ := Option.bind_eq_some_iff.mp hslot
      exact ⟨slot, Or.inl ⟨borrow, hget, hslot⟩⟩
    · exact ⟨lease.slot, Or.inr ⟨lease, hget, rfl⟩⟩

instance (p : Shared) (name : String) : Decidable (p.Holds name) := decidable_of_iff _ holds_iff.symm

/-- Whether an operation ends the hold of its name on a unit. -/
def gives (p : Shared) (event : Event) : Bool :=
  match event.name? with
  | some name => p.Holds name ∧ ¬ (p.step event).Holds name
  | none => false

/-- The number of operations of a run that end the hold of their name on a unit. -/
def releases (p : Shared) : List Event → ℕ
  | [] => 0
  | event :: events => (p.gives event).toNat + (p.step event).releases events

/-- How often a borrower that waits is handed a unit along a run. -/
def handings (p : Shared) (name : String) : List Event → ℕ
  | [] => 0
  | event :: events => (p.handed (p.step event)).count name + (p.step event).handings name events

/-- A borrower is dropped during a run while it waits. -/
def Withdraws (p : Shared) (name : String) (events : List Event) : Prop :=
  ∃ before after, events = before ++ .cancel name :: after ∧ ∃ ticket, (p.run before).Waits name ticket

section units

variable {p q : Shared} {slot : ℕ} {name : String} {event : Event}

/-! ### Counting units -/

theorem sum_indicator (ids : List ℕ) (found : ℕ) :
    (ids.map fun id => if found = id then 1 else 0).sum = ids.count found := by
  induction ids with
  | nil => rfl
  | cons id rest ih =>
    rw [List.map_cons, List.sum_cons, ih, List.count_cons, Nat.add_comm]
    by_cases h : found = id
    · simp [h]
    · simp [h, Ne.symm h]

/-- Entries that are counted number by number are all counted. -/
theorem sum_countP {α : Type} {key : α → Option ℕ} {ids : List ℕ} (hids : ids.Nodup) {l : List α}
    (hkeys : ∀ a ∈ l, ∀ id, key a = some id → id ∈ ids) :
    (ids.map fun id => l.countP fun a => key a == some id).sum = l.countP fun a => (key a).isSome := by
  induction l with
  | nil => simp
  | cons a rest ih =>
    have hrest := ih fun b hb => hkeys b (List.mem_cons_of_mem a hb)
    have hone : (ids.map fun id => if key a == some id then 1 else 0).sum =
        if (key a).isSome then 1 else 0 := by
      cases hkey : key a with
      | none => simp
      | some found =>
        have hcount := List.count_eq_one_of_mem hids (hkeys a List.mem_cons_self found hkey)
        simpa [← sum_indicator] using hcount
    simp only [List.countP_cons]
    rw [List.sum_map_add, hrest, hone]

/-- The units in flight are those that somebody has, and the one in hand. -/
theorem Accounted.inFlight_eq {hand : Option ℕ} (h : Accounted p hand) :
    p.inFlight = p.units + hand.toList.length := by
  have hborrows : ∀ item ∈ p.borrows, ∀ id, item.2.slot? = some id → id ∈ p.slots.map (·.id) := by
    intro item hitem id hslot
    refine h.listed id (Or.inl (Nat.add_pos_left (Table.count_pos_iff.mpr ⟨item, hitem, ?_⟩) _))
    simp [hslot]
  have hleases : ∀ item ∈ p.leases, ∀ id, some item.2.slot = some id → id ∈ p.slots.map (·.id) := by
    intro item hitem id hslot
    refine h.listed id (Or.inl (Nat.add_pos_right _ (Table.count_pos_iff.mpr ⟨item, hitem, ?_⟩)))
    simpa using hslot
  have hhand : ∀ own ∈ hand.toList, ∀ id, some own = some id → id ∈ p.slots.map (·.id) := by
    intro own hown id hslot
    rw [Option.mem_toList] at hown
    exact h.listed id (Or.inr (hslot ▸ hown))
  have hload : p.slots.map (·.inFlight) = (p.slots.map (·.id)).map fun id =>
      (p.borrows.countP fun item => item.2.slot? == some id) +
        (p.leases.countP fun item => some item.2.slot == some id) +
        hand.toList.countP fun own => some own == some id := by
    rw [List.map_map]
    refine List.map_congr_left fun s hs => ?_
    rw [h.load s hs]
    cases hand <;> simp [unitsOn, Table.count]
  rw [inFlight, hload, List.sum_map_add, List.sum_map_add, sum_countP h.ids hborrows,
    sum_countP h.ids hleases, sum_countP h.ids hhand]
  simp [units, Table.count]

/-- Somebody has a unit if any slot counts one. -/
theorem unitsOn_le_units (p : Shared) (slot : ℕ) : p.unitsOn slot ≤ p.units := by
  refine Nat.add_le_add (List.countP_mono_left fun item _ hslot => ?_) List.countP_le_length
  have hslot : item.2.slot? = some slot := eq_of_beq hslot
  simp [hslot]

/-- As long as units are counted there is somebody who has one. -/
theorem Accounted.exists_holds {hand : Option ℕ} (h : Accounted p hand) (hpos : 0 < p.units) :
    ∃ name, p.Holds name := by
  rcases Nat.add_pos_iff_pos_or_pos.mp hpos with hborrows | hleases
  · obtain ⟨⟨name, borrow⟩, hmem, hslot⟩ := Table.count_pos_iff.mp hborrows
    obtain ⟨slot, hslot⟩ := Option.isSome_iff_exists.mp hslot
    exact ⟨name, slot, Or.inl ⟨borrow, h.borrows.get?_of_mem hmem, hslot⟩⟩
  · obtain ⟨⟨name, lease⟩, hmem⟩ := List.exists_mem_of_length_pos hleases
    exact ⟨name, lease.slot, Or.inr ⟨lease, h.leases.get?_of_mem hmem, rfl⟩⟩

/-- Somebody has a unit if none can be taken. -/
theorem Accounted.units_pos_of_full (h : Accounted p none) (ht : 0 < p.target) (hf : p.Full) :
    0 < p.units := by
  obtain ⟨hfull, hslots⟩ := hf
  obtain ⟨s, hs⟩ := List.exists_mem_of_length_pos (l := p.live) (by omega)
  have hload := h.load s (mem_live.mp hs).1
  simp only [reduceCtorEq, if_false, Nat.add_zero] at hload
  have hpos := h.depth_pos
  have hle := hfull s hs
  have := p.unitsOn_le_units s.id
  omega

/-! ### Giving a unit back -/

/-- A unit that is handed on goes to a borrower whose ticket leaves the queue, or the queue is empty. -/
theorem units_handOn (hd : p.borrows.Distinct) (slot : ℕ) :
    (p.handOn slot p.queue).units = p.units + 1 ∧
        (p.handOn slot p.queue).queue.length + 1 ≤ p.queue.length ∨
      (p.handOn slot p.queue).units = p.units ∧ (p.handOn slot p.queue).queue = [] := by
  rcases handOn_cases p slot p.queue with ⟨passed, ticket, rest, name, hqueue, -, hname, e⟩ | ⟨-, e⟩
  · left
    have hcount := hd.count_eq_remove (fun borrow => borrow.slot?.isSome) (waiter?_eq_some hd hname)
    have hput := hd.count_put (fun borrow => borrow.slot?.isSome) name (.assigned slot)
    rw [e, units, units, hqueue]
    simp only [SharedBorrow.slot?, Option.isSome_some, Option.isSome_none, Bool.toNat_true,
      Bool.toNat_false, List.length_append, List.length_cons] at hput hcount ⊢
    constructor <;> omega
  · right
    rw [e]
    exact ⟨rfl, rfl⟩

/-- Retiring a slot leaves the units and the queue alone. -/
theorem units_congr (hb : q.borrows = p.borrows) (hl : q.leases = p.leases) : q.units = p.units := by
  rw [units, units, hb, hl]

/-- A unit in hand is given back: either it is gone, or a ticket is. And if nobody has a unit
afterwards there is no queue. -/
theorem Accounted.units_giveUnit (h : Accounted p (some slot)) (ht : 0 < p.target) (retire : Bool) :
    (p.giveUnit slot retire).units + (p.giveUnit slot retire).queue.length ≤
        p.units + p.queue.length ∧
      ((p.giveUnit slot retire).queue = [] ∨ 0 < (p.giveUnit slot retire).units) := by
  obtain ⟨s, hs⟩ := h.exists_slot?
  obtain ⟨hb, hl, hqueue, -⟩ := p.retireSlot_parts s
  have hunits := units_congr hb hl
  have hretired := h.retireSlot hs
  -- handing on in a pool with the same borrowers and the same queue
  have hhands : ∀ {q : Shared} (slot : ℕ), q.borrows.Distinct → q.units = p.units → q.queue = p.queue →
      (q.handOn slot q.queue).units + (q.handOn slot q.queue).queue.length ≤ p.units + p.queue.length ∧
        ((q.handOn slot q.queue).queue = [] ∨ 0 < (q.handOn slot q.queue).units) := by
    intro q slot hd hu hq
    rcases units_handOn hd slot with ⟨hserved, hshorter⟩ | ⟨hsame, hempty⟩
    · have hlength := congrArg List.length hq
      exact ⟨by omega, Or.inr (by omega)⟩
    · refine ⟨?_, Or.inl hempty⟩
      rw [hsame, hempty, hu]
      simp
  rw [giveUnit_eq hs]
  split
  · exact hhands slot h.borrows rfl rfl
  split
  · next hnone => exact ⟨by rw [hunits, hqueue], Or.inl (hqueue.trans hnone)⟩
  split
  · next ha =>
    refine ⟨by rw [hunits, hqueue], Or.inr ?_⟩
    -- there is no room for a slot, so there is one that is full
    have htarget : 0 < (p.retireSlot s).target := by
      rw [(limits_eq_iff.mp (p.retireSlot_limits s)).1]
      exact ht
    exact hretired.units_pos_of_full htarget (assign?_eq_none_iff_full.mp ha)
  · next other q ha =>
    obtain ⟨hb', hl', hq', -⟩ := assign?_parts ha
    have hd : q.borrows.Distinct := (hretired.assign? ha).borrows
    exact hhands other hd ((units_congr hb' hl').trans hunits) (hq'.trans hqueue)

/-! ### Who gives a unit back -/

/-- A name under which nobody borrows and there is no lease gets no unit when one is given back. -/
theorem not_holds_giveUnit (hb : p.borrows.get? name = none) (hl : p.leases.get? name = none)
    (slot : ℕ) (retire : Bool) : ¬ (p.giveUnit slot retire).Holds name := by
  rintro ⟨other, ⟨borrow, hget, -⟩ | ⟨lease, hget, -⟩⟩
  · rw [borrows_giveUnit (unqueued_of_none hb), hb] at hget
    simp at hget
  · rw [leases_giveUnit, hl] at hget
    simp at hget

/-- Whoever has a unit can give it back. -/
theorem Accounted.exists_gives (h : Accounted p none) (hholds : p.Holds name) :
    ∃ event : Event, event.goesOn = true ∧ event.name? = some name ∧ p.gives event = true := by
  obtain ⟨slot, ⟨borrow, hget, hslot⟩ | ⟨lease, hget, rfl⟩⟩ := hholds
  · refine ⟨.cancel name, rfl, rfl, ?_⟩
    obtain ⟨q, -, -, hb, hl, e⟩ := h.gives_cancel hget hslot
    have hnone : q.borrows.get? name = none := by rw [hb, Table.get?_remove, if_pos rfl]
    have hlease : q.leases.get? name = none := by rw [hl, h.no_lease hget]
    have hgone : ¬ (p.step (.cancel name)).Holds name := by
      rw [Shared.step, e]
      exact not_holds_giveUnit hnone hlease slot false
    exact decide_eq_true ⟨⟨slot, Or.inl ⟨borrow, hget, hslot⟩⟩, hgone⟩
  · refine ⟨.release (fun _ => true) name, rfl, rfl, ?_⟩
    obtain ⟨q, -, -, hb, hl, e⟩ := h.gives_release hget fun _ => true
    have hnone : q.borrows.get? name = none := by rw [hb, h.no_borrow hget]
    have hlease : q.leases.get? name = none := by rw [hl, Table.get?_remove, if_pos rfl]
    have hgone : ¬ (p.step (.release (fun _ => true) name)).Holds name := by
      rw [Shared.step, e]
      exact not_holds_giveUnit hnone hlease _ _
    exact decide_eq_true ⟨⟨lease.slot, Or.inr ⟨lease, hget, rfl⟩⟩, hgone⟩

/-- An operation that ends the hold of its name on a unit is one release of a unit. -/
theorem Accounted.gives_step (h : Accounted p none) (hgives : p.gives event = true) :
    ∃ q slot retire, Quiet p q ∧ Accounted q (some slot) ∧ p.step event = q.giveUnit slot retire := by
  rw [gives] at hgives
  split at hgives
  case h_2 => simp at hgives
  next name hname =>
  obtain ⟨⟨slot, hhas⟩, hgone⟩ := of_decide_eq_true hgives
  -- an operation that leaves the pool as it is gives nothing back
  have hsame : p.step event ≠ p := by
    intro e
    rw [e] at hgone
    exact hgone ⟨slot, hhas⟩
  rcases hhas with ⟨borrow, hget, hslot⟩ | ⟨lease, hget, rfl⟩
  · have hborrows : p.borrows.has name = true := Table.has_eq_true_iff.mpr ⟨borrow, hget⟩
    have hleases := h.no_lease hget
    cases event with
    | borrow made other =>
      obtain rfl := Option.some.inj hname
      exact absurd (by simp [Shared.step, Shared.borrow, hborrows]) hsame
    | poll made other =>
      obtain rfl := Option.some.inj hname
      have hyields := h.yields_poll made hget hslot
      rw [Shared.step] at hgone ⊢
      generalize (p.poll made other).2 = q at hyields hgone
      cases hyields with
      | keeps same holds => exact absurd holds hgone
      | gives same books retire => exact ⟨_, _, retire, same, books, rfl⟩
    | cancel other =>
      obtain rfl := Option.some.inj hname
      obtain ⟨q, hquiet, hbooks, -, -, e⟩ := h.gives_cancel hget hslot
      exact ⟨q, slot, false, hquiet, hbooks, by rw [Shared.step, e]⟩
    | release accepts other =>
      obtain rfl := Option.some.inj hname
      exact absurd (by simp [Shared.step, Shared.release, hleases]) hsame
    | corrupt other =>
      obtain rfl := Option.some.inj hname
      exact absurd (by simp [Shared.step, Shared.corrupt, hleases]) hsame
    | dispose => simp [Event.name?] at hname
  · have hleases : p.leases.has name = true := Table.has_eq_true_iff.mpr ⟨lease, hget⟩
    have hborrows := h.no_borrow hget
    cases event with
    | borrow made other =>
      obtain rfl := Option.some.inj hname
      exact absurd (by simp [Shared.step, Shared.borrow, hleases]) hsame
    | poll made other =>
      obtain rfl := Option.some.inj hname
      exact absurd (by simp [Shared.step, Shared.poll, hborrows]) hsame
    | cancel other =>
      obtain rfl := Option.some.inj hname
      exact absurd (by simp [Shared.step, Shared.cancel, hborrows]) hsame
    | release accepts other =>
      obtain rfl := Option.some.inj hname
      obtain ⟨q, hquiet, hbooks, -, -, e⟩ := h.gives_release hget accepts
      exact ⟨q, lease.slot, _, hquiet, hbooks, by rw [Shared.step, e]⟩
    | corrupt other =>
      obtain rfl := Option.some.inj hname
      refine absurd ⟨lease.slot, Or.inr ⟨{ lease with corrupted := true }, ?_, rfl⟩⟩ hgone
      simp only [Shared.step, Shared.corrupt, hget]
      exact Table.get?_put_self _ _ _
    | dispose => simp [Event.name?] at hname

/-! ### One operation -/

/-- Apart from its limits and its slots, nothing that counts for the measure differs. -/
theorem Quiet.inFlight (h : Quiet p q) : q.inFlight = p.inFlight := by
  have hloads := congrArg (List.map fun s : ℕ × ℕ × Bool => s.2.1) h.slots
  rw [List.map_map, List.map_map] at hloads
  exact congrArg List.sum hloads

/-- A unit that was counted and is given back is gone, or a ticket is. -/
theorem Quiet.units_giveUnit (same : Quiet p q) (books : Accounted q (some slot)) (ht : 0 < p.target)
    (retire : Bool) :
    (q.giveUnit slot retire).units + (q.giveUnit slot retire).queue.length + 1 ≤
        p.inFlight + p.queue.length ∧
      ((q.giveUnit slot retire).queue = [] ∨ 0 < (q.giveUnit slot retire).units) := by
  have htarget : 0 < q.target := by
    rw [(limits_eq_iff.mp same.limits).1]
    exact ht
  obtain ⟨hle, hocc⟩ := books.units_giveUnit htarget retire
  have hflight := books.inFlight_eq
  have hlength := congrArg List.length same.queue
  rw [same.inFlight] at hflight
  simp only [Option.toList_some, List.length_singleton] at hflight
  exact ⟨by omega, hocc⟩

/-- What becomes of a unit raises neither the number of units nor the queue, and leaves no queue without
units. -/
theorem Ends.units (he : Ends p q) (h : Accounted q none) (ht : 0 < p.target)
    (hocc : p.queue = [] ∨ 0 < p.inFlight) :
    q.units + q.queue.length ≤ p.inFlight + p.queue.length ∧ (q.queue = [] ∨ 0 < q.units) := by
  have hflight := h.inFlight_eq
  simp only [Option.toList_none, List.length_nil, Nat.add_zero] at hflight
  cases he with
  | quiet same =>
    rw [same.inFlight] at hflight
    rw [same.queue, ← hflight]
    exact ⟨Nat.le_refl _, hocc⟩
  | give same books retire =>
    obtain ⟨hle, hocc'⟩ := same.units_giveUnit books ht retire
    exact ⟨by omega, hocc'⟩

/-- **The measure.** An operation that starts no borrower does not raise the number of units and tickets
together, and lowers it if it ends the hold of its name on a unit. -/
theorem Accounted.units_step (h : Accounted p none) (ht : 0 < p.target) (hgoes : event.goesOn = true)
    (hocc : p.queue = [] ∨ 0 < p.units) :
    (p.step event).units + (p.step event).queue.length + (p.gives event).toNat ≤
      p.units + p.queue.length := by
  have hflight : p.inFlight = p.units := h.inFlight_eq
  rw [← hflight] at hocc ⊢
  cases hg : p.gives event with
  | true =>
    obtain ⟨q, slot, retire, same, books, e⟩ := h.gives_step hg
    rw [e]
    exact (same.units_giveUnit books ht retire).1
  | false =>
    have hbooks := h.step event
    have hmove := h.move_step event
    generalize p.step event = q at hmove hbooks
    cases hmove with
    | ends kept nobody ends => exact (ends.units hbooks ht hocc).1
    | @leave name ticket waits =>
      -- the slots count what they did
      have hunits : (p.without name).inFlight = (p.without name).units := hbooks.inFlight_eq
      rw [← hunits]
      exact Nat.le_refl _
    | join starts full => simp [Event.goesOn] at hgoes
    | direct starts assigned ends => simp [Event.goesOn] at hgoes
    | dispose => simp [Event.goesOn] at hgoes

/-- No operation leaves a queue without units. -/
theorem Accounted.occupied_step (h : Accounted p none) (ht : 0 < p.target)
    (hocc : p.queue = [] ∨ 0 < p.units) (event : Event) :
    (p.step event).queue = [] ∨ 0 < (p.step event).units := by
  have hflight : p.inFlight = p.units := h.inFlight_eq
  have hbooks := h.step event
  have hmove := h.move_step event
  generalize p.step event = q at hmove hbooks
  have hflight' : q.inFlight = q.units := hbooks.inFlight_eq
  cases hmove with
  | ends kept nobody ends =>
    rw [← hflight] at hocc
    exact (ends.units hbooks ht hocc).2
  | leave waits =>
    rw [← hflight'] 
    rw [← hflight] at hocc
    exact hocc
  | join starts full =>
    right
    rw [← hflight']
    have hpos := h.units_pos_of_full ht full
    rw [← hflight] at hpos
    exact hpos
  | @direct made name slot q' r starts assigned ends =>
    have htaken := (h.assign? assigned).inFlight_eq
    simp only [Option.toList_some, List.length_singleton] at htaken
    have ht' : 0 < q'.target := by
      rw [(limits_eq_iff.mp (assign?_limits assigned)).1]
      exact ht
    exact (ends.units hbooks ht' (Or.inr (by omega))).2
  | dispose => exact Or.inl rfl

/-- A borrower that waits waits on, or is handed a unit, or is dropped. -/
theorem Queueing.waits_step (hq : Queueing p) (h : Accounted p none) (hgoes : event.goesOn = true)
    {ticket : ℕ} (hw : p.Waits name ticket) :
    event = .cancel name ∧ name ∉ p.handed (p.step event) ∧ (∀ t, ¬ (p.step event).Waits name t) ∨
      event ≠ .cancel name ∧ ((p.step event).Waits name ticket ∧ name ∉ p.handed (p.step event) ∨
        (∀ t, ¬ (p.step event).Waits name t) ∧ name ∈ p.handed (p.step event)) := by
  by_cases hcancel : event = .cancel name
  · left
    subst hcancel
    have hnone : (p.step (.cancel name)).borrows.get? name = none := by
      have hget : p.borrows.get? name = some (.queued ticket) := hw
      simp only [Shared.step, Shared.cancel, hget]
      rw [Table.get?_remove, if_pos rfl]
    refine ⟨rfl, fun hmem => ?_, fun t hw' => ?_⟩
    · obtain ⟨-, borrow, slot, hget, -⟩ := (mem_handed h.borrows).mp hmem
      rw [hnone] at hget
      simp at hget
    · rw [Waits, hnone] at hw'
      simp at hw'
  · right
    refine ⟨hcancel, ?_⟩
    have hstays : (p.step event).Waits name ticket →
        (p.step event).Waits name ticket ∧ name ∉ p.handed (p.step event) := fun hw' =>
      ⟨hw', fun hmem => not_waits_of_mem_handed h.borrows hmem ticket hw'⟩
    have hmove := h.move_step event
    generalize p.step event = q at hmove hstays ⊢
    cases hmove with
    | ends kept nobody ends =>
      cases (hq.ends ends).1 with
      | nobody same => exact Or.inl (hstays ((same name ticket).mpr hw))
      | @oldest first t slot waits hfirst gets rest =>
        by_cases hname : name = first
        · subst hname
          right
          refine ⟨fun t hw' => ((rest name t).mp hw').1 rfl, ?_⟩
          exact (mem_handed h.borrows).mpr ⟨⟨ticket, hw⟩, .assigned slot, slot, gets, rfl⟩
        · exact Or.inl (hstays ((rest name ticket).mpr ⟨hname, hw⟩))
    | @leave other t waits =>
      have hne : name ≠ other := by
        rintro rfl
        exact hcancel rfl
      refine Or.inl (hstays ?_)
      rw [Waits, without, Table.get?_remove_of_ne _ hne]
      exact hw
    | join starts full => simp [Event.goesOn] at hgoes
    | direct starts assigned ends => simp [Event.goesOn] at hgoes
    | dispose => simp [Event.goesOn] at hgoes

/-- Nobody joins the queue unless a borrower is started. -/
theorem Queueing.not_waits_step (hq : Queueing p) (h : Accounted p none) (hgoes : event.goesOn = true)
    (hw : ∀ t, ¬ p.Waits name t) (t : ℕ) : ¬ (p.step event).Waits name t := by
  intro hw'
  rcases hq.waits_move (h.move_step event) hw' with ⟨hold, -⟩ | ⟨hstarts, -⟩
  · exact hw t hold
  · cases event <;> simp [starts?, Event.goesOn] at hstarts hgoes

/-! ### Runs -/

variable {events : List Event}

/-- Along a run without new borrowers each release takes one from the units and tickets together. -/
theorem Accounted.units_run (h : Accounted p none) (ht : 0 < p.target)
    (hgoes : ∀ event ∈ events, event.goesOn = true) (hocc : p.queue = [] ∨ 0 < p.units) :
    (p.run events).units + (p.run events).queue.length + p.releases events ≤
        p.units + p.queue.length ∧
      ((p.run events).queue = [] ∨ 0 < (p.run events).units) := by
  induction events generalizing p with
  | nil => exact ⟨Nat.le_refl _, hocc⟩
  | cons event events ih =>
    have hle := h.units_step ht (hgoes event List.mem_cons_self) hocc
    have ht' : 0 < (p.step event).target := by
      rw [(limits_eq_iff.mp (p.step_limits event)).1]
      exact ht
    obtain ⟨hrest, hlast⟩ := ih (h.step event) ht'
      (fun e he => hgoes e (List.mem_cons_of_mem event he)) (h.occupied_step ht hocc event)
    have hrun : p.run (event :: events) = (p.step event).run events := rfl
    refine ⟨?_, hlast⟩
    rw [hrun, releases]
    omega

theorem withdraws_cons : p.Withdraws name (event :: events) ↔
    (event = .cancel name ∧ ∃ ticket, p.Waits name ticket) ∨ (p.step event).Withdraws name events := by
  constructor
  · rintro ⟨before, after, e, hw⟩
    cases before with
    | nil =>
      obtain ⟨rfl, -⟩ := List.cons.inj e
      exact Or.inl ⟨rfl, hw⟩
    | cons first before =>
      obtain ⟨rfl, e'⟩ := List.cons.inj e
      exact Or.inr ⟨before, after, e', hw⟩
  · rintro (⟨rfl, hw⟩ | ⟨before, after, rfl, hw⟩)
    · exact ⟨[], events, rfl, hw⟩
    · exact ⟨event :: before, after, rfl, hw⟩

/-- Who does not wait is not handed a unit by what goes on, and cannot be dropped while it waits. -/
theorem Queueing.handings_eq_zero (hq : Queueing p) (h : Accounted p none)
    (hgoes : ∀ event ∈ events, event.goesOn = true) (hw : ∀ t, ¬ p.Waits name t) :
    p.handings name events = 0 ∧ ¬ p.Withdraws name events ∧ ∀ t, ¬ (p.run events).Waits name t := by
  induction events generalizing p with
  | nil => exact ⟨rfl, by rintro ⟨before, after, e, -⟩; simp at e, hw⟩
  | cons event events ih =>
    have hw' := hq.not_waits_step h (hgoes event List.mem_cons_self) hw
    obtain ⟨hzero, hnot, hlast⟩ := ih (hq.move (h.move_step event)) (h.step event)
      (fun e he => hgoes e (List.mem_cons_of_mem event he)) hw'
    have hnothanded : name ∉ p.handed (p.step event) := by
      intro hmem
      obtain ⟨⟨t, hwait⟩, -⟩ := (mem_handed h.borrows).mp hmem
      exact hw t hwait
    refine ⟨?_, ?_, hlast⟩
    · rw [handings, hzero, List.count_eq_zero_of_not_mem hnothanded]
    · rw [withdraws_cons]
      rintro (⟨-, t, hwait⟩ | hrest)
      · exact hw t hwait
      · exact hnot hrest

/-- A borrower that waits waits to the end, or is handed a unit once, or is dropped before. -/
theorem Queueing.handings_of_waits (hq : Queueing p) (h : Accounted p none)
    (hgoes : ∀ event ∈ events, event.goesOn = true) {ticket : ℕ} (hw : p.Waits name ticket) :
    (p.run events).Waits name ticket ∧ p.handings name events = 0 ∧ ¬ p.Withdraws name events ∨
      (∀ t, ¬ (p.run events).Waits name t) ∧
        (p.handings name events = 1 ∧ ¬ p.Withdraws name events ∨
          p.handings name events = 0 ∧ p.Withdraws name events) := by
  induction events generalizing p with
  | nil => exact Or.inl ⟨hw, rfl, by rintro ⟨before, after, e, -⟩; simp at e⟩
  | cons event events ih =>
    have hq' := hq.move (h.move_step event)
    have hgoes' : ∀ e ∈ events, Event.goesOn e = true := fun e he => hgoes e (List.mem_cons_of_mem event he)
    have hone : name ∈ p.handed (p.step event) → (p.handed (p.step event)).count name = 1 := by
      intro hmem
      refine List.count_eq_one_of_mem ?_ hmem
      exact (List.filter_sublist.map _).nodup h.borrows
    rw [withdraws_cons, handings]
    rcases hq.waits_step h (hgoes event List.mem_cons_self) hw with
      ⟨rfl, hnot, hgone⟩ | ⟨hne, ⟨hw', hnot⟩ | ⟨hgone, hmem⟩⟩
    · obtain ⟨hzero, -, hlast⟩ := hq'.handings_eq_zero (h.step _) hgoes' hgone
      refine Or.inr ⟨hlast, Or.inr ⟨?_, Or.inl ⟨rfl, ticket, hw⟩⟩⟩
      rw [hzero, List.count_eq_zero_of_not_mem hnot]
    · rw [List.count_eq_zero_of_not_mem hnot, Nat.zero_add]
      simp only [hne, false_and, false_or]
      exact ih hq' (h.step event) hgoes' hw'
    · obtain ⟨hzero, hnot, hlast⟩ := hq'.handings_eq_zero (h.step event) hgoes' hgone
      refine Or.inr ⟨hlast, Or.inl ⟨?_, ?_⟩⟩
      · rw [hone hmem, hzero]
      · rintro (⟨e, -⟩ | hrest)
        · exact hne e
        · exact hnot hrest

/-- There is no queue without units in a pool that was run from the start. -/
theorem occupied_run (kind : String) (options : SharedOptions) (events : List Event) :
    let p := (Shared.ofOptions kind options).run events
    Accounted p none ∧ 0 < p.target ∧ (p.queue = [] ∨ 0 < p.units) := by
  refine run_induction (P := fun p => Accounted p none ∧ 0 < p.target ∧ (p.queue = [] ∨ 0 < p.units))
    ⟨.ofOptions kind options, Nat.lt_of_lt_of_le Nat.zero_lt_one (Nat.le_max_right _ _), Or.inl rfl⟩ ?_ events
  rintro p event ⟨h, ht, hocc⟩
  refine ⟨h.step event, ?_, h.occupied_step ht hocc event⟩
  rw [(limits_eq_iff.mp (p.step_limits event)).1]
  exact ht

/-- **Nobody is stranded.** Take any run of a pool, `p` after it, and any continuation in which no borrower is
started, `q` after that. Somebody has a unit as long as there is a queue, and whoever has a unit can give it
back. Each release takes one at least from the units and tickets together, so after as many releases as there
were units and tickets the queue is empty. A borrower that waited is handed a unit once at most, and when the
queue is empty it was handed one exactly if it was not dropped while it waited. A release is one unit that is
given back, and giving it back comes to an end however many tickets of dropped borrowers it passes over. -/
theorem nobody_stranded (kind : String) (options : SharedOptions) (before rest : List Event)
    (hgoes : ∀ event ∈ rest, event.goesOn = true) :
    let p := (Shared.ofOptions kind options).run before
    let q := p.run rest
    (q.queue ≠ [] → ∃ name, q.Holds name) ∧
      (∀ name, q.Holds name →
        ∃ event : Event, event.goesOn = true ∧ event.name? = some name ∧ q.gives event = true) ∧
      q.units + q.queue.length + p.releases rest ≤ p.units + p.queue.length ∧
      (p.units + p.queue.length ≤ p.releases rest → q.queue = []) ∧
      (∀ name ticket, p.Waits name ticket → p.handings name rest ≤ 1 ∧
        (q.queue = [] → (p.handings name rest = 1 ↔ ¬ p.Withdraws name rest))) ∧
      (∀ event, q.gives event = true → ∃ r slot retire, Quiet q r ∧ Accounted r (some slot) ∧
        q.step event = r.giveUnit slot retire) ∧
      ∀ (r : Shared) (slot : ℕ) (retire : Bool), Accounted r (some slot) →
        r.passes slot retire (r.queue.length + 1) = some (r.giveUnit slot retire) := by
  intro p q
  obtain ⟨hbooks, ht, hocc⟩ := occupied_run kind options before
  have hbooks' : Accounted q none := by
    have := Accounted.run kind options (before ++ rest)
    rwa [run_append] at this
  have hqueue : Queueing p := .run kind options before
  have hqueue' : Queueing q := by
    have := Queueing.run kind options (before ++ rest)
    rwa [run_append] at this
  obtain ⟨hmeasure, hocc'⟩ := hbooks.units_run ht hgoes hocc
  have hle : q.units + q.queue.length + p.releases rest ≤ p.units + p.queue.length := hmeasure
  refine ⟨fun hne => ?_, fun name hholds => hbooks'.exists_gives hholds, hle, fun hmany => ?_, ?_,
    fun event hgives => hbooks'.gives_step hgives, fun r slot retire books => passes_giveUnit books retire⟩
  · exact hbooks'.exists_holds (hocc'.resolve_left hne)
  · exact List.eq_nil_of_length_eq_zero (by omega)
  · intro name ticket hw
    rcases hqueue.handings_of_waits hbooks hgoes hw with
      ⟨hwaits, hzero, -⟩ | ⟨-, ⟨hone, hnot⟩ | ⟨hzero, hwithdrawn⟩⟩
    · refine ⟨by omega, fun hempty => ?_⟩
      have hmem := hqueue'.mem name ticket hwaits
      rw [hempty] at hmem
      simp at hmem
    · exact ⟨by omega, fun _ => iff_of_true hone hnot⟩
    · exact ⟨by omega, fun _ => iff_of_false (by omega) fun hnot => hnot hwithdrawn⟩

/-- Two borrowers queue for the one unit there is, and are served in turn. -/
theorem nobody_stranded_two_waiting :
    let made : Creations := fun _ => some (.ok ())
    let accepts : ℕ → Bool := fun _ => true
    let p := (Shared.ofOptions "item" ⟨1, 1⟩).run [.borrow made "a", .borrow made "b", .borrow made "c"]
    let rest : List Event := [.release accepts "a", .poll made "b", .release accepts "b", .cancel "c"]
    p.queue.length = 2 ∧ (p.run rest).queue = [] ∧ p.handings "b" rest ≤ 1 := by
  intro made accepts p rest
  have hgoes : ∀ event ∈ rest, event.goesOn = true := by decide
  obtain ⟨-, -, -, hempty, hserved, -⟩ := nobody_stranded "item" ⟨1, 1⟩
    [.borrow made "a", .borrow made "b", .borrow made "c"] rest hgoes
  have hmany : p.units + p.queue.length ≤ p.releases rest := by decide
  have hwaits : p.borrows.get? "b" = some (.queued 0) := by decide
  exact ⟨by decide, hempty hmany, (hserved "b" 0 hwaits).1⟩

end units

end MemcachedClient.Pool.Shared
