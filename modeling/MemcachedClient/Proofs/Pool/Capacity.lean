import MemcachedClient.Proofs.Pool.Moves
import Mathlib.Data.List.Induction

/-!
# Capacity beside a queue

While somebody waits, a shared pool should have nothing to hand out: as many slots as the options
ask for, and each of them full (`Saturated`). Handing a unit on keeps that, and so does opening a slot
for the borrower that has waited longest. There is one way to lose it. When a slot is retired that
took borrowers, a new slot may be opened in its place, with room for as many units as a slot has, but
only one borrower of the queue is served; if another one waits and a slot has more than one unit, the
rest of the new slot stands free beside the queue (`Strands`).

`saturated_iff` says that this is the only way: the pool is saturated all along a run exactly if no
step of the run strands a borrower.
-/

namespace MemcachedClient.Pool.Shared

/-- Somebody waits. -/
def Queued (p : Shared) : Prop := ∃ name ticket, p.Waits name ticket

/-- Two borrowers wait. -/
def Crowded (p : Shared) : Prop :=
  ∃ name other ticket ticket', name ≠ other ∧ p.Waits name ticket ∧ p.Waits other ticket'

/-- Nothing can be handed out while somebody waits. -/
def Tight (p : Shared) : Prop := p.Queued → p.Full

/-- While somebody waits, there are as many slots that take borrowers as the options ask for, and
each of them has as many units in flight as the options allow. -/
def Saturated (options : SharedOptions) (p : Shared) : Prop :=
  p.Queued → p.live.length = options.atLeastOne.targetItemCount ∧
    ∀ s ∈ p.live, s.inFlight = options.atLeastOne.maxRequestsPerItem

/-- An operation retires a slot that took borrowers, while two borrowers wait and slots have room for
more than one unit. -/
def Strands (p : Shared) (event : Event) : Prop :=
  2 ≤ p.depth ∧ p.Crowded ∧ event ≠ .dispose ∧
    ∃ s ∈ p.live, s.id ∉ (p.step event).live.map (·.id)

section capacity

variable {p q r : Shared} {slot : ℕ}

theorem Crowded.queued (h : p.Crowded) : p.Queued := by
  obtain ⟨name, -, ticket, -, -, hw, -⟩ := h
  exact ⟨name, ticket, hw⟩

/-- A pool is saturated if nothing can be handed out beside the queue. -/
theorem Accounted.saturated_iff_tight (h : Accounted p none) {options : SharedOptions}
    (hlimits : p.limits = options.atLeastOne) : Saturated options p ↔ p.Tight := by
  have hfull : p.Full ↔ p.live.length = p.target ∧ ∀ s ∈ p.live, s.inFlight = p.depth := by
    constructor
    · rintro ⟨hunits, hslots⟩
      refine ⟨Nat.le_antisymm h.target hslots, fun s hs => ?_⟩
      exact Nat.le_antisymm (h.depth s (mem_live.mp hs).1) (hunits s hs)
    · rintro ⟨hslots, hunits⟩
      exact ⟨fun s hs => Nat.le_of_eq (hunits s hs).symm, Nat.le_of_eq hslots.symm⟩
  rw [Tight, hfull, Saturated, ← hlimits]
  rfl

/-! ### Giving a unit back -/

theorem Queueing.queue_ne_nil (hq : Queueing p) (hw : p.Queued) : p.queue ≠ [] := by
  obtain ⟨name, ticket, hw⟩ := hw
  exact List.ne_nil_of_mem (hq.mem name ticket hw)

/-- A unit that is handed on while somebody waits is not given back. -/
theorem Queueing.handOn_slots (hq : Queueing p) (hw : p.Queued) (slot : ℕ) :
    (p.handOn slot p.queue).slots = p.slots := by
  rcases handOn_cases p slot p.queue with ⟨_, _, _, _, -, -, -, e⟩ | ⟨hall, -⟩
  · rw [e]
  · obtain ⟨name, ticket, hw⟩ := hw
    exact absurd hw (waiter?_eq_none (hall ticket (hq.mem name ticket hw)) name)

/-- A unit that is handed on while somebody waits serves a borrower. -/
theorem Queueing.handOn_serves (hq : Queueing p) (hd : p.borrows.Distinct) (hw : p.Queued)
    (slot : ℕ) :
    ∃ name ticket, p.Waits name ticket ∧ ¬ (p.handOn slot p.queue).Waits name ticket := by
  rcases handOn_cases p slot p.queue with ⟨_, ticket, _, name, -, -, hname, e⟩ | ⟨hall, -⟩
  · refine ⟨name, ticket, waiter?_eq_some hd hname, ?_⟩
    rw [e, Waits, Table.get?_put_self]
    simp
  · obtain ⟨name, ticket, hw⟩ := hw
    exact absurd hw (waiter?_eq_none (hall ticket (hq.mem name ticket hw)) name)

theorem Accounted.length_live_retireSlot {hand : Option ℕ} (h : Accounted p hand) {s : Slot}
    (hs : s ∈ p.live) : (p.retireSlot s).live.length + 1 = p.live.length := by
  have hids : (p.live.map (·.id)).Nodup := (List.filter_sublist.map _).nodup h.ids
  have hone : (p.live.filter fun x => x.id = s.id).length = 1 := by
    have := List.count_eq_one_of_mem hids (List.mem_map_of_mem hs)
    rw [List.count, List.countP_map, List.countP_eq_length_filter] at this
    rw [← this]
    rfl
  rw [live_retireSlot, ← hone, Nat.add_comm]
  have := List.length_eq_length_filter_add (l := p.live) fun x => decide (x.id = s.id)
  rw [this]
  simp

theorem full_congr (hlimits : q.limits = p.limits) (hlive : q.live = p.live) :
    q.Full ↔ p.Full := by
  obtain ⟨ht, hd⟩ := limits_eq_iff.mp hlimits
  rw [Full, hlive, hd, ht]
  rfl

/-- A slot that was retired before takes no room with it. -/
theorem Accounted.live_retireSlot_of_retired {hand : Option ℕ} (h : Accounted p hand) {s : Slot}
    (hmem : s ∈ p.slots) (hr : s.retired = true) : (p.retireSlot s).live = p.live := by
  rw [live_retireSlot, List.filter_eq_self]
  intro x hx
  obtain ⟨hxmem, hxr⟩ := mem_live.mp hx
  rw [decide_eq_true_eq]
  intro e
  rw [eq_of_id_eq h.ids hxmem hmem e, hr] at hxr
  simp at hxr

/-- A slot that is retired leaves room for a new slot, whose first unit is handed on. -/
theorem Accounted.giveUnit_of_live (h : Accounted p (some slot)) (hf : p.Full)
    (hqueue : p.queue ≠ []) {s : Slot} (hs : p.slot? slot = some s) (hr : s.retired = false) :
    ∃ q, (p.retireSlot s).assign? = some (p.nextSlot, q) ∧
      p.giveUnit slot true = q.handOn p.nextSlot q.queue ∧
      q.live = (p.retireSlot s).live ++ [.ofId p.nextSlot] := by
  obtain ⟨hmem, rfl⟩ := slot?_eq_some hs
  obtain ⟨ht, hd⟩ := limits_eq_iff.mp (p.retireSlot_limits s)
  obtain ⟨-, -, -, -, hnext, -⟩ := p.retireSlot_parts s
  have hlength := h.length_live_retireSlot (mem_live.mpr ⟨hmem, hr⟩)
  have htarget := h.target
  cases ha : (p.retireSlot s).assign? with
  | none =>
    obtain ⟨-, hslots⟩ := assign?_eq_none_iff_full.mp ha
    omega
  | some pair =>
    obtain ⟨other, q⟩ := pair
    rcases assign?_cases ha with ⟨best, hbest, hbr, hroom, -, -⟩ | ⟨-, rfl, hq⟩
    · -- the other slots are full
      have hlive := mem_live.mpr ⟨hbest, hbr⟩
      rw [live_retireSlot] at hlive
      have hfull := hf.1 best (List.mem_of_mem_filter hlive)
      omega
    · rw [hnext] at hq ha ⊢
      refine ⟨q, rfl, ?_, ?_⟩
      · rw [giveUnit_eq hs, if_neg (by simp), if_neg hqueue, ha]
      · rw [hq, live, List.filter_append]
        rfl

/-- When a unit is given back while somebody waits, either the slots that take borrowers are those of
before and still full, or one of them is retired and a new one with one unit in flight stands in its
place, for a borrower that waited. -/
theorem Accounted.full_giveUnit (h : Accounted p (some slot)) (hq : Queueing p) (hf : p.Full)
    (hw : p.Queued) (retire : Bool) :
    ((∀ s ∈ p.live, s.id ∈ (p.giveUnit slot retire).live.map (·.id)) ∧
        (p.giveUnit slot retire).Full) ∨
      ((∃ s ∈ p.live, s.id ∉ (p.giveUnit slot retire).live.map (·.id)) ∧
        ((p.giveUnit slot retire).Full ↔ p.depth ≤ 1) ∧
        ∃ name ticket, p.Waits name ticket ∧ ¬ (p.giveUnit slot retire).Waits name ticket) := by
  obtain ⟨s, hs⟩ := h.exists_slot?
  obtain ⟨hmem, hid⟩ := slot?_eq_some hs
  have hlimits := p.giveUnit_limits slot retire
  have hsame : (p.giveUnit slot retire).live = p.live →
      (∀ s ∈ p.live, s.id ∈ (p.giveUnit slot retire).live.map (·.id)) ∧
        (p.giveUnit slot retire).Full := by
    intro hlive
    refine ⟨fun x hx => ?_, (full_congr hlimits hlive).mpr hf⟩
    rw [hlive]
    exact List.mem_map_of_mem hx
  cases hr : s.retired with
  | true =>
    left
    have hlive := h.live_retireSlot_of_retired hmem hr
    have hnone : (p.retireSlot s).assign? = none :=
      assign?_eq_none_iff_full.mpr ((full_congr (p.retireSlot_limits s) hlive).mpr hf)
    refine hsame ?_
    rw [giveUnit_eq hs, if_neg (by simp [hr]), if_neg (hq.queue_ne_nil hw), hnone]
    exact hlive
  | false =>
    cases retire with
    | false =>
      left
      refine hsame ?_
      rw [giveUnit_eq hs, if_pos ⟨rfl, hr⟩, live, hq.handOn_slots hw]
      rfl
    | true =>
      right
      obtain ⟨q, ha, hgive, hqlive⟩ := h.giveUnit_of_live hf (hq.queue_ne_nil hw) hs hr
      have hq' : Queueing q := (hq.retireSlot s).assign? ha
      have hborrows : q.borrows = p.borrows := (assign?_parts ha).1.trans (p.retireSlot_parts s).1
      have hwaits := waits_congr hborrows
      have hw' : q.Queued := by
        rw [Queued, hwaits]
        exact hw
      have hlive : (p.giveUnit slot true).live = (p.retireSlot s).live ++ [.ofId p.nextSlot] := by
        rw [hgive, live, hq'.handOn_slots hw']
        exact hqlive
      have hslive := mem_live.mpr ⟨hmem, hr⟩
      have hlength := h.length_live_retireSlot hslive
      obtain ⟨ht, hd⟩ := limits_eq_iff.mp hlimits
      refine ⟨⟨s, hslive, ?_⟩, ?_, ?_⟩
      · rw [hlive, live_retireSlot, List.map_append, List.mem_append, not_or]
        constructor
        · rw [List.mem_map]
          rintro ⟨x, hx, e⟩
          simpa [e] using List.of_mem_filter hx
        · have := h.ids_lt s hmem
          simp only [Slot.ofId, List.map_singleton, List.mem_singleton]
          omega
      · rw [Full, hlive, hd, ht, List.length_append, List.length_singleton, hlength]
        constructor
        · rintro ⟨hunits, -⟩
          exact hunits _ (List.mem_append_right _ (List.mem_singleton_self _))
        · intro hone
          refine ⟨fun x hx => ?_, hf.2⟩
          rcases List.mem_append.mp hx with hx | hx
          · rw [live_retireSlot] at hx
            exact hf.1 x (List.mem_of_mem_filter hx)
          · rw [List.mem_singleton.mp hx]
            exact hone
      · rw [hgive, ← hwaits]
        exact hq'.handOn_serves (hborrows ▸ h.borrows) hw' p.nextSlot

/-! ### One operation -/

theorem queued_congr (h : ∀ name ticket, q.Waits name ticket ↔ p.Waits name ticket) :
    q.Queued ↔ p.Queued :=
  exists_congr fun name => exists_congr fun ticket => h name ticket

/-- Where nobody waits, nobody waits after a unit is given back. -/
theorem Hands.not_queued (h : Hands p q) (hw : ¬ p.Queued) : ¬ q.Queued := by
  cases h with
  | nobody same => rwa [queued_congr same]
  | oldest waits first gets rest => exact absurd ⟨_, _, waits⟩ hw

/-- After the oldest borrower is served somebody waits if two did. -/
theorem Hands.queued_of_crowded (h : Hands p q) (hc : p.Crowded) : q.Queued := by
  cases h with
  | nobody same => exact (queued_congr same).mpr hc.queued
  | @oldest name ticket slot waits first gets rest =>
    obtain ⟨a, b, t, t', hne, ha, hb⟩ := hc
    by_cases e : a = name
    · exact ⟨b, t', (rest b t').mpr ⟨fun e' => hne (e.trans e'.symm), hb⟩⟩
    · exact ⟨a, t, (rest a t).mpr ⟨e, ha⟩⟩

/-- Where a borrower is served and somebody waits on, two borrowers waited. -/
theorem Hands.crowded (h : Hands p q) (hw : q.Queued)
    (hserved : ∃ name ticket, p.Waits name ticket ∧ ¬ q.Waits name ticket) : p.Crowded := by
  cases h with
  | nobody same =>
    obtain ⟨name, ticket, hw, hnot⟩ := hserved
    exact absurd ((same name ticket).mpr hw) hnot
  | @oldest name ticket slot waits first gets rest =>
    obtain ⟨other, t, hw⟩ := hw
    obtain ⟨hne, hw⟩ := (rest other t).mp hw
    exact ⟨name, other, ticket, t, hne.symm, waits, hw⟩

/-- A unit that is given back leaves nothing to hand out beside the queue, unless a slot with room for
two units is retired for it while two borrowers wait. -/
theorem Accounted.tight_giveUnit (h : Accounted p (some slot)) (hq : Queueing p) (ht : p.Tight)
    (retire : Bool) :
    (p.giveUnit slot retire).Tight ↔
      ¬ (2 ≤ p.depth ∧ p.Crowded ∧
        ∃ s ∈ p.live, s.id ∉ (p.giveUnit slot retire).live.map (·.id)) := by
  obtain ⟨s, hs⟩ := h.exists_slot?
  obtain ⟨hands, -⟩ := hq.giveUnit h.borrows hs retire
  by_cases hw : p.Queued
  · rcases h.full_giveUnit hq (ht hw) hw retire with ⟨hlive, hfull⟩ | ⟨hlive, hfull⟩
    · refine iff_of_true (fun _ => hfull) ?_
      rintro ⟨-, -, s, hs, hnot⟩
      exact hnot (hlive s hs)
    · rw [Tight, hfull.1]
      constructor
      · rintro htight ⟨hdepth, hc, -⟩
        have := htight (hands.queued_of_crowded hc)
        omega
      · intro hnot hw'
        by_contra hdepth
        exact hnot ⟨by omega, hands.crowded hw' hfull.2, hlive⟩
  · have hw' := hands.not_queued hw
    exact iff_of_true (fun hq => absurd hq hw') fun hc => hw hc.2.1.queued

theorem Queueing.tight_ends (h : Queueing p) (ht : p.Tight) (he : Ends p q) :
    q.Tight ↔ ¬ (2 ≤ p.depth ∧ p.Crowded ∧ ∃ s ∈ p.live, s.id ∉ q.live.map (·.id)) := by
  cases he with
  | quiet same =>
    have htight : q.Tight := by
      rw [Tight, queued_congr same.waits, same.full]
      exact ht
    refine iff_of_true htight ?_
    rintro ⟨-, -, s, hs, hnot⟩
    rw [same.live_ids] at hnot
    exact hnot (List.mem_map_of_mem hs)
  | @give q' same slot books retire =>
    have htight : q'.Tight := by
      rw [Tight, queued_congr same.waits, same.full]
      exact ht
    have hcrowded : q'.Crowded ↔ p.Crowded := by
      simp only [Crowded, same.waits]
    have hlive : ∀ ids : List ℕ, (∃ s ∈ q'.live, s.id ∉ ids) ↔ ∃ s ∈ p.live, s.id ∉ ids := by
      intro ids
      have hmem : ∀ r : Shared, (∃ s ∈ r.live, s.id ∉ ids) ↔
          ∃ id ∈ r.live.map (·.id), id ∉ ids := fun r => by simp
      rw [hmem, hmem, same.live_ids]
    have hq := h.congr same.waits same.queue same.nextTicket same.disposed
    rw [books.tight_giveUnit hq htight, hcrowded, hlive, (limits_eq_iff.mp same.limits).2]

/-- **One operation.** Where nothing can be handed out beside the queue, an operation leaves it so,
unless it strands a borrower. -/
theorem Accounted.tight_step (h : Accounted p none) (hq : Queueing p) (ht : p.Tight)
    (event : Event) : (p.step event).Tight ↔ ¬ p.Strands event := by
  have hmove := h.move_step event
  rw [Strands]
  generalize p.step event = q at hmove
  -- an operation after which nobody can be overtaken, and one that retires no slot
  have hidle : (q.live = p.live ∨ event = .dispose ∨ ¬ p.Queued) → q.Tight →
      (q.Tight ↔ ¬ (2 ≤ p.depth ∧ p.Crowded ∧ event ≠ .dispose ∧
        ∃ s ∈ p.live, s.id ∉ q.live.map (·.id))) := by
    intro hcase htight
    refine iff_of_true htight ?_
    rintro ⟨-, hc, hne, s, hs, hnot⟩
    rcases hcase with hlive | e | hw
    · rw [hlive] at hnot
      exact hnot (List.mem_map_of_mem hs)
    · exact hne e
    · exact hw hc.queued
  cases hmove with
  | ends kept nobody ends =>
    rw [hq.tight_ends ht ends]
    simp only [ne_eq, kept, not_false_eq_true, true_and]
  | leave waits =>
    refine hidle (Or.inl rfl) ?_
    rintro ⟨other, t, hw⟩
    exact ht ⟨other, t, hw.of_without⟩
  | join starts full => exact hidle (Or.inl rfl) fun _ => full
  | direct starts assigned ends =>
    have hw : ¬ p.Queued := by
      intro hw
      rw [assign?_eq_none_iff_full.mpr (ht hw)] at assigned
      simp at assigned
    refine hidle (Or.inr (Or.inr hw)) fun hw' => ?_
    have hq' := hq.assign? assigned
    refine absurd hw' ((hq'.ends ends).1.not_queued ?_)
    rw [Queued, waits_congr (assign?_parts assigned).1]
    exact hw
  | dispose =>
    refine hidle (Or.inr (Or.inl rfl)) ?_
    rintro ⟨name, ticket, hw⟩
    exact absurd hw (not_waits_dispose p name ticket)

end capacity

/-! ### Runs -/

section runs

variable (kind : String) (options : SharedOptions)

/-- Nothing can be handed out beside the queue all along a run exactly if no operation strands a
borrower. -/
theorem tight_iff (events : List Event) :
    (∀ before, before <+: events → ((Shared.ofOptions kind options).run before).Tight) ↔
      ∀ before event, before ++ [event] <+: events →
        ¬ ((Shared.ofOptions kind options).run before).Strands event := by
  -- one operation after another, from the first
  induction events using List.reverseRecOn with
  | nil =>
    have hstart : (Shared.ofOptions kind options).Tight := by
      rintro ⟨name, ticket, hw⟩
      simp [Waits, Shared.ofOptions, Table.get?] at hw
    constructor
    · intro _ before event hprefix
      simp at hprefix
    · intro _ before hprefix
      rw [List.prefix_nil.mp hprefix]
      exact hstart
  | append_singleton events event ih =>
    have hstep : ((Shared.ofOptions kind options).run events).Tight →
        (((Shared.ofOptions kind options).run (events ++ [event])).Tight ↔
          ¬ ((Shared.ofOptions kind options).run events).Strands event) := by
      intro ht
      rw [run_concat]
      exact (Accounted.run kind options events).tight_step (.run kind options events) ht event
    simp only [List.prefix_concat_iff]
    constructor
    · intro htight
      have hbefore := fun before h => htight before (Or.inr h)
      rintro before e (heq | hprefix)
      · obtain ⟨rfl, rfl⟩ := List.append_singleton_inj.mp heq
        exact (hstep (hbefore _ List.prefix_rfl)).mp (htight _ (Or.inl rfl))
      · exact ih.mp hbefore before e hprefix
    · intro hnone
      have hbefore := ih.mpr fun before e h => hnone before e (Or.inr h)
      rintro before (rfl | hprefix)
      · exact (hstep (hbefore _ List.prefix_rfl)).mpr (hnone _ _ (Or.inl rfl))
      · exact hbefore before hprefix

/-- **No idle capacity beside a queue**, and when there is: all along a run, while somebody waits
there are as many slots as the options ask for and each is full, exactly if no operation retires a
slot that took borrowers and has room for two units while two borrowers wait. -/
theorem saturated_iff (events : List Event) :
    (∀ before, before <+: events →
        Saturated options ((Shared.ofOptions kind options).run before)) ↔
      ∀ before event, before ++ [event] <+: events →
        ¬ ((Shared.ofOptions kind options).run before).Strands event := by
  rw [← tight_iff]
  refine forall_congr' fun before => imp_congr_right fun _ => ?_
  exact (Accounted.run kind options before).saturated_iff_tight (run_limits _ before)

end runs

/-- A slot with two units is lent to two borrowers, two more wait, and the first lease is given back
corrupted: one of the two that wait is served, and half of the new slot stands free beside the
other. -/
theorem not_saturated_of_corrupted :
    let made : Creations := fun _ => some (.ok ())
    let events : List Event := [.borrow made "a", .borrow made "b", .borrow made "w",
      .borrow made "v", .corrupt "a", .release (fun _ => true) "a"]
    ¬ Saturated ⟨1, 2⟩ ((Shared.ofOptions "item" ⟨1, 2⟩).run events) := by
  intro made events h
  have hwaits : ((Shared.ofOptions "item" ⟨1, 2⟩).run events).borrows.get? "v" =
      some (.queued 1) := by decide
  have hloads : ((Shared.ofOptions "item" ⟨1, 2⟩).run events).loads = [1] := by decide
  obtain ⟨-, hunits⟩ := h ⟨"v", 1, hwaits⟩
  have hone : 1 ∈ ((Shared.ofOptions "item" ⟨1, 2⟩).run events).loads := by
    rw [hloads]
    exact List.mem_singleton_self 1
  obtain ⟨s, hs, e⟩ := List.mem_map.mp hone
  rw [hunits s hs] at e
  simp [SharedOptions.atLeastOne] at e

end MemcachedClient.Pool.Shared
