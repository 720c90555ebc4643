import MemcachedClient.Proofs.Pool.Capacity
import MemcachedClient.Proofs.Pool.Creation
import Mathlib.Data.Fintype.EquivFin

/-!
# Fairness of a shared pool

Borrowers that queue should be served in the order in which they came, and no borrower that comes
later should be assigned a unit while one of them waits. A pool does not keep the order in which its
borrowers were started, so a `Chronicle` does: it numbers them, and notes the number of each borrower
that is assigned a unit. `InOrder` is the property: each borrower that waits was started after all
borrowers that have been assigned a unit.

A unit that is given back goes to the borrower that has waited longest (`Hands`), so the order can be
lost in one way only: a borrower that starts finds a unit to spare although somebody waits. That needs
capacity beside a queue, and `inOrder_iff` says so: a run is fair all along, whoever comes next,
exactly if no operation of it strands a borrower.
-/

namespace MemcachedClient.Pool.Shared

/-- The borrowers that waited in `p` and have a unit in `q`. -/
def handed (p q : Shared) : List String :=
  (p.borrows.filter fun item =>
    item.2.isQueued && ((q.borrows.get? item.1).bind (·.slot?)).isSome).map (·.1)

section handed

variable {p q : Shared} {event : Event} {name : String} {ticket : ℕ}

theorem mem_handed (hd : p.borrows.Distinct) : name ∈ p.handed q ↔ (∃ ticket, p.Waits name ticket) ∧
    ∃ borrow slot, q.borrows.get? name = some borrow ∧ borrow.slot? = some slot := by
  have hunit : ((q.borrows.get? name).bind (·.slot?)).isSome = true ↔
      ∃ borrow slot, q.borrows.get? name = some borrow ∧ borrow.slot? = some slot := by
    rw [Option.isSome_iff_exists]
    simp only [Option.bind_eq_some_iff]
    exact exists_comm.trans (by simp)
  rw [← hunit, handed, List.mem_map]
  constructor
  · rintro ⟨⟨_, borrow⟩, hmem, rfl⟩
    obtain ⟨hmem, hboth⟩ := List.mem_filter.mp hmem
    obtain ⟨hqueued, hslot⟩ := Bool.and_eq_true_iff.mp hboth
    cases borrow with
    | queued ticket => exact ⟨⟨ticket, (hd.get?_eq_some_iff).mpr hmem⟩, hslot⟩
    | _ => simp [SharedBorrow.isQueued] at hqueued
  · rintro ⟨⟨ticket, hw⟩, hslot⟩
    refine ⟨(name, .queued ticket), List.mem_filter.mpr ⟨Table.mem_of_get? hw, ?_⟩, rfl⟩
    exact Bool.and_eq_true_iff.mpr ⟨rfl, hslot⟩

/-- A borrower that was handed a unit waits no longer. -/
theorem not_waits_of_mem_handed (hd : p.borrows.Distinct) (h : name ∈ p.handed q) (ticket : ℕ) :
    ¬ q.Waits name ticket := by
  obtain ⟨-, borrow, slot, hget, hslot⟩ := (mem_handed hd).mp h
  intro hw
  rw [Waits, hget, Option.some.injEq] at hw
  rw [hw] at hslot
  simp [SharedBorrow.slot?] at hslot

/-- Who waits after a unit was given back waited before. -/
theorem Hands.waits (h : Hands p q) (hw : q.Waits name ticket) : p.Waits name ticket := by
  cases h with
  | nobody same => exact (same name ticket).mp hw
  | oldest waits first gets rest => exact ((rest name ticket).mp hw).2

/-- Who waits after an operation waited before it, or was started by it when no unit could be
taken. -/
theorem Queueing.waits_move (hq : Queueing p) (hm : Move p event q) (hw : q.Waits name ticket) :
    p.Waits name ticket ∧ p.starts? event ≠ some name ∨
      p.starts? event = some name ∧ ticket = p.nextTicket ∧ p.Full := by
  cases hm with
  | ends kept nobody ends => exact Or.inl ⟨(hq.ends ends).1.waits hw, by simp [nobody]⟩
  | leave waits => exact Or.inl ⟨hw.of_without, by simp [starts?]⟩
  | @join made other starts full =>
    rw [Waits, Table.get?_put] at hw
    split at hw
    · next e =>
      rw [Option.some.injEq, SharedBorrow.queued.injEq] at hw
      exact Or.inr ⟨by rw [starts?, if_pos starts, e], hw.symm, full⟩
    · next hne =>
      refine Or.inl ⟨hw, ?_⟩
      rw [starts?, if_pos starts]
      exact fun e => hne (Option.some.inj e).symm
  | @direct made other slot q' r starts assigned ends =>
    have hw' := ((hq.assign? assigned).ends ends).1.waits hw
    rw [waits_congr (assign?_parts assigned).1] at hw'
    refine Or.inl ⟨hw', ?_⟩
    rw [starts?, if_pos starts]
    intro e
    rw [Waits, ← Option.some.inj e, (admits_iff.mp starts).1] at hw'
    simp at hw'
  | dispose => exact absurd hw (not_waits_dispose p name ticket)

/-- Who is handed a unit has waited longer than each who waits on. -/
theorem Hands.lt_of_handed (h : Hands p q) (hq : Queueing p) (hd : p.borrows.Distinct)
    (hname : name ∈ p.handed q) (hw : p.Waits name ticket) {other : String} {ticket' : ℕ}
    (hw' : q.Waits other ticket') : ticket < ticket' := by
  have hgone := not_waits_of_mem_handed hd hname
  cases h with
  | nobody same => exact absurd ((same name ticket).mpr hw) (hgone ticket)
  | @oldest first t slot waits hfirst gets rest =>
    have hname' : name = first := by
      by_contra hne
      exact hgone ticket ((rest name ticket).mpr ⟨hne, hw⟩)
    obtain ⟨hne, hother⟩ := (rest other ticket').mp hw'
    subst hname'
    rw [Waits] at hw waits
    rw [hw, Option.some.injEq, SharedBorrow.queued.injEq] at waits
    refine Nat.lt_of_le_of_ne (waits ▸ hfirst other ticket' hother) ?_
    rintro rfl
    exact hne (hq.alone other name ticket hother hw)

/-- Who is handed a unit by an operation has waited longer than each who waits on. -/
theorem Queueing.lt_of_handed (hq : Queueing p) (hd : p.borrows.Distinct) (hm : Move p event q)
    (hname : name ∈ p.handed q) (hw : p.Waits name ticket) {other : String} {ticket' : ℕ}
    (hw' : q.Waits other ticket') : ticket < ticket' := by
  have hgone := not_waits_of_mem_handed hd hname
  cases hm with
  | ends kept nobody ends => exact (hq.ends ends).1.lt_of_handed hq hd hname hw hw'
  | @leave gone t waits =>
    obtain ⟨-, borrow, slot, hget, -⟩ := (mem_handed hd).mp hname
    rw [without, Table.get?_remove] at hget
    split at hget
    · simp at hget
    · next hne =>
      refine absurd ?_ (hgone ticket)
      rw [Waits, without, Table.get?_remove, if_neg hne]
      exact hw
  | @join made new starts full =>
    refine absurd ?_ (hgone ticket)
    rw [Waits, Table.get?_put, if_neg]
    · exact hw
    · rintro rfl
      rw [Waits, (admits_iff.mp starts).1] at hw
      simp at hw
  | @direct made new slot q' r starts assigned ends =>
    have hq' := hq.assign? assigned
    have hborrows := (assign?_parts assigned).1
    have hname' : name ∈ q'.handed q := by
      rw [handed, hborrows]
      exact hname
    have hwaits : q'.Waits name ticket := by
      rw [waits_congr hborrows]
      exact hw
    exact (hq'.ends ends).1.lt_of_handed hq' (hborrows ▸ hd) hname' hwaits hw'
  | dispose => exact absurd hw' (not_waits_dispose p other ticket')

/-- Somebody can always start in a pool that is not disposed. -/
theorem exists_admits (h : p.disposed = false) : ∃ name, p.admits name = true := by
  obtain ⟨name, hname⟩ := Infinite.exists_notMem_finset
    (p.borrows.map (·.1) ++ p.leases.map (·.1)).toFinset
  rw [List.mem_toFinset, List.mem_append, not_or] at hname
  exact ⟨name, admits_iff.mpr
    ⟨Table.get?_eq_none_iff.mpr hname.1, Table.get?_eq_none_iff.mpr hname.2, h⟩⟩

/-- A borrower that is assigned a unit keeps it as long as no creation fails. -/
theorem Running.quiet_enter {slot : ℕ} (h : Running p name slot)
    (hw : ∀ ticket, ¬ p.Waits name ticket)
    (hs : ∀ s, p.slot? slot = some s → ∀ cause, s.made ≠ some (.error cause)) :
    Quiet p (p.enter (fun _ => none) name slot).2 := by
  obtain ⟨s, hslot⟩ := h.books.exists_slot?
  have hslot' : p.slot? slot = some s := hslot
  simp only [Shared.enter, hslot']
  cases hmade : s.made with
  | some result =>
    cases result with
    | ok item =>
      exact (Quiet.without hw).trans ⟨rfl, rfl, rfl, rfl, rfl, fun _ _ => Iff.rfl⟩
    | error cause => exact absurd hmade (hs s hslot' cause)
  | none =>
    have hturn := Quiet.updateSlot p slot
      (Slot.keeps_turn fun _ => (s.turn.wait.2.poll s.turn.wait.1).2.2)
    simp only [Shared.await]
    split
    · refine hturn.trans (.trans ?_ (Quiet.put (p := { p.updateSlot slot _ with
        created := p.created + 1 }) hw (.creating slot _) rfl))
      exact ⟨rfl, rfl, rfl, rfl, rfl, fun _ _ => Iff.rfl⟩
    · refine hturn.trans ?_
      exact Quiet.put (p := p.updateSlot slot _) hw (.awaiting slot _) rfl

end handed

/-- A pool and the history of its borrowers. -/
structure Chronicle where
  /-- The pool. -/
  pool : Shared
  /-- The number of borrowers that were started. -/
  started : ℕ
  /-- The number of the borrower that was last started under each name, counted from 0. -/
  numbers : Table ℕ
  /-- The numbers of the borrowers that were assigned a unit. -/
  served : List ℕ

namespace Chronicle

/-- An empty pool, before any borrower was started. -/
def ofOptions (kind : String) (options : SharedOptions) : Chronicle :=
  ⟨.ofOptions kind options, 0, [], []⟩

/-- One operation. A borrower that it starts gets the next number. It serves that borrower if there is
a unit to spare, and each borrower that waited and is handed a unit. -/
def step (c : Chronicle) (event : Event) : Chronicle where
  pool := c.pool.step event
  started := if (c.pool.starts? event).isSome then c.started + 1 else c.started
  numbers :=
    match c.pool.starts? event with
    | some name => c.numbers.put name c.started
    | none => c.numbers
  served :=
    c.served
      ++ (if (c.pool.starts? event).isSome && c.pool.assign?.isSome then [c.started] else [])
      ++ (c.pool.handed (c.pool.step event)).filterMap c.numbers.get?

/-- The history of a run. -/
def run (c : Chronicle) (events : List Event) : Chronicle := events.foldl step c

/-- No borrower that waits was overtaken: those that were assigned a unit were started before it. -/
def InOrder (c : Chronicle) : Prop :=
  ∀ name ticket number, c.pool.Waits name ticket → c.numbers.get? name = some number →
    ∀ other ∈ c.served, other < number

/-- The numbers of the borrowers that wait are in the order of their tickets, and all numbers are of
borrowers that were started. -/
structure Recorded (c : Chronicle) : Prop where
  /-- The books of the pool balance. -/
  books : Accounted c.pool none
  /-- The queue of the pool is in order. -/
  queueing : Queueing c.pool
  /-- A borrower that waits has a number. -/
  numbered : ∀ name ticket, c.pool.Waits name ticket →
    ∃ number, c.numbers.get? name = some number ∧ number < c.started
  /-- An older ticket goes with a smaller number. -/
  ordered : ∀ name other ticket ticket' number number', c.pool.Waits name ticket →
    c.pool.Waits other ticket' → c.numbers.get? name = some number →
    c.numbers.get? other = some number' → ticket < ticket' → number < number'
  /-- Who was served was started. -/
  served : ∀ number ∈ c.served, number < c.started

theorem pool_run (c : Chronicle) (events : List Event) :
    (c.run events).pool = c.pool.run events := by
  induction events generalizing c with
  | nil => rfl
  | cons event events ih => exact ih (c.step event)

variable {c : Chronicle}

theorem recorded_ofOptions (kind : String) (options : SharedOptions) :
    Recorded (.ofOptions kind options) := by
  have hnone : ∀ name ticket, ¬ (Chronicle.ofOptions kind options).pool.Waits name ticket := by
    intro name ticket hw
    simp [Waits, ofOptions, Shared.ofOptions, Table.get?] at hw
  exact ⟨.ofOptions kind options, .ofOptions kind options,
    fun name ticket hw => absurd hw (hnone name ticket),
    fun name _ ticket _ _ _ hw => absurd hw (hnone name ticket), by simp [ofOptions]⟩

theorem started_le_step (c : Chronicle) (event : Event) : c.started ≤ (c.step event).started := by
  simp only [step]
  split
  · exact Nat.le_succ _
  · exact Nat.le_refl _

namespace Recorded

/-- A borrower that waits after an operation has the number that it had before, or the next one. -/
theorem numbers_step (h : Recorded c) (event : Event) {name : String} {ticket : ℕ}
    (hw : (c.step event).pool.Waits name ticket) :
    c.pool.Waits name ticket ∧ (c.step event).numbers.get? name = c.numbers.get? name ∨
      ticket = c.pool.nextTicket ∧ (c.step event).numbers.get? name = some c.started ∧
        (c.step event).started = c.started + 1 ∧ c.pool.assign? = none := by
  rcases h.queueing.waits_move (h.books.move_step event) hw with ⟨hw, hne⟩ | ⟨e, ht, hf⟩
  · refine Or.inl ⟨hw, ?_⟩
    simp only [step]
    split
    · next other hother =>
      rw [Table.get?_put, if_neg]
      rintro rfl
      exact hne hother
    · rfl
  · refine Or.inr ⟨ht, ?_⟩
    simp only [step, e]
    exact ⟨Table.get?_put_self _ _ _, rfl, assign?_eq_none_iff_full.mpr hf⟩

/-- Who is served by an operation was served before it, is the borrower that it starts, or waited. -/
theorem served_step (h : Recorded c) (event : Event) {number : ℕ}
    (hserved : number ∈ (c.step event).served) :
    number ∈ c.served ∨
      (number = c.started ∧ (c.step event).started = c.started + 1 ∧ c.pool.assign? ≠ none) ∨
      ∃ name ticket, c.pool.Waits name ticket ∧ c.numbers.get? name = some number ∧
        name ∈ c.pool.handed (c.step event).pool := by
  simp only [step, List.mem_append] at hserved ⊢
  rcases hserved with (hmem | hmem) | hmem
  · exact Or.inl hmem
  · split at hmem
    · next hboth =>
      obtain ⟨hstarts, hassign⟩ := Bool.and_eq_true_iff.mp hboth
      refine Or.inr (Or.inl ⟨List.mem_singleton.mp hmem, by rw [if_pos hstarts], ?_⟩)
      rw [← Option.isSome_iff_ne_none]
      exact hassign
    · simp at hmem
  · obtain ⟨name, hname, hnumber⟩ := List.mem_filterMap.mp hmem
    obtain ⟨⟨ticket, hw⟩, -⟩ := (mem_handed h.books.borrows).mp hname
    exact Or.inr (Or.inr ⟨name, ticket, hw, hnumber, hname⟩)

/-- Every operation keeps the history in order. -/
theorem step (h : Recorded c) (event : Event) : Recorded (c.step event) := by
  have hle := started_le_step c event
  refine ⟨h.books.step event, h.queueing.move (h.books.move_step event), ?_, ?_, ?_⟩
  · intro name ticket hw
    rcases h.numbers_step event hw with ⟨hw, e⟩ | ⟨-, e, hstarted, -⟩
    · obtain ⟨number, hnumber, hlt⟩ := h.numbered name ticket hw
      exact ⟨number, e.trans hnumber, by omega⟩
    · exact ⟨c.started, e, by omega⟩
  · intro a b ta tb na nb ha hb hna hnb hlt
    rcases h.numbers_step event ha with ⟨ha, ea⟩ | ⟨hta, ea, -⟩ <;>
      rcases h.numbers_step event hb with ⟨hb, eb⟩ | ⟨htb, eb, -⟩
    · exact h.ordered a b ta tb na nb ha hb (ea ▸ hna) (eb ▸ hnb) hlt
    · obtain ⟨number, hnumber, hstarted⟩ := h.numbered a ta ha
      rw [ea, hnumber, Option.some.injEq] at hna
      rw [eb, Option.some.injEq] at hnb
      omega
    · have := h.queueing.lt tb (h.queueing.mem b tb hb)
      omega
    · omega
  · intro number hnumber
    rcases h.served_step event hnumber with hold | ⟨rfl, e, -⟩ | ⟨name, ticket, hw, e, -⟩
    · have := h.served number hold
      omega
    · omega
    · obtain ⟨number', hnumber', hlt⟩ := h.numbered name ticket hw
      rw [e, Option.some.injEq] at hnumber'
      omega

theorem run (kind : String) (options : SharedOptions) (events : List Event) :
    Recorded ((Chronicle.ofOptions kind options).run events) := by
  induction events using List.reverseRecOn with
  | nil => exact recorded_ofOptions kind options
  | append_singleton events event ih =>
    rw [Chronicle.run, List.foldl_append]
    exact ih.step event

/-- Where nothing can be handed out beside the queue, an operation overtakes nobody. -/
theorem inOrder_step (h : Recorded c) (ht : c.pool.Tight) (ho : c.InOrder) (event : Event) :
    (c.step event).InOrder := by
  intro name ticket number hw hnumber other hother
  rcases h.numbers_step event hw with ⟨hold, e⟩ | ⟨-, e, -, hnone⟩
  · rw [e] at hnumber
    rcases h.served_step event hother with hserved | ⟨-, -, hassign⟩ | ⟨name', t, hw', e', hname'⟩
    · exact ho name ticket number hold hnumber other hserved
    · exact absurd (assign?_eq_none_iff_full.mpr (ht ⟨name, ticket, hold⟩)) hassign
    · refine h.ordered name' name t ticket other number hw' hold e' hnumber ?_
      exact h.queueing.lt_of_handed h.books.borrows (h.books.move_step event) hname' hw' hw
  · rw [e, Option.some.injEq] at hnumber
    subst hnumber
    rcases h.served_step event hother with hserved | ⟨-, -, hassign⟩ | ⟨name', t, hw', e', -⟩
    · exact h.served other hserved
    · exact absurd hnone hassign
    · obtain ⟨number, hnumber, hlt⟩ := h.numbered name' t hw'
      rw [e', Option.some.injEq] at hnumber
      exact hnumber ▸ hlt

/-- Where a unit can be taken although somebody waits, the next borrower overtakes. -/
theorem not_inOrder_borrow (h : Recorded c) (hsound : c.pool.Sound none) (ht : ¬ c.pool.Tight) :
    ∃ made name, ¬ (c.step (.borrow made name)).InOrder := by
  rw [Tight, Classical.not_imp] at ht
  obtain ⟨⟨name, ticket, hw⟩, hfull⟩ := ht
  have hopen : c.pool.disposed = false := by
    by_contra hdisposed
    rw [Bool.not_eq_false] at hdisposed
    exact h.queueing.dismissed hdisposed name ticket hw
  obtain ⟨new, hnew⟩ := exists_admits hopen
  obtain ⟨hb, hl, -⟩ := admits_iff.mp hnew
  cases ha : c.pool.assign? with
  | none => exact absurd (assign?_eq_none_iff_full.mp ha) hfull
  | some pair =>
    obtain ⟨slot, q⟩ := pair
    obtain ⟨hborrows, hleases, -⟩ := assign?_parts ha
    have hrun : Running q new slot := by
      refine .of_new (h.books.assign? ha) ?_ ?_
      · rw [hborrows]
        exact Table.has_eq_false_iff.mpr hb
      · rw [hleases]
        exact Table.has_eq_false_iff.mpr hl
    have hidle : ∀ t, ¬ q.Waits new t := by
      intro t hw
      rw [Waits, hborrows, hb] at hw
      simp at hw
    have hquiet : Quiet q (q.enter (fun _ => none) new slot).2 := by
      refine hrun.quiet_enter hidle fun s hs cause hmade => ?_
      obtain ⟨hmem, hid⟩ := slot?_eq_some hs
      have hr := h.books.retired_eq_false_of_assign? ha s hmem hid
      exact absurd (hsound.assign? ha s hmem hr cause hmade) (by simp)
    have hstarts : c.pool.starts? (.borrow (fun _ => none) new) = some new := if_pos hnew
    have hstep : c.pool.step (.borrow (fun _ => none) new) =
        (q.enter (fun _ => none) new slot).2 := by
      have hfree : (c.pool.borrows.has new || c.pool.leases.has new) = false := by
        rw [Table.has_eq_false_iff.mpr hb, Table.has_eq_false_iff.mpr hl]
        rfl
      simp only [Shared.step, Shared.borrow, hfree, hopen, ha, Bool.false_eq_true, if_false]
    have hwaits : (c.step (.borrow (fun _ => none) new)).pool.Waits name ticket := by
      simp only [Chronicle.step, hstep]
      rw [hquiet.waits, waits_congr hborrows]
      exact hw
    obtain ⟨number, hnumber, hlt⟩ := h.numbered name ticket hw
    have hnumber' : (c.step (.borrow (fun _ => none) new)).numbers.get? name = some number := by
      simp only [Chronicle.step, hstarts]
      rw [Table.get?_put, if_neg]
      · exact hnumber
      · rintro rfl
        rw [Waits, hb] at hw
        simp at hw
    refine ⟨fun _ => none, new, fun ho => ?_⟩
    have := ho name ticket number hwaits hnumber' c.started (by simp [Chronicle.step, hstarts, ha])
    omega

end Recorded

theorem run_concat (c : Chronicle) (events : List Event) (event : Event) :
    c.run (events ++ [event]) = (c.run events).step event := by
  rw [run, List.foldl_append]
  rfl

/-- **Fairness**, and when it is lost: all along a run no borrower that waits is overtaken, neither by
what the run does nor by a borrower that starts next, exactly if no operation retires a slot that took
borrowers and has room for two units while two borrowers wait. -/
theorem inOrder_iff (kind : String) (options : SharedOptions) (events : List Event) :
    (∀ before, before <+: events →
        ((Chronicle.ofOptions kind options).run before).InOrder ∧
          ∀ made name,
            ((Chronicle.ofOptions kind options).run (before ++ [.borrow made name])).InOrder) ↔
      ∀ before event, before ++ [event] <+: events →
        ¬ ((Shared.ofOptions kind options).run before).Strands event := by
  have hpool : ∀ before, ((Chronicle.ofOptions kind options).run before).pool =
      (Shared.ofOptions kind options).run before := pool_run _
  rw [← tight_iff]
  constructor
  · intro h before hprefix
    by_contra ht
    rw [← hpool] at ht
    obtain ⟨made, name, hnot⟩ := (Recorded.run kind options before).not_inOrder_borrow
      (hpool before ▸ Sound.run kind options before) ht
    rw [← run_concat] at hnot
    exact hnot ((h before hprefix).2 made name)
  · intro h before hprefix
    have hstep : ∀ before, before <+: events → ((Chronicle.ofOptions kind options).run before).InOrder →
        ∀ event, ((Chronicle.ofOptions kind options).run (before ++ [event])).InOrder := by
      intro before hprefix ho event
      rw [run_concat]
      exact (Recorded.run kind options before).inOrder_step (hpool before ▸ h before hprefix) ho event
    have ho : ((Chronicle.ofOptions kind options).run before).InOrder := by
      induction before using List.reverseRecOn with
      | nil =>
        intro name ticket number _ _ other hother
        simp [run, ofOptions] at hother
      | append_singleton before event ih =>
        have hbefore : before <+: events := (List.prefix_append before [event]).trans hprefix
        exact hstep before hbefore (ih hbefore) event
    exact ⟨ho, fun made name => hstep before hprefix ho _⟩

/-- A slot with two units is lent to two borrowers, two more wait, and the first lease is given back
corrupted: the one that waited longer is served, and then one that has just come, before the other. -/
theorem not_inOrder_of_corrupted :
    let made : Creations := fun _ => some (.ok ())
    let events : List Event := [.borrow made "a", .borrow made "b", .borrow made "w",
      .borrow made "v", .corrupt "a", .release (fun _ => true) "a", .borrow made "n",
      .poll made "v"]
    ¬ ((Chronicle.ofOptions "item" ⟨1, 2⟩).run events).InOrder := by
  intro made events h
  have hwaits : ((Chronicle.ofOptions "item" ⟨1, 2⟩).run events).pool.borrows.get? "v" =
      some (.queued 1) := by decide
  have hnumber : ((Chronicle.ofOptions "item" ⟨1, 2⟩).run events).numbers.get? "v" = some 3 := by
    decide
  have hserved : 4 ∈ ((Chronicle.ofOptions "item" ⟨1, 2⟩).run events).served := by decide
  have := h "v" 1 3 hwaits hnumber 4 hserved
  omega

end Chronicle

end MemcachedClient.Pool.Shared
