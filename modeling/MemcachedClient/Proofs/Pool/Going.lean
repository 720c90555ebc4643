import MemcachedClient.Proofs.Pool.Lifetimes
import MemcachedClient.Proofs.Pool.Moves
import MemcachedClient.Proofs.Semaphore.Guarding

/-!
# How a borrower goes on that has a unit of a slot

Whoever has a unit of a slot and no lease yet is told the result of the creation of its item, or waits for the turn to
create it, or creates it. `Goes` lists these, and an operation on such a borrower is one of them (`goes_poll`,
`goes_borrow`). What an operation does can be read from outside: of which slot its borrower has a unit (`unit?`), which
creation it runs (`call?`), and to which result that has come (`completion?`).

The turn of a slot is a semaphore of one unit, and those who use it are the borrowers that have a unit of the slot. As
long as the creation has come to no result the turn is with one of them, or it can be taken (`Attended`). So there is
always a borrower that comes to a result when it goes on, as soon as its creation has (`Attended.exists_call`).
-/

namespace MemcachedClient.Pool

open Semaphore

/-- The place of a borrower before the turn to create the item of a slot. -/
def SharedBorrow.place? (slot : ℕ) : SharedBorrow → Option Handle
  | awaiting other place => if other = slot then some place else none
  | creating other _ => if other = slot then some .acquired else none
  | _ => none

@[simp] theorem SharedBorrow.place?_turnedAway (slot : ℕ) (borrow : SharedBorrow) :
    borrow.turnedAway.place? slot = borrow.place? slot := by
  cases borrow <;> rfl

/-- Who has a place before the turn of a slot has a unit of it. -/
theorem SharedBorrow.place?_eq_none {slot : ℕ} {borrow : SharedBorrow} (h : borrow.slot? ≠ some slot) :
    borrow.place? slot = none := by
  cases borrow <;> simp_all [place?, slot?]

namespace Shared

/-- The slot of which the borrower has a unit that an operation starts or goes on with. -/
def unit? (p : Shared) : Event → Option ℕ
  | .borrow _ name => if p.admits name then p.assign?.map (·.1) else none
  | .poll _ name => (p.borrows.get? name).bind (·.slot?)
  | _ => none

/-- The creation that an operation starts, or that its borrower runs already. -/
def call? (p : Shared) (event : Event) : Option ℕ :=
  if p.created < (p.step event).created then some p.created
  else
    match event with
    | .poll _ name => (p.borrows.get? name).bind (·.item?)
    | _ => none

/-- The result to which an operation brings the creation of the item of a slot. -/
def completion? (p : Shared) (event : Event) : Option (ℕ × Except ClientError ℕ) :=
  match p.unit? event, p.call? event with
  | some slot, some item => (event.told item).map fun result => (slot, result.map fun () => item)
  | _, _ => none

/-- What becomes of the borrower `name` that has a unit of the slot `s` and this place before its turn, and the creation
that it runs then. -/
inductive Goes (p : Shared) (made : Creations) (name : String) (s : Slot) (place : Option Handle) :
    Option ℕ → Report × Shared → Prop where
  /-- It is told the result of the creation. -/
  | told {result : Except ClientError ℕ} (known : s.made = some result) :
    Goes p made name s place none (p.settle name s.id result)
  /-- It waits for its turn. -/
  | waits {turn : Semaphore} {place' : Handle} (idle : s.made = none) (shift : Shift s.turn place turn (some place')) :
    Goes p made name s place none (.pending, { p.updateSlot s.id fun s => { s with turn := turn } with
      borrows := p.borrows.put name (.awaiting s.id place') })
  /-- It has its turn and starts a creation. -/
  | starts {turn : Semaphore} (idle : s.made = none) (shift : Shift s.turn place turn (some .acquired)) :
    Goes p made name s place (some p.created)
      ({ p.updateSlot s.id fun s => { s with turn := turn } with created := p.created + 1 }.proceed made name s.id
        p.created)
  /-- It goes on with the creation that it runs. -/
  | resumes {item : ℕ} (idle : s.made = none) (running : p.borrows.get? name = some (.creating s.id item)) :
    Goes p made name s place (some item) (p.proceed made name s.id item)

section goes

variable {p q : Shared} {made : Creations} {name : String} {slot : ℕ} {s : Slot} {place : Option Handle}
  {call : Option ℕ} {answer : Report × Shared}

/-- Who looks whether its turn has come. -/
theorem goes_await {handle : Handle} {turn : Semaphore} (idle : s.made = none)
    (shift : Shift s.turn place turn (some handle)) :
    ∃ call, Goes p made name s place call (p.await made name s.id handle turn) := by
  have hlook := shift.trans (Shift.look turn handle)
  simp only [Shared.await]
  split
  · next htaken =>
    rw [poll_eq_acquired htaken] at hlook
    exact ⟨_, .starts idle hlook⟩
  · exact ⟨_, .waits idle hlook⟩

/-- Who has not asked for its turn. -/
theorem goes_enter (made : Creations) (name : String) (hs : p.slot? slot = some s) :
    ∃ call, Goes p made name s none call (p.enter made name slot) := by
  obtain ⟨-, rfl⟩ := slot?_eq_some hs
  simp only [Shared.enter, hs]
  split
  · next result known => exact ⟨_, .told known⟩
  · next idle => exact goes_await idle (.ask s.turn)

/-- A creation that is not one of before was started. -/
theorem Goes.call_eq (h : Goes p made name s place call answer)
    (hnot : ∀ slot item, p.borrows.get? name ≠ some (.creating slot item)) :
    call = if p.created < answer.2.created then some p.created else none := by
  cases h with
  | told known => simp
  | waits idle shift => simp [Shared.updateSlot]
  | starts idle shift => simp
  | resumes idle running => exact absurd running (hnot _ _)

/-- **Going on with a borrower** that has a unit. -/
theorem goes_poll (h : Balanced p) (made : Creations) {borrow : SharedBorrow}
    (hget : p.borrows.get? name = some borrow) (hslot : borrow.slot? = some slot) (hs : p.slot? slot = some s) :
    Goes p made name s (borrow.place? slot) (p.call? (.poll made name)) (p.poll made name) := by
  obtain ⟨hmem, hid⟩ := slot?_eq_some hs
  -- a borrower that creates nothing comes to a creation only by starting one
  have hcall : ∀ {call}, Goes p made name s (borrow.place? slot) call (p.poll made name) →
      borrow.item? = none → Goes p made name s (borrow.place? slot) (p.call? (.poll made name)) (p.poll made name) := by
    intro call hgoes hitem
    have hnot : ∀ slot item, p.borrows.get? name ≠ some (.creating slot item) := by
      intro slot item hcreating
      rw [hget, Option.some.injEq] at hcreating
      rw [hcreating] at hitem
      simp [SharedBorrow.item?] at hitem
    have hsame : p.call? (.poll made name) = call := by
      rw [hgoes.call_eq hnot, call?]
      simp [Shared.step, hget, hitem]
    exact hsame ▸ hgoes
  cases borrow with
  | queued | refused => simp [SharedBorrow.slot?] at hslot
  | assigned own =>
    obtain rfl := Option.some.inj hslot
    have hpoll : p.poll made name = p.enter made name own := by simp only [Shared.poll, hget]
    obtain ⟨call, hgoes⟩ := goes_enter made name hs
    exact hcall (hpoll ▸ hgoes) rfl
  | creating own item =>
    obtain rfl := Option.some.inj hslot
    have hpoll : p.poll made name = p.proceed made name own item := by simp only [Shared.poll, hget]
    have hsame : p.call? (.poll made name) = some item := by
      simp [call?, Shared.step, hpoll, hget, SharedBorrow.item?]
    rw [hsame, hpoll, ← hid]
    exact .resumes (h.turned.made_eq_none h.books.borrows hget hmem hid) (hid ▸ hget)
  | awaiting own handle =>
    obtain rfl := Option.some.inj hslot
    have hplace : (SharedBorrow.awaiting own handle).place? own = some handle := if_pos rfl
    have hgoes : ∃ call, Goes p made name s (some handle) call (p.poll made name) := by
      simp only [Shared.poll, hget, hs]
      split
      · next result known =>
        rw [← hid]
        exact ⟨_, .told known⟩
      · next idle =>
        rw [← hid]
        exact goes_await idle (.stay s.turn (some handle))
    obtain ⟨call, hgoes⟩ := hgoes
    exact hcall (hplace ▸ hgoes) rfl

/-- A name that cannot borrow starts nothing. -/
theorem step_borrow_of_not_admits (made : Creations) (hstarts : p.admits name = false) :
    p.step (.borrow made name) = p := by
  rw [Bool.eq_false_iff, ne_eq, admits_iff] at hstarts
  simp only [Shared.step, Shared.borrow]
  split
  · rfl
  next hfree =>
  split
  · rfl
  next hopen =>
  rw [Bool.not_eq_true, Bool.or_eq_false_iff, Table.has_eq_false_iff, Table.has_eq_false_iff] at hfree
  exact absurd ⟨hfree.1, hfree.2, Bool.eq_false_iff.mpr hopen⟩ hstarts

/-- **Starting a borrower** that is assigned a unit. -/
theorem goes_borrow (h : Accounted p none) (made : Creations) (hstarts : p.admits name = true)
    (ha : p.assign? = some (slot, q)) : ∃ s, q.slot? slot = some s ∧
      Goes q made name s none (p.call? (.borrow made name)) (p.borrow made name) := by
  obtain ⟨hb, hl, hopen⟩ := admits_iff.mp hstarts
  obtain ⟨s, hs⟩ := (h.assign? ha).exists_slot?
  have hborrow : p.borrow made name = q.enter made name slot := by
    simp [Shared.borrow, Table.has_eq_false_iff.mpr hb, Table.has_eq_false_iff.mpr hl, hopen, ha]
  obtain ⟨call, hgoes⟩ := goes_enter made name hs
  have hnot : ∀ slot item, q.borrows.get? name ≠ some (.creating slot item) := by
    intro slot item hcreating
    rw [(assign?_parts ha).1, hb] at hcreating
    simp at hcreating
  have hsame : p.call? (.borrow made name) = call := by
    have hcall : p.call? (.borrow made name) =
        if p.created < (p.borrow made name).2.created then some p.created else none := rfl
    rw [hgoes.call_eq hnot, hcall, assign?_created ha, hborrow]
  refine ⟨s, hs, ?_⟩
  rw [hsame, hborrow]
  exact hgoes

/-! ### The turns and those who wait for them -/

/-- The turn of a slot whose creation has come to no result is with a borrower of the slot, or it can be taken. -/
def Attended (p : Shared) : Prop := ∀ s ∈ p.slots, s.made = none → s.turn.Guarded p.borrows (·.place? s.id)

/-- A slot after a unit was given back is one of before, or it was opened for a borrower that waited. -/
theorem mem_giveUnit {retire : Bool} {x : Slot} (hx : x ∈ (p.giveUnit slot retire).slots) :
    (∃ old ∈ p.slots, old.id = x.id ∧ old.turn = x.turn ∧ old.made = x.made) ∨
      x.id = p.nextSlot ∧ x.turn = .ofCount 1 ∧ x.made = none := by
  have hhands : ∀ {q : Shared} {slot : ℕ} {queue : List ℕ} {x : Slot}, x ∈ (q.handOn slot queue).slots →
      ∃ old ∈ q.slots, old.id = x.id ∧ old.turn = x.turn ∧ old.made = x.made := by
    intro q slot queue x hx
    rcases handOn_cases q slot queue with ⟨_, _, _, _, -, -, -, e⟩ | ⟨-, e⟩ <;> rw [e] at hx
    · exact ⟨x, hx, rfl, rfl, rfl⟩
    · obtain ⟨old, hold, rfl⟩ := mem_updateSlot.mp hx
      refine ⟨old, hold, ?_⟩
      split <;> exact ⟨rfl, rfl, rfl⟩
  cases hs : p.slot? slot with
  | none =>
    rw [giveUnit, hs] at hx
    exact Or.inl ⟨x, hx, rfl, rfl, rfl⟩
  | some s =>
    have hretired : ∀ x ∈ (p.retireSlot s).slots,
        ∃ old ∈ p.slots, old.id = x.id ∧ old.turn = x.turn ∧ old.made = x.made := by
      intro x hx
      rcases (mem_retireSlot (slot?_eq_some hs).1).mp hx with ⟨hx, -⟩ | ⟨rfl, -⟩
      · exact ⟨x, hx, rfl, rfl, rfl⟩
      · exact ⟨s, (slot?_eq_some hs).1, rfl, rfl, rfl⟩
    rw [giveUnit_eq hs] at hx
    split at hx
    · exact Or.inl (hhands hx)
    split at hx
    · exact Or.inl (hretired x hx)
    split at hx
    · exact Or.inl (hretired x hx)
    · next other q ha =>
      obtain ⟨mid, hmid, hid, hturn, hmade⟩ := hhands hx
      rw [← hid, ← hturn, ← hmade]
      rcases assign?_cases ha with ⟨best, -, -, -, -, rfl⟩ | ⟨-, -, rfl⟩
      · obtain ⟨old, hold, rfl⟩ := mem_updateSlot.mp hmid
        refine Or.inl ?_
        split <;> exact hretired old hold
      · rcases List.mem_append.mp hmid with hmid | hmid
        · exact Or.inl (hretired mid hmid)
        · rw [List.mem_singleton.mp hmid]
          exact Or.inr ⟨(p.retireSlot_parts s).2.2.2.2.1, rfl, rfl⟩

/-- The only borrower that is concerned when a unit is given back is one that waited. -/
theorem borrows_giveUnit_cases (p : Shared) (slot : ℕ) (retire : Bool) :
    (p.giveUnit slot retire).borrows = p.borrows ∨ ∃ ticket name other, p.waiter? ticket = some name ∧
      (p.giveUnit slot retire).borrows = p.borrows.put name (.assigned other) := by
  have hhands : ∀ {q : Shared} (slot : ℕ) (queue : List ℕ), q.borrows = p.borrows →
      (q.handOn slot queue).borrows = p.borrows ∨ ∃ ticket name other, p.waiter? ticket = some name ∧
        (q.handOn slot queue).borrows = p.borrows.put name (.assigned other) := by
    intro q slot queue hb
    rcases handOn_cases q slot queue with ⟨_, ticket, _, name, -, -, hname, e⟩ | ⟨-, e⟩ <;> rw [e]
    · rw [waiter?, hb] at hname
      exact Or.inr ⟨ticket, name, slot, hname, by rw [hb]⟩
    · exact Or.inl hb
  cases hs : p.slot? slot with
  | none =>
    rw [giveUnit, hs]
    exact Or.inl rfl
  | some s =>
    have hretired := (p.retireSlot_parts s).1
    rw [giveUnit_eq hs]
    split
    · exact hhands slot p.queue rfl
    split
    · exact Or.inl hretired
    split
    · exact Or.inl hretired
    · next other q ha => exact hhands other q.queue ((assign?_parts ha).1.trans hretired)

namespace Attended

theorem ofOptions (kind : String) (options : SharedOptions) : Attended (Shared.ofOptions kind options) := by
  intro s hs
  simp [Shared.ofOptions] at hs

/-- Nobody waits for the turn of a slot that is opened. -/
theorem guarded_of_new {hand : Option ℕ} (books : Accounted p hand) (hid : slot = p.nextSlot) :
    (ofCount 1).Guarded p.borrows (·.place? slot) := by
  refine guarded_of_none fun item hitem => SharedBorrow.place?_eq_none fun hslot => ?_
  have hlt := books.lt_nextSlot (books.borrows.get?_of_mem hitem) hslot
  omega

theorem giveUnit (h : Attended p) (books : Accounted p (some slot)) (retire : Bool) :
    Attended (p.giveUnit slot retire) := by
  intro x hx hmade
  have hguarded : x.turn.Guarded p.borrows (·.place? x.id) := by
    rcases mem_giveUnit hx with ⟨old, hold, hid, hturn, hmade'⟩ | ⟨hid, hturn, -⟩
    · rw [← hid, ← hturn]
      exact h old hold (hmade'.trans hmade)
    · rw [hturn]
      exact guarded_of_new books hid
  rcases borrows_giveUnit_cases p slot retire with e | ⟨ticket, name, other, hname, e⟩ <;> rw [e]
  · exact hguarded
  · refine hguarded.move books.borrows ?_
    rw [waiter?_eq_some books.borrows hname]
    exact .stay _ none

theorem assign? (h : Attended p) (books : Accounted p none) (ha : p.assign? = some (slot, q)) : Attended q := by
  intro x hx hmade
  rw [(assign?_parts ha).1]
  rcases assign?_cases ha with ⟨best, -, -, -, -, rfl⟩ | ⟨-, -, rfl⟩
  · obtain ⟨old, hold, rfl⟩ := mem_updateSlot.mp hx
    split at hmade <;> split <;> exact h old hold hmade
  · rcases List.mem_append.mp hx with hx | hx
    · exact h x hx hmade
    · rw [List.mem_singleton.mp hx]
      exact guarded_of_new books rfl

/-- A borrower without a place may leave. -/
theorem without (h : Attended p) (hd : p.borrows.Distinct)
    (hnone : ∀ x ∈ p.slots, x.made = none → (p.borrows.get? name).bind (·.place? x.id) = none) :
    Attended (p.without name) := by
  intro x hx hmade
  refine (h x hx hmade).leave hd ?_
  rw [hnone x hx hmade]
  exact .stay _ none

section

variable (hrun : Running p name slot)
  (hown : ∀ other, other ≠ slot → (p.borrows.get? name).bind (·.place? other) = none)
include hrun hown

theorem settle (h : Attended p) (hmade : ∀ s ∈ p.slots, s.id = slot → s.made ≠ none)
    (result : Except ClientError ℕ) : Attended (p.settle name slot result).2 := by
  have hgone : Attended (p.without name) := by
    refine h.without hrun.borrows fun x hx hnone => hown x.id fun hid => ?_
    exact hmade x hx hid hnone
  cases result with
  | ok item => exact hgone
  | error cause => exact hgone.giveUnit hrun.books true

/-- Who has the turn creates on, or passes the result on and gives no turn back. -/
theorem proceed {item : ℕ}
    (hself : ∀ s ∈ p.slots, s.id = slot → s.made = none →
      s.turn.Guarded (p.borrows.put name (.creating slot item)) (·.place? slot))
    (hothers : ∀ s ∈ p.slots, s.id ≠ slot → s.made = none → s.turn.Guarded p.borrows (·.place? s.id))
    (made : Creations) : Attended (p.proceed made name slot item).2 := by
  simp only [Shared.proceed]
  split
  · intro x hx hmade
    by_cases hid : x.id = slot
    · rw [hid]
      exact hself x hx hid hmade
    · refine (hothers x hx hid hmade).move hrun.borrows ?_
      rw [hown x.id hid, SharedBorrow.place?, if_neg (Ne.symm hid)]
      exact .stay _ none
  · next result _ =>
    have hover : ∀ x ∈ (p.updateSlot slot fun s => { s with made := some (result.map fun () => item) }).slots,
        x.id = slot → x.made ≠ none := by
      intro x hx hid
      obtain ⟨old, -, rfl⟩ := mem_updateSlot.mp hx
      split
      · simp
      · next hne => rw [if_neg hne] at hid; exact absurd hid hne
    have hattended : Attended (p.updateSlot slot fun s => { s with made := some (result.map fun () => item) }) := by
      intro x hx hmade
      obtain ⟨old, hold, rfl⟩ := mem_updateSlot.mp hx
      split at hmade
      · simp at hmade
      · next hne =>
        rw [if_neg hne]
        exact hothers old hold hne hmade
    exact hattended.settle (hrun.updateSlot slot (Slot.keeps_made _)) hown hover _

end

/-- Whatever becomes of a borrower that has a unit, the turn of its slot is with somebody or can be taken. -/
theorem goes (h : Attended p) (hrun : Running p name s.id) (hs : s ∈ p.slots)
    (hown : ∀ other, other ≠ s.id → (p.borrows.get? name).bind (·.place? other) = none)
    (hgoes : Goes p made name s ((p.borrows.get? name).bind (·.place? s.id)) call answer) :
    Attended answer.2 := by
  have hone : ∀ x ∈ p.slots, x.id = s.id → x = s := fun x hx e => eq_of_id_eq hrun.books.ids hx hs e
  cases hgoes with
  | @told result known =>
    refine h.settle hrun hown (fun x hx hid => ?_) result
    rw [hone x hx hid, known]
    simp
  | @waits turn place' idle shift =>
    intro x hx hmade
    obtain ⟨old, hold, rfl⟩ := mem_updateSlot.mp hx
    by_cases hid : old.id = s.id
    · rw [if_pos hid, hid]
      refine (h s hs idle).move hrun.borrows ?_
      rw [SharedBorrow.place?, if_pos rfl]
      exact shift
    · rw [if_neg hid] at hmade ⊢
      refine (h old hold hmade).move hrun.borrows ?_
      rw [hown old.id hid, SharedBorrow.place?, if_neg (Ne.symm hid)]
      exact .stay _ none
  | @starts turn idle shift =>
    refine Attended.proceed (p := { p.updateSlot s.id fun s => { s with turn := turn } with created := p.created + 1 })
      ((hrun.updateSlot s.id (Slot.keeps_turn _)).created _) hown (fun x hx hid _ => ?_) (fun x hx hne hmade => ?_) made
    · obtain ⟨old, hold, rfl⟩ := mem_updateSlot.mp hx
      have hid : old.id = s.id := by
        split at hid <;> exact hid
      rw [if_pos hid]
      refine (h s hs idle).move hrun.borrows ?_
      rw [SharedBorrow.place?, if_pos rfl]
      exact shift
    · obtain ⟨old, hold, rfl⟩ := mem_updateSlot.mp hx
      have hne : old.id ≠ s.id := by
        split at hne <;> exact hne
      rw [if_neg hne] at hmade ⊢
      exact h old hold hmade
  | @resumes item idle running =>
    refine Attended.proceed hrun hown (fun x hx hid hmade => ?_) (fun x hx _ hmade => h x hx hmade) made
    rw [Table.put_of_get?_eq_some running, ← hid]
    exact h x hx hmade

/-- A borrower is gone that had a unit of a slot, with its place before the turn. -/
theorem withdraw (h : Attended p) (hd : p.borrows.Distinct) {borrow : SharedBorrow}
    (hget : p.borrows.get? name = some borrow) (hslot : borrow.slot? = some slot) {f : Slot → Semaphore}
    (hshift : ∀ s ∈ p.slots, s.id = slot → Shift s.turn (borrow.place? slot) (f s) none) :
    Attended ((p.without name).updateSlot slot fun s => { s with turn := f s }) := by
  intro x hx hmade
  obtain ⟨old, hold, rfl⟩ := mem_updateSlot.mp hx
  by_cases hid : old.id = slot
  · rw [if_pos hid] at hmade ⊢
    refine (h old hold hmade).leave hd ?_
    rw [hget, Option.bind_some]
    exact hid ▸ hshift old hold hid
  · rw [if_neg hid] at hmade ⊢
    refine (h old hold hmade).leave hd ?_
    rw [hget, Option.bind_some, SharedBorrow.place?_eq_none fun e => hid (Option.some.inj (hslot.symm.trans e)).symm]
    exact .stay _ none

/-- Every operation leaves the turns with somebody, or to be taken. -/
theorem step (h : Attended p) (hb : Balanced p) (event : Event) : Attended (p.step event) := by
  have hd := hb.books.borrows
  cases event with
  | borrow made name =>
    cases hstarts : p.admits name with
    | false =>
      rw [step_borrow_of_not_admits made hstarts]
      exact h
    | true =>
      obtain ⟨hnone, hlease, hopen⟩ := admits_iff.mp hstarts
      cases ha : p.assign? with
      | some pair =>
        obtain ⟨slot, q⟩ := pair
        obtain ⟨hborrows, hleases, -⟩ := assign?_parts ha
        obtain ⟨s, hs, hgoes⟩ := goes_borrow hb.books made hstarts ha
        obtain ⟨hmem, rfl⟩ := slot?_eq_some hs
        have hfree : q.borrows.get? name = none := by rw [hborrows, hnone]
        have hrun : Running q name s.id := .of_new (hb.books.assign? ha) (Table.has_eq_false_iff.mpr hfree)
          (by rw [hleases]; exact Table.has_eq_false_iff.mpr hlease)
        have hgoes' : Goes q made name s ((q.borrows.get? name).bind (·.place? s.id)) (p.call? (.borrow made name))
            (p.borrow made name) := by
          rw [hfree]
          exact hgoes
        exact (h.assign? hb.books ha).goes hrun hmem (fun other _ => by rw [hfree]; rfl) hgoes'
      | none =>
        intro x hx hmade
        simp only [Shared.step, Shared.borrow, Table.has_eq_false_iff.mpr hnone, Table.has_eq_false_iff.mpr hlease,
          hopen, ha] at hx ⊢
        refine (h x hx hmade).move hd ?_
        rw [hnone]
        exact .stay _ none
  | poll made name =>
    cases hget : p.borrows.get? name with
    | none => simpa only [Shared.step, Shared.poll, hget] using h
    | some borrow =>
      cases hslot : borrow.slot? with
      | some slot =>
        have hhas : p.Has name slot := Or.inl ⟨borrow, hget, hslot⟩
        obtain ⟨s, hs⟩ := exists_slot?_of_mem (hb.books.listed slot (Or.inl hhas.unitsOn_pos))
        have hgoes := goes_poll hb made hget hslot hs
        obtain ⟨hmem, rfl⟩ := slot?_eq_some hs
        have hgoes' : Goes p made name s ((p.borrows.get? name).bind (·.place? s.id)) (p.call? (.poll made name))
            (p.poll made name) := by
          rw [hget]
          exact hgoes
        refine h.goes (.of_get? hb.books hget hslot) hmem (fun other hne => ?_) hgoes'
        rw [hget, Option.bind_some]
        exact SharedBorrow.place?_eq_none fun e => hne (Option.some.inj (hslot.symm.trans e)).symm
      | none =>
        cases borrow with
        | queued => simpa only [Shared.step, Shared.poll, hget] using h
        | refused =>
          simp only [Shared.step, Shared.poll, hget]
          refine h.without hd fun x _ _ => ?_
          rw [hget]
          rfl
        | _ => simp [SharedBorrow.slot?] at hslot
  | cancel name =>
    cases hget : p.borrows.get? name with
    | none => simpa only [Shared.step, Shared.cancel, hget] using h
    | some borrow =>
      have hbooks := hb.books.without hget (Or.inl rfl)
      have hplain : (∀ slot, borrow.place? slot = none) → Attended (p.without name) := by
        intro hnone
        refine h.without hd fun x _ _ => ?_
        rw [hget, Option.bind_some, hnone]
      cases borrow with
      | queued | refused =>
        simp only [Shared.step, Shared.cancel, hget]
        exact hplain fun _ => rfl
      | assigned slot =>
        simp only [Shared.step, Shared.cancel, hget]
        exact (hplain fun _ => rfl).giveUnit hbooks false
      | awaiting slot handle =>
        have hpending : handle ≠ .acquired := by
          rintro rfl
          have := hb.turned.awaits name slot .acquired hget
          simp [Handle.units] at this
        have hgone := h.withdraw hd hget rfl (f := fun s => s.turn.drop handle) fun s _ _ => by
          rw [SharedBorrow.place?, if_pos rfl]
          exact .leave _ hpending
        simp only [Shared.step, Shared.cancel, hget]
        exact hgone.giveUnit (hbooks.updateSlot slot (Slot.keeps_turn _)) false
      | creating slot item =>
        have hgone := h.withdraw hd hget rfl (f := fun s => s.turn.signalOne) fun s _ _ => by
          rw [SharedBorrow.place?, if_pos rfl]
          exact .pass _
        simp only [Shared.step, Shared.cancel, hget]
        exact hgone.giveUnit (hbooks.updateSlot slot (Slot.keeps_turn _)) false
  | release accepts name =>
    simp only [Shared.step, Shared.release]
    split
    · exact h
    · next lease hget =>
      have hremoved : Attended { p with leases := p.leases.remove name } := h
      exact hremoved.giveUnit (hb.books.removeLease hget) _
  | corrupt name =>
    simp only [Shared.step, Shared.corrupt]
    split <;> exact h
  | dispose =>
    intro x hx hmade
    obtain ⟨old, hold, rfl⟩ := List.mem_map.mp hx
    refine (h old (List.mem_filter.mp hold).1 hmade).of_count fun kind => ?_
    simp only [Shared.step]
    rw [dispose_borrows]
    exact Table.count_map p.borrows fun borrow => by rw [SharedBorrow.place?_turnedAway]

/-- **Somebody can go on.** As long as the creation of the item of a slot has come to no result and somebody has a unit
of the slot, one of those who have runs the creation when it goes on. -/
theorem exists_call (h : Attended p) (hb : Balanced p) (hs : p.slot? slot = some s) (idle : s.made = none)
    {borrow : SharedBorrow} (hget : p.borrows.get? name = some borrow) (hslot : borrow.slot? = some slot)
    (made : Creations) : ∃ runner item, p.unit? (.poll made runner) = some slot ∧
      p.call? (.poll made runner) = some item := by
  have hd := hb.books.borrows
  obtain ⟨hmem, hid⟩ := slot?_eq_some hs
  have hguarded := hid ▸ h s hmem idle
  have hunit : ∀ {runner borrow}, p.borrows.get? runner = some borrow → borrow.slot? = some slot →
      p.unit? (.poll made runner) = some slot := by
    intro runner borrow hget hslot
    rw [unit?, hget, Option.bind_some, hslot]
  -- a borrower with whom the turn is
  have hwith : ∀ {runner borrow}, p.borrows.get? runner = some borrow →
      (borrow.place? slot).any s.turn.isWith = true →
      ∃ item, p.unit? (.poll made runner) = some slot ∧ p.call? (.poll made runner) = some item := by
    intro runner borrow hget hwith
    cases borrow with
    | awaiting own handle =>
      simp only [SharedBorrow.place?] at hwith
      split at hwith
      case isFalse => simp at hwith
      next e =>
      subst e
      have htaken : (s.turn.poll handle).1 = true := by
        cases handle with
        | queued ticket =>
          have hdelivered : ticket ∈ s.turn.delivered := by simpa [isWith] using hwith
          simp [Semaphore.poll, hdelivered]
        | granted | acquired => rfl
      refine ⟨p.created, hunit hget rfl, ?_⟩
      simp [call?, Shared.step, Shared.poll, hget, hs, idle, Shared.await, htaken, Shared.updateSlot]
    | creating own item =>
      simp only [SharedBorrow.place?] at hwith
      split at hwith
      case isFalse => simp at hwith
      next e =>
      subst e
      refine ⟨item, hunit hget rfl, ?_⟩
      simp [call?, Shared.step, Shared.poll, hget, SharedBorrow.item?]
    | _ => simp [SharedBorrow.place?] at hwith
  rcases Nat.eq_zero_or_pos s.turn.available with hnone | hpos
  · obtain ⟨runner, found, hfound, hhas⟩ := hguarded.exists_isWith hd hnone
    obtain ⟨item, hboth⟩ := hwith hfound hhas
    exact ⟨runner, item, hboth⟩
  · cases borrow with
    | queued | refused => simp [SharedBorrow.slot?] at hslot
    | assigned own =>
      obtain rfl := Option.some.inj hslot
      refine ⟨name, p.created, hunit hget rfl, ?_⟩
      simp [call?, Shared.step, Shared.poll, hget, Shared.enter, hs, idle, Semaphore.wait, hpos, Shared.await,
        Semaphore.poll, Shared.updateSlot]
    | creating own item =>
      obtain rfl := Option.some.inj hslot
      obtain ⟨item, hboth⟩ := hwith hget (by simp [SharedBorrow.place?, isWith])
      exact ⟨name, item, hboth⟩
    | awaiting own handle =>
      obtain rfl := Option.some.inj hslot
      -- nobody waits in vain for a turn that can be taken
      have hplace : (SharedBorrow.awaiting own handle).place? own = some handle := if_pos rfl
      have hhas : s.turn.isWith handle = true := by
        cases handle with
        | granted | acquired => rfl
        | queued ticket =>
          by_contra hnot
          have hline := hguarded.mem_line hd hget hplace (by simpa [isWith] using hnot)
          rw [hguarded.line_eq_nil_of_available hpos] at hline
          simp at hline
      obtain ⟨item, hboth⟩ := hwith hget (by rw [hplace]; exact hhas)
      exact ⟨name, item, hboth⟩

end Attended

end goes

end Shared

end MemcachedClient.Pool
