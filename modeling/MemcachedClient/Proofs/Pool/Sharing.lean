import MemcachedClient.Proofs.Pool.Creation
import MemcachedClient.Proofs.Pool.Failing
import MemcachedClient.Proofs.Pool.Going

/-!
# One creation for all borrowers of a slot

However many borrowers come to have a unit of a slot, its item is created once. The results to which a run brings the
creations for a slot can be read off its operations (`completions`), and so can what the borrowers of the slot are
answered (`answers`). There is one result at most, and it is what the slot keeps (`Recorded`); so everybody is answered
by it, whoever ran the creation, and whoever gave it up before.

A slot whose creation has failed is retired by the first who is told, so that nobody else comes to have a unit of it.
`one_creation_per_slot` puts this together with the progress of the borrowers that are on the slot.
-/

namespace MemcachedClient.Pool

/-- What a borrower is told of the result of a creation. -/
def reportOf (kind : String) : Except ClientError ℕ → Report
  | .ok item => .leased item
  | .error cause => .failed (.poolCreation kind cause)

namespace Shared

/-- The result to which an operation brings the creation for a slot. -/
def finishes (p : Shared) (slot : ℕ) (event : Event) : List (Except ClientError ℕ) :=
  match p.completion? event with
  | some (own, result) => if own = slot then [result] else []
  | none => []

/-- The results to which a run brings creations for a slot. -/
def completions (p : Shared) (slot : ℕ) : List Event → List (Except ClientError ℕ)
  | [] => []
  | event :: events => p.finishes slot event ++ (p.step event).completions slot events

/-- What an operation answers a borrower that has a unit of a slot, unless that has to wait. -/
def answersTo (p : Shared) (slot : ℕ) (event : Event) : List Report :=
  if p.unit? event = some slot then ((shared p).report? event).toList.filter (· ≠ .pending) else []

/-- What the borrowers that have a unit of a slot are answered along a run. -/
def answers (p : Shared) (slot : ℕ) : List Event → List Report
  | [] => []
  | event :: events => p.answersTo slot event ++ (p.step event).answers slot events

/-- The slot keeps the only result there is, which is among these. -/
structure Recorded (p : Shared) (slot : ℕ) (results : List (Except ClientError ℕ)) : Prop where
  /-- As long as the slot is there, it keeps the result. -/
  kept : ∀ s ∈ p.slots, s.id = slot → s.made.toList = results
  /-- There is one result at most. -/
  single : results.length ≤ 1
  /-- Nothing was created for a slot before it was opened. -/
  unopened : p.nextSlot ≤ slot → results = []

namespace Recorded

variable {p q : Shared} {slot own : ℕ} {results : List (Except ClientError ℕ)} {name : String} {made : Creations}

theorem ofOptions (kind : String) (options : SharedOptions) (slot : ℕ) :
    Recorded (Shared.ofOptions kind options) slot [] := by
  constructor <;> simp [Shared.ofOptions]

/-- Slots may be dropped and opened. -/
theorem of_slots (h : Recorded p slot results) (hnext : p.nextSlot ≤ q.nextSlot)
    (hslots : ∀ x ∈ q.slots,
      (∃ old ∈ p.slots, old.id = x.id ∧ old.made = x.made) ∨ p.nextSlot ≤ x.id ∧ x.made = none) :
    Recorded q slot results where
  kept x hx hid := by
    rcases hslots x hx with ⟨old, hold, hid', hmade⟩ | ⟨hnew, hnone⟩
    · rw [← hmade]
      exact h.kept old hold (hid'.trans hid)
    · rw [hnone, h.unopened (hid ▸ hnew)]
      rfl
  single := h.single
  unopened hle := h.unopened (Nat.le_trans hnext hle)

theorem updateSlot (h : Recorded p slot results) (id : ℕ) {f : Slot → Slot}
    (hf : ∀ s, (f s).id = s.id ∧ (f s).made = s.made) : Recorded (p.updateSlot id f) slot results := by
  refine h.of_slots (Nat.le_refl _) fun x hx => Or.inl ?_
  obtain ⟨old, hold, rfl⟩ := mem_updateSlot.mp hx
  refine ⟨old, hold, ?_⟩
  split
  · exact ⟨(hf old).1.symm, (hf old).2.symm⟩
  · exact ⟨rfl, rfl⟩

theorem giveUnit (h : Recorded p slot results) (own : ℕ) (retire : Bool) :
    Recorded (p.giveUnit own retire) slot results := by
  refine h.of_slots (KeepsShut.giveUnit p own retire).later fun x hx => ?_
  rcases mem_giveUnit hx with ⟨old, hold, hid, -, hmade⟩ | ⟨hid, -, hmade⟩
  · exact Or.inl ⟨old, hold, hid, hmade⟩
  · exact Or.inr ⟨Nat.le_of_eq hid.symm, hmade⟩

theorem assign? (h : Recorded p slot results) (ha : p.assign? = some (own, q)) : Recorded q slot results := by
  refine h.of_slots (KeepsShut.assign? ha).later fun x hx => ?_
  rcases assign?_cases ha with ⟨best, -, -, -, -, rfl⟩ | ⟨-, -, rfl⟩
  · obtain ⟨old, hold, rfl⟩ := mem_updateSlot.mp hx
    refine Or.inl ⟨old, hold, ?_⟩
    split <;> exact ⟨rfl, rfl⟩
  · rcases List.mem_append.mp hx with hx | hx
    · exact Or.inl ⟨x, hx, rfl, rfl⟩
    · rw [List.mem_singleton.mp hx]
      exact Or.inr ⟨Nat.le_refl _, rfl⟩

theorem settle (h : Recorded p slot results) (name : String) (own : ℕ) (result : Except ClientError ℕ) :
    Recorded (p.settle name own result).2 slot results := by
  cases result with
  | ok item => exact ⟨h.kept, h.single, h.unopened⟩
  | error cause =>
    have hwithout : Recorded (p.without name) slot results := ⟨h.kept, h.single, h.unopened⟩
    exact hwithout.giveUnit own true

theorem report_settle (p : Shared) (name : String) (own : ℕ) (result : Except ClientError ℕ) :
    (p.settle name own result).1 = reportOf p.kind result := by
  cases result <;> rfl

/-- The result of a creation is the first of its slot. -/
theorem ends (h : Recorded p slot results) {s : Slot} (hs : s ∈ p.slots) (hlt : s.id < p.nextSlot)
    (idle : s.made = none) (result : Except ClientError ℕ) :
    Recorded (p.updateSlot s.id fun s => { s with made := some result }) slot
      (results ++ if s.id = slot then [result] else []) := by
  by_cases hid : s.id = slot
  · have hnone : results = [] := by rw [← h.kept s hs hid, idle]; rfl
    rw [if_pos hid, hnone]
    refine ⟨fun x hx hid' => ?_, Nat.le_refl _, fun hle => ?_⟩
    · obtain ⟨old, -, rfl⟩ := mem_updateSlot.mp hx
      split
      · rfl
      · next hne =>
        rw [if_neg hne] at hid'
        exact absurd (hid'.trans hid.symm) hne
    · exact absurd (Nat.lt_of_lt_of_le hlt hle) (hid ▸ Nat.lt_irrefl _)
  · rw [if_neg hid, List.append_nil]
    refine ⟨fun x hx hid' => ?_, h.single, h.unopened⟩
    obtain ⟨old, hold, rfl⟩ := mem_updateSlot.mp hx
    split at hid'
    · next e => exact absurd (e.symm.trans hid') hid
    · next hne =>
      rw [if_neg hne]
      exact h.kept old hold hid'

/-- A creation that goes on for a slot without a result comes to the only one. -/
theorem proceed (h : Recorded p slot results) {s : Slot} (hs : s ∈ p.slots) (hlt : s.id < p.nextSlot)
    (idle : s.made = none) (name : String) (made : Creations) (item : ℕ) :
    Recorded (p.proceed made name s.id item).2 slot (results ++
        if s.id = slot then ((made item).map fun result => result.map fun () => item).toList else []) ∧
      ((p.proceed made name s.id item).1 = .pending ∨ ∃ result,
        ((made item).map fun result => result.map fun () => item) = some result ∧
          (p.proceed made name s.id item).1 = reportOf p.kind result) := by
  simp only [Shared.proceed]
  cases htold : made item with
  | none =>
    refine ⟨?_, Or.inl rfl⟩
    simp only [Option.map_none, Option.toList_none, ite_self, List.append_nil]
    exact ⟨h.kept, h.single, h.unopened⟩
  | some result =>
    refine ⟨(h.ends hs hlt idle _).settle name s.id _, Or.inr ⟨_, rfl, ?_⟩⟩
    exact report_settle _ name s.id _

/-- What becomes of a borrower that has a unit: if it need not wait, it is told the only result there is. -/
theorem goes (h : Recorded p slot results) {s : Slot} (hs : s ∈ p.slots) (hlt : s.id < p.nextSlot)
    {place : Option Handle} {call : Option ℕ} {answer : Report × Shared}
    (hgoes : Goes p made name s place call answer) :
    Recorded answer.2 slot (results ++ if s.id = slot then
        (call.bind fun item => (made item).map fun result => result.map fun () => item).toList else []) ∧
      (s.id = slot → answer.1 = .pending ∨ ∃ result, results ++
        (call.bind fun item => (made item).map fun result => result.map fun () => item).toList = [result] ∧
          answer.1 = reportOf p.kind result) := by
  -- the first result is the only one
  have hfirst : s.made = none → s.id = slot → results = [] := fun idle hid => by
    rw [← h.kept s hs hid, idle]
    rfl
  cases hgoes with
  | @told result known =>
    simp only [Option.bind_none, Option.toList_none, ite_self, List.append_nil]
    refine ⟨h.settle name s.id result, fun hid => Or.inr ⟨result, ?_, report_settle p name s.id result⟩⟩
    rw [← h.kept s hs hid, known]
    rfl
  | @waits turn place' idle shift =>
    simp only [Option.bind_none, Option.toList_none, ite_self, List.append_nil]
    have hturn : Recorded (p.updateSlot s.id fun s => { s with turn := turn }) slot results :=
      h.updateSlot s.id fun _ => ⟨rfl, rfl⟩
    exact ⟨⟨hturn.kept, hturn.single, hturn.unopened⟩, fun _ => Or.inl trivial⟩
  | @starts turn idle shift =>
    have hturn : Recorded (p.updateSlot s.id fun s => { s with turn := turn }) slot results :=
      h.updateSlot s.id fun _ => ⟨rfl, rfl⟩
    have hstart : Recorded { p.updateSlot s.id fun s => { s with turn := turn } with created := p.created + 1 } slot
        results := ⟨hturn.kept, hturn.single, hturn.unopened⟩
    have hmem : { s with turn := turn } ∈ (p.updateSlot s.id fun s => { s with turn := turn }).slots :=
      mem_updateSlot.mpr ⟨s, hs, if_pos rfl⟩
    obtain ⟨hrecorded, hreport⟩ := hstart.proceed hmem hlt idle name made p.created
    refine ⟨hrecorded, fun hid => hreport.imp_right ?_⟩
    rintro ⟨result, hresult, hreport⟩
    rw [hfirst idle hid, Option.bind_some, hresult]
    exact ⟨result, rfl, hreport⟩
  | @resumes item idle running =>
    obtain ⟨hrecorded, hreport⟩ := h.proceed hs hlt idle name made item
    refine ⟨hrecorded, fun hid => hreport.imp_right ?_⟩
    rintro ⟨result, hresult, hreport⟩
    rw [hfirst idle hid, Option.bind_some, hresult]
    exact ⟨result, rfl, hreport⟩

/-- An operation whose borrower has no unit brings no creation to a result and answers nobody on a slot. -/
theorem of_unit?_eq_none {event : Event} (hunit : p.unit? event = none) (slot : ℕ) :
    p.finishes slot event = [] ∧ p.answersTo slot event = [] := by
  constructor
  · simp only [finishes, completion?, hunit]
  · simp [answersTo, hunit]

/-- The result to which an operation brings the creation that it runs. -/
theorem finishes_eq {event : Event} (hunit : p.unit? event = some own) (slot : ℕ) :
    p.finishes slot event = if own = slot then
        ((p.call? event).bind fun item => (event.told item).map fun result => result.map fun () => item).toList
      else [] := by
  simp only [finishes, completion?, hunit]
  cases p.call? event with
  | none => simp
  | some item => cases htold : event.told item <;> simp [htold]

/-- A borrower that has a unit and goes on is answered by the only result there is. -/
theorem of_goes (h : Recorded p slot results) {event : Event} {s : Slot} (hs : s ∈ p.slots)
    (hlt : s.id < p.nextSlot) {place : Option Handle} {start : Shared} {answer : Report × Shared}
    (hunit : start.unit? event = some s.id) (hreport : (shared start).report? event = some answer.1)
    (hgoes : Goes p event.told name s place (start.call? event) answer) :
    Recorded answer.2 slot (results ++ start.finishes slot event) ∧ ∀ report ∈ start.answersTo slot event,
      ∃ result, results ++ start.finishes slot event = [result] ∧ report = reportOf p.kind result := by
  obtain ⟨hrecorded, hanswer⟩ := h.goes hs hlt hgoes
  rw [finishes_eq hunit]
  refine ⟨hrecorded, fun report hmem => ?_⟩
  rw [answersTo, hunit, hreport] at hmem
  split at hmem
  case isFalse => simp at hmem
  next e =>
  have hid := Option.some.inj e
  obtain ⟨hreport, hne⟩ := List.mem_filter.mp hmem
  obtain rfl : report = answer.1 := by simpa using hreport
  rw [if_pos hid]
  exact (hanswer hid).resolve_left (by simpa using hne)

/-- **One operation.** A slot comes to a result if it has none, and whoever is answered is answered by it. -/
theorem step (h : Recorded p slot results) (hb : Balanced p) (event : Event) :
    Recorded (p.step event) slot (results ++ p.finishes slot event) ∧ ∀ report ∈ p.answersTo slot event,
      ∃ result, results ++ p.finishes slot event = [result] ∧ report = reportOf p.kind result := by
  -- an operation that brings no creation to a result
  have hidle : p.unit? event = none → Recorded (p.step event) slot results →
      Recorded (p.step event) slot (results ++ p.finishes slot event) ∧ ∀ report ∈ p.answersTo slot event,
        ∃ result, results ++ p.finishes slot event = [result] ∧ report = reportOf p.kind result := by
    intro hunit hsame
    obtain ⟨hfinishes, hanswers⟩ := of_unit?_eq_none hunit slot
    rw [hfinishes, hanswers, List.append_nil]
    exact ⟨hsame, by simp⟩
  cases event with
  | borrow made name =>
    cases hstarts : p.admits name with
    | false =>
      refine hidle (by simp [unit?, hstarts]) ?_
      rw [step_borrow_of_not_admits made hstarts]
      exact h
    | true =>
      cases ha : p.assign? with
      | none =>
        refine hidle (by simp [unit?, hstarts, ha]) ?_
        obtain ⟨hnone, hlease, hopen⟩ := admits_iff.mp hstarts
        simp only [Shared.step, Shared.borrow, Table.has_eq_false_iff.mpr hnone, Table.has_eq_false_iff.mpr hlease,
          hopen, ha]
        exact ⟨h.kept, h.single, h.unopened⟩
      | some pair =>
        obtain ⟨own, q⟩ := pair
        obtain ⟨s, hs, hgoes⟩ := goes_borrow hb.books made hstarts ha
        obtain ⟨hmem, rfl⟩ := slot?_eq_some hs
        have hunit : p.unit? (.borrow made name) = some s.id := by simp [unit?, hstarts, ha]
        have hlt := (hb.books.assign? ha).ids_lt s hmem
        rw [← assign?_kind ha]
        exact (h.assign? ha).of_goes hmem hlt hunit rfl hgoes
  | poll made name =>
    cases hget : p.borrows.get? name with
    | none =>
      refine hidle (by simp [unit?, hget]) ?_
      simpa only [Shared.step, Shared.poll, hget] using h
    | some borrow =>
      cases hslot : borrow.slot? with
      | none =>
        refine hidle (by simp [unit?, hget, hslot]) ?_
        cases borrow with
        | queued | refused =>
          simp only [Shared.step, Shared.poll, hget]
          exact ⟨h.kept, h.single, h.unopened⟩
        | _ => simp [SharedBorrow.slot?] at hslot
      | some own =>
        have hhas : p.Has name own := Or.inl ⟨borrow, hget, hslot⟩
        obtain ⟨s, hs⟩ := exists_slot?_of_mem (hb.books.listed own (Or.inl hhas.unitsOn_pos))
        have hgoes := goes_poll hb made hget hslot hs
        obtain ⟨hmem, rfl⟩ := slot?_eq_some hs
        have hunit : p.unit? (.poll made name) = some s.id := by simp [unit?, hget, hslot]
        exact h.of_goes hmem (hb.books.ids_lt s hmem) hunit rfl hgoes
  | cancel name =>
    refine hidle rfl ?_
    have hgone : ∀ own (turn : Slot → Semaphore), Recorded
        (((p.without name).updateSlot own fun s => { s with turn := turn s }).giveUnit own false) slot results := by
      intro own turn
      have hwithout : Recorded (p.without name) slot results := ⟨h.kept, h.single, h.unopened⟩
      exact (hwithout.updateSlot own (f := fun s => { s with turn := turn s }) fun _ => ⟨rfl, rfl⟩).giveUnit own false
    simp only [Shared.step, Shared.cancel]
    split
    · exact h
    split
    · exact ⟨h.kept, h.single, h.unopened⟩
    · exact ⟨h.kept, h.single, h.unopened⟩
    · exact Recorded.giveUnit (p := p.without name) ⟨h.kept, h.single, h.unopened⟩ _ false
    · exact hgone _ _
    · exact hgone _ _
  | release accepts name =>
    refine hidle rfl ?_
    simp only [Shared.step, Shared.release]
    split
    · exact h
    · exact Recorded.giveUnit (p := { p with leases := p.leases.remove name }) ⟨h.kept, h.single, h.unopened⟩ _ _
  | corrupt name =>
    refine hidle rfl ?_
    simp only [Shared.step, Shared.corrupt]
    split <;> exact ⟨h.kept, h.single, h.unopened⟩
  | dispose =>
    refine hidle rfl (h.of_slots (Nat.le_refl _) fun x hx => Or.inl ?_)
    obtain ⟨old, hold, rfl⟩ := List.mem_map.mp hx
    exact ⟨old, (List.mem_filter.mp hold).1, rfl, rfl⟩

/-- **A run.** There is one result at most, and it is what everybody is answered by. -/
theorem run (h : Recorded p slot results) (hb : Balanced p) (events : List Event) :
    Recorded (p.run events) slot (results ++ p.completions slot events) ∧
      (∀ report ∈ p.answers slot events, ∃ result, results ++ p.completions slot events = [result] ∧
        report = reportOf p.kind result) ∧ (p.run events).kind = p.kind := by
  induction events generalizing p results with
  | nil =>
    rw [completions, List.append_nil]
    exact ⟨h, by simp [answers], rfl⟩
  | cons event events ih =>
    obtain ⟨hstep, hanswers⟩ := h.step hb event
    obtain ⟨hrun, hlater, hkind⟩ := ih hstep (hb.step event)
    have hkind' : (p.step event).kind = p.kind := by
      have hfailed : FailedBy (fun _ => True) p.kind p := ⟨rfl, fun _ _ _ _ => trivial⟩
      exact (hfailed.step fun _ _ _ => trivial).kind
    rw [completions, ← List.append_assoc]
    refine ⟨hrun, fun report hmem => ?_, hkind.trans hkind'⟩
    rcases List.mem_append.mp hmem with hnow | hthen
    · obtain ⟨result, hresult, hreport⟩ := hanswers report hnow
      refine ⟨result, ?_, hreport⟩
      -- a second result would be one too many
      have hsingle := hrun.single
      rw [hresult, List.length_append, List.length_singleton] at hsingle
      have hzero : ((p.step event).completions slot events).length = 0 := by omega
      rw [hresult, List.eq_nil_of_length_eq_zero hzero]
      rfl
    · rw [← hkind']
      exact hlater report hthen

end Recorded

section run

variable (kind : String) (options : SharedOptions) (events : List Event) (slot : ℕ)

/-- After every run the books balance, and every turn is with somebody or can be taken. -/
theorem attended_run :
    Balanced ((Shared.ofOptions kind options).run events) ∧ Attended ((Shared.ofOptions kind options).run events) := by
  refine run_induction (P := fun p => Balanced p ∧ Attended p)
    ⟨.ofOptions kind options, .ofOptions kind options⟩ ?_ events
  rintro p event ⟨hb, h⟩
  exact ⟨hb.step event, h.step hb event⟩

/-- **One creation per slot.** After any run, one creation for the slot is under way at most, and one has come to a
result at most; that is what every borrower of the slot was answered that was answered: a lease of one item, or the
one error. A borrower that has a unit of the slot is answered by the result when it goes on; as long as there is none,
some borrower of the slot runs the creation when it goes on, and brings it to a result as soon as there is one. No slot
that takes borrowers has a failed creation; once the creation for the slot has failed, nobody lands on the slot. -/
theorem one_creation_per_slot :
    let start := Shared.ofOptions kind options
    let p := start.run events
    let results := start.completions slot events
    p.creators slot ≤ 1 ∧ results.length ≤ 1 ∧
      (∀ report ∈ start.answers slot events, ∃ result, results = [result] ∧ report = reportOf kind result) ∧
      (∀ name borrow, p.borrows.get? name = some borrow → borrow.slot? = some slot → ∀ made : Creations,
        (∀ result, results = [result] → (p.poll made name).1 = reportOf kind result) ∧
        (results = [] → ∃ runner item, p.call? (.poll made runner) = some item ∧ ∀ result, made item = some result →
          p.completion? (.poll made runner) = some (slot, result.map fun () => item))) ∧
      (∀ s ∈ p.slots, s.retired = false → ∀ cause, s.made ≠ some (.error cause)) ∧
      ∀ cause, results = [.error cause] → (∀ made name, p.unit? (.borrow made name) ≠ some slot) ∧
        ∀ event name, (p.step event).Has name slot → p.Has name slot := by
  intro start p results
  obtain ⟨hb, hattended⟩ : Balanced p ∧ Attended p := attended_run kind options events
  obtain ⟨hrecorded, hanswers, hkind⟩ :=
    (Recorded.ofOptions kind options slot).run (Balanced.ofOptions kind options) events
  rw [List.nil_append] at hrecorded
  have hrecorded : Recorded p slot results := hrecorded
  have hsound : p.Sound none := .run kind options events
  have hkind : p.kind = kind := hkind
  refine ⟨?_, hrecorded.single, hanswers, ?_, ?_, ?_⟩
  · by_cases hmem : slot ∈ p.slots.map (·.id)
    · obtain ⟨s, hs, rfl⟩ := List.mem_map.mp hmem
      have hturn := hb.turned.turn s hs
      omega
    · have hnone : p.unitsOn slot = 0 := by
        by_contra hpos
        exact hmem (hb.books.listed slot (Or.inl (Nat.pos_of_ne_zero hpos)))
      have hle := p.creators_le_unitsOn slot
      omega
  · intro name borrow hget hslot made
    have hhas : p.Has name slot := Or.inl ⟨borrow, hget, hslot⟩
    obtain ⟨s, hs⟩ := exists_slot?_of_mem (hb.books.listed slot (Or.inl hhas.unitsOn_pos))
    obtain ⟨hmem, hid⟩ := slot?_eq_some hs
    have hkept := hrecorded.kept s hmem hid
    constructor
    · intro result hresult
      rw [hresult, Option.toList_eq_singleton_iff] at hkept
      have hgoes := goes_poll hb made hget hslot hs
      generalize p.poll made name = answer, p.call? (.poll made name) = call at hgoes
      cases hgoes with
      | @told found known =>
        rw [Recorded.report_settle, hkind, Option.some.inj (known.symm.trans hkept)]
      | waits idle shift | starts idle shift | resumes idle running =>
        rw [idle] at hkept
        simp at hkept
    · intro hnone
      rw [hnone, Option.toList_eq_nil_iff] at hkept
      obtain ⟨runner, item, hunit, hcall⟩ := hattended.exists_call hb hs hkept hget hslot made
      refine ⟨runner, item, hcall, fun result htold => ?_⟩
      have htold : (Event.poll made runner).told item = some result := htold
      simp [completion?, hunit, hcall, htold]
  · intro s hs hopen cause hmade
    have hfailed := hsound s hs hopen cause hmade
    simp at hfailed
  · intro cause hcause
    have hlt : slot < p.nextSlot := by
      by_contra hle
      have hnone := hrecorded.unopened (Nat.le_of_not_lt hle)
      rw [hcause] at hnone
      simp at hnone
    have hshut : p.Shut slot := by
      refine ⟨hlt, fun s hs hid => ?_⟩
      have hkept := hrecorded.kept s hs hid
      rw [hcause, Option.toList_eq_singleton_iff] at hkept
      by_contra hopen
      have hfailed := hsound s hs (Bool.eq_false_iff.mpr hopen) cause hkept
      simp at hfailed
    refine ⟨fun made name hunit => ?_, fun event name hhas => ?_⟩
    · simp only [unit?] at hunit
      split at hunit
      case isFalse => simp at hunit
      obtain ⟨⟨own, q⟩, ha, rfl⟩ := Option.map_eq_some_iff.mp hunit
      exact not_shut_of_assign? ha ((KeepsShut.assign? ha).shut own hshut)
    · exact (hb.books.tidy_step hb.single event).shuts.has slot hshut name hhas

end run

end Shared

end MemcachedClient.Pool
