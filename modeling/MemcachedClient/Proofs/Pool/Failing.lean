import MemcachedClient.Proofs.Connection.Failures
import MemcachedClient.Proofs.Pool.Disposal

/-!
# How pools report failed creations

A borrower fails because the pool was disposed, or because a creation failed. An exclusive pool reports the failure of
the creation that the borrower ran as it is. A shared pool reports it within the name of its kind of item, and it keeps
it with the slot for the borrowers after the first; so along a run one has to know why the slots have failed
(`Shared.FailedBy`). Beyond that both report alike (`Failure`).

Whether callers can tell from the report to which class the failure belongs is decided by what the classes look through:
for the opening of a connection the class is lost, in a shared pool only, exactly when the connect took too long
(`fails_alike_run`).
-/

namespace MemcachedClient.Pool

/-- An operation starts a creation, or its borrower goes on with one. -/
def Runs (p : Pool) (event : Shared.Event) (item : ℕ) : Prop :=
  (p.step event).created ≠ p.created ∧ item = p.created ∨
    ∃ made name, event = .poll made name ∧ p.creating? name = some item

/-- What a borrower is answered by an operation. -/
def report? (p : Pool) : Shared.Event → Option Report
  | .borrow made name => some (p.borrow made name).1
  | .poll made name => some (p.poll made name).1
  | _ => none

/-- The operation is told of failures with a certain cause only. -/
def Shared.Event.FailsBy (cause : ClientError → Prop) (event : Shared.Event) : Prop :=
  ∀ item e, event.told item = some (.error e) → cause e

/-- Why a borrower of a pool fails that reports failed creations within these kinds. -/
def Failure (cause : ClientError → Prop) (kinds : List String) (error : ClientError) : Prop :=
  error = .disposed ∨ ∃ e, cause e ∧ error = e.within kinds

/-- If a borrower fails by this report, it is for a certain cause. -/
def Report.FailsBy (cause : ClientError → Prop) (kinds : List String) (report : Report) : Prop :=
  ∀ error, report = .failed error → Failure cause kinds error

/-- The kinds within which a pool reports failed creations. -/
def Options.kinds : Options → List String
  | exclusive _ => []
  | shared kind _ => [kind]

namespace Report

variable {cause : ClientError → Prop} {kinds : List String} {item : ℕ}

theorem failsBy_pending : pending.FailsBy cause kinds := fun _ h => by simp at h

theorem failsBy_leased : (leased item).FailsBy cause kinds := fun _ h => by simp at h

theorem failsBy_absent : absent.FailsBy cause kinds := fun _ h => by simp at h

theorem failsBy_disposed : (failed .disposed).FailsBy cause kinds := fun _ h => Or.inl (failed.inj h).symm

theorem failsBy_within (kinds : List String) {e : ClientError} (h : cause e) : (failed (e.within kinds)).FailsBy cause kinds :=
  fun _ h' => Or.inr ⟨e, h, (failed.inj h').symm⟩

end Report

variable {cause : ClientError → Prop} {made : Creations} {name : String}

/-! ### Exclusive pools -/

namespace Exclusive

section

variable {e : ClientError}

/-- Who goes on with a creation that fails is told so. -/
theorem report_proceed (p : Exclusive) (name : String) {item : ℕ} (h : made item = some (.error e)) :
    (p.proceed made name item).1 = .failed e := by
  rw [proceed, h]
  rfl

/-! Who starts one that fails at once is told so. -/

variable {p : Exclusive} (h : made p.created = some (.error e))
include h

theorem report_serve (hstarts : (p.serve made name).2.created ≠ p.created) : (p.serve made name).1 = .failed e := by
  rcases p.serve_cases made name with ⟨-, e⟩ | ⟨-, ⟨first, idle, -, e⟩ | ⟨-, e⟩⟩ <;> rw [e] at hstarts ⊢
  · exact absurd rfl hstarts
  · exact absurd rfl hstarts
  · exact report_proceed _ name h

theorem report_await {place : Handle} {units : Semaphore}
    (hstarts : (p.await made name place units).2.created ≠ p.created) :
    (p.await made name place units).1 = .failed e := by
  simp only [await] at hstarts ⊢
  split
  · next htaken =>
    rw [if_pos htaken] at hstarts
    exact report_serve (p := { p with capacity := some _ }) h hstarts
  · next hwaits =>
    rw [if_neg hwaits] at hstarts
    exact absurd rfl hstarts

theorem report_borrow (hstarts : (p.borrow made name).2.created ≠ p.created) : (p.borrow made name).1 = .failed e := by
  rw [borrow] at hstarts ⊢
  split at hstarts
  · exact absurd rfl hstarts
  next hnew =>
  rw [if_neg hnew]
  split at hstarts
  · exact absurd rfl hstarts
  next hopen =>
  rw [if_neg hopen]
  split at hstarts
  · exact report_serve h hstarts
  · exact report_await h hstarts

theorem report_poll (hstarts : (p.poll made name).2.created ≠ p.created) : (p.poll made name).1 = .failed e := by
  rw [poll] at hstarts ⊢
  split at hstarts
  · exact absurd rfl hstarts
  · exact absurd (created_proceed p made name _) hstarts
  · split at hstarts
    · exact absurd rfl hstarts
    · exact report_await h hstarts

end

section

variable (hcause : ∀ item e, made item = some (.error e) → cause e)
include hcause

theorem failsBy_proceed (p : Exclusive) (name : String) (item : ℕ) :
    (p.proceed made name item).1.FailsBy cause [] := by
  rw [proceed]
  split
  · exact Report.failsBy_pending
  · exact Report.failsBy_leased
  · next e hfailed => exact Report.failsBy_within [] (hcause item e hfailed)

theorem failsBy_serve (p : Exclusive) (name : String) : (p.serve made name).1.FailsBy cause [] := by
  rcases p.serve_cases made name with ⟨-, e⟩ | ⟨-, ⟨first, idle, -, e⟩ | ⟨-, e⟩⟩ <;> rw [e]
  · exact Report.failsBy_disposed
  · exact Report.failsBy_leased
  · exact failsBy_proceed hcause _ name _

theorem failsBy_await (p : Exclusive) (name : String) (place : Handle) (units : Semaphore) :
    (p.await made name place units).1.FailsBy cause [] := by
  simp only [await]
  split
  · exact failsBy_serve hcause _ name
  · exact Report.failsBy_pending

theorem failsBy_borrow (p : Exclusive) (name : String) : (p.borrow made name).1.FailsBy cause [] := by
  rw [borrow]
  split
  · exact Report.failsBy_absent
  split
  · exact Report.failsBy_disposed
  split
  · exact failsBy_serve hcause p name
  · exact failsBy_await hcause p name _ _

theorem failsBy_poll (p : Exclusive) (name : String) : (p.poll made name).1.FailsBy cause [] := by
  rw [poll]
  split
  · exact Report.failsBy_absent
  · exact failsBy_proceed hcause p name _
  · split
    · exact Report.failsBy_pending
    · exact failsBy_await hcause p name _ _

end

end Exclusive

/-! ### Shared pools -/

namespace Shared

/-- A pool for items of this kind, whose slots have failed for a certain cause only. -/
structure FailedBy (cause : ClientError → Prop) (kind : String) (p : Shared) : Prop where
  /-- The kind of item. -/
  kind : p.kind = kind
  /-- The creation for a slot that has failed has for such a cause. -/
  slots : ∀ s ∈ p.slots, ∀ e, s.made = some (.error e) → cause e

/-- The report fails for a certain cause only, and the pool behind it has. -/
structure Answers (cause : ClientError → Prop) (kind : String) (answer : Report × Shared) : Prop where
  /-- The report. -/
  report : answer.1.FailsBy cause [kind]
  /-- The pool. -/
  pool : FailedBy cause kind answer.2

namespace FailedBy

variable {p q : Shared} {kind : String} {slot : ℕ}

theorem ofOptions (cause : ClientError → Prop) (kind : String) (options : SharedOptions) :
    FailedBy cause kind (Shared.ofOptions kind options) := ⟨rfl, by simp [Shared.ofOptions]⟩

/-- The rest of the pool does not matter. -/
theorem congr (h : FailedBy cause kind p) (hkind : q.kind = p.kind) (hslots : q.slots = p.slots) :
    FailedBy cause kind q := ⟨hkind.trans h.kind, hslots ▸ h.slots⟩

/-- A change of a slot that has it fail for such causes only. -/
theorem updateSlot (h : FailedBy cause kind p) (id : ℕ) {f : Slot → Slot}
    (hf : ∀ s e, (f s).made = some (.error e) → s.made = some (.error e) ∨ cause e) :
    FailedBy cause kind (p.updateSlot id f) := by
  refine ⟨h.kind, fun s hs e hmade => ?_⟩
  obtain ⟨old, hold, rfl⟩ := mem_updateSlot.mp hs
  split at hmade
  · exact (hf old e hmade).elim (h.slots old hold e) fun he => he
  · exact h.slots old hold e hmade

/-- A borrower is told the result of the creation for its slot. -/
theorem result (h : FailedBy cause kind p) (slot : ℕ) {result : Except ClientError ℕ}
    (hresult : ∀ e, result = .error e → cause e) :
    FailedBy cause kind (p.updateSlot slot fun s => { s with made := some result }) :=
  h.updateSlot slot fun _ e hmade => Or.inr (hresult e (Option.some.inj hmade))

theorem assign? (h : FailedBy cause kind p) (ha : p.assign? = some (slot, q)) : FailedBy cause kind q := by
  rcases assign?_cases ha with ⟨best, -, -, -, -, rfl⟩ | ⟨-, -, rfl⟩
  · exact h.updateSlot best.id (f := .take) fun _ _ hmade => Or.inl hmade
  · refine ⟨h.kind, fun s hs e hmade => ?_⟩
    rcases List.mem_append.mp hs with hs | hs
    · exact h.slots s hs e hmade
    · rw [List.mem_singleton.mp hs] at hmade
      simp [Slot.ofId] at hmade

theorem handOn (h : FailedBy cause kind p) (slot : ℕ) (queue : List ℕ) : FailedBy cause kind (p.handOn slot queue) := by
  rcases handOn_cases p slot queue with ⟨_, _, _, _, -, -, -, e⟩ | ⟨-, e⟩ <;> rw [e]
  · exact h.congr rfl rfl
  · exact (h.updateSlot slot (f := .give) fun _ _ hmade => Or.inl hmade).congr rfl rfl

theorem retireSlot (h : FailedBy cause kind p) {s : Slot} (hs : s ∈ p.slots) : FailedBy cause kind (p.retireSlot s) := by
  refine ⟨?_, fun x hx e hmade => ?_⟩
  · rw [Shared.retireSlot, dropDrained]
    split <;> exact h.kind
  · rcases (mem_retireSlot hs).mp hx with ⟨hx, -⟩ | ⟨rfl, -⟩
    · exact h.slots x hx e hmade
    · exact h.slots s hs e hmade

theorem giveUnit (h : FailedBy cause kind p) (slot : ℕ) (retire : Bool) :
    FailedBy cause kind (p.giveUnit slot retire) := by
  cases hs : p.slot? slot with
  | none =>
    rw [Shared.giveUnit, hs]
    exact h
  | some s =>
    have hretired := h.retireSlot (slot?_eq_some hs).1
    rw [giveUnit_eq hs]
    split
    · exact h.handOn _ _
    split
    · exact hretired
    split
    · exact hretired
    · next ha => exact (hretired.assign? ha).handOn _ _

/-- Who is told the result of a creation. -/
theorem settle (h : FailedBy cause kind p) (name : String) (slot : ℕ) {result : Except ClientError ℕ}
    (hresult : ∀ e, result = .error e → cause e) : Answers cause kind (p.settle name slot result) := by
  cases result with
  | ok item => exact ⟨Report.failsBy_leased, h.congr rfl rfl⟩
  | error e =>
    have hwithout : FailedBy cause kind (p.without name) := h.congr rfl rfl
    refine ⟨?_, hwithout.giveUnit slot true⟩
    rw [Shared.settle, h.kind]
    exact Report.failsBy_within [kind] (hresult e rfl)

/-- Who has a unit of a slot with a result is told that. -/
theorem settle_made (h : FailedBy cause kind p) (name : String) {s : Slot} (hs : p.slot? slot = some s)
    {result : Except ClientError ℕ} (hmade : s.made = some result) :
    Answers cause kind (p.settle name slot result) :=
  h.settle name slot fun e he => h.slots s (slot?_eq_some hs).1 e (hmade.trans (congrArg some he))

section

variable (hcause : ∀ item e, made item = some (.error e) → cause e)
include hcause

theorem proceed (h : FailedBy cause kind p) (name : String) (slot item : ℕ) :
    Answers cause kind (p.proceed made name slot item) := by
  rw [Shared.proceed]
  split
  · exact ⟨Report.failsBy_pending, h.congr rfl rfl⟩
  · next result hresult =>
    have htold : ∀ e, result.map (fun () => item) = .error e → cause e := by
      intro e he
      cases result with
      | ok _ => simp [Except.map] at he
      | error told => exact hcause item e (hresult.trans (congrArg (some ∘ Except.error) (Except.error.inj he)))
    exact (h.result slot htold).settle name slot htold

theorem await (h : FailedBy cause kind p) (name : String) (slot : ℕ) (place : Handle) (turn : Semaphore) :
    Answers cause kind (p.await made name slot place turn) := by
  have hturn := h.updateSlot slot (f := fun s => { s with turn := (turn.poll place).2.2 }) fun _ _ hmade => Or.inl hmade
  simp only [Shared.await]
  split
  · exact proceed hcause (p := { p.updateSlot slot _ with created := p.created + 1 }) (hturn.congr rfl rfl) name slot _
  · exact ⟨Report.failsBy_pending, hturn.congr rfl rfl⟩

theorem enter (h : FailedBy cause kind p) (name : String) (slot : ℕ) : Answers cause kind (p.enter made name slot) := by
  rw [Shared.enter]
  split
  · exact ⟨Report.failsBy_pending, h⟩
  · next s hs =>
    split
    · next result hmade => exact h.settle_made name hs hmade
    · exact h.await hcause name slot _ _

theorem borrow (h : FailedBy cause kind p) (name : String) : Answers cause kind (p.borrow made name) := by
  rw [Shared.borrow]
  split
  · exact ⟨Report.failsBy_absent, h⟩
  split
  · exact ⟨Report.failsBy_disposed, h⟩
  split
  · next slot q ha => exact (h.assign? ha).enter hcause name slot
  · exact ⟨Report.failsBy_pending, h.congr rfl rfl⟩

theorem poll (h : FailedBy cause kind p) (name : String) : Answers cause kind (p.poll made name) := by
  rw [Shared.poll]
  split
  · exact ⟨Report.failsBy_absent, h⟩
  · exact ⟨Report.failsBy_pending, h⟩
  · exact ⟨Report.failsBy_disposed, h.congr rfl rfl⟩
  · exact h.enter hcause name _
  · exact h.proceed hcause name _ _
  · split
    · exact ⟨Report.failsBy_pending, h⟩
    · next s hs =>
      split
      · next result hmade => exact h.settle_made name hs hmade
      · exact h.await hcause name _ _ _

end

theorem step (h : FailedBy cause kind p) {event : Event} (hevent : event.FailsBy cause) :
    FailedBy cause kind (p.step event) := by
  cases event with
  | borrow made name => exact (h.borrow hevent name).pool
  | poll made name => exact (h.poll hevent name).pool
  | cancel name =>
    have hwithout : FailedBy cause kind (p.without name) := h.congr rfl rfl
    have hturn : ∀ slot (turn : Slot → Semaphore), FailedBy cause kind
        (((p.without name).updateSlot slot fun s => { s with turn := turn s }).giveUnit slot false) :=
      fun slot turn => (hwithout.updateSlot slot (f := fun s => { s with turn := turn s })
        fun _ _ hmade => Or.inl hmade).giveUnit slot false
    simp only [Shared.step, Shared.cancel]
    split
    · exact h
    split
    · exact hwithout
    · exact hwithout
    · exact hwithout.giveUnit _ false
    · exact hturn _ _
    · exact hturn _ _
  | release accepts name =>
    simp only [Shared.step, Shared.release]
    split
    · exact h
    · exact (h.congr (q := { p with leases := p.leases.remove name }) rfl rfl).giveUnit _ _
  | corrupt name =>
    simp only [Shared.step, Shared.corrupt]
    split
    · exact h
    · exact h.congr rfl rfl
  | dispose =>
    refine ⟨h.kind, fun s hs e hmade => ?_⟩
    obtain ⟨old, hold, rfl⟩ := List.mem_map.mp hs
    exact h.slots old (List.mem_filter.mp hold).1 e hmade

end FailedBy

theorem assign?_kind {p q : Shared} {slot : ℕ} (h : p.assign? = some (slot, q)) : q.kind = p.kind := by
  rcases assign?_cases h with ⟨best, -, -, -, -, rfl⟩ | ⟨-, -, rfl⟩ <;> rfl

section

variable {e : ClientError} {slot : ℕ}

/-- Who goes on with a creation that fails is told so. -/
theorem report_proceed (p : Shared) (name : String) (slot : ℕ) {item : ℕ} (h : made item = some (.error e)) :
    (p.proceed made name slot item).1 = .failed (.poolCreation p.kind e) := by
  rw [proceed, h]
  rfl

/-! Who starts one that fails at once is told so. -/

variable {p : Shared} (h : made p.created = some (.error e))
include h

theorem report_await {place : Handle} {turn : Semaphore}
    (hstarts : (p.await made name slot place turn).2.created ≠ p.created) :
    (p.await made name slot place turn).1 = .failed (.poolCreation p.kind e) := by
  simp only [await] at hstarts ⊢
  split
  · exact report_proceed _ name slot h
  · next hwaits =>
    rw [if_neg hwaits] at hstarts
    exact absurd rfl hstarts

theorem report_enter (hstarts : (p.enter made name slot).2.created ≠ p.created) :
    (p.enter made name slot).1 = .failed (.poolCreation p.kind e) := by
  rw [enter] at hstarts ⊢
  split at hstarts
  · exact absurd rfl hstarts
  · split at hstarts
    · exact absurd (p.settle_created name slot _) hstarts
    · exact report_await h hstarts

theorem report_borrow (hstarts : (p.borrow made name).2.created ≠ p.created) :
    (p.borrow made name).1 = .failed (.poolCreation p.kind e) := by
  rw [borrow] at hstarts ⊢
  split at hstarts
  · exact absurd rfl hstarts
  next hnew =>
  rw [if_neg hnew]
  split at hstarts
  · exact absurd rfl hstarts
  next hopen =>
  rw [if_neg hopen]
  split at hstarts
  · next slot q ha =>
    rw [← assign?_created ha] at h hstarts
    rw [← assign?_kind ha]
    exact report_enter h hstarts
  · exact absurd rfl hstarts

theorem report_poll (hstarts : (p.poll made name).2.created ≠ p.created) :
    (p.poll made name).1 = .failed (.poolCreation p.kind e) := by
  rw [poll] at hstarts ⊢
  split at hstarts
  · exact absurd rfl hstarts
  · exact absurd rfl hstarts
  · exact absurd rfl hstarts
  · exact report_enter h hstarts
  · exact absurd (p.proceed_created made name _ _) hstarts
  · split at hstarts
    · exact absurd rfl hstarts
    · split at hstarts
      · exact absurd (p.settle_created name _ _) hstarts
      · exact report_await h hstarts

end

end Shared

/-! ### Either kind -/

/-- The slots of a pool with these options have failed for a certain cause only. -/
def FailedBy (cause : ClientError → Prop) : Options → Pool → Prop
  | .exclusive _, exclusive _ => True
  | .shared kind _, shared p => p.FailedBy cause kind
  | _, _ => False

namespace FailedBy

variable {options : Options} {p : Pool}

theorem ofOptions (cause : ClientError → Prop) (options : Options) : FailedBy cause options (ofOptions options) := by
  cases options with
  | exclusive options => trivial
  | shared kind options => exact Shared.FailedBy.ofOptions cause kind options

theorem step (h : FailedBy cause options p) {event : Shared.Event} (hevent : event.FailsBy cause) :
    FailedBy cause options (p.step event) := by
  cases options <;> cases p <;> first | exact h | exact Shared.FailedBy.step h hevent

theorem run (h : FailedBy cause options p) {events : List Shared.Event} (hevents : ∀ event ∈ events, event.FailsBy cause) :
    FailedBy cause options (p.run events) := by
  induction events generalizing p with
  | nil => exact h
  | cons event events ih =>
    rw [List.forall_mem_cons] at hevents
    exact ih (h.step hevents.1) hevents.2

/-- A borrower fails because the pool was disposed or because a creation failed. -/
theorem failure (h : FailedBy cause options p) {event : Shared.Event} (hevent : event.FailsBy cause)
    {error : ClientError} (hreport : p.report? event = some (.failed error)) :
    Failure cause options.kinds error := by
  cases event with
  | borrow made name =>
    have hreport := Option.some.inj hreport
    cases options <;> cases p
    · exact Exclusive.failsBy_borrow hevent _ name error hreport
    · exact h.elim
    · exact h.elim
    · exact (Shared.FailedBy.borrow hevent h name).report error hreport
  | poll made name =>
    have hreport := Option.some.inj hreport
    cases options <;> cases p
    · exact Exclusive.failsBy_poll hevent _ name error hreport
    · exact h.elim
    · exact h.elim
    · exact (Shared.FailedBy.poll hevent h name).report error hreport
  | cancel name | release accepts name | corrupt name | dispose => simp [report?] at hreport

end FailedBy

/-- Only who borrows starts a creation. -/
theorem created_step (p : Pool) {event : Shared.Event} (hborrow : ∀ made name, event ≠ .borrow made name)
    (hpoll : ∀ made name, event ≠ .poll made name) : (p.step event).created = p.created := by
  cases p with
  | exclusive p => exact p.created_step hborrow hpoll
  | shared p => exact p.created_step hborrow hpoll

/-- Who runs a creation that fails is told so, within the kinds of the pool. -/
theorem FailedBy.report?_of_runs {options : Options} {p : Pool} (h : FailedBy cause options p) {event : Shared.Event}
    {item : ℕ} (hruns : p.Runs event item) (htells : event.Tells made) {e : ClientError}
    (hfailed : made item = some (.error e)) : p.report? event = some (.failed (e.within options.kinds)) := by
  rcases hruns with ⟨hstarts, rfl⟩ | ⟨told, name, rfl, hcreating⟩
  · cases event with
    | borrow told name =>
      obtain rfl : told = made := htells
      refine congrArg some ?_
      cases options <;> cases p
      · exact Exclusive.report_borrow hfailed hstarts
      · exact h.elim
      · exact h.elim
      · exact (Shared.report_borrow hfailed hstarts).trans (by rw [h.kind]; rfl)
    | poll told name =>
      obtain rfl : told = made := htells
      refine congrArg some ?_
      cases options <;> cases p
      · exact Exclusive.report_poll hfailed hstarts
      · exact h.elim
      · exact h.elim
      · exact (Shared.report_poll hfailed hstarts).trans (by rw [h.kind]; rfl)
    | cancel name | release accepts name | corrupt name | dispose =>
      exact absurd (p.created_step (by simp) (by simp)) hstarts
  · obtain rfl : told = made := htells
    refine congrArg some ?_
    cases options <;> cases p
    · rw [poll, Exclusive.poll, Exclusive.creating?_eq_some_iff.mp hcreating]
      exact Exclusive.report_proceed _ name hfailed
    · exact h.elim
    · exact h.elim
    · obtain ⟨slot, hget⟩ := Shared.creating?_eq_some_iff.mp hcreating
      rw [poll, Shared.poll, hget]
      exact (Shared.report_proceed _ name slot hfailed).trans (by rw [h.kind]; rfl)

/-! ### Failed openings -/

open Connection (Session)

/-- A pool of connections fails its borrowers alike, whichever kind it is of: each sees why the opening failed, up to
the kinds within which the pool reports it, and the class of that. -/
structure FailsAlike (options : Options) (p : Pool) : Prop where
  /-- Who opens a connection is told why that fails. -/
  told : ∀ event item made e, p.Runs event item → event.Tells made → made item = some (.error e) →
    p.report? event = some (.failed (e.within options.kinds))
  /-- Who fails in a pool that was not disposed is told why an opening has failed; the cause is of one class. -/
  cause : ∀ event error, event.FailsBy Session.OpensWith → p.report? event = some (.failed error) →
    error = .disposed ∨ ∃ e, Session.OpensWith e ∧ error = e.within options.kinds ∧ e.OneClass ∧
      ∀ kinds, kinds ++ options.kinds ≠ [] →
        ((error.within kinds).classes = e.classes ↔ e.isTimeout = false) ∧
        ((error.within kinds).OneClass ↔ e.isTimeout = false)

/-- **Pools of either kind classify failed openings alike** unless the connect took too long, after every run. -/
theorem fails_alike_run (options : Options) {events : List Shared.Event}
    (hevents : ∀ event ∈ events, event.FailsBy Session.OpensWith) :
    FailsAlike options ((ofOptions options).run events) := by
  have h := (FailedBy.ofOptions Session.OpensWith options).run hevents
  refine ⟨fun event item made e hruns htells hfailed => h.report?_of_runs hruns htells hfailed,
    fun event error hevent hreport => (h.failure hevent hreport).imp_right ?_⟩
  rintro ⟨e, hopens, rfl⟩
  have hcause := Session.failsOpening_of_opensWith hopens
  refine ⟨e, hopens, rfl, hcause.oneClass, fun kinds hkinds => ?_⟩
  rw [← ClientError.within_append]
  exact ⟨hcause.classes_within_iff hkinds, hcause.oneClass_within_iff hkinds⟩

/-- Nothing listens at the server's address. -/
def refused : ClientError := .io (.ofSystem .connectionRefused)

/-- Two borrowers wait for the creation of the only item, and the first sees it fail. -/
def refusedOnce : List Shared.Event :=
  [.borrow (fun _ => none) "a", .borrow (fun _ => none) "b", .poll (fun _ => some (.error refused)) "a"]

/-- The second borrower is told why the creation failed that the first one ran, and that is a failure of the connection
in either kind of pool. -/
theorem fails_alike_of_refused : Session.OpensWith refused ∧
    (∀ event ∈ refusedOnce, event.FailsBy Session.OpensWith) ∧
    ((ofOptions (.shared "Connection" ⟨1, 2⟩)).run refusedOnce).report? (.poll (fun _ => none) "b") =
      some (.failed (refused.within ["Connection"])) ∧
    (refused.within ["Connection"]).classes = refused.classes ∧
    FailsAlike (.shared "Connection" ⟨1, 2⟩) ((ofOptions (.shared "Connection" ⟨1, 2⟩)).run refusedOnce) := by
  have hopens : Session.OpensWith refused :=
    ⟨.failed (.ofSystem .connectionRefused), none, ⟨0, .ofParts 0 0⟩, [.startOpening "o" none, .pollOpening "o"], "o", rfl⟩
  have hevents : ∀ event ∈ refusedOnce, event.FailsBy Session.OpensWith := by
    intro event hevent
    simp only [refusedOnce, List.mem_cons, List.not_mem_nil, or_false] at hevent
    rcases hevent with rfl | rfl | rfl
    · intro item e h
      simp [Shared.Event.told] at h
    · intro item e h
      simp [Shared.Event.told] at h
    · intro item e h
      rw [← Except.error.inj (Option.some.inj h)]
      exact hopens
  exact ⟨hopens, hevents, by decide +kernel, by decide, fails_alike_run _ hevents⟩

/-- The connect took too long. -/
def slow : ClientError := .timeout "connect" (.ofMillis 2000)

/-- A connect that takes too long is told as that by an exclusive pool; what a shared pool tells of it is of no class. -/
theorem not_fails_alike_of_slow : Session.OpensWith slow ∧
    (ofOptions (.exclusive ⟨1⟩)).report? (.borrow (fun _ => some (.error slow)) "a") = some (.failed slow) ∧
    (ofOptions (.shared "Connection" ⟨1, 2⟩)).report? (.borrow (fun _ => some (.error slow)) "a") =
      some (.failed (.poolCreation "Connection" slow)) ∧
    slow.classes = [false, false, true, false] ∧
    (ClientError.poolCreation "Connection" slow).classes = [false, false, false, false] := by
  refine ⟨⟨.pending, none, ⟨0, .ofParts 0 0⟩,
    [.startOpening "o" (some (.ofMillis 2000)), .pollOpening "o", .advance (.ofMillis 2000) (.ofParts 0 0), .pollOpening "o"],
    "o", ?_⟩, ?_, ?_, ?_, ?_⟩ <;>
  decide +kernel

end MemcachedClient.Pool
