import MemcachedClient.Proofs.Pool.Accounting

/-!
# Failed creations in a shared pool

The result of the creation of a slot's item is kept with the slot, and it is the answer for every
borrower that has a unit of the slot. A creation that fails is seen first by the borrower that ran it,
and that borrower retires the slot in the same operation. So a slot that takes borrowers never has a
failed creation (`Sound.run`), and a borrower that is assigned a unit when it starts never gets the
error of a creation that failed before it came.
-/

namespace MemcachedClient.Pool.Shared

/-- No slot that takes borrowers has a failed creation, except the slot `failed`. -/
def Sound (p : Shared) (failed : Option ℕ) : Prop :=
  ∀ s ∈ p.slots, s.retired = false → ∀ cause, s.made = some (.error cause) → failed = some s.id

namespace Sound

variable {p q : Shared} {failed : Option ℕ} {slot : ℕ}

theorem of_none (h : p.Sound none) (failed : Option ℕ) : p.Sound failed :=
  fun s hs hr cause hmade => absurd (h s hs hr cause hmade) (by simp)

theorem ofOptions (kind : String) (options : SharedOptions) :
    (Shared.ofOptions kind options).Sound none := by
  intro s hs
  simp [Shared.ofOptions] at hs

/-- Changes of a slot that leave its creation alone do no harm. -/
theorem updateSlot (h : p.Sound failed) (id : ℕ) {f : Slot → Slot}
    (hf : ∀ s, (f s).id = s.id ∧ (f s).retired = s.retired ∧ (f s).made = s.made) :
    (p.updateSlot id f).Sound failed := by
  intro s hs hr cause hmade
  obtain ⟨old, hold, rfl⟩ := mem_updateSlot.mp hs
  by_cases e : old.id = id
  · rw [if_pos e, (hf old).2.1] at hr
    rw [if_pos e, (hf old).2.2] at hmade
    rw [if_pos e, (hf old).1]
    exact h old hold hr cause hmade
  · rw [if_neg e] at hr hmade ⊢
    exact h old hold hr cause hmade

/-! ### Giving a unit back -/

theorem assign? (h : p.Sound failed) (ha : p.assign? = some (slot, q)) : q.Sound failed := by
  rcases assign?_cases ha with ⟨best, -, -, -, -, rfl⟩ | ⟨-, -, rfl⟩
  · exact h.updateSlot best.id fun s => ⟨rfl, rfl, rfl⟩
  · intro s hs hr cause hmade
    rcases List.mem_append.mp hs with hs | hs
    · exact h s hs hr cause hmade
    · rw [List.mem_singleton.mp hs] at hmade
      simp [Slot.ofId] at hmade

theorem handOn (h : p.Sound failed) (slot : ℕ) (queue : List ℕ) :
    (p.handOn slot queue).Sound failed := by
  rcases handOn_cases p slot queue with ⟨_, _, _, _, -, -, -, e⟩ | ⟨-, e⟩
  · rw [e]
    exact h
  · rw [e]
    exact Sound.updateSlot (p := { p with queue := [] }) h slot fun s => ⟨rfl, rfl, rfl⟩

/-- The slot of a failed creation may be retired. -/
theorem retireSlot {s : Slot} (h : p.Sound (some s.id)) (hs : s ∈ p.slots) :
    (p.retireSlot s).Sound none := by
  intro x hx hr cause hmade
  rcases (mem_retireSlot hs).mp hx with ⟨hx, hne⟩ | ⟨rfl, -⟩
  · have := h x hx hr cause hmade
    exact absurd (Option.some.inj this).symm hne
  · simp at hr

/-- Who gives a unit of the slot of a failed creation back has to retire the slot. -/
theorem giveUnit (retire : Bool) (h : p.Sound (if retire then some slot else none)) :
    (p.giveUnit slot retire).Sound none := by
  cases hs : p.slot? slot with
  | none =>
    rw [Shared.giveUnit, hs]
    intro s hmem hr cause hmade
    have hfailed := h s hmem hr cause hmade
    obtain ⟨s', hs'⟩ := exists_slot?_of_mem (List.mem_map_of_mem hmem)
    split at hfailed
    · rw [Option.some.inj hfailed, hs'] at hs
      simp at hs
    · simp at hfailed
  | some s =>
    obtain ⟨hmem, rfl⟩ := slot?_eq_some hs
    have hretired : (p.retireSlot s).Sound none := by
      cases retire with
      | true => exact h.retireSlot hmem
      | false => exact (of_none h _).retireSlot hmem
    rw [giveUnit_eq hs]
    split
    · next hstay =>
      rw [hstay.1] at h
      exact Sound.handOn h _ _
    split
    · exact hretired
    split
    · exact hretired
    · next ha => exact (hretired.assign? ha).handOn _ _

/-! ### Operations -/

variable {name : String}

theorem settle {result : Except ClientError ℕ}
    (h : p.Sound (match result with
      | .ok _ => none
      | .error _ => some slot)) :
    (p.settle name slot result).2.Sound none := by
  cases result with
  | ok item => exact h
  | error cause => exact Sound.giveUnit (p := p.without name) true h

theorem proceed (h : p.Sound none) (made : Creations) (item : ℕ) :
    (p.proceed made name slot item).2.Sound none := by
  simp only [Shared.proceed]
  split
  · exact h
  · next result _ =>
    refine Sound.settle ?_
    intro s hs hr cause hmade
    obtain ⟨old, hold, rfl⟩ := mem_updateSlot.mp hs
    by_cases e : old.id = slot
    · rw [if_pos e, Option.some.injEq] at hmade
      rw [hmade, if_pos e]
      exact congrArg some e.symm
    · rw [if_neg e] at hr hmade
      exact absurd (h old hold hr cause hmade) (by simp)

theorem await (h : p.Sound none) (made : Creations) (place : Handle) (turn : Semaphore) :
    (p.await made name slot place turn).2.Sound none := by
  have hturn := h.updateSlot slot (f := fun s => { s with turn := (turn.poll place).2.2 })
    fun s => ⟨rfl, rfl, rfl⟩
  simp only [Shared.await]
  split
  · exact Sound.proceed (p := { p.updateSlot slot _ with created := p.created + 1 }) hturn made _
  · exact hturn

theorem settle_made (h : p.Sound none) (result : Except ClientError ℕ) :
    (p.settle name slot result).2.Sound none := by
  refine Sound.settle ?_
  cases result with
  | ok item => exact h
  | error cause => exact h.of_none _

theorem enter (h : p.Sound none) (made : Creations) :
    (p.enter made name slot).2.Sound none := by
  simp only [Shared.enter]
  split
  · exact h
  split
  · exact h.settle_made _
  · exact h.await made _ _

/-- Every operation retires the slot of a creation that it sees fail. -/
theorem step (h : p.Sound none) (event : Event) : (p.step event).Sound none := by
  cases event with
  | borrow made name =>
    simp only [Shared.step, Shared.borrow]
    split
    · exact h
    split
    · exact h
    split
    · next ha => exact (h.assign? ha).enter made
    · exact h
  | poll made name =>
    simp only [Shared.step, Shared.poll]
    split
    · exact h
    · exact h
    · exact h
    · exact h.enter made
    · exact h.proceed made _
    · split
      · exact h
      split
      · exact h.settle_made _
      · exact h.await made _ _
  | cancel name =>
    simp only [Shared.step, Shared.cancel]
    split
    · exact h
    split
    · exact h
    · exact h
    · exact Sound.giveUnit (p := p.without name) false h
    · exact Sound.giveUnit false
        (Sound.updateSlot (p := p.without name) h _ fun s => ⟨rfl, rfl, rfl⟩)
    · exact Sound.giveUnit false
        (Sound.updateSlot (p := p.without name) h _ fun s => ⟨rfl, rfl, rfl⟩)
  | release accepts name =>
    simp only [Shared.step, Shared.release]
    split
    · exact h
    · exact Sound.giveUnit (p := { p with leases := p.leases.remove name }) _ (h.of_none _)
  | corrupt name =>
    simp only [Shared.step, Shared.corrupt]
    split <;> exact h
  | dispose =>
    intro s hs hr
    obtain ⟨old, -, rfl⟩ := List.mem_map.mp hs
    simp at hr

/-- **No slot that takes borrowers has a failed creation**, after any run. -/
theorem run (kind : String) (options : SharedOptions) (events : List Event) :
    ((Shared.ofOptions kind options).run events).Sound none :=
  run_induction (P := fun p => p.Sound none) (ofOptions kind options)
    (fun _ event h => h.step event) events

end Sound

end MemcachedClient.Pool.Shared
