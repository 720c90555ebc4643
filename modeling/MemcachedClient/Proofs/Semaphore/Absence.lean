import MemcachedClient.Proofs.Semaphore.Guarding
import Mathlib.Logic.Function.Basic

/-!
# A semaphore as if one of its callers had never come

A caller that queued and gives up again leaves two traces: the callers after it have other tickets, and its place may
still stand in the queue. Nobody can tell, for all that a semaphore does with its callers depends on who stands in line
and on whose unit is on its way; `Semaphore.Renumbered` says that two semaphores are the same up to that.

As long as the caller has its place, the semaphore is that of the others with one more in line. What one of the others
does leads to where it would lead if the caller gave up first (`Expects.wait`, `Expects.poll`, `Expects.signalOne`,
`Expects.drop`), with one exception: once the unit is on its way to the caller, another one that looks for it misses it.
-/

namespace MemcachedClient

/-- The handle with another ticket. -/
def Handle.renumber (σ : ℕ → ℕ) : Handle → Handle
  | queued ticket => queued (σ ticket)
  | handle => handle

namespace Semaphore

variable {s t u : Semaphore} {σ τ : ℕ → ℕ} {handle : Handle} {own ticket : ℕ}

/-! ### Who stands in line after each operation -/

@[simp] theorem nextTicket_signalOne (s : Semaphore) : s.signalOne.nextTicket = s.nextTicket :=
  nextTicket_handOver s s.queue

@[simp] theorem nextTicket_drop (s : Semaphore) (handle : Handle) : (s.drop handle).nextTicket = s.nextTicket := by
  cases handle with
  | granted => exact s.nextTicket_signalOne
  | acquired => rfl
  | queued ticket =>
    rw [drop]
    split
    · exact nextTicket_signalOne _
    · rfl

theorem enter_eq (s : Semaphore) : s.enter = s.wait.2.poll s.wait.1 := rfl

theorem wait_of_available (h : 0 < s.available) : s.wait = (.granted, { s with available := s.available - 1 }) := if_pos h

theorem wait_of_none (h : s.available = 0) :
    s.wait.1 = .queued s.nextTicket ∧ s.wait.2.line = s.line ++ [s.nextTicket] ∧
      s.wait.2.delivered = s.delivered ∧ s.wait.2.available = 0 ∧ s.wait.2.nextTicket = s.nextTicket + 1 := by
  rw [wait, if_neg (by omega)]
  exact ⟨rfl, by simp [line], rfl, h, rfl⟩

theorem delivered_poll_subset (s : Semaphore) (handle : Handle) : (s.poll handle).2.2.delivered ⊆ s.delivered := by
  cases handle with
  | granted => exact List.Subset.refl _
  | acquired => exact List.Subset.refl _
  | queued ticket =>
    rw [poll]
    split
    · exact List.erase_subset
    · exact List.Subset.refl _

/-! ### Other tickets -/

/-- One semaphore is another one with other tickets, and perhaps with other places that were given up. -/
structure Renumbered (σ : ℕ → ℕ) (s t : Semaphore) : Prop where
  /-- As many units are available. -/
  available : t.available = s.available
  /-- The same callers stand in line. -/
  line : t.line = s.line.map σ
  /-- The units are on their way to the same callers. -/
  delivered : t.delivered = s.delivered.map σ
  /-- Nobody has the ticket of another one. -/
  injective : σ.Injective
  /-- Those who come get the next tickets. -/
  next : ∀ n, σ (s.nextTicket + n) = t.nextTicket + n

namespace Renumbered

theorem refl (s : Semaphore) : s.Renumbered id s :=
  ⟨rfl, (List.map_id _).symm, (List.map_id _).symm, Function.injective_id, fun _ => rfl⟩

theorem trans (h : s.Renumbered σ t) (h' : t.Renumbered τ u) : s.Renumbered (τ ∘ σ) u where
  available := h'.available.trans h.available
  line := by rw [h'.line, h.line, List.map_map]
  delivered := by rw [h'.delivered, h.delivered, List.map_map]
  injective := h'.injective.comp h.injective
  next n := by rw [Function.comp_apply, h.next, h'.next]

/-- Places that were given up do not matter. -/
theorem of_eq (havailable : t.available = s.available) (hline : t.line = s.line) (hdelivered : t.delivered = s.delivered)
    (hnext : t.nextTicket = s.nextTicket) : s.Renumbered id t :=
  ⟨havailable, by rw [hline, List.map_id], by rw [hdelivered, List.map_id], Function.injective_id,
    fun _ => by rw [hnext]; rfl⟩

variable (h : s.Renumbered σ t)
include h

theorem mem_delivered : σ ticket ∈ t.delivered ↔ ticket ∈ s.delivered := by
  rw [h.delivered, List.mem_map_of_injective h.injective]

theorem wait : t.wait.1 = s.wait.1.renumber σ ∧ s.wait.2.Renumbered σ t.wait.2 := by
  by_cases hnone : s.available = 0
  · obtain ⟨hhandle, hline, hdelivered, havailable, hnext⟩ := wait_of_none hnone
    obtain ⟨hhandle', hline', hdelivered', havailable', hnext'⟩ := wait_of_none (h.available.trans hnone)
    have hticket := h.next 0
    rw [Nat.add_zero, Nat.add_zero] at hticket
    refine ⟨by rw [hhandle', hhandle, Handle.renumber, hticket], ?_, ?_, ?_, h.injective, fun n => ?_⟩
    · rw [havailable', havailable]
    · rw [hline', hline, h.line, List.map_append, List.map_singleton, hticket]
    · rw [hdelivered', hdelivered, h.delivered]
    · rw [hnext', hnext, Nat.add_assoc, Nat.add_assoc, h.next]
  · have hpos : 0 < s.available := Nat.pos_of_ne_zero hnone
    rw [wait_of_available hpos, wait_of_available (h.available ▸ hpos)]
    exact ⟨rfl, by rw [h.available], h.line, h.delivered, h.injective, h.next⟩

theorem withdraw (ticket : ℕ) : (s.withdraw (.queued ticket)).Renumbered σ (t.withdraw (.queued (σ ticket))) where
  available := h.available
  line := h.line
  delivered := by
    change t.delivered.erase (σ ticket) = (s.delivered.erase ticket).map σ
    rw [h.delivered, List.map_erase h.injective]
  injective := h.injective
  next := h.next

theorem poll (handle : Handle) :
    (t.poll (handle.renumber σ)).1 = (s.poll handle).1 ∧
      (t.poll (handle.renumber σ)).2.1 = (s.poll handle).2.1.renumber σ ∧
      (s.poll handle).2.2.Renumbered σ (t.poll (handle.renumber σ)).2.2 := by
  cases handle with
  | granted => exact ⟨rfl, rfl, h⟩
  | acquired => exact ⟨rfl, rfl, h⟩
  | queued ticket =>
    by_cases hmem : ticket ∈ s.delivered
    · rw [Handle.renumber, Semaphore.poll, Semaphore.poll, if_pos hmem, if_pos (h.mem_delivered.mpr hmem)]
      exact ⟨rfl, rfl, h.withdraw ticket⟩
    · rw [Handle.renumber, Semaphore.poll, Semaphore.poll, if_neg hmem, if_neg (mt h.mem_delivered.mp hmem)]
      exact ⟨rfl, rfl, h⟩

theorem enter :
    t.enter.1 = s.enter.1 ∧ t.enter.2.1 = s.enter.2.1.renumber σ ∧ s.enter.2.2.Renumbered σ t.enter.2.2 := by
  obtain ⟨hplace, hafter⟩ := h.wait
  rw [enter_eq, enter_eq, hplace]
  exact hafter.poll s.wait.1

theorem signalOne : s.signalOne.Renumbered σ t.signalOne := by
  cases hline : s.line with
  | nil =>
    have hline' : t.line = [] := by rw [h.line, hline, List.map_nil]
    rw [signalOne_of_line_eq_nil hline, signalOne_of_line_eq_nil hline']
    exact ⟨by rw [h.available], rfl, h.delivered, h.injective, h.next⟩
  | cons first rest =>
    have hline' : t.line = σ first :: rest.map σ := by rw [h.line, hline, List.map_cons]
    obtain ⟨hrest, hdelivered, havailable⟩ := signalOne_of_line_eq_cons hline
    obtain ⟨hrest', hdelivered', havailable'⟩ := signalOne_of_line_eq_cons hline'
    refine ⟨?_, ?_, ?_, h.injective, fun n => ?_⟩
    · rw [havailable', havailable, h.available]
    · rw [hrest', hrest]
    · rw [hdelivered', hdelivered, h.delivered, List.map_cons]
    · rw [nextTicket_signalOne, nextTicket_signalOne]
      exact h.next n

theorem drop (handle : Handle) : (s.drop handle).Renumbered σ (t.drop (handle.renumber σ)) := by
  cases handle with
  | granted => exact h.signalOne
  | acquired => exact h
  | queued ticket =>
    by_cases hmem : ticket ∈ s.delivered
    · have hready : s.isReadyFor (.queued ticket) = true := by simpa [isReadyFor] using hmem
      have hready' : t.isReadyFor (.queued (σ ticket)) = true := by simpa [isReadyFor, h.mem_delivered] using hmem
      rw [Handle.renumber, drop_of_isReadyFor hready, drop_of_isReadyFor hready']
      exact (h.withdraw ticket).signalOne
    · obtain ⟨hline, hdelivered, havailable⟩ := line_drop_queued hmem
      obtain ⟨hline', hdelivered', havailable'⟩ := line_drop_queued (mt h.mem_delivered.mp hmem)
      refine ⟨?_, ?_, ?_, h.injective, fun n => ?_⟩
      · rw [Handle.renumber, havailable', havailable, h.available]
      · rw [Handle.renumber, hline', hline, h.line, List.filter_map]
        congr 1
        exact List.filter_congr fun other _ => by simp [h.injective.eq_iff]
      · rw [Handle.renumber, hdelivered', hdelivered, h.delivered]
      · rw [nextTicket_drop, nextTicket_drop]
        exact h.next n

end Renumbered

/-! ### A caller that has its place -/

/-- The semaphore expects one caller to take its unit: it queued with this ticket, and it is the only one to whom a
unit may be on its way while its own is. -/
structure Expects (s : Semaphore) (own : ℕ) : Prop where
  /-- No unit is available. -/
  none : s.available = 0
  /-- Nobody stands in line twice. -/
  nodup : s.line.Nodup
  /-- While its unit is on its way, no other unit is. -/
  only : own ∈ s.delivered → s.delivered = [own]
  /-- It has its ticket. -/
  old : own < s.nextTicket
  /-- No unit is on its way to one that is still to come. -/
  fresh : s.nextTicket ∉ s.delivered

/-- If the caller whose unit is on its way gives up, the unit goes to the first in line, or becomes available. -/
theorem drop_of_delivered (hnone : s.available = 0) (hdelivered : s.delivered = [own]) :
    (s.drop (.queued own)).line = s.line.drop 1 ∧ (s.drop (.queued own)).delivered = s.line.take 1 ∧
      (s.drop (.queued own)).available = 1 - s.line.length := by
  have hready : s.isReadyFor (.queued own) = true := by simp [isReadyFor, hdelivered]
  have hgone : (s.withdraw (.queued own)).delivered = [] := by
    change s.delivered.erase own = []
    rw [hdelivered, List.erase_cons_head]
  rw [drop_of_isReadyFor hready]
  cases hline : s.line with
  | nil =>
    have hline' : (s.withdraw (.queued own)).line = [] := hline
    rw [signalOne_of_line_eq_nil hline']
    exact ⟨rfl, hgone, congrArg (· + 1) hnone⟩
  | cons first rest =>
    have hline' : (s.withdraw (.queued own)).line = first :: rest := hline
    obtain ⟨hrest, hmore, havailable⟩ := signalOne_of_line_eq_cons hline'
    refine ⟨hrest, hmore.trans (by rw [hgone]; rfl), havailable.trans ?_⟩
    rw [List.length_cons, show (s.withdraw (.queued own)).available = 0 from hnone]
    omega

namespace Expects

variable (h : s.Expects own)
include h

/-- Another one asks, and would have to queue even without the caller. -/
theorem wait (hnone : (s.drop (.queued own)).available = 0) :
    s.wait.1 = (s.drop (.queued own)).wait.1 ∧
      (s.drop (.queued own)).wait.2.Renumbered id (s.wait.2.drop (.queued own)) := by
  obtain ⟨hhandle, hline, hdelivered, havailable, hnext⟩ := wait_of_none h.none
  obtain ⟨hhandle', hline', hdelivered', havailable', hnext'⟩ := wait_of_none hnone
  rw [nextTicket_drop] at hhandle' hline' hnext'
  refine ⟨by rw [hhandle, hhandle'], ?_⟩
  have hlater : (s.wait.2.drop (.queued own)).nextTicket = (s.drop (.queued own)).wait.2.nextTicket := by
    rw [nextTicket_drop, hnext, hnext']
  by_cases hmem : own ∈ s.delivered
  · have honly := h.only hmem
    obtain ⟨hrest, hgiven, hspare⟩ := drop_of_delivered h.none honly
    obtain ⟨hrest', hgiven', hspare'⟩ := drop_of_delivered havailable (hdelivered.trans honly)
    -- somebody stands in line already, to whom the unit would go
    cases hcons : s.line with
    | nil =>
      rw [hspare, hcons] at hnone
      exact absurd hnone Nat.one_ne_zero
    | cons first rest =>
      refine .of_eq ?_ ?_ ?_ hlater
      · rw [hspare', havailable', hline, hcons, List.length_append, List.length_cons]
        omega
      · rw [hrest', hline', hrest, hline, hcons]
        rfl
      · rw [hgiven', hdelivered', hgiven, hline, hcons]
        rfl
  · obtain ⟨hrest, hgiven, hspare⟩ := line_drop_queued hmem
    obtain ⟨hrest', hgiven', hspare'⟩ := line_drop_queued (hdelivered ▸ hmem)
    refine .of_eq ?_ ?_ ?_ hlater
    · rw [hspare', havailable', havailable]
    · have hne : s.nextTicket ≠ own := Nat.ne_of_gt h.old
      rw [hrest', hline', hrest, hline, List.filter_append, List.filter_singleton]
      simp [hne]
    · rw [hgiven', hdelivered', hgiven, hdelivered]

/-- A unit is given back that was not on its way to the caller. -/
theorem signalOne (hnot : own ∉ s.delivered) :
    (s.drop (.queued own)).signalOne.Renumbered id (s.signalOne.drop (.queued own)) := by
  obtain ⟨hrest, hgiven, hspare⟩ := line_drop_queued hnot
  have hlater : (s.signalOne.drop (.queued own)).nextTicket = (s.drop (.queued own)).signalOne.nextTicket := by
    simp only [nextTicket_drop, nextTicket_signalOne]
  cases hline : s.line with
  | nil =>
    have hrest' : (s.drop (.queued own)).line = [] := by rw [hrest, hline]; rfl
    have hnot' : own ∉ s.signalOne.delivered := by rwa [signalOne_of_line_eq_nil hline]
    obtain ⟨hafter, hgiven', hspare'⟩ := line_drop_queued hnot'
    refine .of_eq ?_ ?_ ?_ hlater
    · rw [hspare', signalOne_of_line_eq_nil hline, signalOne_of_line_eq_nil hrest', hspare]
    · rw [hafter, line_signalOne, line_signalOne, hrest', hline]
      rfl
    · rw [hgiven', signalOne_of_line_eq_nil hline, signalOne_of_line_eq_nil hrest', hgiven]
  | cons first rest =>
    obtain ⟨hbehind, hmore, havailable⟩ := signalOne_of_line_eq_cons hline
    have hnodup := h.nodup
    rw [hline, List.nodup_cons] at hnodup
    by_cases hfirst : first = own
    · -- the unit goes to the caller; when the caller gives up it goes to the next one, as it would without the caller
      subst hfirst
      have hready : s.signalOne.isReadyFor (.queued first) = true := by simp [isReadyFor, hmore]
      have hagain : (s.drop (.queued first)).Renumbered id (s.signalOne.withdraw (.queued first)) := by
        refine .of_eq ?_ ?_ ?_ ?_
        · exact havailable.trans hspare.symm
        · refine hbehind.trans ?_
          rw [hrest, hline, List.filter_cons_of_neg (by simp), List.filter_eq_self.mpr]
          exact fun other hother => by simpa using fun e : other = first => hnodup.1 (e ▸ hother)
        · change s.signalOne.delivered.erase first = _
          rw [hmore, List.erase_cons_head, hgiven]
        · rw [nextTicket_drop]
          exact s.nextTicket_signalOne
      rw [drop_of_isReadyFor hready]
      exact hagain.signalOne
    · have hrest' : (s.drop (.queued own)).line = first :: rest.filter (· ≠ own) := by
        rw [hrest, hline, List.filter_cons_of_pos (by simpa using hfirst)]
      obtain ⟨hbehind', hmore', havailable'⟩ := signalOne_of_line_eq_cons hrest'
      have hnot' : own ∉ s.signalOne.delivered := by
        rw [hmore, List.mem_cons, not_or]
        exact ⟨Ne.symm hfirst, hnot⟩
      obtain ⟨hafter, hgiven', hspare'⟩ := line_drop_queued hnot'
      refine .of_eq ?_ ?_ ?_ hlater
      · rw [hspare', havailable, havailable', hspare]
      · rw [hafter, hbehind, hbehind']
      · rw [hgiven', hmore, hmore', hgiven]

/-- Another one takes its unit. -/
theorem withdraw (hne : ticket ≠ own) : (s.withdraw (.queued ticket)).Expects own where
  none := h.none
  nodup := h.nodup
  only hmem := by
    have hmem : own ∈ s.delivered.erase ticket := hmem
    have honly := h.only (List.mem_of_mem_erase hmem)
    change s.delivered.erase ticket = [own]
    rw [honly, List.erase_of_not_mem (by simpa using hne)]
  old := h.old
  fresh hmem := h.fresh (List.mem_of_mem_erase hmem)

omit h in
/-- Whether the caller gives up before or after another one takes its unit makes no difference. -/
theorem withdraw_drop (hnot : own ∉ s.delivered) (ticket : ℕ) :
    ((s.drop (.queued own)).withdraw (.queued ticket)).Renumbered id
      ((s.withdraw (.queued ticket)).drop (.queued own)) := by
  have hnot' : own ∉ (s.withdraw (.queued ticket)).delivered := fun hmem => hnot (List.mem_of_mem_erase hmem)
  obtain ⟨hrest, hgiven, hspare⟩ := line_drop_queued hnot
  obtain ⟨hrest', hgiven', hspare'⟩ := line_drop_queued hnot'
  refine .of_eq ?_ ?_ ?_ ?_
  · exact hspare'.trans hspare.symm
  · exact hrest'.trans hrest.symm
  · refine hgiven'.trans ?_
    change _ = (s.drop (.queued own)).delivered.erase ticket
    rw [hgiven]
    rfl
  · rw [nextTicket_drop]
    exact (s.nextTicket_drop _).symm

theorem notMem_of_mem (hne : ticket ≠ own) (hmem : ticket ∈ s.delivered) : own ∉ s.delivered := by
  intro hown
  rw [h.only hown, List.mem_singleton] at hmem
  exact hne hmem

/-- What another one finds it would find without the caller too. -/
theorem poll_fst (hne : handle ≠ .queued own) (htaken : (s.poll handle).1 = true) :
    ((s.drop (.queued own)).poll handle).1 = true := by
  cases handle with
  | granted => rfl
  | acquired => rfl
  | queued ticket =>
    have hother : ticket ≠ own := fun e => hne (e ▸ rfl)
    by_cases hmem : ticket ∈ s.delivered
    · have hmem' : ticket ∈ (s.drop (.queued own)).delivered := by
        rwa [(line_drop_queued (h.notMem_of_mem hother hmem)).2.1]
      rw [Semaphore.poll, if_pos hmem']
    · rw [Semaphore.poll, if_neg hmem] at htaken
      exact absurd htaken Bool.false_ne_true

/-- Another one looks for its unit, and does not miss it on account of the caller. -/
theorem poll (hne : handle ≠ .queued own)
    (hsame : (s.poll handle).1 = ((s.drop (.queued own)).poll handle).1) :
    (s.poll handle).2.1 = ((s.drop (.queued own)).poll handle).2.1 ∧
      ((s.drop (.queued own)).poll handle).2.2.Renumbered id ((s.poll handle).2.2.drop (.queued own)) := by
  cases handle with
  | granted => exact ⟨rfl, .refl _⟩
  | acquired => exact ⟨rfl, .refl _⟩
  | queued ticket =>
    have hother : ticket ≠ own := fun e => hne (e ▸ rfl)
    by_cases hmem : ticket ∈ s.delivered
    · have hnot := h.notMem_of_mem hother hmem
      have hmem' : ticket ∈ (s.drop (.queued own)).delivered := by rwa [(line_drop_queued hnot).2.1]
      rw [Semaphore.poll, Semaphore.poll, if_pos hmem, if_pos hmem']
      exact ⟨rfl, withdraw_drop hnot ticket⟩
    · have hfalse : (s.poll (.queued ticket)).1 = false := by rw [Semaphore.poll, if_neg hmem]
      obtain ⟨_, _, -, hquiet⟩ := poll_eq_false hfalse
      obtain ⟨_, _, -, hquiet'⟩ := poll_eq_false (hsame.symm.trans hfalse)
      rw [hquiet, hquiet']
      exact ⟨rfl, .refl _⟩

/-- It is still expected after another one has looked. -/
theorem after_poll (hne : handle ≠ .queued own) : (s.poll handle).2.2.Expects own := by
  cases handle with
  | granted => exact h
  | acquired => exact h
  | queued ticket =>
    rw [Semaphore.poll]
    split
    · exact h.withdraw fun e => hne (e ▸ rfl)
    · exact h

/-- Nobody finds a unit who asks now. -/
theorem enter_fst : s.enter.1 = false := by
  obtain ⟨hhandle, -, hdelivered, -, -⟩ := wait_of_none h.none
  rw [enter_eq, hhandle, Semaphore.poll, hdelivered, if_neg h.fresh]

/-- Another one asks and looks at once, and does not miss the unit on account of the caller. -/
theorem enter (hsame : s.enter.1 = (s.drop (.queued own)).enter.1) :
    s.enter.2.1 = (s.drop (.queued own)).enter.2.1 ∧
      (s.drop (.queued own)).enter.2.2.Renumbered id (s.enter.2.2.drop (.queued own)) := by
  have hfalse := h.enter_fst
  have hnone : (s.drop (.queued own)).available = 0 := by
    by_contra hsome
    have htrue : (s.drop (.queued own)).enter.1 = true := by
      rw [enter_eq, wait_of_available (Nat.pos_of_ne_zero hsome)]
      rfl
    rw [← hsame, hfalse] at htrue
    exact Bool.false_ne_true htrue
  have hfalse' := hsame.symm.trans hfalse
  rw [enter_eq] at hfalse hfalse'
  obtain ⟨_, _, -, hquiet⟩ := poll_eq_false hfalse
  obtain ⟨_, _, -, hquiet'⟩ := poll_eq_false hfalse'
  obtain ⟨hplace, hwait⟩ := h.wait hnone
  rw [enter_eq, enter_eq, hquiet, hquiet']
  exact ⟨hplace, hwait⟩

/-- Another one gives up its place, while the unit is on its way to the caller: it would be with the first in line if
the caller gave up. -/
theorem drop_behind (hown : own ∈ s.delivered) (hmem : ticket ∉ s.delivered) :
    ((s.drop (.queued own)).drop (.queued ticket)).Renumbered id
      ((s.drop (.queued ticket)).drop (.queued own)) := by
  obtain ⟨hline, hdelivered, havailable⟩ := line_drop_queued hmem
  obtain ⟨hrest, hgiven, hspare⟩ := drop_of_delivered h.none (h.only hown)
  obtain ⟨hrest', hgiven', hspare'⟩ := drop_of_delivered (havailable.trans h.none) (hdelivered.trans (h.only hown))
  have hnodup := h.nodup
  by_cases hfirst : s.line.head? = some ticket
  · -- it is the other one itself, and after it the next one
    obtain ⟨rest, hcons⟩ := List.head?_eq_some_iff.mp hfirst
    rw [hcons] at hrest hgiven hspare hline
    rw [hcons, List.nodup_cons] at hnodup
    have hbehind : (s.drop (.queued ticket)).line = rest := by
      rw [hline, List.filter_cons_of_neg (by simp), List.filter_eq_self.mpr]
      exact fun other hother => by simpa using fun e : other = ticket => hnodup.1 (e ▸ hother)
    have hnone : (s.drop (.queued own)).available = 0 := hspare.trans (by rw [List.length_cons]; omega)
    obtain ⟨hline', hdelivered', havailable'⟩ := drop_of_delivered hnone hgiven
    have hrest : (s.drop (.queued own)).line = rest := hrest
    refine .of_eq ?_ ?_ ?_ (by simp only [nextTicket_drop])
    · rw [hspare', havailable', hbehind, hrest]
    · rw [hrest', hline', hbehind, hrest]
    · rw [hgiven', hdelivered', hbehind, hrest]
  · have hmem' : ticket ∉ (s.drop (.queued own)).delivered := by
      rw [hgiven]
      cases hcons : s.line with
      | nil => exact List.not_mem_nil
      | cons first rest =>
        rw [hcons] at hfirst
        exact fun hin => hfirst (congrArg some (List.mem_singleton.mp hin).symm)
    obtain ⟨hline', hdelivered', havailable'⟩ := line_drop_queued hmem'
    have hbehind : (s.line.filter (· ≠ ticket)).take 1 = s.line.take 1 ∧
        (s.line.filter (· ≠ ticket)).drop 1 = (s.line.drop 1).filter (· ≠ ticket) := by
      cases hcons : s.line with
      | nil => exact ⟨rfl, rfl⟩
      | cons first rest =>
        rw [hcons] at hfirst
        rw [List.filter_cons_of_pos (by simpa using hfirst)]
        exact ⟨rfl, rfl⟩
    have hlength : 1 - (s.line.filter (· ≠ ticket)).length = 1 - s.line.length := by
      have hsome := congrArg List.length hbehind.1
      rw [List.length_take, List.length_take] at hsome
      omega
    refine .of_eq ?_ ?_ ?_ (by simp only [nextTicket_drop])
    · rw [hspare', havailable', hspare, hline, hlength]
    · rw [hrest', hline', hrest, hline, hbehind.2]
    · rw [hgiven', hdelivered', hgiven, hline, hbehind.1]

/-- Another one gives up. -/
theorem drop (hne : handle ≠ .queued own) (hgranted : handle = .granted → own ∉ s.delivered) :
    ((s.drop (.queued own)).drop handle).Renumbered id ((s.drop handle).drop (.queued own)) := by
  cases handle with
  | granted => exact h.signalOne (hgranted rfl)
  | acquired => exact .refl _
  | queued ticket =>
    have hother : ticket ≠ own := fun e => hne (e ▸ rfl)
    by_cases hmem : ticket ∈ s.delivered
    · -- the unit was on its way to the other one
      have hnot := h.notMem_of_mem hother hmem
      have hmem' : ticket ∈ (s.drop (.queued own)).delivered := by rwa [(line_drop_queued hnot).2.1]
      have hready : s.isReadyFor (.queued ticket) = true := by simpa [isReadyFor] using hmem
      have hready' : (s.drop (.queued own)).isReadyFor (.queued ticket) = true := by simpa [isReadyFor] using hmem'
      have hnot' : own ∉ (s.withdraw (.queued ticket)).delivered := fun hown => hnot (List.mem_of_mem_erase hown)
      rw [drop_of_isReadyFor hready, drop_of_isReadyFor hready']
      exact (withdraw_drop hnot ticket).signalOne.trans ((h.withdraw hother).signalOne hnot')
    obtain ⟨hline, hdelivered, havailable⟩ := line_drop_queued hmem
    by_cases hown : own ∈ s.delivered
    · exact h.drop_behind hown hmem
    · -- both stand in line
      have hmem' : ticket ∉ (s.drop (.queued own)).delivered := by rwa [(line_drop_queued hown).2.1]
      have hown' : own ∉ (s.drop (.queued ticket)).delivered := by rwa [hdelivered]
      obtain ⟨hrest, hgiven, hspare⟩ := line_drop_queued hown
      obtain ⟨hrest', hgiven', hspare'⟩ := line_drop_queued hown'
      obtain ⟨hline', hdelivered', havailable'⟩ := line_drop_queued hmem'
      refine .of_eq ?_ ?_ ?_ (by simp only [nextTicket_drop])
      · rw [hspare', havailable', havailable, hspare]
      · rw [hrest', hline', hline, hrest, List.filter_filter, List.filter_filter]
        exact List.filter_congr fun other _ => by rw [Bool.and_comm]
      · rw [hgiven', hdelivered', hdelivered, hgiven]

end Expects

/-! ### Coming and going -/

/-- A ticket in line or with a unit on its way was given out. -/
theorem Serves.lt_nextTicket {calls : ℕ → ℕ} (h : s.Serves calls) (hmem : ticket ∈ s.line ∨ ticket ∈ s.delivered) :
    ticket < s.nextTicket := by
  have hpos : 0 < s.places ticket := by
    rw [places]
    rcases hmem with hline | hdelivered
    · obtain ⟨place, hplace, rfl⟩ := List.mem_map.mp hline
      have hcount : 0 < s.queue.countP (·.ticket = place.ticket) :=
        List.countP_pos_iff.mpr ⟨place, (List.mem_filter.mp hplace).1, by simp⟩
      omega
    · have hcount := List.count_pos_iff.mpr hdelivered
      omega
  have honce := h.once ticket
  by_contra hge
  rw [if_neg hge] at honce
  omega

/-- Who finds no unit when it asks and looks queues, and the others stay where they are. -/
theorem enter_of_false (h : s.enter.1 = false) :
    s.available = 0 ∧ s.enter = (false, .queued s.nextTicket, s.wait.2) := by
  have hnone : s.available = 0 := by
    by_contra hsome
    rw [enter_eq, wait_of_available (Nat.pos_of_ne_zero hsome)] at h
    exact Bool.false_ne_true h.symm
  obtain ⟨hhandle, -⟩ := wait_of_none hnone
  rw [enter_eq] at h ⊢
  obtain ⟨_, _, -, hquiet⟩ := poll_eq_false h
  rw [hquiet, hhandle]
  exact ⟨hnone, rfl⟩

/-- The tickets without one of them. -/
def skip (own ticket : ℕ) : ℕ := if ticket < own then ticket else ticket + 1

theorem skip_of_lt (h : ticket < own) : skip own ticket = ticket := if_pos h

theorem skip_injective (own : ℕ) : (skip own).Injective := by
  intro m n h
  simp only [skip] at h
  split at h <;> split at h <;> omega

/-- A caller comes, queues and gives up again: the others do not notice, but that the tickets after it are others. -/
theorem Renumbered.come {calls calls' : ℕ → ℕ} (h : s.Renumbered σ t) (hs : s.Serves calls) (ht : t.Serves calls')
    (hnone : t.available = 0) :
    s.Renumbered (σ ∘ skip s.nextTicket) (t.wait.2.drop (.queued t.nextTicket)) := by
  obtain ⟨-, hline, hdelivered, havailable, hnext⟩ := wait_of_none hnone
  have hnot : t.nextTicket ∉ t.wait.2.delivered := by
    rw [hdelivered]
    exact ht.nextTicket_notMem
  obtain ⟨hrest, hgiven, hspare⟩ := line_drop_queued hnot
  have hsame : ∀ tickets : List ℕ, (∀ ticket ∈ tickets, ticket < s.nextTicket) →
      tickets.map (σ ∘ skip s.nextTicket) = tickets.map σ := by
    intro tickets hold
    exact List.map_congr_left fun ticket hmem => congrArg σ (skip_of_lt (hold ticket hmem))
  refine ⟨?_, ?_, ?_, h.injective.comp (skip_injective _), fun n => ?_⟩
  · rw [hspare, havailable, ← h.available, hnone]
  · rw [hsame _ fun ticket hmem => hs.lt_nextTicket (Or.inl hmem), ← h.line, hrest, hline, List.filter_append]
    have hgone : List.filter (· ≠ t.nextTicket) [t.nextTicket] = [] := by simp
    rw [hgone, List.append_nil, List.filter_eq_self]
    exact fun ticket hmem => by simpa using Nat.ne_of_lt (ht.lt_nextTicket (Or.inl hmem))
  · rw [hsame _ fun ticket hmem => hs.lt_nextTicket (Or.inr hmem), ← h.delivered, hgiven, hdelivered]
  · have hafter := h.next (n + 1)
    rw [nextTicket_drop, hnext, Function.comp_apply, skip, if_neg (by omega), Nat.add_assoc s.nextTicket, hafter]
    omega

/-! ### The semaphore without a caller -/

/-- The semaphore if the caller who queued with this ticket, if there is one, gave up its place. -/
def without (s : Semaphore) (own? : Option ℕ) : Semaphore := own?.elim s fun own => s.drop (.queued own)

/-- The second semaphore is the first one with other tickets and perhaps one caller more, who queued with this ticket:
if that one gives up its place they are the same. -/
def Bears (σ : ℕ → ℕ) (own? : Option ℕ) (s t : Semaphore) : Prop := s.Renumbered σ (t.without own?)

section without

variable {own? : Option ℕ} (h : s.Bears σ own? t) (hexpects : ∀ own, own? = some own → t.Expects own)
include h hexpects

theorem Bears.enter (hsame : t.enter.1 = (t.without own?).enter.1) :
    t.enter.1 = s.enter.1 ∧ t.enter.2.1 = s.enter.2.1.renumber σ ∧
      s.enter.2.2.Bears σ own? t.enter.2.2 := by
  obtain ⟨htaken, hplace, hafter⟩ := Renumbered.enter h
  cases own? with
  | none => exact ⟨htaken, hplace, hafter⟩
  | some own =>
    obtain ⟨hsamePlace, hlater⟩ := (hexpects own rfl).enter hsame
    exact ⟨hsame.trans htaken, hsamePlace.trans hplace, hafter.trans hlater⟩

theorem Bears.poll (hne : ∀ own, own? = some own → handle.renumber σ ≠ .queued own)
    (hsame : (t.poll (handle.renumber σ)).1 = ((t.without own?).poll (handle.renumber σ)).1) :
    (t.poll (handle.renumber σ)).1 = (s.poll handle).1 ∧
      (t.poll (handle.renumber σ)).2.1 = (s.poll handle).2.1.renumber σ ∧
      (s.poll handle).2.2.Bears σ own? (t.poll (handle.renumber σ)).2.2 := by
  obtain ⟨htaken, hplace, hafter⟩ := Renumbered.poll h handle
  cases own? with
  | none => exact ⟨htaken, hplace, hafter⟩
  | some own =>
    obtain ⟨hsamePlace, hlater⟩ := (hexpects own rfl).poll (hne own rfl) hsame
    exact ⟨hsame.trans htaken, hsamePlace.trans hplace, hafter.trans hlater⟩

theorem Bears.signalOne (hnot : ∀ own, own? = some own → own ∉ t.delivered) :
    s.signalOne.Bears σ own? t.signalOne := by
  have hafter := Renumbered.signalOne h
  cases own? with
  | none => exact hafter
  | some own => exact hafter.trans ((hexpects own rfl).signalOne (hnot own rfl))

theorem Bears.drop (hne : ∀ own, own? = some own → handle.renumber σ ≠ .queued own)
    (hgranted : handle = .granted → ∀ own, own? = some own → own ∉ t.delivered) :
    (s.drop handle).Bears σ own? (t.drop (handle.renumber σ)) := by
  have hafter := Renumbered.drop h handle
  cases own? with
  | none => exact hafter
  | some own =>
    refine hafter.trans ((hexpects own rfl).drop (hne own rfl) fun e => hgranted ?_ own rfl)
    cases handle <;> simp_all [Handle.renumber]

end without

section table

variable {α : Type} {table : Table α} {place? : α → Option Handle} {name other : String} {x y : α}

/-- A semaphore of one unit expects whoever queued before it. -/
theorem Guarded.expects (h : s.Guarded table place?) (hd : table.Distinct) (hget : table.get? name = some x)
    (hplace : place? x = some (.queued own)) : s.Expects own := by
  have honce : own ∈ s.line ∨ own ∈ s.delivered := by
    by_cases hmem : own ∈ s.delivered
    · exact Or.inr hmem
    · exact Or.inl (h.mem_line hd hget hplace hmem)
  refine ⟨?_, h.serves.line_disjoint.1, fun hmem => ?_, h.serves.lt_nextTicket honce, h.serves.nextTicket_notMem⟩
  · rcases honce with hline | hmem
    · by_contra hsome
      rw [h.line_eq_nil_of_available (Nat.pos_of_ne_zero hsome)] at hline
      exact List.not_mem_nil hline
    · exact h.available_eq_zero hd hget (by simpa [hplace, isWith] using hmem)
  · have hunits := h.units
    rw [Semaphore.units] at hunits
    have hlength : s.delivered.length ≤ 1 := by omega
    cases hdelivered : s.delivered with
    | nil => simp [hdelivered] at hmem
    | cons first rest =>
      rw [hdelivered, List.length_cons] at hlength
      obtain rfl : rest = [] := List.eq_nil_of_length_eq_zero (by omega)
      rw [hdelivered, List.mem_singleton] at hmem
      rw [hmem]

/-- Nobody has the ticket of another one. -/
theorem Guarded.ticket_ne (h : s.Guarded table place?) (hd : table.Distinct) (hget : table.get? name = some x)
    (hplace : place? x = some (.queued own)) (hother : table.get? other = some y) (hne : other ≠ name) :
    place? y ≠ some (.queued own) := by
  intro hsame
  have hone := h.serves.calls_le_one own
  have hticket : ∀ {z : α}, place? z = some (.queued own) →
      ((place? z).bind Handle.ticket? == some own) = true := fun hz => by simp [hz, Handle.ticket?]
  have hpos : 0 < (table.remove name).count fun x => (place? x).bind Handle.ticket? == some own :=
    (hd.remove name).count_pos_iff_get?.mpr ⟨other, y, (Table.get?_remove_of_ne _ hne).trans hother, hticket hsame⟩
  rw [hd.count_eq_remove _ hget, hticket hplace] at hone
  simp only [Bool.toNat_true] at hone
  omega

/-- While the unit is with another one, it is not on its way to whoever queued. -/
theorem Guarded.notMem_delivered (h : s.Guarded table place?) (hd : table.Distinct) (hget : table.get? name = some x)
    (hplace : place? x = some (.queued own)) (hother : table.get? other = some y) (hne : other ≠ name)
    (hwith : (place? y).any s.isWith = true) : own ∉ s.delivered := by
  intro hmem
  have hxwith : (place? x).any s.isWith = true := by simpa [hplace, isWith] using hmem
  exact hne (h.eq_of_isWith hd hget hxwith hother hwith)

end table

end Semaphore

end MemcachedClient
