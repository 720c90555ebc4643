import MemcachedClient.Proofs.Semaphore.Line
import MemcachedClient.Proofs.Table

/-!
# A semaphore of one unit and those who use it

What a semaphore of one unit guards is used by whoever has the unit: it was granted or handed to the caller, who has
not taken it yet, or the caller holds it (`Semaphore.isWith`). The callers are kept elsewhere, in a table, and each has
at most one place before the semaphore. `Semaphore.Shift` lists what can become of the place of one caller and of the
semaphore with it; as long as nothing else happens to either, the unit is in one place (`Guarded.available_add_count`)
and nobody waits for a unit that is not with somebody (`Guarded.exists_of_line`).
-/

namespace MemcachedClient.Semaphore

/-- Whether the unit is with a caller: granted, on its way or held. -/
def isWith (s : Semaphore) : Handle → Bool
  | .granted => true
  | .queued ticket => ticket ∈ s.delivered
  | .acquired => true

/-- What becomes of the place of one caller, and of the semaphore with it. -/
inductive Shift : Semaphore → Option Handle → Semaphore → Option Handle → Prop where
  /-- Nothing. -/
  | stay (s : Semaphore) (place : Option Handle) : Shift s place s place
  /-- The caller asks for the unit. -/
  | ask (s : Semaphore) : Shift s none s.wait.2 (some s.wait.1)
  /-- It looks whether the unit is there, and takes it. -/
  | look (s : Semaphore) (handle : Handle) : Shift s (some handle) (s.poll handle).2.2 (some (s.poll handle).2.1)
  /-- It gives up before it has taken the unit. -/
  | leave (s : Semaphore) {handle : Handle} (pending : handle ≠ .acquired) : Shift s (some handle) (s.drop handle) none
  /-- It gives back the unit that it holds. -/
  | pass (s : Semaphore) : Shift s (some .acquired) s.signalOne none
  /-- One after the other. -/
  | trans {s s' s'' : Semaphore} {place place' place'' : Option Handle} (first : Shift s place s' place')
    (second : Shift s' place' s'' place'') : Shift s place s'' place''

variable {s s' : Semaphore} {place place' : Option Handle} {handle : Handle} {ticket : ℕ}

/-- Who finds the unit there has it. -/
theorem isWith_of_poll (h : (s.poll handle).1 = true) : s.isWith handle = true := by
  cases handle with
  | granted | acquired => rfl
  | queued ticket =>
    rw [poll] at h
    split at h
    · next hmem => simpa [isWith] using hmem
    · simp at h

/-- Who takes the unit and gives it back at once. -/
theorem Shift.serve (htaken : (s.poll handle).1 = true) :
    Shift s (some handle) (s.poll handle).2.2.signalOne none := by
  have hlook := Shift.look s handle
  rw [poll_eq_acquired htaken] at hlook
  exact hlook.trans (.pass _)

/-- One unit is here or with a caller: the caller at `place`, or the others, of whom `held` have it in their hands and
`calls` wait under each ticket. -/
structure Balanced (s : Semaphore) (calls : ℕ → ℕ) (held : ℕ) (place : Option Handle) : Prop where
  /-- Those who queued are served. -/
  serves : s.Serves fun ticket => calls ticket + if place.bind Handle.ticket? = some ticket then 1 else 0
  /-- The unit is in one place. -/
  units : s.units + held + place.elim 0 Handle.units = 1
  /-- It is not here while somebody waits. -/
  spares : s.Spares

/-- Whatever becomes of the place of one caller, the unit is neither lost nor doubled. -/
theorem Balanced.shift {calls : ℕ → ℕ} {held : ℕ} (h : s.Balanced calls held place)
    (hshift : Shift s place s' place') : s'.Balanced calls held place' := by
  induction hshift with
  | stay => exact h
  | ask s =>
    obtain ⟨hserves, hunits, hspares⟩ := h
    have hwait := s.units_wait
    refine ⟨?_, ?_, hspares.wait⟩
    · simpa using hserves.wait
    · simp only [Option.elim_none, Option.elim_some] at hunits ⊢
      omega
  | look s handle =>
    obtain ⟨hserves, hunits, hspares⟩ := h
    have hpoll := s.units_poll handle
    refine ⟨?_, ?_, hspares.poll handle⟩
    · cases htaken : (s.poll handle).1 with
      | true =>
        rw [poll_eq_acquired htaken]
        exact hserves.poll htaken fun _ => rfl
      | false =>
        obtain ⟨ticket, rfl, -, hsame⟩ := poll_eq_false htaken
        rw [hsame]
        exact hserves
    · simp only [Option.elim_some] at hunits ⊢
      omega
  | @leave s handle pending =>
    obtain ⟨hserves, hunits, hspares⟩ := h
    have hdrop := units_drop (s := s) pending
    refine ⟨?_, ?_, hspares.drop handle⟩
    · exact hserves.drop fun _ => rfl
    · simp only [Option.elim_none, Option.elim_some] at hunits ⊢
      omega
  | pass s =>
    obtain ⟨hserves, hunits, hspares⟩ := h
    have hpass := s.units_signalOne
    refine ⟨hserves.signalOne, ?_, hspares.signalOne⟩
    simp only [Option.elim_none, Option.elim_some, Handle.units] at hunits ⊢
    omega
  | trans _ _ ih ih' => exact ih' (ih h)

/-- Whether a caller has the unit in its hands. -/
def holdsUnit (place : Option Handle) : Bool := place.any (·.units == 1)

theorem toNat_holdsUnit (place : Option Handle) : (holdsUnit place).toNat = place.elim 0 Handle.units := by
  rcases place with - | (- | - | -) <;> rfl

section table

variable {α : Type} {table : Table α} {place? : α → Option Handle} {name : String} {x x' : α}

/-- A semaphore of one unit and the callers in a table that have a place before it. -/
structure Guarded (s : Semaphore) (table : Table α) (place? : α → Option Handle) : Prop where
  /-- Those who queued are served. -/
  serves : s.Serves fun ticket => table.count fun x => (place? x).bind Handle.ticket? == some ticket
  /-- The unit is in one place. -/
  units : s.units + (table.count fun x => holdsUnit (place? x)) = 1
  /-- It is not here while somebody waits. -/
  spares : s.Spares

theorem guarded_ofCount (place? : α → Option Handle) : (ofCount 1).Guarded [] place? :=
  ⟨serves_ofCount 1, rfl, fun _ => rfl⟩

/-- Nobody has a place before a new semaphore. -/
theorem guarded_of_none (hnone : ∀ item ∈ table, place? item.2 = none) : (ofCount 1).Guarded table place? := by
  have hcount : ∀ kind : Option Handle → Bool, kind none = false → (table.count fun x => kind (place? x)) = 0 := by
    intro kind hkind
    rw [Table.count, List.countP_eq_zero]
    intro item hitem
    rw [hnone item hitem, hkind]
    exact Bool.false_ne_true
  refine ⟨?_, ?_, fun _ => rfl⟩
  · have hcalls := funext fun ticket => hcount (fun place => place.bind Handle.ticket? == some ticket) rfl
    rw [hcalls]
    exact serves_ofCount 1
  · rw [hcount holdsUnit rfl]
    rfl

namespace Guarded

/-- The caller under a name and the others. -/
theorem iff_balanced (hd : table.Distinct) :
    s.Guarded (table.put name x) place? ↔
      s.Balanced (fun ticket => (table.remove name).count fun x => (place? x).bind Handle.ticket? == some ticket)
        ((table.remove name).count fun x => holdsUnit (place? x)) (place? x) := by
  have hcalls : (fun ticket => (table.put name x).count fun x => (place? x).bind Handle.ticket? == some ticket) =
      fun ticket => ((table.remove name).count fun x => (place? x).bind Handle.ticket? == some ticket) +
        if (place? x).bind Handle.ticket? = some ticket then 1 else 0 := by
    funext ticket
    rw [hd.count_put]
    by_cases h : (place? x).bind Handle.ticket? = some ticket <;> simp [h]
  have hheld := hd.count_put (fun x => holdsUnit (place? x)) name x
  rw [toNat_holdsUnit] at hheld
  constructor
  · rintro ⟨hserves, hunits, hspares⟩
    exact ⟨hcalls ▸ hserves, by omega, hspares⟩
  · rintro ⟨hserves, hunits, hspares⟩
    exact ⟨hcalls ▸ hserves, by omega, hspares⟩

/-- **One caller moves on**, and the unit is neither lost nor doubled. -/
theorem put (h : s.Guarded table place?) (hd : table.Distinct) (hget : table.get? name = some x)
    (hshift : Shift s (place? x) s' (place? x')) : s'.Guarded (table.put name x') place? := by
  rw [← Table.put_of_get?_eq_some hget, iff_balanced hd] at h
  rw [iff_balanced hd]
  exact h.shift hshift

/-- Somebody comes who has no place. -/
theorem start (h : s.Guarded table place?) (hd : table.Distinct) (hget : table.get? name = none)
    (hplace : place? x = none) : s.Guarded (table.put name x) place? := by
  rw [iff_balanced hd, Table.remove_of_get?_eq_none hget, hplace]
  exact ⟨h.serves, h.units, h.spares⟩

/-- Whoever goes by the name, if anybody does, and the others. -/
theorem iff_balanced_get? (hd : table.Distinct) (name : String) :
    s.Guarded table place? ↔
      s.Balanced (fun ticket => (table.remove name).count fun x => (place? x).bind Handle.ticket? == some ticket)
        ((table.remove name).count fun x => holdsUnit (place? x)) ((table.get? name).bind place?) := by
  cases hget : table.get? name with
  | some x =>
    rw [Option.bind_some, ← iff_balanced hd, Table.put_of_get?_eq_some hget]
  | none =>
    rw [Table.remove_of_get?_eq_none hget]
    constructor
    · rintro ⟨hserves, hunits, hspares⟩
      exact ⟨hserves, hunits, hspares⟩
    · rintro ⟨hserves, hunits, hspares⟩
      exact ⟨hserves, hunits, hspares⟩

/-- One caller moves on, or comes and asks. -/
theorem move (h : s.Guarded table place?) (hd : table.Distinct)
    (hshift : Shift s ((table.get? name).bind place?) s' (place? x')) : s'.Guarded (table.put name x') place? := by
  rw [iff_balanced_get? hd name] at h
  rw [iff_balanced hd]
  exact h.shift hshift

/-- One caller is gone, without its place. -/
theorem leave (h : s.Guarded table place?) (hd : table.Distinct)
    (hshift : Shift s ((table.get? name).bind place?) s' none) : s'.Guarded (table.remove name) place? := by
  rw [iff_balanced_get? hd name] at h
  obtain ⟨hserves, hunits, hspares⟩ := h.shift hshift
  exact ⟨hserves, hunits, hspares⟩

/-- Callers that have no place do not matter. -/
theorem of_count (h : s.Guarded table place?) {table' : Table α}
    (hcount : ∀ kind : Option Handle → Bool,
      (table'.count fun x => kind (place? x)) = table.count fun x => kind (place? x)) :
    s.Guarded table' place? := by
  refine ⟨?_, ?_, h.spares⟩
  · have hcalls := funext fun ticket => hcount fun place => place.bind Handle.ticket? == some ticket
    rw [hcalls]
    exact h.serves
  · rw [hcount holdsUnit]
    exact h.units

/-- **The unit is available, or with exactly one caller.** -/
theorem available_add_count (h : s.Guarded table place?) :
    s.available + (table.count fun x => (place? x).any s.isWith) = 1 := by
  have hdelivered : (table.count fun x => ((place? x).bind Handle.ticket?).any (· ∈ s.delivered)) =
      s.delivered.length := h.serves.count_delivered
  have hwith : (fun x => (place? x).any s.isWith) =
      fun x => holdsUnit (place? x) || ((place? x).bind Handle.ticket?).any (· ∈ s.delivered) := by
    funext x
    rcases place? x with - | (- | ticket | -) <;> simp [isWith, holdsUnit, Handle.units, Handle.ticket?]
  have hexclude : ∀ x, holdsUnit (place? x) = true →
      ((place? x).bind Handle.ticket?).any (· ∈ s.delivered) = false := by
    intro x hholds
    rcases hx : place? x with - | (- | ticket | -) <;> simp_all [holdsUnit, Handle.units, Handle.ticket?]
  have hsplit := table.count_or hexclude
  have hunits := h.units
  rw [hwith, hsplit, hdelivered]
  simp only [Semaphore.units] at hunits
  omega

/-- While a caller has the unit, it is not available. -/
theorem available_eq_zero (h : s.Guarded table place?) (hd : table.Distinct) (hget : table.get? name = some x)
    (hwith : (place? x).any s.isWith = true) : s.available = 0 := by
  have hone := h.available_add_count
  rw [hd.count_eq_remove _ hget, hwith] at hone
  simp only [Bool.toNat_true] at hone
  omega

/-- At most one caller has the unit. -/
theorem eq_of_isWith (h : s.Guarded table place?) (hd : table.Distinct) {other : String} {y : α}
    (hx : table.get? name = some x) (hxwith : (place? x).any s.isWith = true)
    (hy : table.get? other = some y) (hywith : (place? y).any s.isWith = true) : other = name := by
  by_contra hne
  have hone := h.available_add_count
  rw [hd.count_eq_remove _ hx, hxwith] at hone
  have hnone : ¬ 0 < (table.remove name).count fun x => (place? x).any s.isWith := by
    simp only [Bool.toNat_true] at hone
    omega
  refine hnone ((hd.remove name).count_pos_iff_get?.mpr ⟨other, y, ?_, hywith⟩)
  rw [Table.get?_remove_of_ne _ hne, hy]

/-- Who queued and has no unit on its way stands in line. -/
theorem mem_line (h : s.Guarded table place?) (hd : table.Distinct) (hget : table.get? name = some x)
    (hplace : place? x = some (.queued ticket)) (hnot : ticket ∉ s.delivered) : ticket ∈ s.line := by
  have hpos : 0 < table.count fun x => (place? x).bind Handle.ticket? == some ticket :=
    hd.count_pos_iff_get?.mpr ⟨name, x, hget, by simp [hplace, Handle.ticket?]⟩
  rw [← h.serves.owed, owes, List.count_eq_zero.mpr hnot, Nat.zero_add] at hpos
  have hmem := List.count_pos_iff.mp hpos
  exact List.mem_map.mpr ⟨_, List.mem_filter.mpr ⟨hmem, rfl⟩, rfl⟩

/-- Who stands in line is somebody who queued. -/
theorem exists_of_mem_line (h : s.Guarded table place?) (hd : table.Distinct) (hmem : ticket ∈ s.line) :
    ∃ name x, table.get? name = some x ∧ place? x = some (.queued ticket) := by
  obtain ⟨⟨other, abandoned⟩, hfilter, rfl⟩ := List.mem_map.mp hmem
  obtain ⟨hqueue, habandoned⟩ := List.mem_filter.mp hfilter
  obtain rfl : abandoned = false := by simpa using habandoned
  have hpos : 0 < s.owes other := Nat.lt_of_lt_of_le (List.count_pos_iff.mpr hqueue) (Nat.le_add_left _ _)
  rw [h.serves.owed] at hpos
  obtain ⟨name, x, hget, hticket⟩ := hd.count_pos_iff_get?.mp hpos
  refine ⟨name, x, hget, ?_⟩
  rcases hplace : place? x with - | (- | ticket | -) <;> simp_all [Handle.ticket?]

theorem line_eq_nil_of_available (h : s.Guarded table place?) (hpos : 0 < s.available) : s.line = [] := by
  rw [line, h.spares hpos]
  rfl

/-- The unit is with somebody while it is not available. -/
theorem exists_isWith (h : s.Guarded table place?) (hd : table.Distinct) (hnone : s.available = 0) :
    ∃ name x, table.get? name = some x ∧ (place? x).any s.isWith = true := by
  have hone := h.available_add_count
  rw [hnone, Nat.zero_add] at hone
  exact hd.count_pos_iff_get?.mp (hone ▸ Nat.one_pos)

/-- **Nobody waits in vain**: while somebody stands in line, the unit is with somebody. -/
theorem exists_of_line (h : s.Guarded table place?) (hd : table.Distinct) (hline : s.line ≠ []) :
    ∃ name x, table.get? name = some x ∧ (place? x).any s.isWith = true := by
  refine h.exists_isWith hd (Nat.eq_zero_of_not_pos fun hpos => hline (h.line_eq_nil_of_available hpos))

/-- If the unit is with nobody, it is available, and nobody stands in line. -/
theorem available_of_nobody (h : s.Guarded table place?) (hd : table.Distinct)
    (hnobody : ∀ name x, table.get? name = some x → (place? x).any s.isWith = false) :
    s.available = 1 ∧ s.line = [] := by
  have hpos : 0 < s.available := by
    rw [Nat.pos_iff_ne_zero]
    intro hnone
    obtain ⟨name, x, hget, hwith⟩ := h.exists_isWith hd hnone
    rw [hnobody name x hget] at hwith
    exact Bool.false_ne_true hwith
  have hone := h.available_add_count
  exact ⟨by omega, h.line_eq_nil_of_available hpos⟩

end Guarded

end table

end MemcachedClient.Semaphore
