import MemcachedClient.Proofs.Pool.Leasing

/-!
# Pools with one borrower at a time

As long as at most one borrower or lease is with a pool, there is at most one item, and both kinds of pool are in the
same state as far as one can see: nobody has anything, or the item is idle, or its creation is under way, or it is lent
(`Use`). A `Ledger` holds the rest, and `Use.exclusive` and `Use.shared` are the two pools that are in such a state
(`Alike`). Each operation of the one borrower, and disposing the pool at any time, leads both pools to such a state
again, with the same creations and the same closed items, and both report the same; but a creation that failed is
reported by the shared pool within the kind of its items (`Meets`).
-/

namespace MemcachedClient

/-- A unit that is given back to a semaphore without a queue becomes available. -/
theorem Semaphore.signalOne_ofCount (n : ℕ) : (ofCount n).signalOne = ofCount (n + 1) := rfl

namespace Pool

/-- What the one borrower has made of a pool. The slot is where a shared pool keeps the item. -/
inductive Use where
  /-- There is no item. A shared pool may have a slot for it: the creation was given up. -/
  | vacant (slot : Option ℕ)
  /-- The item is idle. -/
  | idle (slot item : ℕ)
  /-- The borrower runs the creation of the item. -/
  | creating (name : String) (slot item : ℕ)
  /-- The borrower has a lease of the item. -/
  | lending (name : String) (slot item : ℕ) (corrupted : Bool)

/-- What a borrower is doing. -/
inductive Role where
  /-- It runs a creation. -/
  | borrowing
  /-- It has a lease of this item. -/
  | holding (item : ℕ) (corrupted : Bool)

namespace Use

/-- The one borrower. -/
def name? : Use → Option String
  | vacant _ => none
  | idle .. => none
  | creating name .. => some name
  | lending name .. => some name

/-- What the borrower under a name is doing. -/
def role? (u : Use) (name : String) : Option Role :=
  match u with
  | vacant _ => none
  | idle .. => none
  | creating user .. => if user = name then some .borrowing else none
  | lending user _ item corrupted => if user = name then some (.holding item corrupted) else none

theorem role?_creating (name : String) (slot item : ℕ) : (creating name slot item).role? name = some .borrowing :=
  if_pos rfl

theorem role?_lending (name : String) (slot item : ℕ) (corrupted : Bool) :
    (lending name slot item corrupted).role? name = some (.holding item corrupted) :=
  if_pos rfl

/-- Nobody but the one borrower is doing anything. -/
theorem role?_eq_none {u : Use} {name : String} (h : u.name? ≠ some name) : u.role? name = none := by
  cases u with
  | vacant | idle => rfl
  | creating | lending => exact if_neg fun hsame => h (congrArg some hsame)

theorem role?_of_name?_eq_none {u : Use} (h : u.name? = none) (name : String) : u.role? name = none :=
  role?_eq_none (by rw [h]; simp)

theorem name?_of_role? {u : Use} {name : String} {role : Role} (h : u.role? name = some role) :
    u.name? = some name := by
  by_contra hne
  rw [role?_eq_none hne] at h
  simp at h

theorem eq_creating {u : Use} {name : String} (h : u.role? name = some .borrowing) :
    ∃ slot item, u = creating name slot item := by
  have hname := name?_of_role? h
  cases u with
  | creating user slot item => exact ⟨slot, item, by rw [Option.some.inj hname]⟩
  | lending user slot item corrupted =>
    obtain rfl := Option.some.inj hname
    rw [role?_lending] at h
    simp at h
  | vacant | idle => simp [name?] at hname

theorem eq_lending {u : Use} {name : String} {item : ℕ} {corrupted : Bool}
    (h : u.role? name = some (.holding item corrupted)) : ∃ slot, u = lending name slot item corrupted := by
  have hname := name?_of_role? h
  cases u with
  | lending user slot found marked =>
    obtain rfl := Option.some.inj hname
    rw [role?_lending, Option.some.injEq, Role.holding.injEq] at h
    exact ⟨slot, by rw [h.1, h.2]⟩
  | creating user slot item =>
    obtain rfl := Option.some.inj hname
    rw [role?_creating] at h
    simp at h
  | vacant | idle => simp [name?] at hname

end Use

/-- What else the two pools record: what both do, and what only one of them does. -/
structure Ledger where
  /-- The units of capacity of the exclusive pool but for the one that the borrower needs. -/
  spare : ℕ
  /-- The number of slots of the shared pool but for one. -/
  spareSlots : ℕ
  /-- The most units in flight on one slot but for one. -/
  spareUnits : ℕ
  /-- The number of the next slot. -/
  nextSlot : ℕ
  /-- Whether the pools were disposed. -/
  disposed : Bool
  /-- The number of creations that were started. -/
  created : ℕ
  /-- The items that were closed. -/
  closed : List ℕ

/-- An exclusive pool with this ledger. -/
def Ledger.exclusive (l : Ledger) (units : ℕ) (idle : List ℕ) (borrows : Table ExclusiveBorrow)
    (leases : Table ExclusiveLease) : Exclusive :=
  ⟨some (.ofCount units), idle, l.disposed, l.created, l.closed, borrows, leases⟩

/-- The ledger when these items were closed. -/
def Ledger.close (l : Ledger) (items : List ℕ) : Ledger := { l with closed := l.closed ++ items }

/-- A shared pool for a kind of item with this ledger. Its queue has never been used. -/
def Ledger.shared (l : Ledger) (kind : String) (slots : List Slot) (borrows : Table SharedBorrow)
    (leases : Table SharedLease) : Shared :=
  ⟨kind, l.spareSlots + 1, l.spareUnits + 1, slots, l.nextSlot, [], 0, l.disposed, l.created, l.closed, borrows, leases⟩

namespace Use

/-- The exclusive pool of which this is the use. -/
def exclusive (l : Ledger) : Use → Exclusive
  | vacant _ => l.exclusive (l.spare + 1) [] [] []
  | idle _ item => l.exclusive (l.spare + 1) [item] [] []
  | creating name _ item => l.exclusive l.spare [] [(name, .creating item)] []
  | lending name _ item corrupted => l.exclusive l.spare [] [] [(name, ⟨item, corrupted⟩)]

/-- The shared pool of which this is the use. -/
def shared (kind : String) (l : Ledger) : Use → Shared
  | vacant none => l.shared kind [] [] []
  | vacant (some slot) => l.shared kind [⟨slot, 0, false, none, .ofCount 1⟩] [] []
  | idle slot item => l.shared kind [⟨slot, 0, false, some (.ok item), .ofCount 0⟩] [] []
  | creating name slot item =>
    l.shared kind [⟨slot, 1, l.disposed, none, .ofCount 0⟩] [(name, .creating slot item)] []
  | lending name slot item corrupted =>
    l.shared kind [⟨slot, 1, l.disposed, some (.ok item), .ofCount 0⟩] [] [(name, ⟨slot, item, corrupted⟩)]

/-- A pool that was disposed keeps nothing that is not in use, and a creation that is under way was started. -/
def Fits (l : Ledger) : Use → Prop
  | vacant none => True
  | vacant (some _) => l.disposed = false
  | idle .. => l.disposed = false
  | creating _ _ item => item < l.created
  | lending .. => True

end Use

/-- An exclusive and a shared pool with one borrower at a time, who made the same use of them. -/
def Alike (kind : String) (u : Use) (p q : Pool) : Prop :=
  ∃ l, u.Fits l ∧ p = .exclusive (u.exclusive l) ∧ q = .shared (u.shared kind l)

/-- What the borrower under a name is told by an exclusive and by a shared pool, when it has made this use of them. -/
inductive Meets (kind : String) (made : Creations) (name : String) (created : ℕ) : Use → Report → Report → Prop where
  /-- It runs a creation. -/
  | pending (slot item : ℕ) : Meets kind made name created (.creating name slot item) .pending .pending
  /-- It has the item. -/
  | leased (slot item : ℕ) : Meets kind made name created (.lending name slot item false) (.leased item) (.leased item)
  /-- It is turned away. -/
  | disposed (slot : Option ℕ) : Meets kind made name created (.vacant slot) (.failed .disposed) (.failed .disposed)
  /-- The creation has failed. -/
  | failed {item : ℕ} {cause : ClientError} (started : item < created) (failed : made item = some (.error cause)) :
    Meets kind made name created (.vacant none) (.failed cause) (.failed (.poolCreation kind cause))

/-- What the pools come to, and what they say, is alike. -/
def Agree (kind : String) (made : Creations) (name : String) (p q : Report × Pool) : Prop :=
  ∃ u, Alike kind u p.2 q.2 ∧ Meets kind made name p.2.created u p.1 q.1

variable {kind : String} {u : Use} {p q : Pool} {made : Creations} {name : String} {l : Ledger} {slot item : ℕ}
  {corrupted : Bool}

namespace Ledger

/-- The one unit in flight goes back to its slot, which then is empty, or leaves the pool with its item. -/
theorem giveUnit_shared (l : Ledger) (slot : ℕ) (made : Option (Except ClientError ℕ)) (turn : Semaphore)
    (retire : Bool) : (l.shared kind [⟨slot, 1, l.disposed, made, turn⟩] [] []).giveUnit slot retire =
      if retire || l.disposed then (l.close (Slot.mk slot 0 true made turn).items).shared kind [] [] []
      else l.shared kind [⟨slot, 0, false, made, turn⟩] [] [] := by
  cases hdisposed : l.disposed <;> cases retire <;>
    simp [Ledger.shared, close, Shared.giveUnit, Shared.slot?, Shared.updateSlot, Shared.handOn, Shared.dropDrained,
      Slot.give, hdisposed]

/-- There is a unit of capacity for the borrower. -/
theorem borrow_exclusive (hopen : l.disposed = false) (idle : List ℕ) (made : Creations) (name : String) :
    (l.exclusive (l.spare + 1) idle [] []).borrow made name = (l.exclusive l.spare idle [] []).serve made name := by
  simp [Exclusive.borrow, Ledger.exclusive, hopen, Table.has, Exclusive.await, Semaphore.wait, Semaphore.poll,
    Semaphore.ofCount]

/-- There is a slot for the borrower. -/
theorem borrow_shared (hopen : l.disposed = false) {slots : List Slot} {after : Shared}
    (hassign : (l.shared kind slots [] []).assign? = some (slot, after)) (made : Creations) (name : String) :
    (l.shared kind slots [] []).borrow made name = after.enter made name slot := by
  rw [Shared.borrow, if_neg (by simp [Ledger.shared, Table.has]), if_neg (by simp [Ledger.shared, hopen]), hassign]

/-- The borrower has the turn to create the item. -/
theorem enter_shared (l : Ledger) (kind : String) (slot : ℕ) (made : Creations) (name : String) :
    (l.shared kind [⟨slot, 1, false, none, .ofCount 1⟩] [] []).enter made name slot =
      (Ledger.shared { l with created := l.created + 1 } kind [⟨slot, 1, false, none, .ofCount 0⟩] [] []).proceed made
        name slot l.created := by
  simp [Shared.enter, Ledger.shared, Shared.slot?, Shared.await, Semaphore.wait, Semaphore.poll, Semaphore.ofCount,
    Shared.updateSlot]

end Ledger

/-- The borrower goes on with the creation, which it has just started or was running before. -/
theorem agree_proceed (hlt : item < l.created) {running : Table ExclusiveBorrow} {running' : Table SharedBorrow}
    (h : running = [] ∧ running' = [] ∨ running = [(name, .creating item)] ∧ running' = [(name, .creating slot item)]) :
    Agree kind made name (((l.exclusive l.spare [] running []).proceed made name item).map id .exclusive)
      (((l.shared kind [⟨slot, 1, l.disposed, none, .ofCount 0⟩] running' []).proceed made name slot item).map id
        .shared) := by
  have hput : running.put name (.creating item) = [(name, .creating item)] ∧
      running'.put name (.creating slot item) = [(name, .creating slot item)] := by
    obtain ⟨rfl, rfl⟩ | ⟨rfl, rfl⟩ := h <;> simp [Table.put]
  have hremove : running.remove name = [] ∧ running'.remove name = [] := by
    obtain ⟨rfl, rfl⟩ | ⟨rfl, rfl⟩ := h <;> simp [Table.remove]
  rw [Exclusive.proceed, Shared.proceed]
  cases hmade : made item with
  | none =>
    refine ⟨.creating name slot item, ⟨l, hlt, ?_, ?_⟩, .pending slot item⟩
    · exact congrArg (fun b => exclusive (l.exclusive l.spare [] b [])) hput.1
    · exact congrArg (fun b => shared (l.shared kind _ b [])) hput.2
  | some result =>
    have hslot : ∀ result : Except ClientError ℕ,
        (l.shared kind [⟨slot, 1, l.disposed, none, .ofCount 0⟩] running' []).updateSlot slot
          (fun s => { s with made := some result }) =
          l.shared kind [⟨slot, 1, l.disposed, some result, .ofCount 0⟩] running' [] := by
      simp [Ledger.shared, Shared.updateSlot]
    cases result with
    | ok value =>
      refine ⟨.lending name slot item false, ⟨l, trivial, ?_, ?_⟩, .leased slot item⟩
      · exact congrArg (fun b => exclusive (l.exclusive l.spare [] b _)) hremove.1
      · simp only [hslot]
        exact congrArg (fun b => shared (l.shared kind _ b _)) hremove.2
    | error cause =>
      refine ⟨.vacant none, ⟨l, trivial, ?_, ?_⟩, .failed hlt hmade⟩
      · exact congrArg (fun b => exclusive (l.exclusive (l.spare + 1) [] b [])) hremove.1
      · simp only [hslot]
        show shared (Shared.giveUnit (l.shared kind [⟨slot, 1, l.disposed, some (.error cause), .ofCount 0⟩]
          (running'.remove name) []) slot true) = _
        rw [hremove.2, l.giveUnit_shared, Bool.true_or, if_pos rfl]
        exact congrArg (fun c => shared ({ l with closed := c }.shared kind [] [] [])) (List.append_nil _)

/-- There is no item: whoever comes starts a creation. -/
theorem agree_vacant (hopen : l.disposed = false) (slot : Option ℕ) (made : Creations) (name : String) :
    Agree kind made name ((exclusive (Use.exclusive l (.vacant slot))).borrow made name)
      ((shared (Use.shared kind l (.vacant slot))).borrow made name) := by
  -- the creation is in a slot that is there or is opened for it
  obtain ⟨id, next, hassign⟩ : ∃ id next, (Use.shared kind l (.vacant slot)).assign? =
      some (id, Ledger.shared { l with nextSlot := next } kind [⟨id, 1, false, none, .ofCount 1⟩] [] []) := by
    cases slot with
    | none => exact ⟨l.nextSlot, l.nextSlot + 1, rfl⟩
    | some id =>
      refine ⟨id, l.nextSlot, ?_⟩
      simp [Use.shared, Ledger.shared, Shared.assign?, Slot.leastLoaded?, Slot.hasRoom, Shared.updateSlot, Slot.take]
  have hexclusive : (Use.exclusive l (.vacant slot)).borrow made name =
      (Ledger.exclusive { l with nextSlot := next, created := l.created + 1 } l.spare [] [] []).proceed made name
        l.created := by
    rw [Use.exclusive, Ledger.borrow_exclusive hopen]
    simp [Exclusive.serve, Ledger.exclusive, hopen]
  have hshared : (Use.shared kind l (.vacant slot)).borrow made name =
      (Ledger.shared { l with nextSlot := next, created := l.created + 1 } kind
        [⟨id, 1, l.disposed, none, .ofCount 0⟩] [] []).proceed made name id l.created := by
    have henter := Ledger.enter_shared { l with nextSlot := next } kind id made name
    rw [show (⟨id, 1, l.disposed, none, .ofCount 0⟩ : Slot) = ⟨id, 1, false, none, .ofCount 0⟩ by rw [hopen], ← henter]
    cases slot <;> exact Ledger.borrow_shared hopen hassign made name
  rw [Pool.borrow, Pool.borrow, hexclusive, hshared]
  exact agree_proceed (l := { l with nextSlot := next, created := l.created + 1 }) (Nat.lt_succ_self _)
    (Or.inl ⟨rfl, rfl⟩)

/-- Whoever comes gets the idle item. -/
theorem agree_idle (hopen : l.disposed = false) (slot item : ℕ) (made : Creations) (name : String) :
    Agree kind made name ((exclusive (Use.exclusive l (.idle slot item))).borrow made name)
      ((shared (Use.shared kind l (.idle slot item))).borrow made name) := by
  have hexclusive : (Use.exclusive l (.idle slot item)).borrow made name =
      (.leased item, Use.exclusive l (.lending name slot item false)) := by
    rw [Use.exclusive, Ledger.borrow_exclusive hopen]
    simp [Exclusive.serve, Exclusive.lend, Use.exclusive, Ledger.exclusive, hopen, Table.put, Table.remove]
  have hassign : (Use.shared kind l (.idle slot item)).assign? =
      some (slot, l.shared kind [⟨slot, 1, false, some (.ok item), .ofCount 0⟩] [] []) := by
    simp [Use.shared, Ledger.shared, Shared.assign?, Slot.leastLoaded?, Slot.hasRoom, Shared.updateSlot, Slot.take]
  have hshared : (Use.shared kind l (.idle slot item)).borrow made name =
      (.leased item, Use.shared kind l (.lending name slot item false)) := by
    rw [Use.shared] at hassign ⊢
    rw [Ledger.borrow_shared hopen hassign]
    simp [Shared.enter, Ledger.shared, Shared.slot?, Shared.settle, Use.shared, hopen, Table.put, Table.remove]
  rw [Pool.borrow, Pool.borrow, hexclusive, hshared]
  exact ⟨.lending name slot item false, ⟨l, trivial, rfl, rfl⟩, .leased slot item⟩

namespace Alike

/-- New pools that may lend something are alike. -/
theorem ofOptions (kind : String) {options : ExclusiveOptions} (hpos : 0 < options.maxCount)
    (options' : SharedOptions) :
    Alike kind (.vacant none) (.exclusive (.ofOptions options)) (.shared (.ofOptions kind options')) := by
  refine ⟨⟨options.maxCount - 1, options'.atLeastOne.targetItemCount - 1,
    options'.atLeastOne.maxRequestsPerItem - 1, 0, false, 0, []⟩, trivial, ?_, ?_⟩
  · simp only [Exclusive.ofOptions, Use.exclusive, Ledger.exclusive, if_neg (Nat.ne_of_gt hpos),
      Nat.sub_add_cancel hpos]
  · have htarget : 1 ≤ options'.atLeastOne.targetItemCount := Nat.le_max_right _ _
    have hdepth : 1 ≤ options'.atLeastOne.maxRequestsPerItem := Nat.le_max_right _ _
    simp only [Shared.ofOptions, Use.shared, Ledger.shared, Nat.sub_add_cancel htarget, Nat.sub_add_cancel hdepth]

theorem created (h : Alike kind u p q) : q.created = p.created := by
  obtain ⟨l, -, rfl, rfl⟩ := h
  rcases u with (_ | _) | _ | _ | _ <;> rfl

theorem closed (h : Alike kind u p q) : q.closed = p.closed := by
  obtain ⟨l, -, rfl, rfl⟩ := h
  rcases u with (_ | _) | _ | _ | _ <;> rfl

/-- In both pools the borrower runs the same creation. -/
theorem creating? (h : Alike kind (.creating name slot item) p q) :
    p.creating? name = some item ∧ q.creating? name = some item := by
  obtain ⟨l, -, rfl, rfl⟩ := h
  simp [Pool.creating?, Use.exclusive, Use.shared, Ledger.exclusive, Ledger.shared, Table.get?]

/-- Nobody has anything: whoever comes gets the idle item, or starts a creation, or finds the pools disposed. -/
theorem borrow (h : Alike kind u p q) (hfree : u.name? = none) (made : Creations) (name : String) :
    Agree kind made name (p.borrow made name) (q.borrow made name) := by
  obtain ⟨l, hfits, rfl, rfl⟩ := h
  cases hdisposed : l.disposed with
  | false =>
    cases u with
    | vacant slot => exact agree_vacant hdisposed slot made name
    | idle slot item => exact agree_idle hdisposed slot item made name
    | creating | lending => simp [Use.name?] at hfree
  | true =>
    obtain rfl : u = .vacant none := by
      rcases u with (_ | _) | _ | _ | _ <;> simp_all [Use.Fits, Use.name?]
    have hexclusive : (exclusive (Use.exclusive l (.vacant none))).borrow made name =
        (.failed .disposed, exclusive (Use.exclusive l (.vacant none))) := by
      simp [Pool.borrow, Use.exclusive, Exclusive.borrow, Ledger.exclusive, hdisposed, Table.has]
    have hshared : (shared (Use.shared kind l (.vacant none))).borrow made name =
        (.failed .disposed, shared (Use.shared kind l (.vacant none))) := by
      simp [Pool.borrow, Use.shared, Shared.borrow, Ledger.shared, hdisposed, Table.has]
    rw [hexclusive, hshared]
    exact ⟨.vacant none, ⟨l, trivial, rfl, rfl⟩, .disposed none⟩

/-- The borrower that runs a creation goes on. -/
theorem poll (h : Alike kind (.creating name slot item) p q) (made : Creations) :
    Agree kind made name (p.poll made name) (q.poll made name) := by
  obtain ⟨l, hlt, rfl, rfl⟩ := h
  have hexclusive : (exclusive (Use.exclusive l (.creating name slot item))).poll made name =
      ((l.exclusive l.spare [] [(name, .creating item)] []).proceed made name item).map id .exclusive := by
    simp [Pool.poll, Use.exclusive, Exclusive.poll, Ledger.exclusive, Table.get?]
  have hshared : (shared (Use.shared kind l (.creating name slot item))).poll made name =
      ((l.shared kind [⟨slot, 1, l.disposed, none, .ofCount 0⟩] [(name, .creating slot item)] []).proceed made name slot
        item).map id .shared := by
    simp [Pool.poll, Use.shared, Shared.poll, Ledger.shared, Table.get?]
  rw [hexclusive, hshared]
  exact agree_proceed hlt (Or.inr ⟨rfl, rfl⟩)

/-- The borrower that runs a creation is dropped. -/
theorem cancel (h : Alike kind (.creating name slot item) p q) :
    ∃ slot, Alike kind (.vacant slot) (p.cancel name).2 (q.cancel name).2 := by
  obtain ⟨l, -, rfl, rfl⟩ := h
  have hexclusive : ((exclusive (Use.exclusive l (.creating name slot item))).cancel name).2 =
      exclusive (l.exclusive (l.spare + 1) [] [] []) := by
    simp [Pool.cancel, Use.exclusive, Exclusive.cancel, Ledger.exclusive, Table.get?, Exclusive.giveBack, Table.remove,
      Semaphore.signalOne_ofCount]
  have hshared : ((shared (Use.shared kind l (.creating name slot item))).cancel name).2 =
      shared ((l.shared kind [⟨slot, 1, l.disposed, none, .ofCount 1⟩] [] []).giveUnit slot false) := by
    simp [Pool.cancel, Use.shared, Shared.cancel, Ledger.shared, Table.get?, Table.remove, Shared.updateSlot,
      Semaphore.signalOne_ofCount]
  rw [hexclusive, hshared, l.giveUnit_shared, Bool.false_or]
  cases hdisposed : l.disposed with
  | false => exact ⟨some slot, l, hdisposed, rfl, rfl⟩
  | true => exact ⟨none, l.close [], trivial, by simp [Ledger.close, Use.exclusive], rfl⟩

/-- The lease ends: the item becomes idle, or both pools close it. -/
theorem release (h : Alike kind (.lending name slot item corrupted) p q) (accepts : ℕ → Bool) :
    ∃ u', u'.name? = none ∧ Alike kind u' (p.release accepts name).2 (q.release accepts name).2 := by
  obtain ⟨l, -, rfl, rfl⟩ := h
  have hexclusive : ((exclusive (Use.exclusive l (.lending name slot item corrupted))).release accepts name).2 =
      exclusive (if corrupted || !accepts item || l.disposed then (l.close [item]).exclusive (l.spare + 1) [] [] []
        else l.exclusive (l.spare + 1) [item] [] []) := by
    cases h : corrupted || !accepts item || l.disposed <;>
      simp [Pool.release, Use.exclusive, Exclusive.release, Ledger.exclusive, Ledger.close, Table.get?,
        Exclusive.giveBack, Table.remove, Semaphore.signalOne_ofCount, h]
  have hshared : ((shared (Use.shared kind l (.lending name slot item corrupted))).release accepts name).2 =
      shared ((l.shared kind [⟨slot, 1, l.disposed, some (.ok item), .ofCount 0⟩] [] []).giveUnit slot
        (corrupted || !accepts item)) := by
    simp [Pool.release, Use.shared, Shared.release, Ledger.shared, Table.get?, Table.remove]
  rw [hexclusive, hshared, l.giveUnit_shared]
  cases h : corrupted || !accepts item || l.disposed with
  | true => exact ⟨.vacant none, rfl, l.close [item], trivial, rfl, rfl⟩
  | false => exact ⟨.idle slot item, rfl, l, (Bool.or_eq_false_iff.mp h).2, rfl, rfl⟩

/-- The lease is marked corrupted. -/
theorem corrupt (h : Alike kind (.lending name slot item corrupted) p q) :
    Alike kind (.lending name slot item true) (p.corrupt name).2 (q.corrupt name).2 := by
  obtain ⟨l, -, rfl, rfl⟩ := h
  refine ⟨l, trivial, ?_, ?_⟩
  · simp [Pool.corrupt, Use.exclusive, Exclusive.corrupt, Ledger.exclusive, Table.get?, Table.put]
  · simp [Pool.corrupt, Use.shared, Shared.corrupt, Ledger.shared, Table.get?, Table.put]

/-- Disposing the pools takes nothing from the borrower. -/
theorem dispose (h : Alike kind u p q) :
    ∃ u', (u.name? = none ∧ u'.name? = none ∨ u' = u) ∧ Alike kind u' p.dispose q.dispose := by
  obtain ⟨l, hfits, rfl, rfl⟩ := h
  cases u with
  | vacant slot =>
    refine ⟨.vacant none, Or.inl ⟨rfl, rfl⟩, { l.close [] with disposed := true }, trivial, rfl, ?_⟩
    cases slot <;> rfl
  | idle slot item => 
    exact ⟨.vacant none, Or.inl ⟨rfl, rfl⟩, { l.close [item] with disposed := true }, trivial, rfl, rfl⟩
  | creating name slot item =>
    exact ⟨_, Or.inr rfl, { l.close [] with disposed := true }, hfits, rfl, rfl⟩
  | lending name slot item corrupted =>
    exact ⟨_, Or.inr rfl, { l.close [] with disposed := true }, trivial, rfl, rfl⟩

end Alike

end Pool

end MemcachedClient
