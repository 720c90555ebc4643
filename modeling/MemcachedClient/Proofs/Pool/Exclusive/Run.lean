import MemcachedClient.Pool.Exclusive
import MemcachedClient.Proofs.Pool.Run

/-!
# Runs of an exclusive pool

The operations on an exclusive pool are those on a shared one (`Shared.Event`), and `Exclusive.run` is any
interleaving of the operations of any number of borrowers. Again nothing ties together what the pool is told
at different moments.

The pool does not keep a list of its items. `Exclusive.makes` reads from outside which item an operation
made: an operation goes on with one creation at most, which is that of its borrower or has the next number,
and it made the item if the source of items says so.
-/

namespace MemcachedClient.Pool

/-- The item that a creation made, if it made one. -/
def Creations.yield (made : Creations) (item : ℕ) : List ℕ :=
  match made item with
  | some (.ok ()) => [item]
  | _ => []

namespace Exclusive

/-- One operation. -/
def step (p : Exclusive) : Shared.Event → Exclusive
  | .borrow made name => (p.borrow made name).2
  | .poll made name => (p.poll made name).2
  | .cancel name => (p.cancel name).2
  | .release accepts name => (p.release accepts name).2
  | .corrupt name => (p.corrupt name).2
  | .dispose => p.dispose

/-- The pool after some operations. -/
def run (p : Exclusive) (events : List Shared.Event) : Exclusive := events.foldl step p

/-- The item that a creation made which was started on the way from `p` to `q`. -/
def fresh (p : Exclusive) (made : Creations) (q : Exclusive) : List ℕ :=
  if p.created < q.created then made.yield p.created else []

/-- The item that an operation made, if it made one. -/
def makes (p : Exclusive) : Shared.Event → List ℕ
  | .borrow made name => p.fresh made (p.borrow made name).2
  | .poll made name =>
    match p.borrows.get? name with
    | some (.creating item) => made.yield item
    | _ => p.fresh made (p.poll made name).2
  | _ => []

/-- The items that a run made, in that order. -/
def made (p : Exclusive) : List Shared.Event → List ℕ
  | [] => []
  | event :: events => p.makes event ++ (p.step event).made events

/-- What holds at the start of the items made so far and the pool, and is kept by every operation, holds
after every run. -/
theorem run_induction {P : List ℕ → Exclusive → Prop} {p : Exclusive} {items : List ℕ}
    (start : P items p) (step : ∀ items q event, P items q → P (items ++ q.makes event) (q.step event))
    (events : List Shared.Event) : P (items ++ p.made events) (p.run events) := by
  induction events generalizing p items with
  | nil => rwa [made, List.append_nil]
  | cons event events ih =>
    rw [made, ← List.append_assoc]
    exact ih (step items p event start)

/-- The pool without a borrower. -/
def without (p : Exclusive) (name : String) : Exclusive :=
  { p with borrows := p.borrows.remove name }

theorem without_of_get?_eq_none {p : Exclusive} {name : String} (h : p.borrows.get? name = none) :
    p.without name = p := by
  rw [without, Table.remove_of_get?_eq_none h]

theorem fresh_eq_nil {p q : Exclusive} (h : q.created = p.created) (made : Creations) :
    p.fresh made q = [] :=
  if_neg (by omega)

theorem fresh_eq_yield {p q : Exclusive} (h : q.created = p.created + 1) (made : Creations) :
    p.fresh made q = made.yield p.created :=
  if_pos (by omega)

theorem created_proceed (p : Exclusive) (made : Creations) (name : String) (item : ℕ) :
    (p.proceed made name item).2.created = p.created := by
  rw [proceed]
  split <;> rfl

/-- Who releases a lease has it no longer, whatever becomes of the item. -/
theorem leases_release (p : Exclusive) (accepts : ℕ → Bool) (name : String) :
    (p.step (.release accepts name)).leases = p.leases.remove name := by
  rw [step, release]
  cases hget : p.leases.get? name with
  | none => exact (Table.remove_of_get?_eq_none hget).symm
  | some lease =>
    dsimp only
    split <;> rfl

/-- Who gives up borrows no longer. -/
theorem borrows_cancel (p : Exclusive) (name : String) :
    (p.step (.cancel name)).borrows = p.borrows.remove name := by
  rw [step, cancel]
  split
  · next hget => exact (Table.remove_of_get?_eq_none hget).symm
  · rfl
  · rfl

/-- A lease that is marked corrupted is on the same item, and is corrupted. -/
theorem get?_corrupt {p : Exclusive} {name : String} {lease : ExclusiveLease} (h : p.leases.get? name = some lease) :
    (p.step (.corrupt name)).leases.get? name = some ⟨lease.item, true⟩ := by
  rw [step, corrupt, h]
  exact Table.get?_put_self _ _ _

/-- What a borrower with a unit of capacity comes to: it is refused, it takes the item that was returned
last, or it goes on with a creation. -/
theorem serve_cases (p : Exclusive) (made : Creations) (name : String) :
    p.disposed = true ∧ p.serve made name = p.refuse name .disposed ∨
      p.disposed = false ∧
        ((∃ item idle, p.idle = item :: idle ∧
            p.serve made name = { p with idle }.lend name item) ∨
          p.idle = [] ∧
            p.serve made name = { p with created := p.created + 1 }.proceed made name p.created) := by
  rw [serve]
  by_cases hd : p.disposed = true
  · exact Or.inl ⟨hd, if_pos hd⟩
  · rw [if_neg hd]
    refine Or.inr ⟨by simpa using hd, ?_⟩
    split
    · next item idle hidle => exact Or.inl ⟨item, idle, hidle, rfl⟩
    · next hidle => exact Or.inr ⟨hidle, rfl⟩

end Exclusive

end MemcachedClient.Pool
