import MemcachedClient.Pool.Basic
import MemcachedClient.Pool.Options
import MemcachedClient.Semaphore
import MemcachedClient.Table

/-!
# Exclusive pools

A pool that lends each item to one borrower at a time. Idle items are kept on a stack; a borrower
takes the one that was returned last, or starts the creation of a new one. A bounded pool has one
unit of capacity for each item that may be lent: a borrower takes a unit before it looks for an
item, keeps it with the lease, and gives it back on every other way out.

An item is closed when its lease ends if the lease was marked corrupted, if the item is not accepted
for further use, or if the pool was disposed; and when the pool is disposed while it is idle.
-/

namespace MemcachedClient.Pool

/-- A borrower that has no item yet. -/
inductive ExclusiveBorrow where
  /-- It waits for a unit of capacity. -/
  | waiting (place : Handle)
  /-- It runs the creation of an item. -/
  | creating (item : Nat)
  deriving DecidableEq, Repr

/-- A lease on an item. -/
structure ExclusiveLease where
  /-- The item. -/
  item : Nat
  /-- Whether the item is not to be used again. -/
  corrupted : Bool
  deriving DecidableEq, Repr

/-- A pool that lends each item to one borrower at a time. -/
structure Exclusive where
  /-- The units of capacity; `none` for a pool without a bound. -/
  capacity : Option Semaphore
  /-- The idle items, the one that was returned last first. -/
  idle : List Nat
  /-- Whether the pool was disposed. -/
  disposed : Bool
  /-- The number of creations that were started. -/
  created : Nat
  /-- The items that were closed, in that order. -/
  closed : List Nat
  /-- The borrowers without an item. -/
  borrows : Table ExclusiveBorrow
  /-- The leases. -/
  leases : Table ExclusiveLease

namespace Exclusive

/-- An empty pool. -/
def ofOptions (options : ExclusiveOptions) : Exclusive where
  capacity := if options.maxCount = 0 then none else some (.ofCount options.maxCount)
  idle := []
  disposed := false
  created := 0
  closed := []
  borrows := []
  leases := []

/-- Gives one unit of capacity back. -/
def giveBack (p : Exclusive) : Exclusive :=
  { p with capacity := p.capacity.map Semaphore.signalOne }

/-- Lends an item to a borrower, which keeps its unit of capacity. -/
def lend (p : Exclusive) (name : String) (item : Nat) : Report × Exclusive :=
  (.leased item,
    { p with borrows := p.borrows.remove name, leases := p.leases.put name ⟨item, false⟩ })

/-- Turns a borrower away, which gives its unit of capacity back. -/
def refuse (p : Exclusive) (name : String) (cause : ClientError) : Report × Exclusive :=
  (.failed cause, { p.giveBack with borrows := p.borrows.remove name })

/-- Goes on with a borrower that runs a creation. -/
def proceed (p : Exclusive) (made : Creations) (name : String) (item : Nat) : Report × Exclusive :=
  match made item with
  | none => (.pending, { p with borrows := p.borrows.put name (.creating item) })
  | some (.ok ()) => p.lend name item
  | some (.error cause) => p.refuse name cause

/-- Goes on with a borrower that has a unit of capacity. -/
def serve (p : Exclusive) (made : Creations) (name : String) : Report × Exclusive :=
  if p.disposed then p.refuse name .disposed
  else
    match p.idle with
    | item :: idle => { p with idle }.lend name item
    | [] => { p with created := p.created + 1 }.proceed made name p.created

/-- Goes on with a borrower that waits for a unit of capacity. -/
def await (p : Exclusive) (made : Creations) (name : String) (place : Handle) (units : Semaphore) :
    Report × Exclusive :=
  let (taken, place, units) := units.poll place
  let p := { p with capacity := some units }
  if taken then p.serve made name
  else (.pending, { p with borrows := p.borrows.put name (.waiting place) })

/-- Starts a borrower. A name that is in use starts nothing. -/
def borrow (p : Exclusive) (made : Creations) (name : String) : Report × Exclusive :=
  if p.borrows.has name || p.leases.has name then (.absent, p)
  else if p.disposed then (.failed .disposed, p)
  else
    match p.capacity with
    | none => p.serve made name
    | some units =>
      let (place, units) := units.wait
      p.await made name place units

/-- Goes on with a borrower. -/
def poll (p : Exclusive) (made : Creations) (name : String) : Report × Exclusive :=
  match p.borrows.get? name with
  | none => (.absent, p)
  | some (.creating item) => p.proceed made name item
  | some (.waiting place) =>
    match p.capacity with
    | none => (.pending, p)
    | some units => p.await made name place units

/-- Drops a borrower that has no item yet, and answers whether there is one. -/
def cancel (p : Exclusive) (name : String) : Bool × Exclusive :=
  match p.borrows.get? name with
  | none => (false, p)
  | some (.creating _) => (true, { p.giveBack with borrows := p.borrows.remove name })
  | some (.waiting place) =>
    (true,
      { p with
        capacity := p.capacity.map (·.drop place)
        borrows := p.borrows.remove name })

/-- Ends a lease, and answers whether there is one. The item becomes idle, or it is closed. -/
def release (p : Exclusive) (accepts : Nat → Bool) (name : String) : Bool × Exclusive :=
  match p.leases.get? name with
  | none => (false, p)
  | some lease =>
    let p := { p with leases := p.leases.remove name }
    if lease.corrupted || !accepts lease.item || p.disposed then
      (true, { p with closed := p.closed ++ [lease.item] }.giveBack)
    else (true, { p with idle := lease.item :: p.idle }.giveBack)

/-- Marks a lease corrupted, and answers whether there is one. -/
def corrupt (p : Exclusive) (name : String) : Bool × Exclusive :=
  match p.leases.get? name with
  | none => (false, p)
  | some lease => (true, { p with leases := p.leases.put name { lease with corrupted := true } })

/-- Closes every idle item, the one that was returned first before the others. Borrowers and leases
are not touched. -/
def dispose (p : Exclusive) : Exclusive :=
  { p with disposed := true, idle := [], closed := p.closed ++ p.idle.reverse }

/-- Whether some borrower runs the creation of an item. -/
def isCreating (p : Exclusive) (item : Nat) : Bool :=
  p.borrows.any fun entry => entry.2 = .creating item

/-- The description of a pool. -/
def describe (p : Exclusive) : String :=
  "Pool \x7b idle: " ++ Nat.repr p.idle.length ++ ", disposed: "
    ++ (if p.disposed then "true" else "false") ++ " \x7d"

end Exclusive

end MemcachedClient.Pool
