import MemcachedClient.Pool.Exclusive
import MemcachedClient.Pool.Shared

/-!
# Pools

Either kind of pool, with the operations that both have.
-/

namespace MemcachedClient

/-- A pool of items. -/
inductive Pool where
  /-- One that lends each item to one borrower at a time. -/
  | exclusive (pool : Pool.Exclusive)
  /-- One that lends each item to several borrowers at a time. -/
  | shared (pool : Pool.Shared)

namespace Pool

/-- Starts a borrower. -/
def borrow (made : Creations) (name : String) : Pool → Report × Pool
  | exclusive p => (p.borrow made name).map id exclusive
  | shared p => (p.borrow made name).map id shared

/-- Goes on with a borrower. -/
def poll (made : Creations) (name : String) : Pool → Report × Pool
  | exclusive p => (p.poll made name).map id exclusive
  | shared p => (p.poll made name).map id shared

/-- Drops a borrower that has no item yet. -/
def cancel (name : String) : Pool → Bool × Pool
  | exclusive p => (p.cancel name).map id exclusive
  | shared p => (p.cancel name).map id shared

/-- Ends a lease. -/
def release (accepts : Nat → Bool) (name : String) : Pool → Bool × Pool
  | exclusive p => (p.release accepts name).map id exclusive
  | shared p => (p.release accepts name).map id shared

/-- Marks a lease corrupted. -/
def corrupt (name : String) : Pool → Bool × Pool
  | exclusive p => (p.corrupt name).map id exclusive
  | shared p => (p.corrupt name).map id shared

/-- Disposes the pool. -/
def dispose : Pool → Pool
  | exclusive p => exclusive p.dispose
  | shared p => shared p.dispose

/-- Whether a lease was marked corrupted; `none` if there is no such lease. -/
def isCorrupted? (name : String) : Pool → Option Bool
  | exclusive p => (p.leases.get? name).map (·.corrupted)
  | shared p => (p.leases.get? name).map (·.corrupted)

/-- The creation that a borrower runs. -/
def creating? (name : String) : Pool → Option Nat
  | exclusive p =>
    match p.borrows.get? name with
    | some (.creating item) => some item
    | _ => none
  | shared p =>
    match p.borrows.get? name with
    | some (.creating _ item) => some item
    | _ => none

/-- Whether some borrower runs the creation of an item. -/
def isCreating (item : Nat) : Pool → Bool
  | exclusive p => p.isCreating item
  | shared p => p.isCreating item

/-- The number of creations that were started. -/
def created : Pool → Nat
  | exclusive p => p.created
  | shared p => p.created

/-- The items that were closed, in that order. -/
def closed : Pool → List Nat
  | exclusive p => p.closed
  | shared p => p.closed

/-- The description of a pool. -/
def describe : Pool → String
  | exclusive p => p.describe
  | shared p => p.describe

end Pool

end MemcachedClient
