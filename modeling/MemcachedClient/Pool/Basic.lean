import MemcachedClient.Error

/-!
# Borrowing

What the two kinds of pool have in common. Items are named by the number of the creation that made
them, counted from 0 in the order in which the pool started them. A pool does not make items itself:
at each step it is told what became of the creations (`Creations`), and when a lease ends it is told
which items may be used again.
-/

namespace MemcachedClient.Pool

/-- What became of each creation: nothing yet, an item, or an error. A creation that the pool starts
in a step may be complete in that same step. -/
abbrev Creations := Nat → Option (Except ClientError Unit)

/-- What a borrower sees. -/
inductive Report where
  /-- It has to wait. -/
  | pending
  /-- It holds a lease on an item. -/
  | leased (item : Nat)
  /-- It gets no item. -/
  | failed (cause : ClientError)
  /-- There is no such borrower. -/
  | absent
  deriving DecidableEq, Repr

end MemcachedClient.Pool
