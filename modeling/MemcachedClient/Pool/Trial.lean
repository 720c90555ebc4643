import MemcachedClient.Pool

/-!
# Pools on trial

A pool with a planned source of items and a list of items that are not to be used again. Each
creation follows its plan: it succeeds or fails at once, or stays under way until it is finished from
outside. `Trial.step` is one operation of one borrower.
-/

namespace MemcachedClient.Pool

/-- What a creation does. -/
inductive Plan where
  /-- It makes its item at once. -/
  | succeed
  /-- It fails at once. -/
  | fail
  /-- It stays under way until it is finished. -/
  | wait
  deriving DecidableEq, Repr

/-- An operation on a pool on trial. -/
inductive Event where
  /-- Starts a borrower. -/
  | borrow (name : String)
  /-- Goes on with a borrower. -/
  | poll (name : String)
  /-- Drops a borrower that has no item yet. -/
  | cancel (name : String)
  /-- Ends a lease. -/
  | release (name : String)
  /-- Marks a lease corrupted. -/
  | corrupt (name : String)
  /-- Asks whether a lease was marked corrupted. -/
  | isCorrupted (name : String)
  /-- An item is no longer accepted. -/
  | reject (item : Nat)
  /-- An item is accepted again. -/
  | accept (item : Nat)
  /-- A creation that is under way succeeds or fails. -/
  | finish (item : Nat) (succeeds : Bool)
  /-- Disposes the pool. -/
  | dispose
  deriving DecidableEq, Repr

/-- What an operation answers. -/
inductive Answer where
  /-- What the borrower sees. -/
  | report (report : Report)
  /-- Whether something was done, or nothing to answer. -/
  | flag (value : Option Bool)
  deriving DecidableEq, Repr

/-- A pool on trial. -/
structure Trial where
  /-- The pool. -/
  pool : Pool
  /-- What the creations do, in the order in which they start; later ones succeed. -/
  plans : List Plan
  /-- The creations that were finished, and whether they succeeded. -/
  finished : List (Nat × Bool)
  /-- Whether items are looked at when their leases end. -/
  validated : Bool
  /-- The items that are not accepted then. -/
  rejected : List Nat

namespace Trial

/-- A pool of which nothing was asked yet. -/
def start (pool : Pool) (plans : List Plan) (validated : Bool) : Trial :=
  ⟨pool, plans, [], validated, []⟩

/-- The plan of a creation. -/
def plan (t : Trial) (item : Nat) : Plan := t.plans.getD item .succeed

/-- The end of a creation. -/
def ending (succeeds : Bool) : Except ClientError Unit :=
  if succeeds then .ok () else .error .endOfStream

/-- What became of each creation. -/
def creations (t : Trial) : Creations := fun item =>
  match t.plan item with
  | .succeed => some (ending true)
  | .fail => some (ending false)
  | .wait => (t.finished.lookup item).map ending

/-- Whether an item may be used again. -/
def accepts (t : Trial) (item : Nat) : Bool := !(t.validated && t.rejected.contains item)

/-- Whether a creation is under way. -/
def isUnderWay (t : Trial) (item : Nat) : Bool :=
  t.pool.isCreating item && (t.creations item).isNone

/-- One operation and its answer. -/
def step (t : Trial) : Event → Answer × Trial
  | .borrow name =>
    let (report, pool) := t.pool.borrow t.creations name
    (.report report, { t with pool })
  | .poll name =>
    let (report, pool) := t.pool.poll t.creations name
    (.report report, { t with pool })
  | .cancel name =>
    let (done, pool) := t.pool.cancel name
    (.flag done, { t with pool })
  | .release name =>
    let (done, pool) := t.pool.release t.accepts name
    (.flag done, { t with pool })
  | .corrupt name =>
    let (done, pool) := t.pool.corrupt name
    (.flag done, { t with pool })
  | .isCorrupted name => (.flag (t.pool.isCorrupted? name), t)
  | .reject item =>
    if t.rejected.contains item then (.flag false, t)
    else (.flag true, { t with rejected := item :: t.rejected })
  | .accept item =>
    if t.rejected.contains item then
      (.flag true, { t with rejected := t.rejected.filter (· ≠ item) })
    else (.flag false, t)
  | .finish item succeeds =>
    if t.isUnderWay item then (.flag true, { t with finished := (item, succeeds) :: t.finished })
    else (.flag false, t)
  | .dispose => (.flag none, { t with pool := t.pool.dispose })

/-- The state after a run of operations. -/
def run (t : Trial) (events : List Event) : Trial :=
  events.foldl (fun t event => (t.step event).2) t

end Trial

end MemcachedClient.Pool
