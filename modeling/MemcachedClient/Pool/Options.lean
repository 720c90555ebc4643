import MemcachedClient.Document

/-!
# Pool options

How many items a pool keeps, for the pool that lends each item to one borrower (`ExclusiveOptions`)
and for the pool that lends each item to several (`SharedOptions`), and how a settings document
gives them.
-/

namespace MemcachedClient.Pool

/-- Options of a pool that lends each item to one borrower at a time. -/
structure ExclusiveOptions where
  /-- The most items lent at one time; 0 is no bound. -/
  maxCount : Nat := 0
  deriving DecidableEq, Repr

/-- Options of a pool that lends each item to several borrowers at a time. -/
structure SharedOptions where
  /-- The number of items that are kept. -/
  targetItemCount : Nat := 2
  /-- The most leases on one item at one time. -/
  maxRequestsPerItem : Nat := 10
  deriving DecidableEq, Repr

/-- The options that the text of a document gives. -/
def ExclusiveOptions.parse? (source : String) : Option ExclusiveOptions := do
  let settings ← (← Document.parse? source).settings? ["max_count"]
  let default : ExclusiveOptions := {}
  return {
    maxCount := ← Document.setting? settings "max_count" Document.asCount? default.maxCount }

/-- The options that the text of a document gives. -/
def SharedOptions.parse? (source : String) : Option SharedOptions := do
  let settings ← (← Document.parse? source).settings?
    ["target_item_count", "max_requests_per_item"]
  let default : SharedOptions := {}
  return {
    targetItemCount :=
      ← Document.setting? settings "target_item_count" Document.asCount? default.targetItemCount
    maxRequestsPerItem :=
      ← Document.setting? settings "max_requests_per_item" Document.asCount?
        default.maxRequestsPerItem }

/-- The options with which a pool works: at least one item and one lease on it. -/
def SharedOptions.atLeastOne (o : SharedOptions) : SharedOptions :=
  ⟨max o.targetItemCount 1, max o.maxRequestsPerItem 1⟩

/-- The description of the options. -/
def SharedOptions.describe (o : SharedOptions) : String :=
  "PipelinedPoolOptions \x7b target_item_count: " ++ Nat.repr o.targetItemCount
    ++ ", max_requests_per_item: " ++ Nat.repr o.maxRequestsPerItem ++ " \x7d"

end MemcachedClient.Pool
