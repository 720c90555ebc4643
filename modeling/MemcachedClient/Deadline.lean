import MemcachedClient.Error

/-!
# Deadlines

An operation under a time limit. The operation is looked at before the clock, so one that completes
exactly at its limit counts.
-/

namespace MemcachedClient.Deadline

/-- What an operation that takes the time `work` and then has `result` comes to under a limit, and
the time that it takes. -/
def run {α : Type} (operation : String) (limit : Option Duration) (work : Duration)
    (result : Except ClientError α) : Except ClientError α × Duration :=
  match limit with
  | none => (result, work)
  | some limit =>
    if work ≤ limit then (result, work) else (.error (.timeout operation limit), limit)

/-- Whether an operation that began at `since` and is not complete at `now` has exceeded its
limit. -/
def hasPassed (limit : Option Duration) (since now : Duration) : Bool :=
  match limit with
  | none => false
  | some limit => since + limit ≤ now

end MemcachedClient.Deadline
