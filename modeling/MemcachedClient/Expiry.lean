import MemcachedClient.Duration

/-!
# Expiries

When a stored value expires, and the one 32-bit field that says so on a request line. The server
gives that field three meanings: 0 is never, a number of seconds up to thirty days counts from now,
and any larger one is a second since the Unix epoch. So a relative expiry beyond thirty days is
sent as an absolute second (`Expiry.wireSeconds`).
-/

namespace MemcachedClient

/-- A moment, as nanoseconds since the Unix epoch. -/
structure Instant where
  /-- Nanoseconds since the epoch, negative before it. -/
  nanos : Int
  deriving DecidableEq, Repr

namespace Instant

/-- The moment that lies `secs` seconds and `nanos` nanoseconds after the epoch. -/
def ofParts (secs : Int) (nanos : Nat) : Instant := ⟨secs * Duration.perSecond + nanos⟩

/-- The moment that lies a duration later. -/
def add (moment : Instant) (d : Duration) : Instant := ⟨moment.nanos + d.nanos⟩

/-- The largest second that a 32-bit field can carry. -/
def maxSecond : Nat := UInt32.size - 1

/-- The whole second of a moment: 0 before the epoch, the largest second after the last one that
fits 32 bits. -/
def unixSecond (moment : Instant) : Nat :=
  min (moment.nanos / (Duration.perSecond : Int)).toNat maxSecond

end Instant

/-- When a stored value expires. -/
inductive Expiry where
  /-- It stays. -/
  | never
  /-- It expires a duration from now. -/
  | after (d : Duration)
  /-- It expires at a moment. -/
  | absolute (moment : Instant)
  deriving DecidableEq, Repr

namespace Expiry

/-- The longest expiry that the server reads as relative: thirty days. -/
def maxRelative : Duration := Duration.ofSecs (60 * 60 * 24 * 30)

/-- The field of the request line at the moment `now`. A duration below one second is sent as one
second, so that it does not read as never; one of more than thirty days is sent as a moment. -/
def wireSeconds (now : Instant) : Expiry → Nat
  | never => 0
  | after d =>
    if d.nanos ≤ maxRelative.nanos then
      if d.wholeSecs = 0 ∧ d.nanos ≠ 0 then 1 else d.wholeSecs
    else (now.add d).unixSecond
  | absolute moment => moment.unixSecond

end Expiry

end MemcachedClient
