import MemcachedClient.Command

/-!
# Outcomes of commands

What a command resolves to, and how the first token of a status line decides it. Each command has
its own table of legal statuses (`Command.ofStatus?`); a token outside that table has no outcome.
-/

namespace MemcachedClient

/-- The status that answers a command that stores a value. -/
inductive StorageStatus where
  /-- The value is stored. -/
  | stored
  /-- The condition of the store did not hold. -/
  | notStored
  /-- The value was changed since its token was issued. -/
  | modified
  /-- There is no value under the key. -/
  | notFound
  deriving DecidableEq, Repr

/-- The status that a token stands for. -/
def StorageStatus.parse? (token : String) : Option StorageStatus :=
  [("STORED", stored), ("NOT_STORED", notStored), ("EXISTS", modified), ("NOT_FOUND", notFound)].lookup
    token

/-- What a command resolves to. -/
inductive Outcome where
  /-- The item of a retrieval of one key, or none. -/
  | item (found : Option Item)
  /-- An unconditional store took place. -/
  | stored
  /-- Whether a value was stored, removed or touched. -/
  | changed (yes : Bool)
  /-- The outcome of a conditional store. -/
  | compared (outcome : CasOutcome)
  /-- The new value of a counter, or none without a counter. -/
  | counter (value : Option UInt64)
  /-- The number of items of a retrieval of several keys that were delivered. -/
  | delivered (count : Nat)
  deriving DecidableEq, Repr

/-- The outcome of a plain store with a legal status. -/
def StoreMode.ofStatus? (mode : StoreMode) (status : StorageStatus) : Option Outcome :=
  match mode, status with
  | .set, .stored => some .stored
  | .set, _ => none
  | _, .stored => some (.changed true)
  | _, .notStored => some (.changed false)
  | _, _ => none

/-- The outcome of a conditional store with a legal status. -/
def CasOutcome.ofStatus? : StorageStatus → Option CasOutcome
  | .stored => some stored
  | .modified => some modified
  | .notFound => some notFound
  | .notStored => none

namespace Command

/-- The outcome that the first token of a status line gives, if it is legal for the command. A
retrieval has no status line. -/
def ofStatus? (command : Command) (token : String) : Option Outcome :=
  match command with
  | store mode .. => (StorageStatus.parse? token).bind mode.ofStatus?
  | compareAndStore .. =>
    ((StorageStatus.parse? token).bind CasOutcome.ofStatus?).map .compared
  | adjust .. =>
    if token = "NOT_FOUND" then some (.counter none)
    else (Text.word64? token.toList).map fun value => .counter (some value)
  | delete _ =>
    if token = "DELETED" then some (.changed true)
    else if token = "NOT_FOUND" then some (.changed false)
    else none
  | touch .. =>
    if token = "TOUCHED" then some (.changed true)
    else if token = "NOT_FOUND" then some (.changed false)
    else none
  | retrieve .. => none
  | retrieveMany .. => none

end Command

end MemcachedClient
