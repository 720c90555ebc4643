import MemcachedClient.Semaphore
import MemcachedClient.Table

/-!
# Callers of a semaphore

A semaphore together with the callers that use it, each under a name: a handle of a plain wait,
which keeps its unit once it has taken it; a handle that yields guards; and a guard, which gives a
unit back when it is dropped unless it was told to keep it. `Session.step` is one operation of one
caller.

A handle and the guards that it yields are held apart. Looking at a handle that has taken its unit
says again that it has it, and a handle that yields guards yields another one then.
-/

namespace MemcachedClient.Semaphore

/-- A handle that a caller holds. -/
inductive Holding where
  /-- The handle of a plain wait. -/
  | plain (handle : Handle)
  /-- The handle of a wait that yields guards. -/
  | guarding (handle : Handle)
  deriving DecidableEq, Repr

/-- What a caller has of its unit. -/
def Holding.handle : Holding → Handle
  | plain handle => handle
  | guarding handle => handle

/-- An operation of a caller. -/
inductive Event where
  /-- Asks for a unit. -/
  | wait (name : String)
  /-- Asks for a unit that is given back when its guard is dropped. -/
  | waitAndSignal (name : String)
  /-- Asks whether the unit was there at once. -/
  | isReady (name : String)
  /-- Looks whether the unit is there, and takes it. If that yields a guard, it goes under the name
  `guard`. It may take the name of the handle, which is dropped then. -/
  | poll (name : String) (guard : String := name)
  /-- Drops the handle or the guard. -/
  | drop (name : String)
  /-- Drops the guard and keeps the unit. -/
  | forget (name : String)
  /-- Gives units back. -/
  | signal (count : Nat)
  deriving DecidableEq, Repr

/-- A semaphore and its callers. -/
structure Session where
  /-- The semaphore. -/
  semaphore : Semaphore
  /-- The handle that each caller holds. -/
  holdings : Table Holding
  /-- The names of the guards. -/
  guards : List String

namespace Session

/-- A semaphore that nobody uses. -/
def ofCount (count : Nat) : Session := ⟨.ofCount count, [], []⟩

/-- Whether a name is in use. -/
def uses (s : Session) (name : String) : Bool := s.holdings.has name || s.guards.contains name

/-- The handle under a name has taken its unit and yields a guard. -/
def yield (s : Session) (semaphore : Semaphore) (name guard : String) : Session where
  semaphore
  holdings := if guard = name then s.holdings.remove name else s.holdings.put name (.guarding .acquired)
  guards := guard :: s.guards

/-- One operation, and what it answers: nothing where the operation has no answer or the caller holds
nothing that it applies to. A name that is in use starts nothing. -/
def step (s : Session) : Event → Option Bool × Session
  | .wait name =>
    if s.uses name then (none, s)
    else
      let (handle, semaphore) := s.semaphore.wait
      (some handle.isReady, { s with semaphore, holdings := s.holdings.put name (.plain handle) })
  | .waitAndSignal name =>
    if s.uses name then (none, s)
    else
      let (handle, semaphore) := s.semaphore.wait
      (none, { s with semaphore, holdings := s.holdings.put name (.guarding handle) })
  | .isReady name =>
    match s.holdings.get? name with
    | some (.plain handle) => (some handle.isReady, s)
    | _ => (none, s)
  | .poll name guard =>
    match s.holdings.get? name with
    | some (.plain handle) =>
      let (taken, handle, semaphore) := s.semaphore.poll handle
      (some taken, { s with semaphore, holdings := s.holdings.put name (.plain handle) })
    | some (.guarding handle) =>
      if guard ≠ name ∧ s.uses guard then (none, s)
      else
        let (taken, handle, semaphore) := s.semaphore.poll handle
        if taken then (some true, s.yield semaphore name guard)
        else (some false, { s with semaphore, holdings := s.holdings.put name (.guarding handle) })
    | none => (none, s)
  | .drop name =>
    match s.holdings.get? name with
    | some holding =>
      (some true,
        { s with semaphore := s.semaphore.drop holding.handle, holdings := s.holdings.remove name })
    | none =>
      if name ∈ s.guards then
        (some true, { s with semaphore := s.semaphore.signalOne, guards := s.guards.erase name })
      else (some false, s)
  | .forget name =>
    if name ∈ s.guards then (some true, { s with guards := s.guards.erase name }) else (some false, s)
  | .signal count => (none, { s with semaphore := s.semaphore.signal count })

/-- The state after a run of operations. -/
def run (s : Session) (events : List Event) : Session :=
  events.foldl (fun s event => (s.step event).2) s

end Session

end MemcachedClient.Semaphore
