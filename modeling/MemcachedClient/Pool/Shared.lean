import MemcachedClient.Pool.Basic
import MemcachedClient.Pool.Options
import MemcachedClient.Semaphore
import MemcachedClient.Table

/-!
# Shared pools

A pool that lends each item to several borrowers at a time. It keeps up to `targetItemCount` slots,
each with one item and up to `maxRequestsPerItem` units in flight. A borrower is assigned a unit of
the least loaded slot that has one to spare, or of a new slot; where there is neither, it queues. A
unit that is given back goes straight to the oldest borrower in the queue.

The item of a slot is created once, by the first borrower that needs it; the others on the slot wait
for that creation, in order. If the borrower that runs it is dropped, the next one runs it anew. A
failed creation is the answer for every borrower on the slot, and retires the slot.

A retired slot takes no further borrower. It leaves the pool with its last unit, and its item is
closed then. Disposing the pool retires every slot and turns the queue away.
-/

namespace MemcachedClient.Pool

/-- A place for one item and the units of it that are in flight. -/
structure Slot where
  /-- The number of the slot, counted from 0 in the order of opening. -/
  id : Nat
  /-- The units in flight. -/
  inFlight : Nat
  /-- Whether the slot takes no further borrower. -/
  retired : Bool
  /-- The result of the creation of its item: the item, or why there is none. -/
  made : Option (Except ClientError Nat)
  /-- The one turn to run that creation. -/
  turn : Semaphore

/-- A borrower that has no lease yet. -/
inductive SharedBorrow where
  /-- It waits in the queue with this ticket. -/
  | queued (ticket : Nat)
  /-- It was turned away while it waited. -/
  | refused
  /-- It was handed a unit of this slot and has not seen it. -/
  | assigned (slot : Nat)
  /-- It has a unit of this slot and waits for its turn to create the item. -/
  | awaiting (slot : Nat) (place : Handle)
  /-- It has a unit of this slot and runs this creation. -/
  | creating (slot : Nat) (item : Nat)
  deriving DecidableEq, Repr

/-- A share of the item of a slot. -/
structure SharedLease where
  /-- The slot. -/
  slot : Nat
  /-- The item. -/
  item : Nat
  /-- Whether the slot is to be retired. -/
  corrupted : Bool
  deriving DecidableEq, Repr

/-- A pool that lends each item to several borrowers at a time. -/
structure Shared where
  /-- The name of the kind of item, for messages. -/
  kind : String
  /-- The number of slots that are kept. -/
  target : Nat
  /-- The most units in flight on one slot. -/
  depth : Nat
  /-- The slots, in the order of opening. -/
  slots : List Slot
  /-- The number of the next slot. -/
  nextSlot : Nat
  /-- The tickets in the queue, the oldest first; a ticket whose borrower was dropped stays until it
  is passed over. -/
  queue : List Nat
  /-- The ticket of the next borrower that queues. -/
  nextTicket : Nat
  /-- Whether the pool was disposed. -/
  disposed : Bool
  /-- The number of creations that were started. -/
  created : Nat
  /-- The items that were closed, in that order. -/
  closed : List Nat
  /-- The borrowers without a lease. -/
  borrows : Table SharedBorrow
  /-- The leases. -/
  leases : Table SharedLease

namespace Slot

/-- A new slot, with one unit in flight. -/
def ofId (id : Nat) : Slot := ⟨id, 1, false, none, .ofCount 1⟩

/-- Whether the slot has a unit to spare. -/
def hasRoom (depth : Nat) (s : Slot) : Bool := !s.retired && s.inFlight < depth

/-- The slot with one unit more in flight. -/
def take (s : Slot) : Slot := { s with inFlight := s.inFlight + 1 }

/-- The slot with one unit less in flight. -/
def give (s : Slot) : Slot := { s with inFlight := s.inFlight - 1 }

/-- The item that is closed when the slot leaves the pool. -/
def items (s : Slot) : List Nat :=
  match s.made with
  | some (.ok item) => [item]
  | _ => []

/-- The first of the least loaded slots with a unit to spare. -/
def leastLoaded? (depth : Nat) : List Slot → Option Slot
  | [] => none
  | s :: rest =>
    match leastLoaded? depth rest with
    | none => if s.hasRoom depth then some s else none
    | some best => if s.hasRoom depth && s.inFlight ≤ best.inFlight then some s else some best

end Slot

namespace Shared

/-- An empty pool for items of a kind. -/
def ofOptions (kind : String) (options : SharedOptions) : Shared where
  kind := kind
  target := options.atLeastOne.targetItemCount
  depth := options.atLeastOne.maxRequestsPerItem
  slots := []
  nextSlot := 0
  queue := []
  nextTicket := 0
  disposed := false
  created := 0
  closed := []
  borrows := []
  leases := []

/-- The slot with a number. -/
def slot? (p : Shared) (id : Nat) : Option Slot := p.slots.find? fun s => s.id = id

/-- Changes the slot with a number. -/
def updateSlot (p : Shared) (id : Nat) (f : Slot → Slot) : Shared :=
  { p with slots := p.slots.map fun s => if s.id = id then f s else s }

/-- The slots that take borrowers. -/
def live (p : Shared) : List Slot := p.slots.filter fun s => !s.retired

/-- The units in flight on each slot that takes borrowers, in the order of opening. -/
def loads (p : Shared) : List Nat := p.live.map (·.inFlight)

/-- The number of tickets in the queue. -/
def waiting (p : Shared) : Nat := p.queue.length

/-- Takes a unit of the least loaded slot that has one to spare, or opens a slot. -/
def assign? (p : Shared) : Option (Nat × Shared) :=
  match Slot.leastLoaded? p.depth p.slots with
  | some best => some (best.id, p.updateSlot best.id .take)
  | none =>
    if p.live.length < p.target then
      some (p.nextSlot,
        { p with slots := p.slots ++ [.ofId p.nextSlot], nextSlot := p.nextSlot + 1 })
    else none

/-- The borrower that waits with a ticket, unless it was dropped. -/
def waiter? (p : Shared) (ticket : Nat) : Option String :=
  (p.borrows.find? fun entry => entry.2 = .queued ticket).map (·.1)

/-- Hands a unit of a slot to the first borrower in the queue, or gives it back to the slot if nobody
waits. Tickets of borrowers that were dropped leave the queue. -/
def handOn (p : Shared) (slot : Nat) : List Nat → Shared
  | [] => { p with queue := [] }.updateSlot slot .give
  | ticket :: rest =>
    match p.waiter? ticket with
    | some name => { p with queue := rest, borrows := p.borrows.put name (.assigned slot) }
    | none => p.handOn slot rest

/-- Takes a slot without units out of the pool and closes its item. -/
def dropDrained (p : Shared) (s : Slot) : Shared :=
  if s.retired && s.inFlight == 0 then
    { p with slots := p.slots.filter (·.id ≠ s.id), closed := p.closed ++ s.items }
  else p

/-- Gives one unit of a slot back; `retire` says that the slot is to take no further borrower. The
unit of a slot that stays is handed on; otherwise the first borrower in the queue may be assigned a
unit elsewhere. -/
def giveUnit (p : Shared) (slot : Nat) (retire : Bool) : Shared :=
  match p.slot? slot with
  | none => p
  | some s =>
    if !retire && !s.retired then p.handOn slot p.queue
    else
      let s := { s.give with retired := true }
      let p := (p.updateSlot slot fun _ => s).dropDrained s
      if p.queue.isEmpty then p
      else
        match p.assign? with
        | none => p
        | some (other, p) => p.handOn other p.queue

/-- Gives a borrower the result of the creation of its slot's item. -/
def settle (p : Shared) (name : String) (slot : Nat) : Except ClientError Nat → Report × Shared
  | .ok item =>
    (.leased item,
      { p with
        borrows := p.borrows.remove name
        leases := p.leases.put name ⟨slot, item, false⟩ })
  | .error cause =>
    (.failed (.poolCreation p.kind cause),
      { p with borrows := p.borrows.remove name }.giveUnit slot true)

/-- Goes on with a borrower that runs a creation. -/
def proceed (p : Shared) (made : Creations) (name : String) (slot item : Nat) : Report × Shared :=
  match made item with
  | none => (.pending, { p with borrows := p.borrows.put name (.creating slot item) })
  | some result =>
    let result := result.map fun () => item
    (p.updateSlot slot fun s => { s with made := some result }).settle name slot result

/-- Goes on with a borrower that waits for its turn to create the item of its slot. -/
def await (p : Shared) (made : Creations) (name : String) (slot : Nat) (place : Handle)
    (turn : Semaphore) : Report × Shared :=
  let (taken, place, turn) := turn.poll place
  let p := p.updateSlot slot fun s => { s with turn }
  if taken then { p with created := p.created + 1 }.proceed made name slot p.created
  else (.pending, { p with borrows := p.borrows.put name (.awaiting slot place) })

/-- Goes on with a borrower that has a unit of a slot. -/
def enter (p : Shared) (made : Creations) (name : String) (slot : Nat) : Report × Shared :=
  match p.slot? slot with
  | none => (.pending, p)
  | some s =>
    match s.made with
    | some result => p.settle name slot result
    | none =>
      let (place, turn) := s.turn.wait
      p.await made name slot place turn

/-- Starts a borrower. A name that is in use starts nothing. -/
def borrow (p : Shared) (made : Creations) (name : String) : Report × Shared :=
  if p.borrows.has name || p.leases.has name then (.absent, p)
  else if p.disposed then (.failed .disposed, p)
  else
    match p.assign? with
    | some (slot, p) => p.enter made name slot
    | none =>
      (.pending,
        { p with
          queue := p.queue ++ [p.nextTicket]
          nextTicket := p.nextTicket + 1
          borrows := p.borrows.put name (.queued p.nextTicket) })

/-- Goes on with a borrower. -/
def poll (p : Shared) (made : Creations) (name : String) : Report × Shared :=
  match p.borrows.get? name with
  | none => (.absent, p)
  | some (.queued _) => (.pending, p)
  | some .refused => (.failed .disposed, { p with borrows := p.borrows.remove name })
  | some (.assigned slot) => p.enter made name slot
  | some (.creating slot item) => p.proceed made name slot item
  | some (.awaiting slot place) =>
    match p.slot? slot with
    | none => (.pending, p)
    | some s =>
      match s.made with
      | some result => p.settle name slot result
      | none => p.await made name slot place s.turn

/-- Drops a borrower that has no lease yet, and answers whether there is one. A place in the queue
stays until it is passed over; a creation that it runs is lost, and the next borrower on the slot
may run it; a unit that it has is given back. -/
def cancel (p : Shared) (name : String) : Bool × Shared :=
  match p.borrows.get? name with
  | none => (false, p)
  | some phase =>
    let p := { p with borrows := p.borrows.remove name }
    match phase with
    | .queued _ => (true, p)
    | .refused => (true, p)
    | .assigned slot => (true, p.giveUnit slot false)
    | .awaiting slot place =>
      (true, (p.updateSlot slot fun s => { s with turn := s.turn.drop place }).giveUnit slot false)
    | .creating slot _ =>
      (true, (p.updateSlot slot fun s => { s with turn := s.turn.signalOne }).giveUnit slot false)

/-- Ends a lease, and answers whether there is one. Its slot is retired if the lease was marked
corrupted or its item is not accepted for further use. -/
def release (p : Shared) (accepts : Nat → Bool) (name : String) : Bool × Shared :=
  match p.leases.get? name with
  | none => (false, p)
  | some lease =>
    (true,
      { p with leases := p.leases.remove name }.giveUnit lease.slot
        (lease.corrupted || !accepts lease.item))

/-- Marks a lease corrupted, and answers whether there is one. -/
def corrupt (p : Shared) (name : String) : Bool × Shared :=
  match p.leases.get? name with
  | none => (false, p)
  | some lease => (true, { p with leases := p.leases.put name { lease with corrupted := true } })

/-- Retires every slot, closes the items of those without units, and turns the queue away. -/
def dispose (p : Shared) : Shared :=
  let drained := p.slots.filter (·.inFlight == 0)
  { p with
    disposed := true
    slots := (p.slots.filter (·.inFlight != 0)).map fun s => { s with retired := true }
    closed := p.closed ++ drained.flatMap Slot.items
    queue := []
    borrows := p.borrows.map fun (name, phase) =>
      match phase with
      | .queued _ => (name, .refused)
      | phase => (name, phase) }

/-- Whether some borrower runs the creation of an item. -/
def isCreating (p : Shared) (item : Nat) : Bool :=
  p.borrows.any fun entry =>
    match entry.2 with
    | .creating _ running => running == item
    | _ => false

/-- The description of a pool. -/
def describe (p : Shared) : String :=
  "PipelinedPool \x7b options: " ++ SharedOptions.describe ⟨p.target, p.depth⟩ ++ ", slot_loads: ["
    ++ ", ".intercalate (p.loads.map Nat.repr) ++ "], waiting: " ++ Nat.repr p.waiting ++ " \x7d"

end Shared

end MemcachedClient.Pool
