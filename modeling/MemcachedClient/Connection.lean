import MemcachedClient.Lifecycle
import MemcachedClient.Semaphore
import MemcachedClient.Socket

/-!
# Connections

One stream to the server, shared by the calls that use it. Its two halves are guarded by a lock
each: a request is written under the lock of the send half, and a reply is read under the lock of
the receive half. The order in which replies are read is that of the `turns`, a semaphore of one
unit whose queue a call joins while it still holds the lock of the send half.

A half belongs to the connection until it is dropped. When the connection faults or is closed, the
halves whose locks are free are dropped at once; the holder of a lock drops its half itself.

Every change that a call makes to this shared state is an `Effect`, and a call that ends leaves a
list of them, which take place in order (`Connection.applyAll`).
-/

namespace MemcachedClient

/-- The state that the calls on a connection share. -/
structure Connection where
  /-- The lifecycle state. -/
  lifecycle : Lifecycle
  /-- The limit of each read. -/
  receiveLimit : Option Duration
  /-- The stream. -/
  socket : Socket
  /-- Whether the send half is there. -/
  sendHalf : Bool
  /-- The receive half, if it is there: the bytes that were read and not consumed. -/
  receiveHalf : Option Bytes
  /-- The lock of the send half. -/
  sendLock : Semaphore
  /-- The lock of the receive half. -/
  receiveLock : Semaphore
  /-- The turns to read a reply. -/
  turns : Semaphore
  /-- The number of connects that were attempted. -/
  attempts : Nat

/-- A change of the shared state. -/
inductive Effect where
  /-- The connection faults, unless it was closed; halves with free locks are dropped. -/
  | fault
  /-- The send half is dropped. -/
  | dropSend
  /-- The receive half is dropped. -/
  | dropReceive
  /-- The send half is dropped if the connection is over. -/
  | dropSendIfOver
  /-- The receive half is dropped if the connection is over. -/
  | dropReceiveIfOver
  /-- The lock of the send half is given back. -/
  | unlockSend
  /-- The lock of the receive half is given back. -/
  | unlockReceive
  /-- A caller stops waiting for the lock of the send half. -/
  | leaveSend (place : Handle)
  /-- A caller stops waiting for the lock of the receive half. -/
  | leaveReceive (place : Handle)
  /-- A turn that was taken passes on. -/
  | passTurn
  /-- A caller gives up its place among the turns; a turn that was handed to it passes on. -/
  | leaveTurn (place : Handle)
  deriving DecidableEq, Repr

namespace Connection

/-- An unopened connection, and what the network makes of its connect at once. -/
def ofDial (dial : Dial) (receiveLimit : Option Duration) : Connection where
  lifecycle := .unopened
  receiveLimit := receiveLimit
  socket := .ofDial dial
  sendHalf := false
  receiveHalf := none
  sendLock := .ofCount 1
  receiveLock := .ofCount 1
  turns := .ofCount 1
  attempts := 0

/-- Whether a lock is free. -/
def isFree (lock : Semaphore) : Bool := 0 < lock.available

/-- Drops the halves whose locks are free. -/
def releaseHalves (c : Connection) : Connection :=
  { c with
    sendHalf := c.sendHalf && !isFree c.sendLock
    receiveHalf := if isFree c.receiveLock then none else c.receiveHalf }

/-- One change. -/
def apply (c : Connection) : Effect → Connection
  | .fault => { c with lifecycle := c.lifecycle.moveTo .faulted }.releaseHalves
  | .dropSend => { c with sendHalf := false }
  | .dropReceive => { c with receiveHalf := none }
  | .dropSendIfOver => { c with sendHalf := c.sendHalf && !c.lifecycle.isOver }
  | .dropReceiveIfOver =>
    { c with receiveHalf := if c.lifecycle.isOver then none else c.receiveHalf }
  | .unlockSend => { c with sendLock := c.sendLock.signalOne }
  | .unlockReceive => { c with receiveLock := c.receiveLock.signalOne }
  | .leaveSend place => { c with sendLock := c.sendLock.drop place }
  | .leaveReceive place => { c with receiveLock := c.receiveLock.drop place }
  | .passTurn => { c with turns := c.turns.signalOne }
  | .leaveTurn place => { c with turns := c.turns.drop place }

/-- Changes in their order. -/
def applyAll (c : Connection) (effects : List Effect) : Connection := effects.foldl apply c

/-- Closes the connection; a second time changes nothing. -/
def close (c : Connection) : Connection :=
  if c.lifecycle = .closed then c
  else { c with lifecycle := .closed }.releaseHalves

/-- Whether the connection may be used again. -/
def isOpened (c : Connection) : Bool := c.lifecycle == .opened

/-- The description of a connection, which names the address. -/
def describe (c : Connection) (address : String) : String :=
  "Connection \x7b endpoint: " ++ address ++ ", state: " ++ c.lifecycle.title ++ " \x7d"

@[simp] theorem applyAll_nil (c : Connection) : c.applyAll [] = c := rfl

@[simp] theorem applyAll_cons (c : Connection) (effect : Effect) (effects : List Effect) :
    c.applyAll (effect :: effects) = (c.apply effect).applyAll effects := rfl

/-- After a fault the connection is over. -/
theorem isOver_apply_fault (c : Connection) : (c.apply .fault).lifecycle.isOver = true := by
  simp [apply, releaseHalves]

/-- Only a fault changes the lifecycle state. -/
theorem lifecycle_apply_of_ne_fault (c : Connection) {effect : Effect} (h : effect ≠ .fault) :
    (c.apply effect).lifecycle = c.lifecycle := by
  cases effect <;> first | rfl | exact absurd rfl h

end Connection

end MemcachedClient
