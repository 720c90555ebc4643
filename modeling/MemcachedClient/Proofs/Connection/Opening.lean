import MemcachedClient.Connection.Opening
import MemcachedClient.Proofs.Connection.Effect

/-!
# What an opening changes

Running an opening on changes a connection in one of a few ways (`Opening.changes_poll`). The halves
are put in their places only on a connection that was not open before.
-/

namespace MemcachedClient

/-- A connection on which nothing has happened yet. -/
def Lifecycle.isEarly : Lifecycle → Bool
  | unopened => true
  | opening => true
  | _ => false

theorem Lifecycle.isOver_of_isEarly {lifecycle : Lifecycle} (h : lifecycle.isEarly = true) :
    lifecycle.isOver = false := by
  cases lifecycle <;> simp_all [isEarly, isOver]

theorem Lifecycle.ne_opened_of_isEarly {lifecycle : Lifecycle} (h : lifecycle.isEarly = true) :
    lifecycle ≠ .opened := by
  rintro rfl
  simp [isEarly] at h

namespace Opening

/-- What running an opening on does to the connection. -/
inductive Changes (c : Connection) : Connection → Prop where
  /-- Nothing. -/
  | nothing : Changes c c
  /-- The connect begins. -/
  | begin (unopened : c.lifecycle = .unopened) (attempts : ℕ) :
    Changes c { c with lifecycle := .opening, attempts }
  /-- The connect fails. -/
  | fail {lifecycle : Lifecycle} (ended : lifecycle.isOver = true) (attempts : ℕ) :
    Changes c { c with lifecycle, attempts }
  /-- The connection is open. -/
  | complete (early : c.lifecycle.isEarly = true) (attempts : ℕ) :
    Changes c { c with lifecycle := .opened, sendHalf := true, receiveHalf := some [], attempts }
  /-- The halves are dropped again. -/
  | discard (late : c.lifecycle ≠ .opening) :
    Changes c { c with sendHalf := false, receiveHalf := none }

section Changes

variable {c c' : Connection}

theorem Changes.socket (h : Changes c c') : c'.socket = c.socket := by
  cases h <;> rfl

theorem Changes.turns (h : Changes c c') : c'.turns = c.turns := by
  cases h <;> rfl

theorem Changes.sendLock (h : Changes c c') : c'.sendLock = c.sendLock := by
  cases h <;> rfl

theorem Changes.receiveLock (h : Changes c c') : c'.receiveLock = c.receiveLock := by
  cases h <;> rfl

/-- A connection that is over stays so. -/
theorem Changes.isOver_eq_false (h : Changes c c') (hopen : c'.lifecycle.isOver = false) :
    c.lifecycle.isOver = false := by
  cases h with
  | nothing => exact hopen
  | begin unopened attempts =>
    rw [unopened]
    rfl
  | fail ended attempts => exact absurd (ended.symm.trans hopen) (by simp)
  | complete early attempts => exact Lifecycle.isOver_of_isEarly early
  | discard late => exact hopen

end Changes

theorem changes_await (o : Opening) (c : Connection) (elapsed since : Duration) :
    Changes c (o.await c elapsed since).2 := by
  rw [await]
  split
  · rw [complete]
    split
    · next h => exact .complete (by rw [h]; rfl) c.attempts
    · next h => exact .discard h
  · exact .fail c.lifecycle.isOver_moveTo_faulted c.attempts
  · split
    · exact .fail c.lifecycle.isOver_moveTo_faulted c.attempts
    · exact .nothing

/-- An opening that begins does so on an unopened connection, and goes on from there. -/
theorem changes_poll (o : Opening) (c : Connection) (elapsed : Duration) :
    Changes c (o.poll c elapsed).2 := by
  rw [poll]
  split
  · split
    · next h =>
      have hawait := o.changes_await { c with lifecycle := .opening, attempts := c.attempts + 1 }
        elapsed elapsed
      generalize (o.await { c with lifecycle := .opening, attempts := c.attempts + 1 }
        elapsed elapsed).2 = after at hawait ⊢
      cases hawait with
      | nothing => exact .begin h _
      | begin unopened => simp at unopened
      | fail ended attempts => exact .fail ended attempts
      | complete early attempts => exact .complete (by rw [h]; rfl) attempts
      | discard late => exact absurd rfl late
    · exact .nothing
  · exact o.changes_await c elapsed _
  · exact .nothing
  · exact .nothing

end Opening

end MemcachedClient
