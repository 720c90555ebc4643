import MemcachedClient.Connection.Session
import MemcachedClient.Proofs.Table

/-!
# What openings fail with

An opening fails because its connect failed or took too long, or because the connection was not in the state that it
needs; it fails with nothing else (`Session.failsOpening_of_opened?`). Each such cause belongs to one of the four classes
by which callers tell failures apart.

A pool may report the failure of an opening within the kind of what it was to create, and it may be reported within
another kind again (`ClientError.within`). Of the classes only connectivity looks through that: so the failure keeps its
class exactly when it is not that the connect took too long (`FailsOpening.classes_within_iff`).
-/

namespace MemcachedClient

namespace ClientError

/-- Whether an error is of each of the four classes. -/
def classes (e : ClientError) : List Bool := [e.isValidation, e.isProtocol, e.isTimeout, e.isConnectivity]

/-- An error is of one class. -/
def OneClass (e : ClientError) : Prop := e.classes.count true = 1

instance (e : ClientError) : Decidable e.OneClass := inferInstanceAs (Decidable (_ = 1))

/-- An error as failed creations report it, of these kinds, the outermost first. -/
def within (kinds : List String) (e : ClientError) : ClientError := kinds.foldr poolCreation e

@[simp] theorem within_nil (e : ClientError) : e.within [] = e := rfl

@[simp] theorem within_cons (kind : String) (kinds : List String) (e : ClientError) :
    e.within (kind :: kinds) = .poolCreation kind (e.within kinds) := rfl

theorem within_append (kinds more : List String) (e : ClientError) :
    e.within (kinds ++ more) = (e.within more).within kinds := List.foldr_append

/-- Connectivity looks through failed creations. -/
theorem isConnectivity_within (kinds : List String) (e : ClientError) :
    (e.within kinds).isConnectivity = e.isConnectivity := by
  induction kinds with
  | nil => rfl
  | cons kind kinds ih => exact ih

/-- The other classes do not. -/
theorem classes_within {kinds : List String} (h : kinds ≠ []) (e : ClientError) :
    (e.within kinds).classes = [false, false, false, e.isConnectivity] := by
  cases kinds with
  | nil => exact absurd rfl h
  | cons kind kinds =>
    rw [classes, isConnectivity_within]
    rfl

/-- The causes for which an opening fails. -/
inductive FailsOpening : ClientError → Prop where
  /-- The connect failed. -/
  | io (cause : IoError) : FailsOpening (.io cause)
  /-- The connect took too long. -/
  | timeout (limit : Duration) : FailsOpening (.timeout "connect" limit)
  /-- The connection was not unopened, or it was closed meanwhile. -/
  | invalidState (state : Lifecycle) : FailsOpening (.invalidState state)

namespace FailsOpening

variable {e : ClientError}

theorem oneClass (h : e.FailsOpening) : e.OneClass := by
  cases h <;> rfl

/-- It is a failure of the connection unless it is one of time. -/
theorem isConnectivity_eq (h : e.FailsOpening) : e.isConnectivity = !e.isTimeout := by
  cases h <;> rfl

/-- **The class of a failed opening is seen from outside** unless the connect took too long. -/
theorem classes_within_iff (h : e.FailsOpening) {kinds : List String} (hkinds : kinds ≠ []) :
    (e.within kinds).classes = e.classes ↔ e.isTimeout = false := by
  rw [classes_within hkinds]
  cases h with
  | io cause => exact iff_of_true rfl rfl
  | timeout limit => exact iff_of_false (by simp [classes, isConnectivity, isTimeout]) (by simp [isTimeout])
  | invalidState state => exact iff_of_true rfl rfl

/-- So is that there is one. -/
theorem oneClass_within_iff (h : e.FailsOpening) {kinds : List String} (hkinds : kinds ≠ []) :
    (e.within kinds).OneClass ↔ e.isTimeout = false := by
  rw [OneClass, classes_within hkinds, h.isConnectivity_eq]
  cases e.isTimeout <;> simp

end FailsOpening

end ClientError

namespace Opening

open ClientError (FailsOpening)

/-- If an opening has failed, it has for one of the causes for which openings do. -/
def Explained (o : Opening) : Prop := ∀ cause, o.result? = some (.error cause) → FailsOpening cause

variable {o : Opening}

theorem explained_start (limit : Option Duration) : (start limit).Explained := by
  intro cause h
  simp [start, result?] at h

theorem explained_conclude {result : Except ClientError Unit} (h : ∀ cause, result = .error cause → FailsOpening cause) :
    (o.conclude result).Explained := fun cause hresult => h cause (Option.some.inj hresult)

theorem explained_await (o : Opening) (c : Connection) (elapsed since : Duration) :
    (o.await c elapsed since).1.Explained := by
  rw [await]
  split
  · rw [complete]
    split
    · exact explained_conclude fun cause hok => by simp at hok
    · exact explained_conclude fun cause herror => Except.error.inj herror ▸ .invalidState _
  · exact explained_conclude fun cause herror => Except.error.inj herror ▸ .io _
  · split
    · exact explained_conclude fun cause herror => Except.error.inj herror ▸ .timeout _
    · intro cause hcause
      simp [result?] at hcause

theorem Explained.poll (h : o.Explained) (c : Connection) (elapsed : Duration) : (o.poll c elapsed).1.Explained := by
  rw [Opening.poll]
  split
  · split
    · exact explained_await o _ _ _
    · exact explained_conclude fun cause herror => Except.error.inj herror ▸ .invalidState _
  · exact explained_await o _ _ _
  · exact h
  · exact h

theorem Explained.drop (h : o.Explained) : o.drop.Explained := by
  rw [Opening.drop]
  split
  · exact h
  · intro cause hcause
    simp [result?] at hcause

end Opening

namespace Connection.Session

open ClientError (FailsOpening)

variable {s : Session}

/-- Every opening on the connection that has failed has for one of the causes for which openings do. -/
def Explained (s : Session) : Prop := ∀ name o, s.openings.get? name = some o → o.Explained

theorem Explained.update (h : s.Explained) (name : String) {f : Opening → Connection → Opening × Connection}
    (hf : ∀ o c, o.Explained → (f o c).1.Explained) : (s.updateOpening name f).Explained := by
  intro other o hget
  rw [updateOpening] at hget
  split at hget
  · exact h other o hget
  · next old hold =>
    rcases Table.eq_or_of_get?_put hget with ⟨-, rfl⟩ | ⟨-, hget⟩
    · exact hf old s.connection (h name old hold)
    · exact h other o hget

theorem Explained.step (h : s.Explained) (event : Event) : (s.step event).Explained := by
  cases event with
  | startOpening name limit =>
    rw [Session.step]
    split
    · exact h
    · intro other o hget
      rcases Table.eq_or_of_get?_put hget with ⟨-, rfl⟩ | ⟨-, hget⟩
      · exact Opening.explained_start limit
      · exact h other o hget
  | pollOpening name => exact h.update name fun o c ho => ho.poll c s.clocks.elapsed
  | dropOpening name => exact h.update name fun o c ho => ho.drop
  | startExchange name command capacity =>
    rw [Session.step]
    split <;> exact h
  | pollExchange name | dropExchange name | channel name event =>
    rw [Session.step, updateExchange]
    split <;> exact h
  | close => exact h
  | advance time wall => exact h
  | network event => exact h

theorem explained_start (dial : Dial) (receiveLimit : Option Duration) (clocks : Clocks) :
    (start dial receiveLimit clocks).Explained := by
  intro name o hget
  simp [start, Table.get?] at hget

theorem Explained.run (h : s.Explained) (events : List Event) : (s.run events).Explained := by
  induction events generalizing s with
  | nil => exact h
  | cons event events ih => exact ih (h.step event)

theorem Explained.failsOpening (h : s.Explained) {name : String} {e : ClientError}
    (hopened : s.opened? name = some (.error e)) : FailsOpening e := by
  obtain ⟨o, hget, hresult⟩ := Option.bind_eq_some_iff.mp hopened
  exact h name o hget e hresult

/-- A connection can be opened in such a way that the opening fails with this error. -/
def OpensWith (e : ClientError) : Prop :=
  ∃ dial receiveLimit clocks events name,
    ((start dial receiveLimit clocks).run events).opened? name = some (.error e)

/-- **An opening fails** because its connect failed or took too long or because of the state of the connection. -/
theorem failsOpening_of_opensWith {e : ClientError} (h : OpensWith e) : FailsOpening e := by
  obtain ⟨dial, receiveLimit, clocks, events, name, hopened⟩ := h
  exact ((explained_start dial receiveLimit clocks).run events).failsOpening hopened

end Connection.Session

end MemcachedClient
