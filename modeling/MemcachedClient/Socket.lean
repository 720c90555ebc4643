import MemcachedClient.Response.Feed

/-!
# Sockets

The client's end of the byte stream to the server. The network decides what became of the connect
(`Dial`), when bytes arrive, how many bytes it takes for now (`room`), and when writing fails. The
bytes that it took are kept in `sent`, in order.
-/

namespace MemcachedClient

open Response

/-- What became of a connect. -/
inductive Dial where
  /-- Nothing yet. -/
  | pending
  /-- The stream is there. -/
  | established
  /-- There is no stream. -/
  | failed (cause : IoError)
  deriving DecidableEq, Repr

/-- The client's end of a byte stream. -/
structure Socket where
  /-- What became of the connect. -/
  dial : Dial
  /-- What arrives from the server. -/
  feed : Feed
  /-- The bytes that the network took. -/
  sent : Bytes
  /-- How many more bytes the network takes for now; `none` is no bound. -/
  room : Option Nat
  /-- Why writing fails, if it does. -/
  broken : Option IoError
  deriving DecidableEq, Repr

/-- Something that the network or the server does to a stream. -/
inductive NetworkEvent where
  /-- The connect succeeds. -/
  | establish
  /-- The connect fails. -/
  | refuse (cause : IoError)
  /-- Bytes arrive. -/
  | arrive (bytes : Bytes)
  /-- The server ends its side of the stream. -/
  | finish
  /-- The server resets the stream: the next read and the next write fail. -/
  | reset
  /-- The network takes so many bytes more, or any number. -/
  | makeRoom (room : Option Nat)
  deriving DecidableEq, Repr

/-- What became of some bytes that were to be written. -/
inductive Written where
  /-- The network took the bytes before `rest`. -/
  | wrote (rest : Bytes) (socket : Socket)
  /-- The write failed. -/
  | failed (cause : IoError)

namespace Socket

/-- A socket before its connect, and what the network makes of that connect at once. -/
def ofDial (dial : Dial) : Socket := ⟨dial, ⟨[], false⟩, [], none, none⟩

/-- The error of a stream that the server reset. -/
def resetError : IoError := .ofSystem .connectionReset

/-- Writes as many bytes as the network takes for now. -/
def write (s : Socket) (bytes : Bytes) : Written :=
  match s.broken with
  | some cause => .failed cause
  | none =>
    match s.room with
    | none => .wrote [] { s with sent := s.sent ++ bytes }
    | some room =>
      .wrote (bytes.drop room)
        { s with sent := s.sent ++ bytes.take room, room := some (room - bytes.length) }

/-- An event on the network's side. A connect that has come to its end is not changed, and nothing
arrives before it has succeeded or after the server's end. -/
def handle (s : Socket) : NetworkEvent → Socket
  | .establish => if s.dial = .pending then { s with dial := .established } else s
  | .refuse cause => if s.dial = .pending then { s with dial := .failed cause } else s
  | .arrive bytes =>
    if s.dial = .established ∧ ¬ s.feed.ended ∧ bytes ≠ [] then
      { s with feed := s.feed.arrive bytes }
    else s
  | .finish => if s.dial = .established then { s with feed := { s.feed with ended := true } } else s
  | .reset =>
    if s.dial = .established then
      { s with
        feed := ⟨s.feed.events ++ [.failure resetError], true⟩
        broken := some resetError }
    else s
  | .makeRoom room => { s with room }

/-- What is written stays written, and the bytes that were taken stand behind it. -/
theorem sent_of_wrote {s after : Socket} {bytes rest : Bytes}
    (h : s.write bytes = .wrote rest after) : after.sent ++ rest = s.sent ++ bytes := by
  simp only [write] at h
  split at h
  · simp at h
  · split at h
    · simp only [Written.wrote.injEq] at h
      simp [← h.1, ← h.2]
    · simp only [Written.wrote.injEq] at h
      simp [← h.1, ← h.2]

end Socket

end MemcachedClient
