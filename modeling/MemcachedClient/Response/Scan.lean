import MemcachedClient.Text.Utf8

/-!
# Scanning

A response is read by scanners: machines that take one byte at a time until they have an answer.
`scan` feeds a run of bytes to such a machine and leaves the bytes after the answer unread. What a
machine reads does not depend on how the bytes are cut: `scan_append` continues on the second piece
where the first one ended.
-/

namespace MemcachedClient.Response

/-- What a scanner makes of one byte. -/
inductive Step (σ α : Type) where
  /-- More bytes are needed. -/
  | more (state : σ)
  /-- No further byte may be taken for now. -/
  | held (state : σ)
  /-- The answer is complete. -/
  | done (answer : α)

variable {σ α : Type}

/-- Feeds bytes to a scanner until it stops, and answers the bytes that are left. -/
def scan (step : σ → UInt8 → Step σ α) : σ → Bytes → Step σ α × Bytes
  | state, [] => (.more state, [])
  | state, byte :: bytes =>
    match step state byte with
    | .more state => scan step state bytes
    | .held state => (.held state, bytes)
    | .done answer => (.done answer, bytes)

@[simp] theorem scan_nil (step : σ → UInt8 → Step σ α) (state : σ) :
    scan step state [] = (.more state, []) := rfl

/-- A scanner that needs more bytes has taken all of them. -/
theorem rest_eq_nil_of_more {step : σ → UInt8 → Step σ α} {state after : σ} {bytes rest : Bytes}
    (h : scan step state bytes = (.more after, rest)) : rest = [] := by
  induction bytes generalizing state with
  | nil => simp_all [scan]
  | cons byte bytes ih =>
    simp only [scan] at h
    split at h
    · exact ih h
    · simp at h
    · simp at h

/-- Scanning two pieces is scanning the first, and the second only where the first did not stop. -/
theorem scan_append (step : σ → UInt8 → Step σ α) (state : σ) (left right : Bytes) :
    scan step state (left ++ right) =
      match scan step state left with
      | (.more state, _) => scan step state right
      | (stopped, rest) => (stopped, rest ++ right) := by
  induction left generalizing state with
  | nil => rfl
  | cons byte left ih =>
    simp only [List.cons_append, scan]
    cases step state byte with
    | more state => exact ih state
    | held state => rfl
    | done answer => rfl

end MemcachedClient.Response
