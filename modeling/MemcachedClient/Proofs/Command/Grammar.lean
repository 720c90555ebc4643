import MemcachedClient.Command
import MemcachedClient.Key
import Mathlib.Data.Nat.Basic

/-!
# The grammar of requests

A reader of requests that knows nothing of the commands that wrote them. A request is a line that ends at
the first carriage return with a line feed behind it. The line falls into tokens at each single space, the
first token is the verb, and the verb says which fields follow. If one of them is a length, exactly so many
bytes of data come after the line, and a line end (`Request.read?`). A stream of requests is read one after
another until nothing is left (`Request.parse?`).
-/

namespace MemcachedClient

/-- A request as the server understands it. -/
inductive Request where
  /-- Retrieves the values of keys. -/
  | retrieve (verb : Retrieval) (keys : List String)
  /-- Stores a value. -/
  | store (mode : StoreMode) (key : String) (flags : UInt32) (seconds : ℕ) (data : Bytes)
  /-- Stores a value if the present one still has the token. -/
  | compareAndStore (key : String) (flags : UInt32) (seconds : ℕ) (data : Bytes) (token : UInt64)
  /-- Changes a counter. -/
  | adjust (direction : Adjustment) (key : String) (delta : UInt64)
  /-- Removes a value. -/
  | delete (key : String)
  /-- Changes the expiry of a value. -/
  | touch (key : String) (seconds : ℕ)
  deriving DecidableEq, Repr

namespace Request

/-! ### Lines and data -/

/-- The bytes before the first line end, and those after it. -/
def line? : Bytes → Option (Bytes × Bytes)
  | [] => none
  | b :: rest =>
    if Bytes.crlf <+: b :: rest then some ([], rest.tail)
    else (line? rest).map fun found => (b :: found.1, found.2)

/-- The data of a given length that a line end follows, and the bytes after the line end. -/
def data? (length : ℕ) (bytes : Bytes) : Option (Bytes × Bytes) :=
  if length ≤ bytes.length ∧ Bytes.crlf <+: bytes.drop length then
    some (bytes.take length, bytes.drop (length + Bytes.crlf.length))
  else none

/-- The texts between the single spaces of a line. -/
def tokens? (line : Bytes) : Option (List String) := (line.splitOn 32).mapM Bytes.toText?

/-! ### Fields -/

/-- The value of a decimal number. -/
def number? (token : String) : Option ℕ :=
  if token ≠ "" ∧ token.toList.all Char.isDigit = true then some (Nat.ofDigitChars 10 token.toList 0)
  else none

/-- The value of a number of 32 bits. -/
def word32? (token : String) : Option UInt32 :=
  ((number? token).filter (· < UInt32.size)).map UInt32.ofNat

/-- The value of a number of 64 bits. -/
def word64? (token : String) : Option UInt64 :=
  ((number? token).filter (· < UInt64.size)).map UInt64.ofNat

/-- A key. -/
def key? (token : String) : Option String := if Key.Valid token then some token else none

/-! ### Verbs -/

/-- The verbs, by the fields that follow them. -/
inductive Verb where
  /-- Retrieves values. -/
  | retrieval (verb : Retrieval)
  /-- Stores a value. -/
  | storage (mode : StoreMode)
  /-- Stores a value under the condition that it has a token. -/
  | conditional
  /-- Changes a counter. -/
  | counter (direction : Adjustment)
  /-- Removes a value. -/
  | removal
  /-- Changes an expiry. -/
  | expiry

/-- The token of a verb. -/
def Verb.text : Verb → String
  | retrieval verb => verb.verb
  | storage mode => mode.verb
  | conditional => "cas"
  | counter direction => direction.verb
  | removal => "delete"
  | expiry => "touch"

/-- All verbs. -/
def Verb.all : List Verb :=
  [retrieval .get, retrieval .gets, storage .set, storage .add, storage .replace, storage .append,
    storage .prepend, conditional, counter .incr, counter .decr, removal, expiry]

/-- The verb of a token. -/
def Verb.ofText? (token : String) : Option Verb := all.find? fun verb => verb.text == token

/-- What a request line says. -/
inductive Head where
  /-- All of a request. -/
  | complete (request : Request)
  /-- All but the data, and how many bytes of data follow. -/
  | storing (length : ℕ) (request : Bytes → Request)

/-- Reads the fields that follow a verb. -/
def Verb.head? : Verb → List String → Option Head
  | retrieval verb, keys => do
    if keys = [] then none
    else return .complete (.retrieve verb (← keys.mapM key?))
  | storage mode, [key, flags, seconds, length] => do
    let key ← key? key
    let flags ← word32? flags
    let seconds ← number? seconds
    return .storing (← number? length) fun data => .store mode key flags seconds data
  | conditional, [key, flags, seconds, length, token] => do
    let key ← key? key
    let flags ← word32? flags
    let seconds ← number? seconds
    let length ← number? length
    let token ← word64? token
    return .storing length fun data => .compareAndStore key flags seconds data token
  | counter direction, [key, delta] => do
    return .complete (.adjust direction (← key? key) (← word64? delta))
  | removal, [key] => do return .complete (.delete (← key? key))
  | expiry, [key, seconds] => do return .complete (.touch (← key? key) (← number? seconds))
  | _, _ => none

/-- Reads a request line. -/
def head? : List String → Option Head
  | [] => none
  | verb :: fields => (Verb.ofText? verb).bind (·.head? fields)

/-! ### Requests -/

/-- Reads one request, and answers the bytes after it too. -/
def read? (bytes : Bytes) : Option (Request × Bytes) := do
  let (line, rest) ← line? bytes
  match ← head? (← tokens? line) with
  | .complete request => return (request, rest)
  | .storing length request =>
    let (data, rest) ← data? length rest
    return (request data, rest)

theorem length_lt_of_line? {bytes line rest : Bytes} (h : line? bytes = some (line, rest)) :
    rest.length < bytes.length := by
  induction bytes generalizing line with
  | nil => simp [line?] at h
  | cons b bytes ih =>
    rw [line?] at h
    split at h
    · simp only [Option.some.injEq, Prod.mk.injEq] at h
      rw [← h.2, List.length_tail, List.length_cons]
      omega
    · obtain ⟨found, hfound, e⟩ := Option.map_eq_some_iff.mp h
      rw [Prod.mk.injEq] at e
      have hfound' : line? bytes = some (found.1, rest) := by rw [hfound, ← e.2]
      exact Nat.lt_succ_of_lt (ih hfound')

theorem length_le_of_data? {length : ℕ} {bytes data rest : Bytes}
    (h : data? length bytes = some (data, rest)) : rest.length ≤ bytes.length := by
  rw [data?] at h
  split at h
  · simp only [Option.some.injEq, Prod.mk.injEq] at h
    rw [← h.2, List.length_drop]
    exact Nat.sub_le _ _
  · simp at h

/-- A request has at least one byte. -/
theorem length_lt_of_read? {bytes rest : Bytes} {request : Request}
    (h : read? bytes = some (request, rest)) : rest.length < bytes.length := by
  obtain ⟨⟨line, after⟩, hline, h⟩ := Option.bind_eq_some_iff.mp h
  obtain ⟨tokens, -, h⟩ := Option.bind_eq_some_iff.mp h
  obtain ⟨head, -, h⟩ := Option.bind_eq_some_iff.mp h
  have hlt := length_lt_of_line? hline
  cases head with
  | complete found =>
    simp only [Option.pure_def, Option.some.injEq, Prod.mk.injEq] at h
    rwa [← h.2]
  | storing length found =>
    obtain ⟨⟨data, last⟩, hdata, h⟩ := Option.bind_eq_some_iff.mp h
    simp only [Option.pure_def, Option.some.injEq, Prod.mk.injEq] at h
    rw [← h.2]
    exact Nat.lt_of_le_of_lt (length_le_of_data? hdata) hlt

/-- Reads requests until nothing is left. -/
def parse? (bytes : Bytes) : Option (List Request) :=
  if bytes = [] then some []
  else
    match _h : read? bytes with
    | none => none
    | some (request, rest) => (parse? rest).map (request :: ·)
termination_by bytes.length
decreasing_by exact length_lt_of_read? _h

@[simp] theorem parse?_nil : parse? [] = some [] := by
  rw [parse?, if_pos rfl]

theorem parse?_of_read? {bytes rest : Bytes} {request : Request}
    (h : read? bytes = some (request, rest)) : parse? bytes = (parse? rest).map (request :: ·) := by
  have hne : bytes ≠ [] := by
    rintro rfl
    simpa using length_lt_of_read? h
  rw [parse?, if_neg hne]
  split
  · next hnone => simp [h] at hnone
  · next found hsome =>
    rw [h, Option.some.injEq, Prod.mk.injEq] at hsome
    rw [hsome.1, hsome.2]

end Request

end MemcachedClient
